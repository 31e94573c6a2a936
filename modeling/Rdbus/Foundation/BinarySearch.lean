import Mathlib.Data.List.Basic
import Mathlib.Order.Lattice
import Mathlib.Tactic.Common

/-!
# `std::upper_bound`

The library halves the range that is left.  On a list that is partitioned by
the predicate, the search ends at the partition point.
-/

namespace Rdbus.Foundation

variable {α : Type}

/--
The loop: `len` elements from `first` on are left.  The range shrinks in every
iteration, so `fuel = len` is enough.
-/
def upperBoundFrom (later : α → Bool) (xs : List α) : Nat → Nat → Nat → Nat
  | 0, first, _ => first
  | fuel + 1, first, len =>
      if len = 0 then first
      else
        let half := len / 2
        match xs[first + half]? with
        | none => first
        | some middle =>
            if later middle then upperBoundFrom later xs fuel first half
            else upperBoundFrom later xs fuel (first + half + 1) (len - half - 1)

/-- The index of the first element that is `later`. -/
def upperBound (later : α → Bool) (xs : List α) : Nat :=
  upperBoundFrom later xs xs.length 0 xs.length

/-- Loop invariant: the partition point lies in the range that is left. -/
theorem upperBoundFrom_eq {later : α → Bool} {early late : List α}
    (hearly : ∀ x ∈ early, later x = false) (hlate : ∀ x ∈ late, later x = true)
    {fuel first len : Nat} (hfuel : len ≤ fuel) (hfirst : first ≤ early.length)
    (hlast : early.length ≤ first + len)
    (hlen : first + len ≤ (early ++ late).length) :
    upperBoundFrom later (early ++ late) fuel first len = early.length := by
  induction fuel generalizing first len with
  | zero =>
      rw [upperBoundFrom]
      omega
  | succ fuel ih =>
      unfold upperBoundFrom
      by_cases hzero : len = 0
      · rw [if_pos hzero]
        omega
      · rw [if_neg hzero]
        have hmiddle : first + len / 2 < (early ++ late).length := by omega
        simp only [List.getElem?_eq_getElem hmiddle]
        by_cases hside : first + len / 2 < early.length
        · have hnot : later (early ++ late)[first + len / 2] = false := by
            rw [List.getElem_append_left hside]
            exact hearly _ (List.getElem_mem hside)
          rw [hnot]
          simp only [Bool.false_eq_true, if_false]
          apply ih <;> omega
        · have hyes : later (early ++ late)[first + len / 2] = true := by
            rw [List.getElem_append_right (by omega)]
            exact hlate _ (List.getElem_mem _)
          rw [hyes]
          simp only [if_true]
          apply ih <;> omega

theorem upperBound_append {later : α → Bool} {early late : List α}
    (hearly : ∀ x ∈ early, later x = false) (hlate : ∀ x ∈ late, later x = true) :
    upperBound later (early ++ late) = early.length := by
  apply upperBoundFrom_eq hearly hlate
  · exact Nat.le_refl _
  · exact Nat.zero_le _
  · simp
  · simp

/-- On a sorted list everything from the bound on is what the predicate selects. -/
theorem drop_upperBound {κ : Type} [LinearOrder κ] {key : α → κ} {xs : List α}
    (sorted : (xs.map key).Pairwise (· ≤ ·)) (k : κ) :
    xs.drop (upperBound (fun x => k < key x) xs) = xs.filter fun x => k < key x := by
  have split : xs = xs.filter (fun x => key x ≤ k) ++ xs.filter (fun x => k < key x) := by
    induction xs with
    | nil => rfl
    | cons x xs ih =>
        rw [List.map_cons, List.pairwise_cons] at sorted
        by_cases hx : key x ≤ k
        case pos =>
          rw [List.filter_cons_of_pos (by simpa using hx),
            List.filter_cons_of_neg (by simpa using hx), List.cons_append, ← ih sorted.2]
        case neg =>
          have above : ∀ y ∈ x :: xs, k < key y := by
            intro y hy
            rcases List.mem_cons.mp hy with rfl | hy
            · exact not_le.mp hx
            · exact lt_of_lt_of_le (not_le.mp hx) (sorted.1 _ (List.mem_map_of_mem hy))
          rw [List.filter_eq_nil_iff.mpr fun y hy => by simpa using above y hy,
            List.filter_eq_self.mpr fun y hy => by simpa using above y hy, List.nil_append]
  have early : ∀ x ∈ xs.filter (fun x => key x ≤ k), decide (k < key x) = false :=
    fun x hx => by simpa using (List.mem_filter.mp hx).2
  have late : ∀ x ∈ xs.filter (fun x => k < key x), decide (k < key x) = true :=
    fun x hx => (List.mem_filter.mp hx).2
  have bound := upperBound_append early late
  rw [← split] at bound
  calc xs.drop (upperBound (fun x => k < key x) xs)
      = xs.drop (xs.filter fun x => key x ≤ k).length := by rw [bound]
    _ = (xs.filter (fun x => key x ≤ k) ++ xs.filter (fun x => k < key x)).drop
          (xs.filter fun x => key x ≤ k).length := by rw [← split]
    _ = xs.filter fun x => k < key x := List.drop_left

end Rdbus.Foundation
