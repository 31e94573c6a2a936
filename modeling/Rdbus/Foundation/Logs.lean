import Mathlib.Data.List.DropRight
import Mathlib.Data.List.Nodup
import Mathlib.Tactic.Common

/-!
# Logs

What a store that only appends and forgets holds of everything it was given: the
newest entries of a bounded store, and the latest entry of every key of a store
that replaces.
-/

namespace Rdbus.Foundation

variable {α κ : Type}

/-! ## The newest entries -/

theorem rtake_append (xs ys : List α) (n : Nat) :
    (xs ++ ys).rtake n = xs.rtake (n - ys.length) ++ ys.rtake n := by
  unfold List.rtake
  rw [List.drop_append, List.length_append]
  by_cases h : ys.length ≤ n
  case pos => congr 2 <;> omega
  case neg =>
    have all : xs.length ≤ xs.length + ys.length - n := by omega
    have most : xs.length ≤ xs.length - (n - ys.length) := by omega
    rw [List.drop_eq_nil_of_le all, List.drop_eq_nil_of_le most]
    congr 2
    omega

theorem rtake_of_length_le {xs : List α} {n : Nat} (h : xs.length ≤ n) : xs.rtake n = xs := by
  rw [List.rtake, Nat.sub_eq_zero_of_le h, List.drop_zero]

theorem length_rtake (xs : List α) (n : Nat) : (xs.rtake n).length = min xs.length n := by
  rw [List.rtake, List.length_drop]
  omega

theorem rtake_min (xs : List α) (n : Nat) : xs.rtake (min xs.length n) = xs.rtake n := by
  unfold List.rtake
  congr 1
  omega

theorem rtake_rtake (xs : List α) {m n : Nat} (h : m ≤ n) : (xs.rtake n).rtake m = xs.rtake m := by
  unfold List.rtake
  rw [List.drop_drop, List.length_drop]
  congr 1
  omega

/-- Forgetting before an append loses nothing that is kept after it. -/
theorem rtake_append_rtake (xs ys : List α) (n : Nat) :
    (xs.rtake n ++ ys).rtake n = (xs ++ ys).rtake n := by
  rw [rtake_append, rtake_append, rtake_rtake xs (Nat.sub_le n ys.length)]

/-! ## The latest entry of each key -/

variable [DecidableEq κ]

/-- The entries whose key no later batch has. -/
def latest (key : α → κ) : List (List α) → List α
  | [] => []
  | batch :: later =>
      (batch.filter fun x => key x ∉ later.flatten.map key) ++ latest key later

theorem latest_concat (key : α → κ) (batches : List (List α)) (batch : List α) :
    latest key (batches ++ [batch]) =
      (latest key batches).filter (fun x => key x ∉ batch.map key) ++ batch := by
  induction batches with
  | nil => simp [latest]
  | cons first batches ih =>
      rw [List.cons_append, latest, latest, ih, List.filter_append, List.filter_filter,
        List.append_assoc]
      congr 1
      apply List.filter_congr
      intro x _
      simp only [List.flatten_append, List.map_append, List.mem_append, List.flatten_cons,
        List.flatten_nil, List.append_nil, decide_not, not_or, Bool.decide_and]
      exact Bool.and_comm _ _

theorem latest_sublist (key : α → κ) (batches : List (List α)) :
    (latest key batches).Sublist batches.flatten := by
  induction batches with
  | nil => exact List.Sublist.slnil
  | cons batch later ih => exact List.filter_sublist.append ih

theorem mem_latest {key : α → κ} {batches : List (List α)} {x : α} :
    x ∈ latest key batches ↔ ∃ before batch after, batches = before ++ batch :: after ∧
      x ∈ batch ∧ key x ∉ after.flatten.map key := by
  induction batches with
  | nil => simp [latest]
  | cons first later ih =>
      rw [latest, List.mem_append, List.mem_filter, decide_eq_true_eq, ih]
      constructor
      · rintro (⟨hmem, hlast⟩ | ⟨before, batch, after, rfl, hmem, hlast⟩)
        · exact ⟨[], first, later, rfl, hmem, hlast⟩
        · exact ⟨first :: before, batch, after, rfl, hmem, hlast⟩
      · rintro ⟨before, batch, after, hsplit, hmem, hlast⟩
        cases before with
        | nil =>
            cases hsplit
            exact .inl ⟨hmem, hlast⟩
        | cons _ before =>
            cases hsplit
            exact .inr ⟨before, batch, after, rfl, hmem, hlast⟩

theorem mem_keys_latest {key : α → κ} {batches : List (List α)} {k : κ} :
    k ∈ (latest key batches).map key ↔ k ∈ batches.flatten.map key := by
  induction batches with
  | nil => simp [latest]
  | cons batch later ih =>
      rw [latest, List.map_append, List.mem_append, ih, List.flatten_cons, List.map_append,
        List.mem_append]
      constructor
      · rintro (h | h)
        · exact .inl (List.map_subset key (List.filter_subset_self batch) h)
        · exact .inr h
      · rintro (h | h)
        · by_cases hlater : k ∈ later.flatten.map key
          · exact .inr hlater
          · obtain ⟨x, hx, rfl⟩ := List.mem_map.mp h
            exact .inl (List.mem_map_of_mem (List.mem_filter.mpr ⟨hx, decide_eq_true hlater⟩))
        · exact .inr h

theorem nodup_keys_latest {key : α → κ} {batches : List (List α)}
    (h : ∀ batch ∈ batches, (batch.map key).Nodup) : ((latest key batches).map key).Nodup := by
  induction batches with
  | nil => simp [latest]
  | cons batch later ih =>
      rw [List.forall_mem_cons] at h
      rw [latest, List.map_append, List.nodup_append]
      refine ⟨h.1.sublist (List.filter_sublist.map key), ih h.2, ?_⟩
      rintro k hk other hother rfl
      obtain ⟨x, hx, rfl⟩ := List.mem_map.mp hk
      exact of_decide_eq_true (List.mem_filter.mp hx).2 (mem_keys_latest.mp hother)

end Rdbus.Foundation
