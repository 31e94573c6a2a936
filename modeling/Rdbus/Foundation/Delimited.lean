import Mathlib.Data.List.Basic

/-!
# Lists cut at a separator

Every list is a first part and further parts, each of them behind a separator,
and the parts are unique when none of them contains the separator.  A scan that
stops at an element does not see what stands behind it.
-/

namespace Rdbus.Foundation

variable {α : Type}

def joined (separator : α) (first : List α) (parts : List (List α)) : List α :=
  first ++ parts.flatMap (separator :: ·)

@[simp] theorem joined_nil (separator : α) (first : List α) :
    joined separator first [] = first := by
  simp [joined]

theorem joined_cons (separator : α) (first part : List α) (parts : List (List α)) :
    joined separator first (part :: parts) =
      first ++ separator :: joined separator part parts := by
  simp [joined]

theorem cons_joined (separator a : α) (first : List α) (parts : List (List α)) :
    a :: joined separator first parts = joined separator (a :: first) parts := by
  simp [joined]

theorem subset_joined {separator : α} {first part : List α} {parts : List (List α)}
    (h : part ∈ first :: parts) : part ⊆ joined separator first parts := by
  rintro a ha
  rcases List.mem_cons.mp h with rfl | h
  · exact List.mem_append_left _ ha
  · apply List.mem_append_right
    exact List.mem_flatMap.mpr ⟨part, h, List.mem_cons_of_mem _ ha⟩

theorem not_mem_joined {separator a : α} {first : List α} {parts : List (List α)}
    (ha : a ≠ separator) (h : ∀ part ∈ first :: parts, a ∉ part) :
    a ∉ joined separator first parts := by
  rintro hmem
  rcases List.mem_append.mp hmem with hmem | hmem
  · exact h first (by simp) hmem
  · obtain ⟨part, hpart, hmem⟩ := List.mem_flatMap.mp hmem
    rcases List.mem_cons.mp hmem with hmem | hmem
    · exact ha hmem
    · exact h part (by simp [hpart]) hmem

/-- A separator is the one behind the first part or stands further behind. -/
theorem eq_or_behind {separator : α} {first rest before after : List α}
    (hfree : separator ∉ first)
    (heq : first ++ separator :: rest = before ++ separator :: after) :
    (before = first ∧ after = rest) ∨
      ∃ inner, before = first ++ separator :: inner ∧ rest = inner ++ separator :: after := by
  rcases List.append_eq_append_iff.mp heq with ⟨inner, rfl, hinner⟩ | ⟨inner, rfl, hinner⟩
  · cases inner with
    | nil => exact .inl ⟨List.append_nil _, (List.cons.inj hinner).2.symm⟩
    | cons a inner =>
        obtain ⟨rfl, hrest⟩ := List.cons.inj hinner
        exact .inr ⟨inner, rfl, hrest⟩
  · cases inner with
    | nil => exact .inl ⟨(List.append_nil _).symm, (List.cons.inj hinner).2⟩
    | cons a inner =>
        obtain ⟨rfl, -⟩ := List.cons.inj hinner
        exact absurd (by simp) hfree

structure Delimited (separator : α) (first : List α) (parts : List (List α)) : Prop where
  first : separator ∉ first
  parts : ∀ part ∈ parts, separator ∉ part

namespace Delimited

variable {separator : α} {first part : List α} {parts : List (List α)}

theorem tail (h : Delimited separator first (part :: parts)) :
    Delimited separator part parts :=
  ⟨h.parts part (by simp), fun p hp => h.parts p (by simp [hp])⟩

theorem cons {a : α} (ha : separator ≠ a) (h : Delimited separator first parts) :
    Delimited separator (a :: first) parts := by
  refine ⟨?_, h.parts⟩
  rintro hmem
  rcases List.mem_cons.mp hmem with rfl | hmem
  · exact ha rfl
  · exact h.first hmem

theorem not_mem_all (h : Delimited separator first parts) :
    ∀ p ∈ first :: parts, separator ∉ p := by
  intro p hp
  rcases List.mem_cons.mp hp with rfl | hp
  · exact h.first
  · exact h.parts p hp

theorem count_joined [DecidableEq α] (h : Delimited separator first parts) :
    (joined separator first parts).count separator = parts.length := by
  induction parts generalizing first with
  | nil => simpa using List.count_eq_zero.mpr h.first
  | cons part parts ih =>
      rw [joined_cons, List.count_append, List.count_cons_self, ih h.tail,
        List.count_eq_zero.mpr h.first, List.length_cons, Nat.zero_add]

/-- A part is empty exactly if its separator has another one, or nothing, behind it. -/
theorem nil_mem_parts_iff (h : Delimited separator first parts) :
    [] ∈ parts ↔ ∃ before after, joined separator first parts = before ++ separator :: after ∧
      ∀ a ∈ after.head?, a = separator := by
  constructor
  · intro hmem
    obtain ⟨front, back, rfl⟩ := List.append_of_mem hmem
    refine ⟨first ++ front.flatMap (separator :: ·), back.flatMap (separator :: ·), ?_, ?_⟩
    · simp [joined]
    · cases back <;> simp
  · rintro ⟨before, after, heq, hnext⟩
    induction parts generalizing first before with
    | nil =>
        rw [joined_nil] at heq
        exact absurd (by simp [heq]) h.first
    | cons part parts ih =>
        rw [joined_cons] at heq
        rcases eq_or_behind h.first heq with ⟨-, rfl⟩ | ⟨inner, -, hinner⟩
        · cases part with
          | nil => exact List.mem_cons_self
          | cons a part =>
              have ha : a = separator := hnext a (by simp [joined])
              exact absurd (by simp [ha]) h.tail.first
        · exact List.mem_cons_of_mem _ (ih h.tail inner hinner)

end Delimited

theorem exists_joined [DecidableEq α] (separator : α) (data : List α) :
    ∃ first parts, data = joined separator first parts ∧
      Delimited separator first parts := by
  induction data with
  | nil => exact ⟨[], [], rfl, by simp, by simp⟩
  | cons a data ih =>
      obtain ⟨first, parts, hdata, hfree⟩ := ih
      by_cases ha : a = separator
      · refine ⟨[], first :: parts, ?_, by simp, hfree.not_mem_all⟩
        rw [joined_cons, ← hdata, ha, List.nil_append]
      · refine ⟨a :: first, parts, ?_, ?_, hfree.parts⟩
        · rw [← cons_joined, ← hdata]
        · simp [hfree.first, Ne.symm ha]

/-! ## Scans -/

section Scan

variable {p : α → Bool} {rest : List α}

theorem takeWhile_append_stop (h : ∀ a ∈ rest.head?, p a = false) (xs : List α) :
    (xs ++ rest).takeWhile p = xs.takeWhile p := by
  induction xs with
  | nil =>
      cases rest with
      | nil => rfl
      | cons a rest => simp [h a rfl]
  | cons x xs ih => rw [List.cons_append, List.takeWhile_cons, List.takeWhile_cons, ih]

theorem dropWhile_append_stop (h : ∀ a ∈ rest.head?, p a = false) (xs : List α) :
    (xs ++ rest).dropWhile p = xs.dropWhile p ++ rest := by
  induction xs with
  | nil =>
      cases rest with
      | nil => rfl
      | cons a rest => simp [h a rfl]
  | cons x xs ih =>
      rw [List.cons_append, List.dropWhile_cons, List.dropWhile_cons]
      split
      case isTrue => exact ih
      case isFalse => rfl

theorem head?_dropWhile_stop (p : α → Bool) (xs : List α) :
    ∀ a ∈ (xs.dropWhile p).head?, p a = false := by
  intro a ha
  have hstop := List.head?_dropWhile_not p xs
  rwa [Option.mem_def.mp ha] at hstop

end Scan

/-! ## Pieces of two lists -/

theorem append_eq_append_iff_of_length_le {xs xs' ys ys' : List α}
    (hx : xs'.length ≤ xs.length) (hy : ys'.length ≤ ys.length) :
    xs ++ ys = xs' ++ ys' ↔ xs = xs' ∧ ys = ys' := by
  constructor
  · intro h
    have hlength := congrArg List.length h
    rw [List.length_append, List.length_append] at hlength
    exact List.append_inj h (by omega)
  · rintro ⟨rfl, rfl⟩
    rfl

theorem length_flatMap_le {β : Type} {f g : β → List α} {xs : List β}
    (h : ∀ x ∈ xs, (g x).length ≤ (f x).length) :
    (xs.flatMap g).length ≤ (xs.flatMap f).length := by
  induction xs with
  | nil => simp
  | cons x xs ih =>
      rw [List.forall_mem_cons] at h
      rw [List.flatMap_cons, List.flatMap_cons, List.length_append, List.length_append]
      exact Nat.add_le_add h.1 (ih h.2)

/-- Pieces that are never shorter are the same when all of them together are. -/
theorem flatMap_eq_flatMap_iff {β : Type} {f g : β → List α} {xs : List β}
    (h : ∀ x ∈ xs, (g x).length ≤ (f x).length) :
    xs.flatMap f = xs.flatMap g ↔ ∀ x ∈ xs, f x = g x := by
  induction xs with
  | nil => simp
  | cons x xs ih =>
      rw [List.forall_mem_cons] at h
      rw [List.flatMap_cons, List.flatMap_cons,
        append_eq_append_iff_of_length_le h.1 (length_flatMap_le h.2), ih h.2,
        List.forall_mem_cons]

end Rdbus.Foundation
