import Mathlib.Data.List.Chain
import Mathlib.Data.List.Sort

/-!
# Sorting by a key and looking at neighbours

`sortByKey` is the stable sort under the comparison of keys, and `hasAdjacent`
says whether some element and the one after it are related.
-/

namespace Rdbus.Foundation

variable {α κ : Type}

/-- The stable sort under `key left < key right`. -/
def sortByKey [LT κ] [DecidableLT κ] (key : α → κ) (xs : List α) : List α :=
  xs.insertionSort fun a b => ¬ key b < key a

def hasAdjacent (related : α → α → Bool) : List α → Bool
  | a :: b :: rest => related a b || hasAdjacent related (b :: rest)
  | _ => false

theorem perm_sortByKey [LT κ] [DecidableLT κ] (key : α → κ) (xs : List α) :
    (sortByKey key xs).Perm xs :=
  List.perm_insertionSort _ _

@[simp] theorem mem_sortByKey [LT κ] [DecidableLT κ] {key : α → κ} {xs : List α}
    {x : α} : x ∈ sortByKey key xs ↔ x ∈ xs :=
  (perm_sortByKey key xs).mem_iff

theorem hasAdjacent_eq_false_iff {related : α → α → Bool} {xs : List α} :
    hasAdjacent related xs = false ↔ xs.IsChain fun a b => related a b = false := by
  induction xs with
  | nil => simp [hasAdjacent]
  | cons a xs ih =>
      cases xs with
      | nil => simp [hasAdjacent]
      | cons b xs => simp [hasAdjacent, ih]

/--
Where lists are cut only between neighbours that are not related, whatever of
the whole list is related throughout lies in one of the lists.
-/
theorem exists_infix_of_isChain {related : α → α → Prop} {groups : List (List α)}
    (hcut : groups.IsChain fun group next => ∃ last first, group.getLast? = some last ∧
      next.head? = some first ∧ ¬ related last first)
    {run : List α} (hne : run ≠ []) (hwithin : run <:+: groups.flatten)
    (hchain : run.IsChain related) : ∃ group ∈ groups, run <:+: group := by
  induction groups with
  | nil => exact absurd (List.infix_nil.mp hwithin) hne
  | cons group groups ih =>
      have hrest := ih hcut.tail
      rw [List.flatten_cons, List.infix_append_iff_ne_nil] at hwithin
      obtain hfirst | hlater | ⟨before, after, hbefore, hafter, rfl, hsuffix, hprefix⟩ := hwithin
      · exact ⟨group, List.mem_cons_self, hfirst⟩
      · obtain ⟨other, hmem, hother⟩ := hrest hlater
        exact ⟨other, List.mem_cons_of_mem group hmem, hother⟩
      · cases groups with
        | nil => exact absurd (List.prefix_nil.mp hprefix) hafter
        | cons next groups =>
            obtain ⟨⟨last, first, hlast, hfirst, hnot⟩, -⟩ := List.isChain_cons_cons.mp hcut
            obtain ⟨front, rfl⟩ := hsuffix
            obtain ⟨back, hback⟩ := hprefix
            rw [List.getLast?_append_of_ne_nil _ hbefore] at hlast
            have hhead := congrArg List.head? hback
            rw [List.head?_append_of_ne_nil _ hafter, List.flatten_cons, List.head?_append,
              hfirst] at hhead
            exact absurd ((List.isChain_append.mp hchain).2.2 last hlast first hhead) hnot

section LinearKey

variable [LE κ] [LT κ] [DecidableLT κ] [Std.IsLinearOrder κ] [Std.LawfulOrderLT κ]
  (key : α → κ)

theorem pairwise_sortByKey (xs : List α) :
    (sortByKey key xs).Pairwise fun a b => key a ≤ key b := by
  let r : α → α → Prop := fun a b => ¬ key b < key a
  have htotal : Std.Total r := ⟨fun a b => by
    simpa only [r, Std.not_lt] using Std.le_total⟩
  have htrans : IsTrans α r := ⟨fun a b c hab hbc => by
    simp only [r, Std.not_lt] at hab hbc ⊢
    exact Std.le_trans hab hbc⟩
  exact (List.pairwise_insertionSort r xs).imp fun h => Std.not_lt.mp h

/-- A permutation that is already ordered, with distinct keys, is the sort. -/
theorem eq_sortByKey {xs ys : List α} (hperm : ys.Perm xs)
    (hsorted : ys.Pairwise fun a b => key a ≤ key b)
    (hdistinct : ∀ a ∈ xs, ∀ b ∈ xs, key a = key b → a = b) :
    ys = sortByKey key xs := by
  refine List.Perm.eq_of_pairwise ?_ hsorted (pairwise_sortByKey key xs)
    (hperm.trans (perm_sortByKey key xs).symm)
  intro a b ha hb hab hba
  exact hdistinct a (hperm.mem_iff.mp ha) b (mem_sortByKey.mp hb)
    (Std.le_antisymm hab hba)

/--
A condition on all pairs that is transitive in the order of the keys is decided
by sorting and looking at neighbours.
-/
theorem hasAdjacent_sortByKey (before : α → α → Prop) [Trans before before before]
    {xs : List α} {related : α → α → Bool} {apart : α → α → Prop} [Std.Symm apart]
    (hrelated : ∀ a ∈ xs, ∀ b ∈ xs, key a ≤ key b →
      (related a b = false ↔ before a b))
    (hbefore : ∀ a ∈ xs, ∀ b ∈ xs, key a ≤ key b → (apart a b ↔ before a b)) :
    hasAdjacent related (sortByKey key xs) = false ↔ xs.Pairwise apart := by
  have hle : ∀ i j (hi : i < (sortByKey key xs).length)
      (hj : j < (sortByKey key xs).length), i < j →
        key (sortByKey key xs)[i] ≤ key (sortByKey key xs)[j] :=
    List.pairwise_iff_getElem.mp (pairwise_sortByKey key xs)
  have hmem : ∀ i (hi : i < (sortByKey key xs).length), (sortByKey key xs)[i] ∈ xs :=
    fun i hi => mem_sortByKey.mp (List.getElem_mem hi)
  calc hasAdjacent related (sortByKey key xs) = false
      ↔ (sortByKey key xs).IsChain fun a b => related a b = false :=
        hasAdjacent_eq_false_iff
    _ ↔ (sortByKey key xs).IsChain before := by
        simp only [List.isChain_iff_getElem]
        exact forall₂_congr fun i hi => hrelated _ (hmem i _) _ (hmem (i + 1) _)
          (hle i (i + 1) _ _ (Nat.lt_succ_self i))
    _ ↔ (sortByKey key xs).Pairwise before := List.isChain_iff_pairwise
    _ ↔ (sortByKey key xs).Pairwise apart := by
        simp only [List.pairwise_iff_getElem]
        exact forall₄_congr fun i j hi hj => forall_congr' fun hij =>
          (hbefore _ (hmem i hi) _ (hmem j hj) (hle i j hi hj hij)).symm
    _ ↔ xs.Pairwise apart := (perm_sortByKey key xs).pairwise_iff fun h => Std.Symm.symm _ _ h

end LinearKey

end Rdbus.Foundation
