import Mathlib.Algebra.GroupWithZero.Nat
import Mathlib.Data.List.Chain
import Mathlib.Data.List.Nodup
import Mathlib.Data.List.Perm.Subperm
import Mathlib.Tactic.Common

/-!
# Spans of integers

A span has a start and a length.  When the spans of a list have a gap between
each other, whatever they cover without a gap lies in one of them, so they
cannot be covered by fewer spans.
-/

namespace Rdbus.Foundation

structure Span where
  start : Int
  length : Nat
  deriving DecidableEq, Repr, Inhabited

namespace Span

def stop (span : Span) : Int := span.start + span.length

instance : Membership Int Span := ⟨fun span x => span.start ≤ x ∧ x < span.stop⟩

theorem mem_iff {span : Span} {x : Int} :
    x ∈ span ↔ span.start ≤ x ∧ x < span.start + span.length := Iff.rfl

def elements (span : Span) : List Int :=
  (List.range span.length).map fun (i : Nat) => span.start + i

/-- At least one integer lies between the two. -/
def Separated (a b : Span) : Prop := a.stop < b.start

instance : Trans Separated Separated Separated where
  trans {a b c} hab hbc := by
    simp only [Separated, stop] at hab hbc ⊢
    omega

def Covered (spans : List Span) (x : Int) : Prop := ∃ span ∈ spans, x ∈ span

theorem mem_elements {span : Span} {x : Int} : x ∈ span.elements ↔ x ∈ span := by
  simp only [elements, List.mem_map, List.mem_range, mem_iff]
  constructor
  · rintro ⟨i, hi, rfl⟩
    omega
  · intro h
    exact ⟨(x - span.start).toNat, by omega, by omega⟩

theorem elements_add (start : Int) (m n : Nat) :
    elements ⟨start, m + n⟩ = elements ⟨start, m⟩ ++ elements ⟨start + m, n⟩ := by
  simp [elements, List.range_add, Int.add_assoc]

theorem pairwise_elements (span : Span) : span.elements.Pairwise (· < ·) := by
  simp only [elements, List.pairwise_map]
  exact List.pairwise_lt_range.imp fun h => by omega

theorem eq_of_mem {spans : List Span} (h : spans.Pairwise Separated) {a b : Span}
    (ha : a ∈ spans) (hb : b ∈ spans) {x y : Int} (hx : x ∈ a) (hy : y ∈ b)
    (hnear : x ≤ y ∧ y ≤ x + 1) : a = b := by
  by_contra hne
  have hapart : spans.Pairwise fun a b => Separated a b ∨ Separated b a :=
    h.imp Or.inl
  have : Std.Symm fun a b : Span => Separated a b ∨ Separated b a := ⟨fun _ _ => Or.symm⟩
  have := hapart.forall ha hb hne
  simp only [Separated, stop, mem_iff] at this hx hy
  omega

/-- A gap-free piece of what the spans cover lies in one of them. -/
theorem exists_subset {spans : List Span} (h : spans.Pairwise Separated) {piece : Span}
    (hpos : 0 < piece.length) (hcovered : ∀ x ∈ piece, Covered spans x) :
    ∃ span ∈ spans, ∀ x ∈ piece, x ∈ span := by
  have hinside : ∀ i : Nat, i < piece.length → piece.start + i ∈ piece := by
    intro i hi
    rw [mem_iff]
    omega
  obtain ⟨span, hspan, hstart⟩ := hcovered _ (hinside 0 hpos)
  have hall : ∀ i : Nat, i < piece.length → piece.start + i ∈ span := by
    intro i
    induction i with
    | zero => exact fun _ => hstart
    | succ i ih =>
        intro hi
        obtain ⟨next, hnext, hmem⟩ := hcovered _ (hinside (i + 1) hi)
        have hsame := eq_of_mem h hspan hnext (ih (by omega)) hmem
          (by omega)
        exact hsame ▸ hmem
  refine ⟨span, hspan, ?_⟩
  intro x hx
  rw [mem_iff] at hx
  have hx' : piece.start + ((x - piece.start).toNat : Int) = x := by omega
  exact hx' ▸ hall (x - piece.start).toNat (by omega)

/-- Separated spans inside `[low, high)` leave at least one element between each two. -/
theorem sum_length_le {spans : List Span} (h : spans.Pairwise Separated) {low high : Int}
    (hlow : ∀ span ∈ spans, low ≤ span.start) (hhigh : ∀ span ∈ spans, span.stop ≤ high)
    (hne : spans ≠ []) :
    ((spans.map length).sum : Int) + spans.length ≤ high - low + 1 := by
  induction spans generalizing low with
  | nil => exact absurd rfl hne
  | cons span spans ih =>
      have hfirst := hlow span (by simp)
      have hlast := hhigh span (by simp)
      rw [List.pairwise_cons] at h
      simp only [stop] at hlast
      by_cases hnil : spans = []
      · simp only [hnil, List.map_cons, List.map_nil, List.sum_cons, List.sum_nil,
          List.length_cons, List.length_nil]
        omega
      · have hrest := ih h.2 (fun other hmem => h.1 other hmem)
          (fun other hmem => hhigh other (by simp [hmem])) hnil
        simp only [stop, List.map_cons, List.sum_cons, List.length_cons] at hrest ⊢
        omega

theorem length_le_of_subset {piece span : Span} (hpos : 0 < piece.length)
    (hsubset : ∀ x ∈ piece, x ∈ span) : piece.length ≤ span.length := by
  have hfirst := hsubset piece.start (mem_iff.mpr (by omega))
  have hlast := hsubset (piece.start + piece.length - 1) (mem_iff.mpr (by omega))
  rw [mem_iff] at hfirst hlast
  omega

/-- Covering separated spans takes at least as many gap-free pieces. -/
theorem length_le_of_cover {spans : List Span} (h : spans.Pairwise Separated)
    (hpos : ∀ span ∈ spans, 0 < span.length) {pieces : List Span}
    (hinside : ∀ piece ∈ pieces, ∀ x ∈ piece, Covered spans x)
    (hcover : ∀ span ∈ spans, ∀ x ∈ span, Covered pieces x) :
    spans.length ≤ pieces.length := by
  have hstart : ∀ span ∈ spans, span.start ∈ span := by
    intro span hmem
    have := hpos span hmem
    rw [mem_iff]
    omega
  have hfirst : ∀ span ∈ spans, ∃ piece ∈ pieces, span.start ∈ piece :=
    fun span hmem => hcover span hmem _ (hstart span hmem)
  choose! piece hpiece hmem using hfirst
  have hinjective : ∀ a ∈ spans, ∀ b ∈ spans, piece a = piece b → a = b := by
    intro a ha b hb hab
    have hlength : 0 < (piece a).length := by
      have := hmem a ha
      rw [mem_iff] at this
      omega
    obtain ⟨span, hspan, hsubset⟩ :=
      exists_subset h hlength (hinside _ (hpiece a ha))
    have hA := eq_of_mem h ha hspan (hstart a ha) (hsubset _ (hmem a ha)) (by omega)
    have hB := eq_of_mem h hb hspan (hstart b hb) (hsubset _ (hab ▸ hmem b hb))
      (by omega)
    exact hA.trans hB.symm
  have hnodup : spans.Nodup := h.imp fun {a b} hab hne => by
    simp only [Separated, stop, hne] at hab
    omega
  calc spans.length = (spans.map piece).length := (List.length_map _).symm
    _ ≤ pieces.length := by
        apply List.Subperm.length_le
        apply List.subperm_of_subset (hnodup.map_on hinjective)
        intro p hp
        obtain ⟨span, hspan, rfl⟩ := List.mem_map.mp hp
        exact hpiece span hspan

end Span

end Rdbus.Foundation
