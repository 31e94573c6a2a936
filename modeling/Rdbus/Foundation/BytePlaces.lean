import Mathlib.Data.Nat.Digits.Lemmas
import Mathlib.Data.List.GetD
import Mathlib.Data.List.Range
import Mathlib.Data.List.Perm.Basic
import Mathlib.Tactic.Ring

/-!
# Bytes of a number by place

A number of `width` bytes has places `0 .. width - 1`, where place `0` is the
most significant byte.  A word stored under an order is the list of the bytes
at `order[0], order[1], …`; gathering a word under an order takes its elements
at these positions.  Storing and then gathering under the same order composes
the order with itself, so the original is restored exactly when the order is
its own inverse on the places at which the bytes differ.
-/

namespace Rdbus.Foundation

/-! ## Little-endian value and places -/

/-- The value of a word whose first byte is the least significant one. -/
def littleEndian (word : List UInt8) : Nat :=
  Nat.ofDigits 256 (word.map UInt8.toNat)

def placeByte (width bits place : Nat) : UInt8 :=
  UInt8.ofNat (bits / 256 ^ (width - 1 - place))

/-- All bytes of a number, the most significant one first. -/
def bigEndianBytes (width bits : Nat) : List UInt8 :=
  (List.range width).map (placeByte width bits)

@[simp] theorem length_bigEndianBytes (width bits : Nat) :
    (bigEndianBytes width bits).length = width := by
  simp [bigEndianBytes]

private theorem reverse_bigEndianBytes (width bits : Nat) :
    (bigEndianBytes width bits).reverse =
      (List.range width).map fun i => UInt8.ofNat (bits / 256 ^ i) := by
  apply List.ext_getElem
  · simp
  · intro i h₁ h₂
    have hi : i < width := by simpa using h₁
    rw [List.getElem_reverse]
    simp only [bigEndianBytes, List.getElem_map, List.getElem_range,
      List.length_map, List.length_range, placeByte]
    congr 3
    omega

theorem littleEndian_reverse_bigEndianBytes (width bits : Nat) :
    littleEndian (bigEndianBytes width bits).reverse = bits % 256 ^ width := by
  rw [reverse_bigEndianBytes, littleEndian]
  induction width with
  | zero => simp [Nat.mod_one]
  | succ width ih =>
      rw [List.range_succ, List.map_append, List.map_append, Nat.ofDigits_append,
        ih, Nat.mod_pow_succ]
      simp

theorem littleEndian_lt (word : List UInt8) :
    littleEndian word < 256 ^ word.length := by
  have hdigits : ∀ x ∈ word.map UInt8.toNat, x < 256 := by
    intro x hx
    rcases List.mem_map.mp hx with ⟨byte, -, rfl⟩
    exact byte.toNat_lt
  simpa [littleEndian] using
    Nat.ofDigits_lt_base_pow_length (by decide : 1 < 256) hdigits

theorem littleEndian_injective {left right : List UInt8}
    (hlength : left.length = right.length)
    (h : littleEndian left = littleEndian right) : left = right := by
  have hbytes : ∀ (word : List UInt8), ∀ x ∈ word.map UInt8.toNat, x < 256 := by
    intro word x hx
    obtain ⟨byte, -, rfl⟩ := List.mem_map.mp hx
    exact byte.toNat_lt
  have hmap := Nat.ofDigits_inj_of_len_eq (by decide : 1 < 256)
    (by simpa using hlength) (hbytes left) (hbytes right) h
  exact List.map_injective_iff.mpr (fun _ _ => UInt8.toNat_inj.mp) hmap

/-! ## Gathering by position -/

section Gather

variable {α : Type} [Inhabited α]

/-- The elements of `word` at the positions `order` lists. -/
def gather (order : List Nat) (word : List α) : List α :=
  order.map fun position => word.getD position default

@[simp] theorem length_gather (order : List Nat) (word : List α) :
    (gather order word).length = order.length := by
  simp [gather]

theorem gather_range (word : List α) :
    gather (List.range word.length) word = word := by
  apply List.ext_getElem
  · simp
  · intro i h₁ h₂
    simp [gather, List.getElem?_eq_getElem h₂]

theorem perm_gather {order : List Nat} {word : List α}
    (h : order.Perm (List.range word.length)) : (gather order word).Perm word := by
  have hperm : (gather order word).Perm (gather (List.range word.length) word) :=
    h.map _
  rwa [gather_range] at hperm

/-- The place that ends up at place `k` when the order is applied twice. -/
def twice (order : List Nat) (k : Nat) : Nat :=
  order.getD (order.getD k 0) 0

/-- The order is its own inverse. -/
def SelfInverse (order : List Nat) : Prop :=
  ∀ k < order.length, twice order k = k

theorem lt_of_perm_range {order : List Nat} {width : Nat}
    (h : order.Perm (List.range width)) {position : Nat}
    (hmem : position ∈ order) : position < width := by
  simpa using h.mem_iff.mp hmem

theorem perm_range_iff {order : List Nat} : order.Perm (List.range order.length) ↔
    order.Nodup ∧ ∀ position ∈ order, position < order.length := by
  constructor
  · intro h
    exact ⟨h.nodup_iff.mpr List.nodup_range, fun _ => lt_of_perm_range h⟩
  · rintro ⟨hnodup, hlt⟩
    apply (List.subperm_of_subset hnodup ?_).perm_of_length_le (by simp)
    exact fun position hmem => List.mem_range.mpr (hlt position hmem)

theorem getD_lt_of_perm_range {order : List Nat} {width : Nat}
    (h : order.Perm (List.range width)) {k : Nat} (hk : k < width) :
    order.getD k 0 < width := by
  have hlength : order.length = width := by simpa using h.length_eq
  rw [List.getD_eq_getElem _ _ (by omega)]
  exact lt_of_perm_range h (List.getElem_mem _)

/--
Gathering a word that was stored under the same order: place `k` receives the
byte of place `twice order k`.
-/
theorem gather_store {order : List Nat} {width : Nat}
    (h : order.Perm (List.range width)) (f : Nat → α) :
    gather order (order.map f) =
      (List.range width).map fun k => f (twice order k) := by
  have hlength : order.length = width := by simpa using h.length_eq
  apply List.ext_getElem
  · simpa using hlength
  · intro k h₁ h₂
    have hk : k < order.length := by simpa using h₁
    have hp : order[k] < order.length := by
      rw [hlength]
      exact lt_of_perm_range h (List.getElem_mem hk)
    simp [gather, twice, List.getElem?_eq_getElem hk,
      List.getElem?_eq_getElem hp]

end Gather

/-! ## When a stored number is read back -/

theorem placeByte_pow {width k j : Nat} (hk : k < width) (hj : j < width) :
    placeByte width (256 ^ (width - 1 - k)) j = if j = k then 1 else 0 := by
  unfold placeByte
  rcases lt_trichotomy j k with hlt | rfl | hgt
  · rw [Nat.div_eq_of_lt (Nat.pow_lt_pow_right (by decide) (by omega))]
    simp [hlt.ne]
  · simp
  · rw [Nat.pow_div (by omega) (by decide),
      show width - 1 - k - (width - 1 - j) = (j - k - 1) + 1 by omega, pow_succ]
    simp only [hgt.ne', if_false]
    apply UInt8.toNat_inj.mp
    simp

/-- A number survives storing and gathering iff its bytes agree two steps on. -/
theorem littleEndian_gather_store_eq_iff {order : List Nat} {width bits : Nat}
    (h : order.Perm (List.range width)) (hbits : bits < 256 ^ width) :
    littleEndian (gather order (order.map (placeByte width bits))).reverse = bits ↔
      ∀ k < width,
        placeByte width bits (twice order k) = placeByte width bits k := by
  have hself : littleEndian (bigEndianBytes width bits).reverse = bits := by
    rw [littleEndian_reverse_bigEndianBytes, Nat.mod_eq_of_lt hbits]
  rw [gather_store h]
  constructor
  · intro heq k hk
    have hwords := littleEndian_injective (by simp) (heq.trans hself.symm)
    have hlists := List.reverse_injective hwords
    have hk' := congrArg (fun word => word[k]?) hlists
    simpa [bigEndianBytes, hk] using hk'
  · intro hplaces
    rw [show (List.range width).map
          (fun k => placeByte width bits (twice order k)) =
        bigEndianBytes width bits from
      List.map_congr_left fun k hk => hplaces k (by simpa using hk)]
    exact hself

/-- Every number survives storing and gathering iff the order is self-inverse. -/
theorem selfInverse_iff_places {order : List Nat} {width : Nat}
    (h : order.Perm (List.range width)) :
    SelfInverse order ↔
      ∀ bits < 256 ^ width, ∀ k < width,
        placeByte width bits (twice order k) = placeByte width bits k := by
  have hlength : order.length = width := by simpa using h.length_eq
  constructor
  · intro hself bits _ k hk
    rw [hself k (by omega)]
  · intro hplaces k hk
    have hk' : k < width := by omega
    have htwice : twice order k < width :=
      getD_lt_of_perm_range h (getD_lt_of_perm_range h hk')
    -- the number with a single one at place `k` tells the places apart
    have hpow : (256 : Nat) ^ (width - 1 - k) < 256 ^ width :=
      Nat.pow_lt_pow_right (by decide) (by omega)
    have hone := hplaces _ hpow k hk'
    rw [placeByte_pow hk' htwice, placeByte_pow hk' hk'] at hone
    by_contra hne
    simp [hne] at hone

end Rdbus.Foundation
