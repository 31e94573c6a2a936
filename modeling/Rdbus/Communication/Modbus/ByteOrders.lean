import Rdbus.Communication.Modbus.Decoding

/-!
# Usable byte orders

The length of a wild `data_order` is checked against its type, but its letters
only against `A` to `H`, whatever the length, and not against each other.  An
accepted order is a permutation exactly when its letters are distinct and
among the first ones.
-/

namespace Rdbus.Communication.Modbus

open Foundation
open Config.Modbus

/-- The order names each byte of the register once, and decoding stays inside its words. -/
structure UsableOrder (register : Register) : Prop where
  size : register.byteOrder.length = 2 ∨ register.byteOrder.length = 4 ∨
    register.byteOrder.length = 8
  width : register.type.width = register.byteOrder.length
  perm : register.byteOrder.Perm (List.range register.byteOrder.length)
  interpreted : ∀ word : Bytes, word.length = register.byteOrder.length →
    ∃ ordered, toUserInterpretation [word] [register] = .ok [ordered] ∧ ordered.Perm word ∧
      ∀ timestamp, ∃ value,
        toParsedFields (toMachineInterpretation [ordered]) [register] timestamp =
          .ok [{ name := register.name, value := some value, timestamp }]

/-- The letters are distinct and among the first `order.length` of the alphabet. -/
def FirstLetters (order : Bytes) : Prop :=
  order.Nodup ∧ ∀ c ∈ order, c.toNat < 65 + order.length

-- the letters are compared as a list, since all of `UInt8` is finite too
instance (order : Bytes) : Decidable (FirstLetters order) :=
  decidable_of_iff (order.Nodup ∧ order.all fun c => c.toNat < 65 + order.length)
    (by simp [FirstLetters])

/-! ## The two tables -/

theorem perm_getWildType {typeString letters : Bytes} {type : DataType} {order : List Nat}
    (h : getWildType typeString letters = .ok (type, order)) :
    order.Perm (List.range order.length) ↔ FirstLetters letters := by
  simp only [getWildType, throwIf_bind_eq_ok] at h
  obtain ⟨-, -, -, -, -, -, h⟩ := h
  obtain ⟨byteOrder, horder, h⟩ := bind_eq_ok.mp h
  cases h
  obtain ⟨rfl, hletters⟩ := parseOrder_ok horder
  have hinjective : (letters.map fun c => c.toNat - 65).Nodup ↔ letters.Nodup := by
    refine ⟨fun h => h.of_map _, fun h => h.map_on ?_⟩
    intro a ha b hb hab
    have hA := hletters a ha
    have hB := hletters b hb
    exact UInt8.toNat_inj.mp (by omega)
  have hinside : (∀ position ∈ letters.map fun c => c.toNat - 65,
      position < (letters.map fun c => c.toNat - 65).length) ↔
        ∀ c ∈ letters, c.toNat < 65 + letters.length := by
    rw [List.forall_mem_map, List.length_map]
    refine forall₂_congr fun c hc => ?_
    have := hletters c hc
    omega
  rw [perm_range_iff, hinjective, hinside, FirstLetters]

theorem perm_getStandardType {typeString : Bytes} {type : DataType} {order : List Nat}
    (h : getStandardType typeString = .ok (type, order)) :
    order.Perm (List.range order.length) := by
  have hall : ∀ entry ∈ typeMap, entry.2.2.Perm (List.range entry.2.2.length) := by
    decide
  rw [getStandardType] at h
  cases hentry : typeMap.lookup typeString with
  | none => simp [hentry] at h
  | some entry =>
      simp only [hentry, Except.ok.injEq] at h
      subst h
      obtain ⟨before, after, hsplit, -⟩ := List.lookup_eq_some_iff.mp hentry
      exact hall (typeString, type, order) (by simp [hsplit])

theorem perm_byteOrder_iff {j : RegisterJson} {register : Register}
    (h : Register.fromJson j = .ok register) :
    register.byteOrder.Perm (List.range register.byteOrder.length) ↔
      FirstLetters (j.dataOrder.getD []) := by
  obtain ⟨typeString, -, hparsed | ⟨hnone, hparsed⟩⟩ := Register.fromJson_ok h
  · exact perm_getWildType hparsed
  · rw [hnone]
    exact iff_of_true (perm_getStandardType hparsed) (by decide)

/-! ## Decoding -/

theorem interpreted_of_perm {register : Register} (hshaped : register.Shaped)
    (hperm : register.byteOrder.Perm (List.range register.byteOrder.length))
    {word : Bytes} (hword : word.length = register.byteOrder.length) :
    ∃ ordered, toUserInterpretation [word] [register] = .ok [ordered] ∧ ordered.Perm word ∧
      ∀ timestamp, ∃ value,
        toParsedFields (toMachineInterpretation [ordered]) [register] timestamp =
          .ok [{ name := register.name, value := some value, timestamp }] := by
  have hinside : ∀ position ∈ register.byteOrder, position < word.length := by
    rw [hword]
    exact fun position => lt_of_perm_range hperm
  refine ⟨gather register.byteOrder word, ?_, perm_gather (hword ▸ hperm), ?_⟩
  · rw [toUserInterpretation, if_neg (by simp)]
    change ([(word, register)].mapM fun piece => reorder piece.2.byteOrder piece.1) = _
    rw [List.mapM_cons, reorder_ok hinside]
    rfl
  · intro timestamp
    have hlength : (gather register.byteOrder word).reverse.length = register.type.width := by
      simp [hshaped.length_eq]
    have hvalue := reinterpret_eq hshaped.numeric hlength
    refine ⟨.ofBits register.type
      (littleEndian (gather register.byteOrder word).reverse), ?_⟩
    simp [toParsedFields, toMachineInterpretation, hvalue]

theorem usableOrder_iff_firstLetters {j : RegisterJson} {register : Register}
    (h : Register.fromJson j = .ok register) :
    UsableOrder register ↔ FirstLetters (j.dataOrder.getD []) := by
  have hshaped := Register.fromJson_shaped h
  rw [← perm_byteOrder_iff h]
  constructor
  · exact UsableOrder.perm
  · intro hperm
    refine ⟨?_, hshaped.length_eq.symm, hperm, fun word =>
      interpreted_of_perm hshaped hperm⟩
    have hnumeric := hshaped.numeric
    rw [hshaped.length_eq]
    cases htype : register.type <;> simp [htype, DataType.width] at hnumeric ⊢

def flowRate : RegisterJson where
  name := some (str "Flow rate")
  address := some 4
  dataType := some (str "UINT")
  dataOrder := some (str "CDAB")

theorem usableOrder_flowRate : ∃ register, Register.fromJson flowRate = .ok register ∧
    UsableOrder register := by
  have haccepted : Register.fromJson flowRate =
      .ok ⟨str "Flow rate", 4, [2, 3, 0, 1], .uint32⟩ := by
    decide +kernel
  exact ⟨_, haccepted, (usableOrder_iff_firstLetters haccepted).mpr (by decide)⟩

/-- One order names a byte outside of its two, the other names one byte twice. -/
theorem unusable_orders_accepted :
    Register.fromJson { flowRate with dataOrder := some (str "GH") } =
        .ok ⟨str "Flow rate", 4, [6, 7], .uint16⟩ ∧
      toUserInterpretation [[1, 2]] [⟨str "Flow rate", 4, [6, 7], .uint16⟩] =
        .error .undefinedBehaviour ∧
      Register.fromJson { flowRate with dataOrder := some (str "AABB") } =
        .ok ⟨str "Flow rate", 4, [0, 0, 1, 1], .uint32⟩ ∧
      toUserInterpretation [[1, 2, 3, 4]] [⟨str "Flow rate", 4, [0, 0, 1, 1], .uint32⟩] =
        .ok [[1, 1, 2, 2]] ∧
      ¬ UsableOrder ⟨str "Flow rate", 4, [6, 7], .uint16⟩ ∧
      ¬ UsableOrder ⟨str "Flow rate", 4, [0, 0, 1, 1], .uint32⟩ := by
  refine ⟨by decide +kernel, by decide, by decide +kernel, by decide, ?_, ?_⟩
  · exact fun h => absurd h.perm (by decide)
  · exact fun h => absurd h.perm (by decide)

end Rdbus.Communication.Modbus
