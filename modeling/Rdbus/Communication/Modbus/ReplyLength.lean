import Rdbus.Communication.Modbus.Decoding

/-!
# Replies of the wrong length

The count checks of `toUserInterpretation` and `toParsedFields` compare lists
that always have one element for each register, so neither can see how many
words the reply carried: a longer reply is truncated, and a shorter one makes
`toRawMergedRegisters` read past its end.
-/

namespace Rdbus.Communication.Modbus

open Foundation
open Config.Modbus

/-- The register was read from some JSON entry. -/
def Accepted (register : Register) : Prop :=
  ∃ j, Register.fromJson j = .ok register

/--
A reply of the right length gives one field for each register, any other one
an interpreter exception, and no cell past the reply is read.
-/
structure LengthChecked (registers : List Register) (response : ModbusResponse) :
    Prop where
  right : response.registerValues.length = (sizes registers).sum →
    ∀ timestamp, ∃ fields, parse response registers timestamp = .ok fields ∧
      fields.length = registers.length
  wrong : response.registerValues.length ≠ (sizes registers).sum →
    ∀ timestamp, ∃ what,
      parse response registers timestamp = .error (.interpreter what)
  inside : toRawMergedRegisters (toRaw16BitRegisters response.registerValues)
    registers ≠ .error .undefinedBehaviour

/-- Every letter of every order names a byte of its own register. -/
def LettersInside (registers : List Register) : Prop :=
  ∀ register ∈ registers, ∀ position ∈ register.byteOrder,
    position < register.byteOrder.length

theorem Shaped.even {register : Register} (h : register.Shaped) :
    2 * register.words = register.byteOrder.length := by
  have heven := register.type.even_width
  rw [Register.words, h.length_eq]
  omega

theorem usable_of_lettersInside {registers : List Register}
    (haccepted : ∀ register ∈ registers, Accepted register)
    (hinside : LettersInside registers) :
    ∀ register ∈ registers, Usable register := by
  intro register hmem
  obtain ⟨j, hj⟩ := haccepted register hmem
  have hshaped := Register.fromJson_shaped hj
  exact ⟨hshaped.numeric, hshaped.length_eq, hinside register hmem⟩

/-- A reply that is long enough is never rejected. -/
theorem parse_long {registers : List Register} {response : ModbusResponse}
    (haccepted : ∀ register ∈ registers, Accepted register)
    (hlong : (sizes registers).sum ≤ response.registerValues.length)
    (timestamp : Timestamp) (what : Bytes) :
    parse response registers timestamp ≠ .error (.interpreter what) := by
  by_cases hinside : LettersInside registers
  · rw [parse_ok (usable_of_lettersInside haccepted hinside) hlong]
    simp
  · simp only [LettersInside, not_forall, Nat.not_lt] at hinside
    obtain ⟨register, hmem, position, hposition, hge⟩ := hinside
    obtain ⟨j, hj⟩ := haccepted register hmem
    have heven := Shaped.even (Register.fromJson_shaped hj)
    rw [parse_outside hlong ⟨register, hmem, position, hposition, by omega⟩]
    simp

theorem lengthChecked_iff (registers : List Register)
    (haccepted : ∀ register ∈ registers, Accepted register)
    (response : ModbusResponse) :
    LengthChecked registers response ↔
      response.registerValues.length = (sizes registers).sum ∧
        LettersInside registers := by
  constructor
  · intro h
    have hlength : response.registerValues.length = (sizes registers).sum := by
      by_contra hne
      obtain ⟨what, hparse⟩ := h.wrong hne 0
      rcases Nat.lt_or_ge response.registerValues.length (sizes registers).sum
        with hshort | hlong
      · rw [parse_short hshort] at hparse
        cases hparse
      · exact parse_long haccepted hlong 0 what hparse
    refine ⟨hlength, ?_⟩
    by_contra hinside
    simp only [LettersInside, not_forall, Nat.not_lt] at hinside
    obtain ⟨register, hmem, position, hposition, hge⟩ := hinside
    obtain ⟨j, hj⟩ := haccepted register hmem
    have heven := Shaped.even (Register.fromJson_shaped hj)
    obtain ⟨fields, hparse, -⟩ := h.right hlength 0
    rw [parse_outside hlength.ge ⟨register, hmem, position, hposition, by omega⟩]
      at hparse
    cases hparse
  · rintro ⟨hlength, hinside⟩
    have husable := usable_of_lettersInside haccepted hinside
    refine ⟨fun _ timestamp => ?_, fun hne => absurd hlength hne, ?_⟩
    · exact ⟨_, parse_ok husable hlength.ge timestamp, by simp⟩
    · rw [toRawMergedRegisters_ok hlength.ge]
      simp

def massFlow : Register := ⟨str "Mass Flow", 0, [0, 1, 2, 3], .uint32⟩

theorem accepted_massFlow : Accepted massFlow :=
  ⟨{ name := some (str "Mass Flow"), address := some 0,
     dataType := some (str "UINT_32A") }, by decide⟩

theorem lengthChecked_massFlow :
    LengthChecked [massFlow] ⟨1, .readAnalogOutputHoldingRegisters, [1, 2]⟩ := by
  apply (lengthChecked_iff [massFlow] ?_ _).mpr
  · exact ⟨rfl, by unfold LettersInside; decide⟩
  · simpa using accepted_massFlow

/-- One word too few is read past the end, one too many is dropped. -/
theorem wrong_length_not_rejected :
    Accepted massFlow ∧
    parse ⟨1, .readAnalogOutputHoldingRegisters, [1]⟩ [massFlow] 0 =
      .error .undefinedBehaviour ∧
    parse ⟨1, .readAnalogOutputHoldingRegisters, [1, 2, 3]⟩ [massFlow] 0 =
      .ok [{ name := str "Mass Flow", value := some (.uint32 0x00010002),
             timestamp := 0 }] ∧
    ¬ LengthChecked [massFlow] ⟨1, .readAnalogOutputHoldingRegisters, [1]⟩ ∧
    ¬ LengthChecked [massFlow]
      ⟨1, .readAnalogOutputHoldingRegisters, [1, 2, 3]⟩ := by
  have hshort : parse ⟨1, .readAnalogOutputHoldingRegisters, [1]⟩ [massFlow] 0 =
      .error .undefinedBehaviour := by decide +kernel
  have hlong : parse ⟨1, .readAnalogOutputHoldingRegisters, [1, 2, 3]⟩
        [massFlow] 0 =
      .ok [{ name := str "Mass Flow", value := some (.uint32 0x00010002),
             timestamp := 0 }] := by decide +kernel
  refine ⟨accepted_massFlow, hshort, hlong, fun h => ?_, fun h => ?_⟩
  · obtain ⟨what, hparse⟩ := h.wrong (by decide) 0
    rw [hshort] at hparse
    cases hparse
  · obtain ⟨what, hparse⟩ := h.wrong (by decide) 0
    rw [hlong] at hparse
    cases hparse

end Rdbus.Communication.Modbus
