import Rdbus.Communication.Modbus.Decoding

/-!
# The documented data order

The documentation of `data_order` says where a device stores each byte: the
byte at position `k` of a register's words is the byte of the value whose
significance is `byteOrder[ k ]`.  `toUserInterpretation` takes position
`byteOrder[ k ]` as the `k`-th most significant byte, which is the same mapping
only for an order that is its own inverse.
-/

namespace Rdbus.Communication.Modbus

open Foundation
open Config.Modbus

/-- The words whose bytes, high byte first, are the given ones. -/
def pairWords : Bytes → List UInt16
  | [] | [_] => []
  | msb :: lsb :: rest =>
      UInt16.ofNat (msb.toNat * 256 + lsb.toNat) :: pairWords rest

/-- The words of a register that stores `value` in the documented order. -/
def documentedWords (register : Register) (value : Variant) : List UInt16 :=
  pairWords (register.byteOrder.map (placeByte register.type.width value.bits))

/-- A reply that carries one documented encoding for each register. -/
def documentedReply (registers : List Register) (values : List Variant) :
    List UInt16 :=
  ((registers.zip values).map fun reading =>
    documentedWords reading.1 reading.2).flatten

def expectedFields (registers : List Register) (values : List Variant)
    (timestamp : Timestamp) : List Data.Field :=
  (registers.zip values).map fun reading =>
    { name := reading.1.name, value := some reading.2, timestamp }

/-- The documented reply is read back, whatever the rest of the response is. -/
def ReadBack (registers : List Register) (values : List Variant) : Prop :=
  ∀ slaveId functionCode timestamp,
    parse ⟨slaveId, functionCode, documentedReply registers values⟩ registers
        timestamp =
      .ok (expectedFields registers values timestamp)

/-- Applying the order twice moves no byte of the value to a different one. -/
def KeptByOrder (register : Register) (value : Variant) : Prop :=
  ∀ k < register.type.width,
    placeByte register.type.width value.bits (twice register.byteOrder k) =
      placeByte register.type.width value.bits k

/-! ## One register -/

private theorem toRaw16BitRegisters_pair (msb lsb : UInt8) (words : List UInt16) :
    toRaw16BitRegisters (UInt16.ofNat (msb.toNat * 256 + lsb.toNat) :: words) =
      (msb, lsb) :: toRaw16BitRegisters words := by
  have hmsb := msb.toNat_lt
  have hlsb := lsb.toNat_lt
  simp only [toRaw16BitRegisters, List.map_cons, List.cons.injEq,
    Prod.mk.injEq, and_true]
  constructor
  · apply UInt8.toNat_inj.mp
    simp [Nat.shiftRight_eq_div_pow, Nat.and_two_pow_sub_one_eq_mod _ 8]
    omega
  · apply UInt8.toNat_inj.mp
    simp [Nat.and_two_pow_sub_one_eq_mod _ 8]

theorem cellBytes_pairWords {bytes : Bytes} (h : bytes.length % 2 = 0) :
    cellBytes (toRaw16BitRegisters (pairWords bytes)) = bytes := by
  induction bytes using pairWords.induct with
  | case1 => rfl
  | case2 byte => simp at h
  | case3 msb lsb rest ih =>
      have hrest : rest.length % 2 = 0 := by
        simp only [List.length_cons] at h
        omega
      rw [pairWords, toRaw16BitRegisters_pair]
      change msb :: lsb :: cellBytes (toRaw16BitRegisters (pairWords rest)) = _
      rw [ih hrest]

theorem length_pairWords (bytes : Bytes) :
    (pairWords bytes).length = bytes.length / 2 := by
  induction bytes using pairWords.induct with
  | case1 => rfl
  | case2 byte => simp [pairWords]
  | case3 msb lsb rest ih =>
      simp only [pairWords, List.length_cons, ih]
      omega

theorem decodeValue_documentedWords_iff {register : Register} {value : Variant}
    (h : WellOrdered register) (htype : value.type = register.type) :
    decodeValue register (documentedWords register value) = value ↔
      KeptByOrder register value := by
  have hbits : value.bits < 256 ^ register.type.width := htype ▸ value.bits_lt
  have hbytes : cellBytes (toRaw16BitRegisters (documentedWords register value)) =
      register.byteOrder.map (placeByte register.type.width value.bits) := by
    apply cellBytes_pairWords
    simpa [h.length_eq] using DataType.even_width register.type
  rw [decodeValue, hbytes, KeptByOrder,
    ← littleEndian_gather_store_eq_iff h.perm hbits]
  constructor
  · intro heq
    have hlt := littleEndian_lt
      (gather register.byteOrder
        (register.byteOrder.map (placeByte register.type.width value.bits))).reverse
    rw [List.length_reverse, length_gather, h.length_eq] at hlt
    rw [← Variant.bits_ofBits hlt, heq]
  · intro heq
    rw [heq, ← htype]
    exact Variant.ofBits_bits (htype ▸ h.numeric)

/-! ## A whole reply -/

private theorem splitLengths_flatten {α : Type} (parts : List (List α)) :
    (parts.map List.length).splitLengths parts.flatten = parts := by
  induction parts with
  | nil => rfl
  | cons part parts ih =>
      simp [ih]

private theorem map_fst_zip_of_types {registers : List Register}
    {values : List Variant}
    (htypes : values.map Variant.type = registers.map Register.type) :
    (registers.zip values).map Prod.fst = registers := by
  apply List.map_fst_zip
  simpa using (congrArg List.length htypes).ge

private theorem type_of_mem_zip {registers : List Register}
    {values : List Variant}
    (htypes : values.map Variant.type = registers.map Register.type)
    {reading : Register × Variant} (hmem : reading ∈ registers.zip values) :
    reading.2.type = reading.1.type := by
  obtain ⟨i, hi, rfl⟩ := List.mem_iff_getElem.mp hmem
  have hlengths : i < registers.length ∧ i < values.length := by
    simpa [List.length_zip] using hi
  have htype := congrArg (fun types => types[i]?) htypes
  simpa [hlengths.1, hlengths.2] using htype

private theorem sizes_eq_lengths {registers : List Register}
    {values : List Variant}
    (htypes : values.map Variant.type = registers.map Register.type) :
    sizes registers =
      ((registers.zip values).map fun reading =>
        documentedWords reading.1 reading.2).map List.length := by
  conv_lhs => rw [← map_fst_zip_of_types htypes, sizes]
  simp only [List.map_map]
  apply List.map_congr_left
  intro reading _
  simp [documentedWords, length_pairWords, Register.words]

private theorem pieces_documentedReply {registers : List Register}
    {values : List Variant}
    (htypes : values.map Variant.type = registers.map Register.type) :
    pieces registers (documentedReply registers values) =
      (registers.zip values).map fun reading =>
        (documentedWords reading.1 reading.2, reading.1) := by
  rw [pieces, documentedReply, sizes_eq_lengths htypes, splitLengths_flatten]
  conv_lhs =>
    enter [2]
    rw [← map_fst_zip_of_types htypes]
  rw [← List.zip_map']

theorem parse_documentedReply {registers : List Register}
    {values : List Variant}
    (hordered : ∀ register ∈ registers, WellOrdered register)
    (htypes : values.map Variant.type = registers.map Register.type)
    (slaveId : Int) (functionCode : MBFunctionCode) (timestamp : Timestamp) :
    parse ⟨slaveId, functionCode, documentedReply registers values⟩ registers
        timestamp =
      .ok ((registers.zip values).map fun reading =>
        { name := reading.1.name
          value := some (decodeValue reading.1
            (documentedWords reading.1 reading.2))
          timestamp }) := by
  have hsum : (sizes registers).sum ≤ (documentedReply registers values).length := by
    rw [sizes_eq_lengths htypes, documentedReply, List.length_flatten]
  rw [parse_ok (fun register hmem => (hordered register hmem).usable) hsum,
    decodedFields, pieces_documentedReply htypes, List.map_map]
  rfl

theorem readBack_iff_keptByOrder {registers : List Register}
    {values : List Variant}
    (hordered : ∀ register ∈ registers, WellOrdered register)
    (htypes : values.map Variant.type = registers.map Register.type) :
    ReadBack registers values ↔
      ∀ reading ∈ registers.zip values, KeptByOrder reading.1 reading.2 := by
  have hdecode : ∀ reading ∈ registers.zip values,
      (decodeValue reading.1 (documentedWords reading.1 reading.2) = reading.2 ↔
        KeptByOrder reading.1 reading.2) := fun reading hmem =>
    decodeValue_documentedWords_iff (hordered _ (List.of_mem_zip hmem).1)
      (type_of_mem_zip htypes hmem)
  simp only [ReadBack, parse_documentedReply hordered htypes, expectedFields,
    Except.ok.injEq, List.map_inj_left, Data.Field.mk.injEq, Option.some.injEq,
    true_and, and_true]
  constructor
  · intro hfields reading hmem
    exact (hdecode reading hmem).mp
      (hfields 0 .readAnalogInputRegisters 0 reading hmem)
  · intro hkept _ _ _ reading hmem
    exact (hdecode reading hmem).mpr (hkept reading hmem)

theorem keptByOrder_all_iff_selfInverse {register : Register}
    (h : WellOrdered register) :
    (∀ value : Variant, value.type = register.type → KeptByOrder register value) ↔
      SelfInverse register.byteOrder := by
  rw [selfInverse_iff_places h.perm]
  constructor
  · intro hall bits hbits
    have hkept := hall (.ofBits register.type bits)
      (Variant.type_ofBits h.numeric bits)
    rwa [KeptByOrder, Variant.bits_ofBits hbits] at hkept
  · intro hplaces value htype
    exact hplaces value.bits (htype ▸ value.bits_lt)

/--
A documented reply is read back exactly when no value is changed by applying
its order twice, and a list of registers reads back every value exactly when
each of its orders is its own inverse.
-/
theorem readBack_iff (registers : List Register)
    (hordered : ∀ register ∈ registers, WellOrdered register) :
    (∀ values : List Variant,
      values.map Variant.type = registers.map Register.type →
        (ReadBack registers values ↔
          ∀ reading ∈ registers.zip values, KeptByOrder reading.1 reading.2)) ∧
    ((∀ values : List Variant,
      values.map Variant.type = registers.map Register.type →
        ReadBack registers values) ↔
      ∀ register ∈ registers, SelfInverse register.byteOrder) := by
  refine ⟨fun values => readBack_iff_keptByOrder hordered, ?_, ?_⟩
  · intro hall register hmem
    have hregister := hordered register hmem
    rw [← keptByOrder_all_iff_selfInverse hregister]
    intro value htype
    -- every other register stores some value of its own type
    let values := registers.map fun other =>
      Variant.ofBits other.type (value.bits % 256 ^ other.type.width)
    have htypes : values.map Variant.type = registers.map Register.type := by
      rw [List.map_map]
      apply List.map_congr_left
      intro other hother
      exact Variant.type_ofBits (hordered other hother).numeric _
    have hkept := (readBack_iff_keptByOrder hordered htypes).mp (hall values htypes)
    have hvalue : Variant.ofBits register.type
        (value.bits % 256 ^ register.type.width) = value := by
      rw [Nat.mod_eq_of_lt (htype ▸ value.bits_lt), ← htype]
      exact Variant.ofBits_bits (htype ▸ hregister.numeric)
    apply hkept (register, value)
    rw [← hvalue]
    rw [List.mem_iff_getElem] at hmem ⊢
    obtain ⟨i, hi, rfl⟩ := hmem
    exact ⟨i, by simpa [values] using hi, by simp [values, hvalue]⟩
  · intro hself values htypes
    rw [readBack_iff_keptByOrder hordered htypes]
    intro reading hmem
    have hregister := (List.of_mem_zip hmem).1
    exact (keptByOrder_all_iff_selfInverse (hordered _ hregister)).mpr
      (hself _ hregister) reading.2 (type_of_mem_zip htypes hmem)

/-- The order `BCDA`, which is not its own inverse. -/
def rotatedRegister : Register := ⟨str "Torque", 130, [1, 2, 3, 0], .uint32⟩

def swappedRegister : Register := ⟨str "Torque", 130, [2, 3, 0, 1], .uint32⟩

theorem readBack_swapped :
    WellOrdered swappedRegister ∧
      ReadBack [swappedRegister] [.uint32 0x01020304] := by
  have hordered : WellOrdered swappedRegister := ⟨by decide, by decide⟩
  refine ⟨hordered, (readBack_iff [swappedRegister] ?_).2.mpr ?_ _ rfl⟩
  · simpa using hordered
  · simp only [List.mem_singleton, forall_eq]
    change ∀ k < 4, twice [2, 3, 0, 1] k = k
    decide

theorem rotated_not_readBack :
    Register.fromJson
        { name := some (str "Torque"), address := some 130,
          dataType := some (str "UINT"), dataOrder := some (str "BCDA") } =
      .ok rotatedRegister ∧
    WellOrdered rotatedRegister ∧
    parse ⟨1, .readAnalogInputRegisters,
        documentedReply [rotatedRegister] [.uint32 0x01020304]⟩
        [rotatedRegister] 0 =
      .ok [{ name := str "Torque", value := some (.uint32 0x03040102),
             timestamp := 0 }] ∧
    ¬ ReadBack [rotatedRegister] [.uint32 0x01020304] := by
  have hparse : parse ⟨1, .readAnalogInputRegisters,
        documentedReply [rotatedRegister] [.uint32 0x01020304]⟩
        [rotatedRegister] 0 =
      .ok [{ name := str "Torque", value := some (.uint32 0x03040102),
             timestamp := 0 }] := by decide +kernel
  refine ⟨by decide, ⟨by decide, by decide⟩, hparse, fun h => ?_⟩
  have hexpected := h 1 .readAnalogInputRegisters 0
  rw [hparse] at hexpected
  revert hexpected
  decide

end Rdbus.Communication.Modbus
