import Rdbus.Config.Acceptance
import Rdbus.Config.ModbusValidation

/-!
# Accepted Modbus slaves

Each register can be written with its own data order, so that the slaves of
accepted files are those that pass the checks.
-/

namespace Rdbus.Config.Modbus

open Foundation

def letter (position : Nat) : UInt8 := UInt8.ofNat (65 + position)

def wildTypeString : DataType → Bytes
  | .float | .double => str "FLOAT"
  | .uint16 | .uint32 | .uint64 => str "UINT"
  | _ => str "INT"

/-- Each register is written with its own data order. -/
def Register.toJson (register : Register) : RegisterJson where
  name := some register.name
  address := some register.address
  dataOrder := some (register.byteOrder.map letter)
  dataType := some (wildTypeString register.type)

def Slave.toJson (slave : Slave) : SlaveJson where
  name := some slave.name
  id := some slave.id
  pollTimeMs := some slave.pollTimeMs
  analogInputRegisters := some (slave.inputRegisters.map Register.toJson)
  analogOutputRegisters := some (slave.outputRegisters.map Register.toJson)

structure Slave.Valid (slave : Slave) : Prop where
  shaped : ∀ register ∈ slave.inputRegisters ++ slave.outputRegisters, register.Shaped
  nonempty : slave.inputRegisters ++ slave.outputRegisters ≠ []
  inputsApart : slave.inputRegisters.Pairwise fun a b => ¬ Intersect a b
  outputsApart : slave.outputRegisters.Pairwise fun a b => ¬ Intersect a b
  names : (slave.inputRegisters ++ slave.outputRegisters).Pairwise fun a b => a.name ≠ b.name

structure Valid (slaves : List Slave) (processors : Processors) : Prop where
  nonempty : slaves ≠ []
  each : ∀ slave ∈ slaves, slave.Valid
  ids : slaves.Pairwise fun a b => a.id ≠ b.id
  names : slaves.Pairwise fun a b => a.name ≠ b.name
  processors : processors.Valid (slaves.map Slave.name)

theorem parseOrder_letters {order : List Nat} (h : ∀ position ∈ order, position < 8) :
    parseOrder (order.map letter) = .ok order := by
  induction order with
  | nil => rfl
  | cons position order ih =>
      rw [List.forall_mem_cons] at h
      have hletter : (letter position).toNat = 65 + position := by
        rw [letter, UInt8.toNat_ofNat']
        omega
      have hrange : (letter position < 65 || letter position > 72) = false := by
        simp only [Bool.or_eq_false_iff, decide_eq_false_iff_not, UInt8.lt_iff_toNat_lt,
          gt_iff_lt, hletter]
        have := h.1
        constructor
        · simp
        · simp
          omega
      rw [List.map_cons, parseOrder, throwIf_eq_ok.mpr hrange, ok_bind, ih h.2, ok_bind, hletter,
        Nat.add_sub_cancel_left]

theorem getWildType_letters {register : Register} (h : register.Shaped) :
    getWildType (wildTypeString register.type) (register.byteOrder.map letter) =
      .ok (register.type, register.byteOrder) := by
  have hnumeric := h.numeric
  have hlength := h.length_eq
  simp only [getWildType, throwIf_bind_eq_ok, parseOrder_letters h.position_lt, ok_bind,
    List.length_map, hlength]
  cases htype : register.type with
  | none => simp [htype, DataType.width] at hnumeric
  | string => simp [htype, DataType.width] at hnumeric
  | _ =>
      exact ⟨by decide, by decide, by decide, by decide, by decide, by decide, rfl⟩

theorem Register.fromJson_toJson {register : Register} (h : register.Shaped) :
    Register.fromJson register.toJson = .ok register := by
  have hwild : wildTypeString register.type = str "FLOAT" ∨
      wildTypeString register.type = str "UINT" ∨ wildTypeString register.type = str "INT" := by
    cases register.type <;> simp [wildTypeString]
  simp only [Register.fromJson, Register.toJson, required, ok_bind, if_pos hwild,
    Option.getD_some, getWildType_letters h]

theorem Slave.fromJson_toJson {slave : Slave} (h : slave.Valid) :
    Slave.fromJson slave.toJson = .ok slave := by
  have hinputs : (slave.inputRegisters.map Register.toJson).mapM Register.fromJson =
      .ok slave.inputRegisters :=
    mapM_map_eq_ok fun register hmem =>
      Register.fromJson_toJson (h.shaped register (List.mem_append_left _ hmem))
  have houtputs : (slave.outputRegisters.map Register.toJson).mapM Register.fromJson =
      .ok slave.outputRegisters :=
    mapM_map_eq_ok fun register hmem =>
      Register.fromJson_toJson (h.shaped register (List.mem_append_right _ hmem))
  have hsome : (slave.inputRegisters.isEmpty && slave.outputRegisters.isEmpty) = false := by
    have hnonempty := h.nonempty
    rw [Ne, List.append_eq_nil_iff, ← List.isEmpty_iff, ← List.isEmpty_iff] at hnonempty
    simpa using hnonempty
  simp only [Slave.fromJson, Slave.toJson, required, ok_bind, Option.getD_some, hinputs, houtputs,
    throwIf_eq_ok.mpr hsome]

theorem checkSpacing_passes {registers : List Register} (h : Plausible registers) {passed : Unit} :
    checkSpacing registers = .ok passed ↔ registers.Pairwise fun a b => ¬ Intersect a b := by
  rw [checkSpacing, passes_iff, hasAdjacent_overlaps_iff h]

theorem plausible_of_shaped {registers : List Register}
    (hshaped : ∀ register ∈ registers, register.Shaped)
    (haddress : ∀ register ∈ registers, 0 ≤ register.address ∧ register.address ≤ 65535) :
    Plausible registers where
  address := haddress
  words register hmem := by
    have := (hshaped register hmem).words_bounds
    omega

/-- What the checks of the slaves ask for. -/
theorem checks_pass {slaves : List Slave} (haddress : Addressable slaves)
    (hshaped : ∀ slave ∈ slaves, ∀ register ∈ slave.inputRegisters ++ slave.outputRegisters,
      register.Shaped) :
    (checkRegisterAddressSpacing slaves = .ok () ↔ ∀ slave ∈ slaves,
      (slave.inputRegisters.Pairwise fun a b => ¬ Intersect a b) ∧
        slave.outputRegisters.Pairwise fun a b => ¬ Intersect a b) ∧
    (checkDuplicateRegisterNames slaves = .ok () ↔ ∀ slave ∈ slaves,
      (slave.inputRegisters ++ slave.outputRegisters).Pairwise fun a b => a.name ≠ b.name) := by
  constructor
  · rw [checkRegisterAddressSpacing, forM_eq_ok]
    refine forall₂_congr fun slave hmem => ?_
    have hinputs : Plausible slave.inputRegisters := plausible_of_shaped
      (fun register h => hshaped slave hmem register (List.mem_append_left _ h))
      (fun register h => haddress slave hmem register (List.mem_append_left _ h))
    have houtputs : Plausible slave.outputRegisters := plausible_of_shaped
      (fun register h => hshaped slave hmem register (List.mem_append_right _ h))
      (fun register h => haddress slave hmem register (List.mem_append_right _ h))
    rw [bind_eq_ok, checkSpacing_passes houtputs]
    simp only [checkSpacing_passes hinputs, exists_and_right, exists_const]
  · rw [checkDuplicateRegisterNames, forM_eq_ok]
    exact forall₂_congr fun _ _ => hasDuplicate_passes

theorem valid_of_parseModbus {j : ModbusJson} {slaves : List Slave} {processors : Processors}
    (h : parseModbus j = .ok (slaves, processors)) (haddress : Addressable slaves) :
    Valid slaves processors := by
  unfold parseModbus at h
  obtain ⟨slavesJson, -, h⟩ := bind_eq_ok.mp h
  obtain ⟨slaves, hslaves, h⟩ := bind_eq_ok.mp h
  obtain ⟨hsome, h⟩ := throwIf_bind_eq_ok.mp h
  obtain ⟨_, hspacing, h⟩ := bind_eq_ok.mp h
  obtain ⟨_, hregisters, h⟩ := bind_eq_ok.mp h
  obtain ⟨_, hids, h⟩ := bind_eq_ok.mp h
  obtain ⟨_, hnames, h⟩ := bind_eq_ok.mp h
  obtain ⟨processors, hprocessors, h⟩ := bind_eq_ok.mp h
  cases h
  have hread : ∀ slave ∈ slaves,
      (∀ register ∈ slave.inputRegisters ++ slave.outputRegisters, register.Shaped) ∧
        slave.inputRegisters ++ slave.outputRegisters ≠ [] := by
    intro slave hmem
    obtain ⟨_, -, hjson⟩ := mem_mapM_ok hslaves hmem
    exact ⟨Slave.fromJson_shaped hjson, Slave.fromJson_nonempty hjson⟩
  obtain ⟨hapart, hdistinct⟩ := checks_pass haddress fun slave hmem => (hread slave hmem).1
  constructor
  case nonempty => exact List.isEmpty_eq_false_iff.mp hsome
  case each =>
    intro slave hmem
    obtain ⟨hinputs, houtputs⟩ := hapart.mp hspacing slave hmem
    exact ⟨(hread slave hmem).1, (hread slave hmem).2, hinputs, houtputs,
      hdistinct.mp hregisters slave hmem⟩
  case ids => exact hasDuplicate_passes.mp hids
  case names => exact hasDuplicate_passes.mp hnames
  case processors => exact parseProcessors_ok hprocessors

theorem parseModbus_toJson {slaves : List Slave} {processors : Processors}
    (h : Valid slaves processors) (haddress : Addressable slaves) :
    parseModbus { slaves := some (slaves.map Slave.toJson), dataProcessors := processors.toJson } =
      .ok (slaves, processors) := by
  have hslaves : (slaves.map Slave.toJson).mapM Slave.fromJson = .ok slaves :=
    mapM_map_eq_ok fun slave hmem => Slave.fromJson_toJson (h.each slave hmem)
  obtain ⟨hapart, hdistinct⟩ := checks_pass haddress fun slave hmem => (h.each slave hmem).shaped
  have hspacing := hapart.mpr fun slave hmem =>
    ⟨(h.each slave hmem).inputsApart, (h.each slave hmem).outputsApart⟩
  have hregisters := hdistinct.mpr fun slave hmem => (h.each slave hmem).names
  have hids : checkDuplicateSlaveIDs slaves = .ok () := hasDuplicate_passes.mpr h.ids
  have hnames : checkDuplicateSlaveNames slaves = .ok () := hasDuplicate_passes.mpr h.names
  simp only [parseModbus, required, ok_bind, hslaves,
    throwIf_eq_ok.mpr (List.isEmpty_eq_false_iff.mpr h.nonempty), hspacing, hregisters, hids,
    hnames, parseProcessors_toJson h.processors]

end Rdbus.Config.Modbus
