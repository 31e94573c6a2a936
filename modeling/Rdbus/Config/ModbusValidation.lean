import Rdbus.Config.Modbus
import Rdbus.Foundation.Spans

/-!
# Modbus validation

Each check looks at all pairs by sorting and comparing neighbours.  For
addresses that fit a Modbus word this finds every pair, so `parseModbus`
rejects exactly the configurations with a flaw.
-/

namespace Rdbus.Config.Modbus

open Foundation

structure ModbusJson where
  slaves : Option (List SlaveJson) := none
  dataProcessors : Option ProcessorsJson := none

/-- The sum is of type `size_t`, so the address on the right is converted to it. -/
def overlaps (left right : Register) : Bool :=
  sizeT right.address < (sizeT left.address + left.words) % 2 ^ 64

/-- The lambda `checker`. -/
def checkSpacing (registers : List Register) : Except Throw Unit :=
  throwIf (hasAdjacent overlaps (sortByKey Register.address registers))
    (str "Adjacent registers found where addresses overlap each other!")

def checkRegisterAddressSpacing (slaves : List Slave) : Except Throw Unit :=
  slaves.forM fun slave => do
    checkSpacing slave.inputRegisters
    checkSpacing slave.outputRegisters

def checkDuplicateRegisterNames (slaves : List Slave) : Except Throw Unit :=
  slaves.forM fun slave =>
    throwIf (hasDuplicate Register.name (slave.inputRegisters ++ slave.outputRegisters))
      (str "Duplicate register names found in single slave!")

def checkDuplicateSlaveIDs (slaves : List Slave) : Except Throw Unit :=
  throwIf (hasDuplicate Slave.id slaves) (str "Duplicate slave IDs found!")

def checkDuplicateSlaveNames (slaves : List Slave) : Except Throw Unit :=
  throwIf (hasDuplicate Slave.name slaves) (str "Duplicate slave names found!")

/-- The slaves and processors `parseModbus` stores. -/
def parseModbus (j : ModbusJson) : Except Throw (List Slave × Processors) := do
  let slaves ← required j.slaves (str "No 'slaves' present!")
  let slaves ← slaves.mapM Slave.fromJson
  throwIf slaves.isEmpty (str "No slaves present!")
  checkRegisterAddressSpacing slaves
  checkDuplicateRegisterNames slaves
  checkDuplicateSlaveIDs slaves
  checkDuplicateSlaveNames slaves
  let processors ← parseProcessors
    (validateLimits (str "slave") (str "slaves") (slaves.map Slave.name))
    j.dataProcessors
  .ok (slaves, processors)

/-- The words `[address, address + byteOrder.size() / sizeof( uint16_t ))`. -/
def Register.span (register : Register) : Span := ⟨register.address, register.words⟩

def Intersect (a b : Register) : Prop := ∃ word, word ∈ a.span ∧ word ∈ b.span

inductive Flaw (slaves : List Slave) (limits : Option Processors.Limits) : Prop
  | noSlaves (h : slaves = [])
  | sameId (h : ¬ slaves.Pairwise fun a b => a.id ≠ b.id)
  | sameName (h : ¬ slaves.Pairwise fun a b => a.name ≠ b.name)
  | sameRegisterName (slave : Slave) (hmem : slave ∈ slaves)
      (h : ¬ (slave.inputRegisters ++ slave.outputRegisters).Pairwise
        fun a b => a.name ≠ b.name)
  | inputsIntersect (slave : Slave) (hmem : slave ∈ slaves)
      (h : ¬ slave.inputRegisters.Pairwise fun a b => ¬ Intersect a b)
  | outputsIntersect (slave : Slave) (hmem : slave ∈ slaves)
      (h : ¬ slave.outputRegisters.Pairwise fun a b => ¬ Intersect a b)
  | unknownDevice (given : Processors.Limits) (hlimits : limits = some given)
      (device : Bytes) (hdevice : device ∈ given.devices)
      (h : ∀ slave ∈ slaves, slave.name ≠ device)

/-! ## Spacing -/

/-- Registers of at least one word, at addresses that fit a Modbus word. -/
structure Plausible (registers : List Register) : Prop where
  address : ∀ register ∈ registers, 0 ≤ register.address ∧ register.address ≤ 65535
  words : ∀ register ∈ registers, 0 < register.words ∧ register.words ≤ 65535

theorem Register.Shaped.words_bounds {register : Register} (h : register.Shaped) :
    0 < register.words ∧ register.words ≤ 4 := by
  have hlength := h.length_eq
  have hnumeric := h.numeric
  unfold Register.words
  cases htype : register.type <;> simp only [htype, DataType.width] at hlength hnumeric <;>
    omega

theorem overlaps_eq_false_iff {left right : Register}
    (hleft : 0 ≤ left.address ∧ left.address ≤ 65535)
    (hright : 0 ≤ right.address ∧ right.address ≤ 65535) (hwords : left.words ≤ 65535) :
    overlaps left right = false ↔ left.address + left.words ≤ right.address := by
  have hleft' := sizeT_of_nonneg hleft.1 (by omega)
  have hright' := sizeT_of_nonneg hright.1 (by omega)
  rw [overlaps, decide_eq_false_iff_not, Nat.mod_eq_of_lt (by omega)]
  omega

theorem not_intersect_iff {a b : Register} (hwords : 0 < b.words)
    (hle : a.address ≤ b.address) :
    ¬ Intersect a b ↔ a.address + a.words ≤ b.address := by
  constructor
  · intro h
    by_contra hlt
    refine h ⟨b.address, ?_⟩
    simp only [Span.mem_iff, Register.span]
    omega
  · rintro h ⟨word, hword, hword'⟩
    simp only [Span.mem_iff, Register.span] at hword hword'
    omega

theorem Intersect.symm {a b : Register} : Intersect a b → Intersect b a :=
  fun ⟨word, ha, hb⟩ => ⟨word, hb, ha⟩

theorem hasAdjacent_overlaps_iff {registers : List Register} (h : Plausible registers) :
    hasAdjacent overlaps (sortByKey Register.address registers) = false ↔
      registers.Pairwise fun a b => ¬ Intersect a b := by
  let before : Register → Register → Prop :=
    fun a b => a.address + a.words ≤ b.address
  have : Trans before before before := ⟨fun {a b c} hab hbc => by
    simp only [before] at hab hbc ⊢
    omega⟩
  have : Std.Symm fun a b : Register => ¬ Intersect a b :=
    ⟨fun _ _ hab hba => hab hba.symm⟩
  refine hasAdjacent_sortByKey Register.address before ?_ ?_
  · intro a ha b hb _
    exact overlaps_eq_false_iff (h.address a ha) (h.address b hb)
      (h.words a ha).2
  · intro a _ b hb hle
    exact not_intersect_iff (h.words b hb).1 hle

/-! ## The whole validation -/

theorem Slave.fromJson_shaped {j : SlaveJson} {slave : Slave}
    (h : Slave.fromJson j = .ok slave) :
    ∀ register ∈ slave.inputRegisters ++ slave.outputRegisters, register.Shaped := by
  simp only [Slave.fromJson, bind_eq_ok] at h
  obtain ⟨name, -, id, -, pollTimeMs, -, inputs, hinputs, outputs, houtputs, -, -, h⟩ := h
  cases h
  intro register hmem
  rcases List.mem_append.mp hmem with hmem | hmem
  · obtain ⟨_, -, hjson⟩ := mem_mapM_ok hinputs hmem
    exact Register.fromJson_shaped hjson
  · obtain ⟨_, -, hjson⟩ := mem_mapM_ok houtputs hmem
    exact Register.fromJson_shaped hjson

theorem Slave.fromJson_nonempty {j : SlaveJson} {slave : Slave}
    (h : Slave.fromJson j = .ok slave) : slave.inputRegisters ++ slave.outputRegisters ≠ [] := by
  simp only [Slave.fromJson, bind_eq_ok] at h
  obtain ⟨name, -, id, -, pollTimeMs, -, inputs, -, outputs, -, _, hempty, h⟩ := h
  cases h
  have hempty := throwIf_eq_ok.mp hempty
  intro hnil
  obtain ⟨rfl, rfl⟩ : inputs = [] ∧ outputs = [] := List.append_eq_nil_iff.mp hnil
  simp at hempty

theorem rejected_checkSpacing_bind {α : Type} {registers : List Register}
    (h : Plausible registers) {rest : Unit → Except Throw α} :
    Rejected (checkSpacing registers >>= rest) ↔
      ¬ registers.Pairwise (fun a b => ¬ Intersect a b) ∨ Rejected (rest ()) := by
  rw [checkSpacing, rejected_throwIf_bind, ← hasAdjacent_overlaps_iff h,
    Bool.not_eq_false]

/-- The check of one slave, its input registers first. -/
theorem rejected_spacing_bind {α : Type} {slave : Slave}
    (hinputs : Plausible slave.inputRegisters) (houtputs : Plausible slave.outputRegisters)
    {rest : Unit → Except Throw α} :
    Rejected ((do
        checkSpacing slave.inputRegisters
        checkSpacing slave.outputRegisters) >>= rest) ↔
      (¬ slave.inputRegisters.Pairwise (fun a b => ¬ Intersect a b) ∨
        ¬ slave.outputRegisters.Pairwise (fun a b => ¬ Intersect a b)) ∨
      Rejected (rest ()) := by
  rw [bind_assoc, rejected_checkSpacing_bind hinputs, rejected_checkSpacing_bind houtputs,
    or_assoc]

theorem rejected_duplicate_bind {α β κ : Type} [LE κ] [LT κ] [DecidableLT κ]
    [DecidableEq κ] [Std.IsLinearOrder κ] [Std.LawfulOrderLT κ] {key : α → κ}
    {xs : List α} {message : Bytes} {rest : Unit → Except Throw β} :
    Rejected (throwIf (hasDuplicate key xs) message >>= rest) ↔
      ¬ xs.Pairwise (fun a b => key a ≠ key b) ∨ Rejected (rest ()) := by
  rw [rejected_throwIf_bind, ← hasDuplicate_eq_false_iff, Bool.not_eq_false]

/-- All register addresses fit a Modbus word. -/
def Addressable (slaves : List Slave) : Prop :=
  ∀ slave ∈ slaves, ∀ register ∈ slave.inputRegisters ++ slave.outputRegisters,
    0 ≤ register.address ∧ register.address ≤ 65535

theorem plausible_of_addressable {slavesJson : List SlaveJson} {slaves : List Slave}
    (hslaves : slavesJson.mapM Slave.fromJson = .ok slaves)
    (haddress : Addressable slaves) : ∀ slave ∈ slaves,
      Plausible slave.inputRegisters ∧ Plausible slave.outputRegisters := by
  intro slave hmem
  obtain ⟨_, -, hjson⟩ := mem_mapM_ok hslaves hmem
  have hregister : ∀ register ∈ slave.inputRegisters ++ slave.outputRegisters,
      (0 ≤ register.address ∧ register.address ≤ 65535) ∧
        0 < register.words ∧ register.words ≤ 65535 := by
    intro register hregister
    have hwords := (Slave.fromJson_shaped hjson register hregister).words_bounds
    exact ⟨haddress slave hmem register hregister, hwords.1, by omega⟩
  simp only [List.mem_append] at hregister
  exact ⟨⟨fun r hr => (hregister r (.inl hr)).1, fun r hr => (hregister r (.inl hr)).2⟩,
    fun r hr => (hregister r (.inr hr)).1, fun r hr => (hregister r (.inr hr)).2⟩

theorem rejected_iff_flaw {j : ModbusJson} {slaves : List Slave}
    {processors : Option Processors}
    (hslaves : (j.slaves.getD []).mapM Slave.fromJson = .ok slaves)
    (hprocessors : j.dataProcessors.mapM Processors.fromJson = .ok processors)
    (haddress : Addressable slaves) :
    Rejected (parseModbus j) ↔ Flaw slaves (processors.bind Processors.limits) := by
  cases hpresent : j.slaves with
  | none =>
      rw [hpresent] at hslaves
      cases hslaves
      refine iff_of_true ?_ (.noSlaves rfl)
      rw [parseModbus, hpresent]
      exact ⟨_, rfl⟩
  | some slavesJson =>
      rw [hpresent] at hslaves
      have hregisters := plausible_of_addressable hslaves haddress
      rw [Option.getD_some] at hslaves
      rw [parseModbus, hpresent]
      change Rejected (slavesJson.mapM Slave.fromJson >>= _) ↔ _
      rw [hslaves, ok_bind, rejected_throwIf_bind, checkRegisterAddressSpacing,
        rejected_forM_bind fun slave hmem _ =>
          rejected_spacing_bind (hregisters slave hmem).1 (hregisters slave hmem).2,
        checkDuplicateRegisterNames,
        rejected_forM_bind fun _ _ _ => rejected_duplicate_bind, checkDuplicateSlaveIDs,
        rejected_duplicate_bind, checkDuplicateSlaveNames, rejected_duplicate_bind,
        rejected_parseProcessors_bind hprocessors (by simp), List.isEmpty_iff]
      constructor
      · rintro (h | ⟨slave, hmem, h | h⟩ | ⟨slave, hmem, h⟩ | h | h |
          ⟨limits, hlimits, device, hdevice, h⟩)
        · exact .noSlaves h
        · exact .inputsIntersect slave hmem h
        · exact .outputsIntersect slave hmem h
        · exact .sameRegisterName slave hmem h
        · exact .sameId h
        · exact .sameName h
        · exact .unknownDevice limits hlimits device hdevice (by simpa using h)
      · intro h
        cases h with
        | noSlaves h => exact .inl h
        | inputsIntersect slave hmem h => exact .inr (.inl ⟨slave, hmem, .inl h⟩)
        | outputsIntersect slave hmem h => exact .inr (.inl ⟨slave, hmem, .inr h⟩)
        | sameRegisterName slave hmem h => exact .inr (.inr (.inl ⟨slave, hmem, h⟩))
        | sameId h => exact .inr (.inr (.inr (.inl h)))
        | sameName h => exact .inr (.inr (.inr (.inr (.inl h))))
        | unknownDevice limits hlimits device hdevice h =>
            refine .inr (.inr (.inr (.inr (.inr ⟨limits, hlimits, device, hdevice, ?_⟩))))
            simpa using h

/-- What the checks of an accepted configuration have established. -/
structure Checked (slaves : List Slave) : Prop where
  spacing : ∀ slave ∈ slaves,
    hasAdjacent overlaps (sortByKey Register.address slave.inputRegisters) = false ∧
      hasAdjacent overlaps (sortByKey Register.address slave.outputRegisters) = false
  ids : slaves.Pairwise fun a b => a.id ≠ b.id
  names : slaves.Pairwise fun a b => a.name ≠ b.name

theorem parseModbus_ok {j : ModbusJson} {slaves : List Slave} {processors : Processors}
    (h : parseModbus j = .ok (slaves, processors)) :
    (j.slaves.getD []).mapM Slave.fromJson = .ok slaves ∧ Checked slaves ∧
      parseProcessors (validateLimits (str "slave") (str "slaves")
        (slaves.map Slave.name)) j.dataProcessors = .ok processors := by
  unfold parseModbus at h
  obtain ⟨slavesJson, hjson, h⟩ := bind_eq_ok.mp h
  obtain ⟨slaves, hslaves, h⟩ := bind_eq_ok.mp h
  obtain ⟨-, h⟩ := throwIf_bind_eq_ok.mp h
  obtain ⟨_, hspacing, h⟩ := bind_eq_ok.mp h
  obtain ⟨_, -, h⟩ := bind_eq_ok.mp h
  obtain ⟨hids, h⟩ := throwIf_bind_eq_ok.mp h
  obtain ⟨hnames, h⟩ := throwIf_bind_eq_ok.mp h
  obtain ⟨processors, hprocessors, h⟩ := bind_eq_ok.mp h
  cases h
  refine ⟨?_, ⟨?_, hasDuplicate_eq_false_iff.mp hids,
    hasDuplicate_eq_false_iff.mp hnames⟩, hprocessors⟩
  · cases hpresent : j.slaves with
    | none =>
        rw [hpresent] at hjson
        cases hjson
    | some present =>
        rw [hpresent] at hjson
        cases hjson
        exact hslaves
  · intro slave hmem
    have hslave := forM_eq_ok.mp hspacing slave hmem
    obtain ⟨hinputs, hslave⟩ := throwIf_bind_eq_ok.mp hslave
    exact ⟨hinputs, (throwIf_eq_ok.mp hslave)⟩

/-- Plausible registers that share no word. -/
structure Spaced (registers : List Register) : Prop extends Plausible registers where
  apart : registers.Pairwise fun a b => ¬ Intersect a b

theorem spaced_of_parseModbus {j : ModbusJson} {slaves : List Slave}
    {processors : Processors} (h : parseModbus j = .ok (slaves, processors))
    (haddress : Addressable slaves) :
    ∀ slave ∈ slaves, Spaced slave.inputRegisters ∧ Spaced slave.outputRegisters := by
  intro slave hmem
  obtain ⟨hslaves, hchecked, -⟩ := parseModbus_ok h
  obtain ⟨hinputs, houtputs⟩ := plausible_of_addressable hslaves haddress slave hmem
  obtain ⟨hinputs', houtputs'⟩ := hchecked.spacing slave hmem
  exact ⟨⟨hinputs, (hasAdjacent_overlaps_iff hinputs).mp hinputs'⟩,
    houtputs, (hasAdjacent_overlaps_iff houtputs).mp houtputs'⟩

/-! The totalizer takes the words 0 to 3, and the temperature is declared between them. -/

def flowMeter : Slave where
  name := str "Flow meter"
  id := 2
  pollTimeMs := 1000
  inputRegisters := []
  outputRegisters := [⟨str "Flow", 3, [0, 1], .uint16⟩,
    ⟨str "Temperature", 8, [0, 1, 2, 3], .float⟩,
    ⟨str "Total", 0, [0, 1, 2, 3, 4, 5, 6, 7], .double⟩]

def flowMeterJson : ModbusJson where
  slaves := some [{
    name := some (str "Flow meter")
    id := some 2
    pollTimeMs := some 1000
    analogOutputRegisters := some [
      { name := some (str "Flow"), address := some 3, dataType := some (str "UINT_16A") },
      { name := some (str "Temperature"), address := some 8,
        dataType := some (str "FLOAT"), dataOrder := some (str "ABCD") },
      { name := some (str "Total"), address := some 0,
        dataType := some (str "FLOAT_64A") }] }]

theorem rejected_flowMeter : Rejected (parseModbus flowMeterJson) := by
  have hslaves : (flowMeterJson.slaves.getD []).mapM Slave.fromJson = .ok [flowMeter] := by
    decide +kernel
  have haddress : Addressable [flowMeter] := by
    simp [Addressable, flowMeter]
  refine (rejected_iff_flaw hslaves rfl haddress).mpr
    (.outputsIntersect flowMeter (by simp) ?_)
  have hmeet : Intersect ⟨str "Flow", 3, [0, 1], .uint16⟩
      ⟨str "Total", 0, [0, 1, 2, 3, 4, 5, 6, 7], .double⟩ :=
    ⟨3, by simp [Span.mem_iff, Register.span, Register.words]⟩
  simp [flowMeter, hmeet]

end Rdbus.Config.Modbus
