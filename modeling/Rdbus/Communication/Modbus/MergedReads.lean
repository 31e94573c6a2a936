import Rdbus.Communication.Modbus.Communicator
import Rdbus.Communication.Modbus.Decoding
import Rdbus.Communication.Modbus.PlanGroups

/-!
# Merged reads

A device with fixed register memories answers the merged requests of the plan
and the requests for single registers with the same names and values.
-/

namespace Rdbus.Communication.Modbus

open Foundation
open Config.Modbus

/-- The word ranges of two registers do not intersect. -/
def Apart (a b : Register) : Prop :=
  a.address + a.words ≤ b.address ∨ b.address + b.words ≤ a.address

instance : Std.Symm Apart where
  symm _ _ := Or.symm

/-- The registers of one kind of an accepted slave. -/
structure ConsistentKind (registers : List Register) : Prop where
  apart : registers.Pairwise Apart
  address : ∀ register ∈ registers,
    0 ≤ register.address ∧ register.address ≤ 65535
  ordered : ∀ register ∈ registers, WellOrdered register

/-- The content of the register memories, by function code and address. -/
abbrev Memory := MBFunctionCode → Int → UInt16

/-- The words `memory[ address .. address + n )`. -/
def readRange (memory : Int → UInt16) (address : Int) (n : Nat) : List UInt16 :=
  (List.range n).map fun (i : Nat) => memory (address + i)

def answer (memory : Memory) (request : ModbusRequest) : ModbusResponse :=
  ⟨request.slaveId.toNat, request.functionCode,
    readRange (memory request.functionCode) request.address.toNat
      request.registersNumber.toNat⟩

/-- A device that answers every read. -/
def device (memory : Memory) :
    Nat → ModbusRequest → Except Throw ModbusResponse :=
  fun _ request => .ok (answer memory request)

/-- One request for each register. -/
def singlePlan (slaveId : Int) (outputs inputs : List Register) :
    List RequestDescription :=
  (outputs.map fun register => describe slaveId .readAnalogOutputHoldingRegisters
    register.address [register]) ++
  (inputs.map fun register => describe slaveId .readAnalogInputRegisters
    register.address [register])

def nameAndValue (field : Data.Field) : Bytes × Option Variant :=
  (field.name, field.value)

/-- What a register reads as, from its own part of the memory. -/
def reading (memory : Memory) (code : MBFunctionCode) (register : Register) :
    Bytes × Option Variant :=
  (register.name, some (decodeValue register
    (readRange (memory code) register.address register.words)))

/-- What a slave reads as, its output registers first. -/
def readings (memory : Memory) (outputs inputs : List Register) :
    List (Bytes × Option Variant) :=
  outputs.map (reading memory .readAnalogOutputHoldingRegisters) ++
    inputs.map (reading memory .readAnalogInputRegisters)

/-! ## One request -/

@[simp] theorem length_readRange (memory : Int → UInt16) (address : Int) (n : Nat) :
    (readRange memory address n).length = n := by
  simp [readRange]

theorem readRange_add (memory : Int → UInt16) (address : Int) (m n : Nat) :
    readRange memory address (m + n) =
      readRange memory address m ++ readRange memory (address + m) n := by
  rw [readRange, List.range_add, List.map_append, List.map_map]
  congr 1
  apply List.map_congr_left
  intro i _
  simp [Int.add_assoc]

theorem pieces_contiguous (memory : Int → UInt16) {address : Int}
    {registers : List Register} (h : Contiguous address registers) :
    pieces registers (readRange memory address (sizes registers).sum) =
      registers.map fun register =>
        (readRange memory register.address register.words, register) := by
  induction registers generalizing address with
  | nil => rfl
  | cons register registers ih =>
      obtain ⟨rfl, hrest⟩ := h
      rw [sizes, List.map_cons, List.sum_cons, readRange_add, List.map_cons,
        ← ih hrest]
      simp [pieces, sizes]

/-- The request asks for exactly the words of its registers. -/
structure Exact (code : MBFunctionCode) (description : RequestDescription) :
    Prop where
  functionCode : description.request.functionCode = code
  contiguous : Contiguous description.request.address.toNat description.registers
  count : description.request.registersNumber.toNat = (sizes description.registers).sum

theorem Formed.exact {slaveId : Int} {code : MBFunctionCode}
    {description : RequestDescription} (h : Formed slaveId code description)
    (hstart : 0 ≤ description.extent.start ∧ description.extent.start ≤ 65535)
    (hcontiguous : Contiguous description.extent.start description.registers)
    (hlength : description.extent.length ≤ 65535) : Exact code description := by
  have hspan := (h.span_eq_iff hstart).mpr hlength
  rw [← hspan] at hcontiguous
  exact ⟨h.functionCode, hcontiguous, congrArg Span.length hspan⟩

theorem parse_answer (memory : Memory) {code : MBFunctionCode}
    {description : RequestDescription} (hexact : Exact code description)
    (husable : ∀ register ∈ description.registers, Usable register)
    (timestamp : Timestamp) :
    ∃ fields, parse (answer memory description.request) description.registers
        timestamp = .ok fields ∧
      fields.map nameAndValue = description.registers.map (reading memory code) := by
  refine ⟨_, parse_ok husable ?_ timestamp, ?_⟩
  · simp [answer, hexact.count]
  · rw [decodedFields, answer, hexact.count, hexact.functionCode,
      pieces_contiguous (memory code) hexact.contiguous, List.map_map, List.map_map]
    rfl

/-! ## A whole plan -/

theorem collect_exact (memory : Memory) (now : Nat → Timestamp)
    (plan : List RequestDescription)
    (hexact : ∀ description ∈ plan, ∃ code, Exact code description)
    (husable : ∀ description ∈ plan, ∀ register ∈ description.registers,
      Usable register)
    (k : Nat) (fields : List Data.Field) :
    ∃ collected, collect (device memory) now k fields plan = .ok collected ∧
      collected.map nameAndValue = fields.map nameAndValue ++
        plan.flatMap fun description => description.registers.map
          (reading memory description.request.functionCode) := by
  induction plan generalizing k fields with
  | nil => exact ⟨fields, rfl, by simp⟩
  | cons description plan ih =>
      obtain ⟨code, hdescription⟩ := hexact description (by simp)
      obtain ⟨parsed, hparse, hparsed⟩ := parse_answer memory hdescription
        (husable description (by simp)) (now k)
      obtain ⟨collected, hcollect, hcollected⟩ :=
        ih (fun other hmem => hexact other (by simp [hmem]))
          (fun other hmem => husable other (by simp [hmem]))
          (k + 1) (fields ++ parsed)
      refine ⟨collected, ?_, ?_⟩
      · rw [collect]
        change (parse (answer memory description.request) _ _ >>= _) = _
        rw [hparse]
        exact hcollect
      · rw [hcollected, List.map_append, hparsed, List.flatMap_cons,
          hdescription.functionCode, List.append_assoc]

/-- Exact requests for these registers, in this order. -/
structure Covers (code : MBFunctionCode) (registers : List Register)
    (plan : List RequestDescription) : Prop where
  exact : ∀ description ∈ plan, Exact code description
  inOrder : plan.flatMap RequestDescription.registers = registers

theorem Covers.mem {code : MBFunctionCode} {registers : List Register}
    {plan : List RequestDescription} (h : Covers code registers plan)
    {description : RequestDescription} (hmem : description ∈ plan) {register : Register}
    (hregister : register ∈ description.registers) : register ∈ registers := by
  rw [← h.inOrder]
  exact List.mem_flatMap.mpr ⟨description, hmem, hregister⟩

theorem Covers.reading {code : MBFunctionCode} {registers : List Register}
    {plan : List RequestDescription} (h : Covers code registers plan) (memory : Memory) :
    (plan.flatMap fun description => description.registers.map
        (reading memory description.request.functionCode)) =
      registers.map (reading memory code) := by
  rw [← h.inOrder, List.map_flatMap]
  apply List.flatMap_congr
  intro description hmem
  rw [(h.exact description hmem).functionCode]

/-- However the registers of the two kinds are grouped, the same fields are collected. -/
theorem collect_covering {outputs inputs : List Register}
    {plan₁ plan₂ : List RequestDescription}
    (h₁ : Covers .readAnalogOutputHoldingRegisters outputs plan₁)
    (h₂ : Covers .readAnalogInputRegisters inputs plan₂)
    (husable : ∀ register ∈ outputs ++ inputs, Usable register)
    (memory : Memory) (now : Nat → Timestamp) :
    ∃ collected, collect (device memory) now 0 [] (plan₁ ++ plan₂) = .ok collected ∧
      collected.map nameAndValue = readings memory outputs inputs := by
  have hexact : ∀ description ∈ plan₁ ++ plan₂, ∃ code, Exact code description := by
    intro description hmem
    rcases List.mem_append.mp hmem with hmem | hmem
    · exact ⟨_, h₁.exact description hmem⟩
    · exact ⟨_, h₂.exact description hmem⟩
  have husable' : ∀ description ∈ plan₁ ++ plan₂, ∀ register ∈ description.registers,
      Usable register := by
    intro description hmem register hregister
    apply husable
    rcases List.mem_append.mp hmem with hmem | hmem
    · exact List.mem_append_left _ (h₁.mem hmem hregister)
    · exact List.mem_append_right _ (h₂.mem hmem hregister)
  obtain ⟨collected, hcollect, hvalues⟩ :=
    collect_exact memory now (plan₁ ++ plan₂) hexact husable' 0 []
  refine ⟨collected, hcollect, ?_⟩
  rw [hvalues, List.flatMap_append, h₁.reading, h₂.reading]
  rfl

/-- A reply is as long as its request asks for, so that what it lacks is read past its end. -/
theorem count_of_collect_ok {memory : Memory} {now : Nat → Timestamp}
    {plan : List RequestDescription} {k : Nat} {fields collected : List Data.Field}
    (h : collect (device memory) now k fields plan = .ok collected) :
    ∀ description ∈ plan,
      (sizes description.registers).sum ≤ description.request.registersNumber.toNat := by
  induction plan generalizing k fields with
  | nil => simp
  | cons description plan ih =>
      obtain ⟨response, hresponse, h⟩ := bind_eq_ok.mp h
      obtain ⟨parsed, hparse, hrest⟩ := bind_eq_ok.mp h
      cases hresponse
      refine List.forall_mem_cons.mpr ⟨?_, ih hrest⟩
      by_contra hshort
      rw [parse_short (by simpa [answer] using hshort)] at hparse
      cases hparse

/-! ## The plan of one kind -/

private theorem words_le {register : Register} (h : WellOrdered register) :
    0 < register.words ∧ register.words ≤ 4 := by
  have hnumeric := h.numeric
  rw [Register.words, h.length_eq]
  revert hnumeric
  cases register.type <;> decide

namespace ConsistentKind

variable {registers : List Register}

theorem spaced (h : ConsistentKind registers) : Spaced registers where
  address := h.address
  words register hmem := by
    have := words_le (h.ordered register hmem)
    omega
  apart := h.apart.imp fun {a b} hapart hmeet => by
    obtain ⟨word, hword, hword'⟩ := hmeet
    simp only [Span.mem_iff, Register.span] at hword hword'
    unfold Apart at hapart
    omega

theorem eq_of_address_eq (h : ConsistentKind registers) {a b : Register} (ha : a ∈ registers)
    (hb : b ∈ registers) (heq : a.address = b.address) : a = b := by
  by_contra hne
  have hapart := h.apart.forall ha hb hne
  have hwordsA := (words_le (h.ordered a ha)).1
  have hwordsB := (words_le (h.ordered b hb)).1
  unfold Apart at hapart
  omega

theorem sortByKey_eq (h : ConsistentKind registers) {ordered : List Register}
    (hperm : ordered.Perm registers)
    (hsorted : ordered.Pairwise fun a b => a.address ≤ b.address) :
    sortByKey Register.address registers = ordered :=
  (eq_sortByKey _ hperm hsorted fun _ ha _ hb => h.eq_of_address_eq ha hb).symm

theorem covers (h : ConsistentKind registers) (hruns : RunsWithin 65535 registers)
    {slaveId : Int} {code : MBFunctionCode} {plan : List RequestDescription}
    (hgrouped : Grouped slaveId code registers plan) :
    Covers code (sortByKey Register.address registers) plan where
  inOrder := hgrouped.inOrder
  exact description hmem := by
    have hformed := hgrouped.formed description hmem
    obtain ⟨first, hfirst, -⟩ := hformed.start
    refine hformed.exact ?_ (hgrouped.contiguous description hmem)
      ((hgrouped.runsWithin_iff h.spaced).mp hruns description hmem)
    rw [extent_start hfirst]
    exact h.address first (hgrouped.mem_iff.mpr ⟨_, hmem, List.mem_of_head? hfirst⟩)

theorem covers_singles (h : ConsistentKind registers) {ordered : List Register}
    (hperm : ordered.Perm registers) (slaveId : Int) (code : MBFunctionCode) :
    Covers code ordered (ordered.map fun register =>
      describe slaveId code register.address [register]) where
  exact := by
    rw [List.forall_mem_map]
    intro register hmem
    have hmem := hperm.mem_iff.mp hmem
    have hwords := words_le (h.ordered register hmem)
    have hformed : Formed slaveId code (describe slaveId code register.address [register]) :=
      ⟨⟨register, rfl, rfl⟩, by simp [describe]⟩
    refine hformed.exact (h.address register hmem) ⟨rfl, trivial⟩ ?_
    simp only [RequestDescription.extent, describe, List.map_cons, List.map_nil, List.sum_cons,
      List.sum_nil]
    omega
  inOrder := by simp [List.flatMap_map, describe]

end ConsistentKind

theorem usable_sorted {slave : Slave} (houtputs : ConsistentKind slave.outputRegisters)
    (hinputs : ConsistentKind slave.inputRegisters) {outputs inputs : List Register}
    (houtPerm : outputs.Perm slave.outputRegisters)
    (hinPerm : inputs.Perm slave.inputRegisters) :
    ∀ register ∈ outputs ++ inputs, Usable register := by
  intro register hmem
  rcases List.mem_append.mp hmem with hmem | hmem
  · exact (houtputs.ordered register (houtPerm.mem_iff.mp hmem)).usable
  · exact (hinputs.ordered register (hinPerm.mem_iff.mp hmem)).usable

theorem request_readings {slave : Slave} (houtputs : ConsistentKind slave.outputRegisters)
    (hinputs : ConsistentKind slave.inputRegisters)
    (hruns : RunsWithin 65535 slave.outputRegisters)
    (hruns' : RunsWithin 65535 slave.inputRegisters)
    (memory : Memory) (pastEnd : Int) (now : Nat → Timestamp) :
    ∃ merged, request (.ok pastEnd) (device memory) now slave =
        .ok { deviceName := slave.name, fields := merged } ∧
      merged.map nameAndValue = readings memory
        (sortByKey Register.address slave.outputRegisters)
        (sortByKey Register.address slave.inputRegisters) := by
  obtain ⟨plan₁, plan₂, hplan, hout, hin⟩ := requestPlan_grouped
    houtputs.spaced.toPlausible hinputs.spaced.toPlausible pastEnd
  obtain ⟨merged, hmerged, hvalues⟩ := collect_covering (houtputs.covers hruns hout)
    (hinputs.covers hruns' hin)
    (usable_sorted houtputs hinputs (perm_sortByKey _ _) (perm_sortByKey _ _)) memory now
  refine ⟨merged, ?_, hvalues⟩
  rw [request, hplan, ok_bind, hmerged]
  rfl

theorem runsWithin_of_request_ok {slave : Slave}
    (houtputs : ConsistentKind slave.outputRegisters)
    (hinputs : ConsistentKind slave.inputRegisters) {memory : Memory} {pastEnd : Int}
    {now : Nat → Timestamp} {merged : List Data.Field}
    (h : request (.ok pastEnd) (device memory) now slave =
      .ok { deviceName := slave.name, fields := merged }) :
    RunsWithin 65535 slave.outputRegisters ∧ RunsWithin 65535 slave.inputRegisters := by
  obtain ⟨plan₁, plan₂, hplan, hout, hin⟩ := requestPlan_grouped
    houtputs.spaced.toPlausible hinputs.spaced.toPlausible pastEnd
  rw [request, hplan, ok_bind] at h
  have hcount : ∀ description ∈ plan₁ ++ plan₂, description.extent.length ≤ 65535 := by
    intro description hmem
    cases hcollect : collect (device memory) now 0 [] (plan₁ ++ plan₂) with
    | error e => cases e <;> simp [hcollect, caught] at h
    | ok collected =>
        exact (count_of_collect_ok hcollect description hmem).trans
          (Nat.le_of_lt_succ description.request.registersNumber.toNat_lt)
  rw [List.forall_mem_append] at hcount
  exact ⟨(hout.runsWithin_iff houtputs.spaced).mpr hcount.1,
    (hin.runsWithin_iff hinputs.spaced).mpr hcount.2⟩

/--
The fields of the planned requests and the fields read register by register
are those of the memory: outputs first, then inputs, each in this order.
-/
def ReadsAgree (memory : Memory) (pastEnd : Int) (now now' : Nat → Timestamp) (slave : Slave)
    (outputs inputs : List Register) : Prop :=
  ∃ merged single,
    request (.ok pastEnd) (device memory) now slave =
      .ok { deviceName := slave.name, fields := merged } ∧
    collect (device memory) now' 0 [] (singlePlan slave.id outputs inputs) = .ok single ∧
    merged.map nameAndValue = readings memory outputs inputs ∧
    single.map nameAndValue = readings memory outputs inputs

/-- Merged reads agree with single reads exactly if no count wraps around. -/
theorem readsAgree_iff_runsWithin {slave : Slave}
    (houtputs : ConsistentKind slave.outputRegisters)
    (hinputs : ConsistentKind slave.inputRegisters)
    (outputs inputs : List Register)
    (houtPerm : outputs.Perm slave.outputRegisters)
    (houtSorted : outputs.Pairwise fun a b => a.address ≤ b.address)
    (hinPerm : inputs.Perm slave.inputRegisters)
    (hinSorted : inputs.Pairwise fun a b => a.address ≤ b.address)
    (memory : Memory) (pastEnd : Int) (now now' : Nat → Timestamp) :
    ReadsAgree memory pastEnd now now' slave outputs inputs ↔
      RunsWithin 65535 slave.outputRegisters ∧ RunsWithin 65535 slave.inputRegisters := by
  constructor
  · rintro ⟨merged, single, hmerged, -⟩
    exact runsWithin_of_request_ok houtputs hinputs hmerged
  · rintro ⟨hruns, hruns'⟩
    obtain ⟨merged, hmerged, hmergedValues⟩ :=
      request_readings houtputs hinputs hruns hruns' memory pastEnd now
    obtain ⟨single, hsingle, hsingleValues⟩ := collect_covering
      (houtputs.covers_singles houtPerm slave.id .readAnalogOutputHoldingRegisters)
      (hinputs.covers_singles hinPerm slave.id .readAnalogInputRegisters)
      (usable_sorted houtputs hinputs houtPerm hinPerm) memory now'
    rw [houtputs.sortByKey_eq houtPerm houtSorted, hinputs.sortByKey_eq hinPerm hinSorted]
      at hmergedValues
    exact ⟨merged, single, hmerged, hsingle, hmergedValues, hsingleValues⟩

/-! Torque and shaft speed are adjacent, power is not, and they are declared unsorted. -/

def torque : Register := ⟨str "Torque", 130, [2, 3, 0, 1], .uint32⟩
def shaftSpeed : Register := ⟨str "Shaft speed", 132, [0, 1], .uint16⟩
def power : Register := ⟨str "Power", 140, [0, 1, 2, 3], .float⟩

def torqueMeter : Slave := ⟨str "Torque meter", 1, 7000, [], [power, shaftSpeed, torque]⟩

theorem consistent_torqueMeter : ConsistentKind torqueMeter.outputRegisters ∧
    ConsistentKind torqueMeter.inputRegisters := by
  refine ⟨⟨?_, ?_, ?_⟩, ⟨.nil, by simp [torqueMeter], by simp [torqueMeter]⟩⟩
  · simp [torqueMeter, Apart, power, shaftSpeed, torque, Register.words]
  · simp [torqueMeter, power, shaftSpeed, torque]
  · have hordered : ∀ register ∈ [power, shaftSpeed, torque],
        0 < register.type.width ∧
          register.byteOrder.Perm (List.range register.type.width) := by decide
    exact fun register hmem => ⟨(hordered register hmem).1, (hordered register hmem).2⟩

theorem runsWithin_torqueMeter : RunsWithin 65535 torqueMeter.outputRegisters ∧
    RunsWithin 65535 torqueMeter.inputRegisters :=
  ⟨runsWithin_of_sum_le consistent_torqueMeter.1.spaced (by decide),
    runsWithin_of_sum_le consistent_torqueMeter.2.spaced (by decide)⟩

theorem readsAgree_torqueMeter : ReadsAgree (fun _ address => UInt16.ofNat address.toNat) 0
    (fun _ => 0) (fun _ => 0) torqueMeter [torque, shaftSpeed, power] [] := by
  refine (readsAgree_iff_runsWithin consistent_torqueMeter.1 consistent_torqueMeter.2
    [torque, shaftSpeed, power] [] ?_ ?_ .nil .nil _ _ _ _).mpr runsWithin_torqueMeter
  · decide
  · decide

theorem consistent_recorder {samples : Nat} (hle : samples ≤ 16384) :
    ConsistentKind (recorder samples).outputRegisters := by
  constructor
  case apart =>
    rw [recorder, List.pairwise_map]
    exact List.pairwise_lt_range.imp fun hik => .inl (by simp [sample, Register.words]; omega)
  case address =>
    simpa [Addressable, recorder] using addressable_recorder hle
  case ordered =>
    simp only [recorder, List.forall_mem_map]
    exact fun i _ => ⟨by simp [sample, DataType.width], .refl _⟩

theorem sizes_recorder (samples : Nat) :
    (sizes (recorder samples).outputRegisters).sum = 4 * samples :=
  (contiguous_samples samples).2

/-- The only request asks for no words, so that its reply is read past the end. -/
theorem recorder_not_readsAgree :
    parseModbus { slaves := some [(recorder 16384).toJson] } = .ok ([recorder 16384], {}) ∧
      ConsistentKind (recorder 16384).outputRegisters ∧
      ∀ memory now, request (.ok 0) (device memory) now (recorder 16384) =
          .error .undefinedBehaviour ∧
        ∀ now' outputs inputs,
          ¬ ReadsAgree memory 0 now now' (recorder 16384) outputs inputs := by
  have hvalid := valid_recorder (by decide) (Nat.le_refl 16384)
  have hparse := parseModbus_toJson hvalid (addressable_recorder (Nat.le_refl 16384))
  refine ⟨hparse, consistent_recorder (Nat.le_refl 16384), fun memory now => ?_⟩
  have hrequest : request (.ok 0) (device memory) now (recorder 16384) =
      .error .undefinedBehaviour := by
    rw [request, requestPlan_recorder (by decide) (Nat.le_refl 16384), ok_bind, collect, device,
      ok_bind, parse_short (by rw [sizes_recorder]; simp [answer])]
    rfl
  refine ⟨hrequest, ?_⟩
  rintro now' outputs inputs ⟨merged, single, hmerged, -⟩
  cases hrequest.symm.trans hmerged

end Rdbus.Communication.Modbus
