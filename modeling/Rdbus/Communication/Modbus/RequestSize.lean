import Rdbus.Communication.Modbus.PlanGroups

/-!
# The size of a request

A read of functions 0x03 and 0x04 asks for 1 to 125 registers.  Only a gap
between registers ends a group, so the requests of a plan keep to the limit
exactly when no run of adjacent registers is longer.
-/

namespace Rdbus.Communication.Modbus

open Foundation
open Config.Modbus

def maxReadCount : Nat := 125

/-- One read carries each request, and each register is part of one request. -/
structure Carried (slave : Slave) (plan : List RequestDescription) : Prop where
  count : ∀ description ∈ plan, 1 ≤ description.request.registersNumber.toNat ∧
    description.request.registersNumber.toNat ≤ maxReadCount
  whole : ∀ description ∈ plan, description.span.elements =
    description.registers.flatMap fun register => register.span.elements
  uncut : (plan.flatMap RequestDescription.registers).Perm
    (slave.outputRegisters ++ slave.inputRegisters)

/-- No registers that follow one another without a gap take more words than a read. -/
def RunsFit (registers : List Register) : Prop := RunsWithin maxReadCount registers

theorem Grouped.runsFit_iff {slaveId : Int} {code : MBFunctionCode} {registers : List Register}
    {plan : List RequestDescription} (h : Grouped slaveId code registers plan)
    (hspaced : Spaced registers) :
    RunsFit registers ↔ ∀ description ∈ plan,
      (1 ≤ description.request.registersNumber.toNat ∧
        description.request.registersNumber.toNat ≤ maxReadCount) ∧
      description.span.elements =
        description.registers.flatMap fun register => register.span.elements := by
  have hlength : ∀ description : RequestDescription,
      description.span.length = description.request.registersNumber.toNat := fun _ => rfl
  rw [RunsFit, h.runsWithin_iff hspaced]
  refine forall₂_congr fun description hmem => ?_
  have hspan := h.span_eq_iff hspaced.toPlausible hmem
  rw [← hlength]
  constructor
  · intro hfit
    rw [hspan.mpr (hfit.trans (by decide))]
    exact ⟨⟨h.length_pos hspaced.toPlausible hmem, hfit⟩,
      elements_extent (h.contiguous description hmem)⟩
  · rintro ⟨⟨-, hcount⟩, hwhole⟩
    rwa [hspan.mpr (h.length_le_of_exact hmem hwhole)] at hcount

theorem carried_iff_runsFit {j : ModbusJson} {slaves : List Slave}
    {processors : Config.Processors} (h : parseModbus j = .ok (slaves, processors))
    (haddress : Addressable slaves) {slave : Slave} (hslave : slave ∈ slaves)
    (pastEnd : Int) :
    ∃ plan, requestPlan (.ok pastEnd) slave = .ok plan ∧
      (Carried slave plan ↔
        RunsFit slave.outputRegisters ∧ RunsFit slave.inputRegisters) := by
  obtain ⟨hinputs, houtputs⟩ := spaced_of_parseModbus h haddress slave hslave
  obtain ⟨outputs, inputs, hplan, hout, hin⟩ :=
    requestPlan_grouped houtputs.toPlausible hinputs.toPlausible pastEnd
  refine ⟨outputs ++ inputs, hplan, ?_⟩
  rw [hout.runsFit_iff houtputs, hin.runsFit_iff hinputs, ← List.forall_mem_append]
  constructor
  · exact fun hcarried description hmem =>
      ⟨hcarried.count description hmem, hcarried.whole description hmem⟩
  · intro hfit
    refine ⟨fun description hmem => (hfit description hmem).1,
      fun description hmem => (hfit description hmem).2, ?_⟩
    rw [List.flatMap_append, hout.inOrder, hin.inOrder]
    exact (perm_sortByKey _ _).append (perm_sortByKey _ _)

theorem addressable_subsequent : Addressable [subsequent] := by
  unfold Addressable
  decide

theorem carried_iff_runsFit_subsequent :
    ∃ plan, requestPlan (.ok 0) subsequent = .ok plan ∧ Carried subsequent plan ∧
      RunsFit subsequent.outputRegisters ∧ RunsFit subsequent.inputRegisters := by
  obtain ⟨plan, hplan, hiff⟩ := carried_iff_runsFit parseModbus_subsequent
    addressable_subsequent (List.mem_singleton_self _) 0
  have hcomputed : requestPlan (.ok 0) subsequent = .ok
      [⟨⟨1, .readAnalogOutputHoldingRegisters, 106, 3⟩, subsequent.outputRegisters⟩,
        ⟨⟨1, .readAnalogInputRegisters, 100, 6⟩, subsequent.inputRegisters⟩] := by
    decide +kernel
  cases hplan.symm.trans hcomputed
  refine ⟨_, hplan, ?_⟩
  rw [and_iff_left_of_imp hiff.mp]
  exact ⟨by simp [maxReadCount], by decide, List.Perm.refl _⟩

/-! 32 registers of four words each, without a gap. -/

def trend : Slave where
  name := str "Trend"
  id := 1
  pollTimeMs := 1000
  inputRegisters := []
  outputRegisters := (List.range 32).map fun i =>
    ⟨[UInt8.ofNat i], 4 * i, [0, 1, 2, 3, 4, 5, 6, 7], .double⟩

def trendJson : ModbusJson where
  slaves := some [{
    name := some (str "Trend")
    id := some 1
    pollTimeMs := some 1000
    analogOutputRegisters := some ((List.range 32).map fun i =>
      { name := some [UInt8.ofNat i], address := some (4 * i),
        dataType := some (str "FLOAT_64A") }) }]

theorem trend_not_carried :
    parseModbus trendJson = .ok ([trend], {}) ∧ Addressable [trend] ∧
      ∃ plan, requestPlan (.ok 0) trend = .ok plan ∧
        (plan.map fun description => description.request.registersNumber.toNat) = [128] ∧
        ¬ Carried trend plan := by
  refine ⟨by decide +kernel, ?_, ?_⟩
  · simp only [Addressable, List.forall_mem_singleton, trend, List.nil_append,
      List.forall_mem_map, List.mem_range]
    omega
  · have hplan : requestPlan (.ok 0) trend = .ok
        [⟨⟨1, .readAnalogOutputHoldingRegisters, 0, 128⟩, trend.outputRegisters⟩] := by
      decide +kernel
    refine ⟨_, hplan, rfl, fun h => ?_⟩
    simpa [maxReadCount] using h.count

end Rdbus.Communication.Modbus
