import Rdbus.Communication.Modbus.RequestPlanner
import Rdbus.Config.ModbusAcceptance

/-!
# The groups of a plan

As long as the count of no request wraps around, the requests of one kind read
exactly the configured words, each once, and the words read by two requests are
never adjacent.  So no gap-free reads of the same words are fewer.
-/

namespace Rdbus.Communication.Modbus

open Foundation
open Config.Modbus

/-- The words `[address, address + count)` the request asks for. -/
def RequestDescription.span (description : RequestDescription) : Span :=
  ⟨description.request.address.toNat, description.request.registersNumber.toNat⟩

def Configured (registers : List Register) (word : Int) : Prop :=
  ∃ register ∈ registers, word ∈ register.span

structure KindPlan (slaveId : Int) (code : MBFunctionCode) (registers : List Register)
    (plan : List RequestDescription) : Prop where
  addressed : ∀ description ∈ plan, description.request.slaveId = UInt8.ofInt slaveId ∧
    description.request.functionCode = code
  inOrder : plan.flatMap RequestDescription.registers =
    sortByKey Register.address registers
  empty : registers = [] → plan = []
  exact : ∀ description ∈ plan, description.span.elements =
    description.registers.flatMap fun register => register.span.elements
  complete : ∀ word, (∃ description ∈ plan, word ∈ description.span) ↔
    Configured registers word
  once : (plan.flatMap fun description => description.span.elements).Pairwise (· < ·)
  gap : plan.IsChain fun description next => ∃ word,
    description.span.stop ≤ word ∧ word < next.span.start ∧ ¬ Configured registers word
  minimal : ∀ reads : List Span,
    (∀ read ∈ reads, ∀ word ∈ read, Configured registers word) →
    (∀ word, Configured registers word → Span.Covered reads word) →
    plan.length ≤ reads.length

/-- No registers that follow one another without a gap take more words than this. -/
def RunsWithin (bound : Nat) (registers : List Register) : Prop :=
  ∀ address run, (∀ register ∈ run, register ∈ registers) → Contiguous address run →
    (run.map Register.words).sum ≤ bound

/-! ## One group -/

/-- The words of the registers, from the first one on. -/
def RequestDescription.extent (description : RequestDescription) : Span :=
  ⟨(description.registers.head?.map Register.address).getD 0,
    (description.registers.map Register.words).sum⟩

theorem elements_contiguous {address : Int} {group : List Register}
    (h : Contiguous address group) :
    Span.elements ⟨address, (group.map Register.words).sum⟩ =
      group.flatMap fun register => register.span.elements := by
  induction group generalizing address with
  | nil => rfl
  | cons register group ih =>
      obtain ⟨rfl, hrest⟩ := h
      rw [List.map_cons, List.sum_cons, Span.elements_add, ih hrest]
      rfl

theorem elements_extent {description : RequestDescription}
    (h : Contiguous description.extent.start description.registers) :
    description.extent.elements =
      description.registers.flatMap fun register => register.span.elements :=
  elements_contiguous h

theorem mem_extent {description : RequestDescription}
    (h : Contiguous description.extent.start description.registers) {word : Int} :
    word ∈ description.extent ↔ Configured description.registers word := by
  rw [← Span.mem_elements, elements_extent h]
  simp [Configured, Span.mem_elements]

theorem extent_start {description : RequestDescription} {first : Register}
    (hfirst : description.registers.head? = some first) :
    description.extent.start = first.address := by
  rw [RequestDescription.extent, hfirst]
  rfl

theorem extent_stop {description : RequestDescription}
    (h : Contiguous description.extent.start description.registers) {last : Register}
    (hlast : description.registers.getLast? = some last) :
    description.extent.stop = last.span.stop := by
  have hlength : description.extent.length = (description.registers.map Register.words).sum :=
    rfl
  obtain ⟨group, hgroup⟩ := List.getLast?_eq_some_iff.mp hlast
  rw [hgroup] at h hlength
  have hstart := (contiguous_append.mp h).2.1
  simp only [List.map_append, List.map_cons, List.map_nil, List.sum_append,
    List.sum_cons, List.sum_nil] at hlength
  simp only [Span.stop, Register.span]
  omega

/-- Only the count can be too large for the request. -/
theorem Formed.span_eq_iff {slaveId : Int} {code : MBFunctionCode}
    {description : RequestDescription} (h : Formed slaveId code description)
    (hstart : 0 ≤ description.extent.start ∧ description.extent.start ≤ 65535) :
    description.span = description.extent ↔ description.extent.length ≤ 65535 := by
  obtain ⟨first, hfirst, -⟩ := h.start
  have haddress : (description.request.address.toNat : Int) = description.extent.start := by
    rw [extent_start hfirst] at hstart ⊢
    rw [h.address hfirst, UInt16.ofInt, UInt16.toNat_ofNat']
    omega
  have hcount : description.request.registersNumber.toNat =
      description.extent.length % 65536 := by
    rw [h.count, UInt16.toNat_ofNat']
    rfl
  rw [RequestDescription.span, haddress, hcount]
  constructor
  · intro hspan
    have hlength := congrArg Span.length hspan
    simp only at hlength
    omega
  · intro hlength
    rw [Nat.mod_eq_of_lt (by omega)]

/-! ## The plan of registers that share no word -/

theorem sorted_of_spaced {registers : List Register} (h : Spaced registers) :
    (sortByKey Register.address registers).Pairwise fun a b =>
      a.span.stop ≤ b.span.start := by
  have hapart : (sortByKey Register.address registers).Pairwise fun a b => ¬ Intersect a b :=
    ((perm_sortByKey _ _).pairwise_iff fun hab hba => hab hba.symm).mpr h.apart
  refine ((pairwise_sortByKey Register.address registers).and hapart).imp_of_mem ?_
  intro a b _ hb hab
  exact (not_intersect_iff (h.words b (mem_sortByKey.mp hb)).1 hab.1).mp hab.2

structure Grouped (slaveId : Int) (code : MBFunctionCode) (registers : List Register)
    (plan : List RequestDescription) : Prop extends Collected slaveId code registers plan where
  contiguous : ∀ description ∈ plan,
    Contiguous description.extent.start description.registers

theorem Collected.grouped {slaveId : Int} {code : MBFunctionCode} {registers : List Register}
    {plan : List RequestDescription} (h : Collected slaveId code registers plan)
    (hregisters : Plausible registers) : Grouped slaveId code registers plan where
  toCollected := h
  contiguous description hmem := by
    have hformed := h.formed description hmem
    have hregister : ∀ register ∈ description.registers, register ∈ registers :=
      fun register hregister => h.mem_iff.mpr ⟨description, hmem, hregister⟩
    obtain ⟨first, hfirst, -⟩ := hformed.start
    rw [extent_start hfirst]
    exact (contiguous_iff_isChain
      (fun register hmem => hregisters.address register (hregister register hmem))
      (fun register hmem => (hregisters.words register (hregister register hmem)).2)
      hfirst).mpr hformed.joined

namespace Grouped

variable {slaveId : Int} {code : MBFunctionCode} {registers : List Register}
  {plan : List RequestDescription}

theorem covered_iff (h : Grouped slaveId code registers plan) {word : Int} :
    Span.Covered (plan.map RequestDescription.extent) word ↔ Configured registers word := by
  simp only [Span.Covered, List.mem_map, exists_exists_and_eq_and, Configured, h.mem_iff]
  constructor
  · rintro ⟨description, hmem, hword⟩
    obtain ⟨register, hregister, hword⟩ := (mem_extent (h.contiguous description hmem)).mp hword
    exact ⟨register, ⟨description, hmem, hregister⟩, hword⟩
  · rintro ⟨register, ⟨description, hmem, hregister⟩, hword⟩
    exact ⟨description, hmem,
      (mem_extent (h.contiguous description hmem)).mpr ⟨register, hregister, hword⟩⟩

theorem length_pos (h : Grouped slaveId code registers plan) (hregisters : Plausible registers)
    {description : RequestDescription} (hmem : description ∈ plan) :
    0 < description.extent.length := by
  obtain ⟨register, hregister⟩ :=
    List.exists_mem_of_ne_nil _ (h.formed description hmem).nonempty
  have hwords := (hregisters.words register (h.mem_iff.mpr ⟨_, hmem, hregister⟩)).1
  exact hwords.trans_le (List.le_sum_of_mem (List.mem_map_of_mem hregister))

theorem separated (h : Grouped slaveId code registers plan) (hspaced : Spaced registers) :
    (plan.map RequestDescription.extent).Pairwise Span.Separated := by
  have hordered := sorted_of_spaced hspaced
  rw [← h.inOrder, List.pairwise_flatMap] at hordered
  rw [← List.isChain_iff_pairwise, List.isChain_map, List.isChain_iff_getElem]
  intro i hi
  obtain ⟨last, first, hlast, hfirst, hbreak⟩ := List.isChain_iff_getElem.mp h.broken i hi
  have hmem := List.getElem_mem (Nat.lt_of_succ_lt hi)
  have hmem' := List.getElem_mem hi
  have hlast' : last ∈ plan[i].registers := List.mem_of_getLast? hlast
  have hfirst' : first ∈ plan[i + 1].registers := List.mem_of_head? hfirst
  have hle : last.span.stop ≤ first.span.start :=
    List.pairwise_iff_getElem.mp hordered.2 i (i + 1) _ hi (Nat.lt_succ_self i)
      last hlast' first hfirst'
  have hregister := h.mem_iff.mpr ⟨_, hmem, hlast'⟩
  rw [adjacent_iff (hspaced.address last hregister)
    (hspaced.address first (h.mem_iff.mpr ⟨_, hmem', hfirst'⟩))
    (hspaced.words last hregister).2] at hbreak
  rw [Span.Separated, extent_stop (h.contiguous _ hmem) hlast, extent_start hfirst]
  simp only [Span.stop, Register.span] at hle ⊢
  omega

theorem runsWithin_iff (h : Grouped slaveId code registers plan) (hspaced : Spaced registers)
    {bound : Nat} : RunsWithin bound registers ↔
      ∀ description ∈ plan, description.extent.length ≤ bound := by
  constructor
  · intro hruns description hmem
    apply hruns _ _ _ (h.contiguous description hmem)
    exact fun register hregister => h.mem_iff.mpr ⟨description, hmem, hregister⟩
  · intro hcount address run hrun hcontiguous
    by_cases hpos : 0 < (run.map Register.words).sum
    · have hcovered : ∀ word ∈ (⟨address, (run.map Register.words).sum⟩ : Span),
          Span.Covered (plan.map RequestDescription.extent) word := by
        intro word hword
        rw [h.covered_iff]
        rw [← Span.mem_elements, elements_contiguous hcontiguous] at hword
        obtain ⟨register, hregister, hword⟩ := List.mem_flatMap.mp hword
        exact ⟨register, hrun register hregister, Span.mem_elements.mp hword⟩
      obtain ⟨span, hspan, hsubset⟩ :=
        Span.exists_subset (h.separated hspaced) hpos hcovered
      obtain ⟨description, hmem, rfl⟩ := List.mem_map.mp hspan
      exact (Span.length_le_of_subset hpos hsubset).trans (hcount description hmem)
    · omega

theorem span_eq_iff (h : Grouped slaveId code registers plan) (hregisters : Plausible registers)
    {description : RequestDescription} (hmem : description ∈ plan) :
    description.span = description.extent ↔ description.extent.length ≤ 65535 := by
  have hformed := h.formed description hmem
  obtain ⟨first, hfirst, -⟩ := hformed.start
  apply hformed.span_eq_iff
  rw [extent_start hfirst]
  exact hregisters.address first
    (h.mem_iff.mpr ⟨description, hmem, List.mem_of_head? hfirst⟩)

theorem length_le (h : Grouped slaveId code registers plan) (hspaced : Spaced registers)
    {reads : List Span}
    (hinside : ∀ read ∈ reads, ∀ word ∈ read, Configured registers word)
    (hcover : ∀ word, Configured registers word → Span.Covered reads word) :
    plan.length ≤ reads.length := by
  rw [← List.length_map RequestDescription.extent]
  apply Span.length_le_of_cover (h.separated hspaced)
  · intro span hspan
    obtain ⟨description, hmem, rfl⟩ := List.mem_map.mp hspan
    exact h.length_pos hspaced.toPlausible hmem
  · exact fun read hread word hword => h.covered_iff.mpr (hinside read hread word hword)
  · exact fun span hspan word hword => hcover word (h.covered_iff.mp ⟨span, hspan, hword⟩)

theorem separated_span (h : Grouped slaveId code registers plan) (hspaced : Spaced registers)
    (hspan : ∀ description ∈ plan, description.span = description.extent) :
    plan.Pairwise fun a b => Span.Separated a.span b.span := by
  rw [← List.pairwise_map, List.map_congr_left hspan]
  exact h.separated hspaced

theorem once (h : Grouped slaveId code registers plan) (hspaced : Spaced registers)
    (hspan : ∀ description ∈ plan, description.span = description.extent) :
    (plan.flatMap fun description => description.span.elements).Pairwise (· < ·) := by
  rw [List.pairwise_flatMap]
  refine ⟨fun description _ => description.span.pairwise_elements, ?_⟩
  refine (h.separated_span hspaced hspan).imp ?_
  intro a b hab x hx y hy
  rw [Span.mem_elements, Span.mem_iff] at hx hy
  simp only [Span.Separated, Span.stop] at hab
  omega

theorem gap (h : Grouped slaveId code registers plan) (hspaced : Spaced registers)
    (hspan : ∀ description ∈ plan, description.span = description.extent) :
    plan.IsChain fun description next => ∃ word,
      description.span.stop ≤ word ∧ word < next.span.start ∧
        ¬ Configured registers word := by
  have hseparated := h.separated_span hspaced hspan
  have hchain := List.pairwise_iff_getElem.mp hseparated
  rw [List.isChain_iff_getElem]
  intro i hi
  have hi' : i < plan.length := Nat.lt_of_succ_lt hi
  refine ⟨_, le_rfl, hchain i (i + 1) hi' hi (Nat.lt_succ_self i), ?_⟩
  rw [← h.covered_iff, ← List.map_congr_left hspan]
  rintro ⟨span, hcovering, hword⟩
  have hmem := List.getElem_mem hi'
  have hpos := h.length_pos hspaced.toPlausible hmem
  rw [← hspan _ hmem] at hpos
  have hlast : plan[i].span.stop - 1 ∈ plan[i].span := by
    simp only [Span.mem_iff, Span.stop]
    omega
  have hsame := Span.eq_of_mem (List.pairwise_map.mpr hseparated) (List.mem_map_of_mem hmem)
    hcovering hlast hword (by omega)
  rw [← hsame, Span.mem_iff, Span.stop] at hword
  omega

theorem length_le_of_exact (h : Grouped slaveId code registers plan)
    {description : RequestDescription} (hmem : description ∈ plan)
    (hexact : description.span.elements =
      description.registers.flatMap fun register => register.span.elements) :
    description.extent.length ≤ 65535 := by
  rw [← elements_extent (h.contiguous description hmem)] at hexact
  have hlength := congrArg List.length hexact
  have hcount := description.request.registersNumber.toNat_lt
  simp only [Span.elements, List.length_map, List.length_range, RequestDescription.span]
    at hlength
  omega

theorem kindPlan (h : Grouped slaveId code registers plan) (hspaced : Spaced registers)
    (hruns : RunsWithin 65535 registers) : KindPlan slaveId code registers plan := by
  have hspan : ∀ description ∈ plan, description.span = description.extent :=
    fun description hmem => (h.span_eq_iff hspaced.toPlausible hmem).mpr
      ((h.runsWithin_iff hspaced).mp hruns description hmem)
  constructor
  case addressed =>
    exact fun description hmem =>
      ⟨(h.formed description hmem).slaveId_eq, (h.formed description hmem).functionCode⟩
  case inOrder => exact h.inOrder
  case empty =>
    rintro rfl
    rw [List.eq_nil_iff_forall_not_mem]
    intro description hmem
    obtain ⟨register, hregister⟩ :=
      List.exists_mem_of_ne_nil _ (h.formed description hmem).nonempty
    have := h.mem_iff.mpr ⟨description, hmem, hregister⟩
    simp at this
  case exact =>
    intro description hmem
    rw [hspan description hmem, elements_extent (h.contiguous description hmem)]
  case complete =>
    intro word
    rw [← h.covered_iff, ← List.map_congr_left hspan]
    simp only [Span.Covered, List.mem_map, exists_exists_and_eq_and]
  case once => exact h.once hspaced hspan
  case gap => exact h.gap hspaced hspan
  case minimal => exact fun _ => h.length_le hspaced

end Grouped

theorem requestPlan_grouped {slave : Slave} (houtputs : Plausible slave.outputRegisters)
    (hinputs : Plausible slave.inputRegisters) (pastEnd : Int) :
    ∃ outputs inputs, requestPlan (.ok pastEnd) slave = .ok (outputs ++ inputs) ∧
      Grouped slave.id .readAnalogOutputHoldingRegisters slave.outputRegisters outputs ∧
      Grouped slave.id .readAnalogInputRegisters slave.inputRegisters inputs := by
  obtain ⟨outputs, inputs, hplan, hout, hin⟩ := requestPlan_collected pastEnd slave
  exact ⟨outputs, inputs, hplan, hout.grouped houtputs, hin.grouped hinputs⟩

/-- Registers of few words in total have no long runs. -/
theorem runsWithin_of_sum_le {bound : Nat} {registers : List Register} (h : Spaced registers)
    (hsum : (registers.map Register.words).sum ≤ bound) : RunsWithin bound registers := by
  obtain ⟨plan, -, hcollected⟩ :=
    requestPlanOf_collected 0 0 .readAnalogInputRegisters registers
  rw [(hcollected.grouped h.toPlausible).runsWithin_iff h]
  intro description hmem
  refine le_trans (sum_words_le_of_joined ?_) hsum
  rw [← hcollected.inOrder]
  exact List.infix_of_mem_flatten (List.mem_map_of_mem hmem)

/-- The plan for both kinds, the requests for the output registers first. -/
def ExactMinimal (pastEnd : Int) (slave : Slave) : Prop :=
  ∃ outputs inputs, requestPlan (.ok pastEnd) slave = .ok (outputs ++ inputs) ∧
    KindPlan slave.id .readAnalogOutputHoldingRegisters slave.outputRegisters outputs ∧
    KindPlan slave.id .readAnalogInputRegisters slave.inputRegisters inputs

theorem runsWithin_of_exactMinimal {slave : Slave} (houtputs : Spaced slave.outputRegisters)
    (hinputs : Spaced slave.inputRegisters) {pastEnd : Int} (h : ExactMinimal pastEnd slave) :
    RunsWithin 65535 slave.outputRegisters ∧ RunsWithin 65535 slave.inputRegisters := by
  obtain ⟨outputs, inputs, hplan, hout, hin⟩ :=
    requestPlan_grouped houtputs.toPlausible hinputs.toPlausible pastEnd
  obtain ⟨outputs', inputs', hplan', hkind, hkind'⟩ := h
  have hexact := List.forall_mem_append.mpr ⟨hkind.exact, hkind'.exact⟩
  rw [← Except.ok.inj (hplan.symm.trans hplan'), List.forall_mem_append] at hexact
  rw [hout.runsWithin_iff houtputs, hin.runsWithin_iff hinputs]
  exact ⟨fun description hmem => hout.length_le_of_exact hmem (hexact.1 description hmem),
    fun description hmem => hin.length_le_of_exact hmem (hexact.2 description hmem)⟩

/-- Registers that share no word are planned exactly if no count wraps around. -/
theorem exactMinimal_iff_runsWithin {slave : Slave} (houtputs : Spaced slave.outputRegisters)
    (hinputs : Spaced slave.inputRegisters) (pastEnd : Int) :
    ExactMinimal pastEnd slave ↔
      RunsWithin 65535 slave.outputRegisters ∧ RunsWithin 65535 slave.inputRegisters := by
  constructor
  case mp => exact runsWithin_of_exactMinimal houtputs hinputs
  case mpr =>
    rintro ⟨hruns, hruns'⟩
    obtain ⟨outputs, inputs, hplan, hout, hin⟩ :=
      requestPlan_grouped houtputs.toPlausible hinputs.toPlausible pastEnd
    exact ⟨outputs, inputs, hplan, hout.kindPlan houtputs hruns, hin.kindPlan hinputs hruns'⟩

/-! Two adjacent registers of each kind. -/

def subsequent : Slave where
  name := str "slave"
  id := 1
  pollTimeMs := 100
  inputRegisters := [⟨str "Register_A", 100, [0, 1, 2, 3], .uint32⟩,
    ⟨str "Register_B", 102, [0, 1, 2, 3, 4, 5, 6, 7], .uint64⟩]
  outputRegisters := [⟨str "Register_C", 106, [0, 1], .uint16⟩,
    ⟨str "Register_D", 107, [0, 1, 2, 3], .uint32⟩]

def subsequentJson : ModbusJson where
  slaves := some [{
    name := some (str "slave")
    id := some 1
    pollTimeMs := some 100
    analogInputRegisters := some [
      { name := some (str "Register_A"), address := some 100,
        dataType := some (str "UINT_32A") },
      { name := some (str "Register_B"), address := some 102,
        dataType := some (str "UINT_64A") }]
    analogOutputRegisters := some [
      { name := some (str "Register_C"), address := some 106,
        dataType := some (str "UINT_16A") },
      { name := some (str "Register_D"), address := some 107,
        dataType := some (str "UINT_32A") }] }]

theorem parseModbus_subsequent : parseModbus subsequentJson = .ok ([subsequent], {}) := by
  decide +kernel

theorem spaced_subsequent :
    Spaced subsequent.outputRegisters ∧ Spaced subsequent.inputRegisters := by
  constructor <;> refine ⟨⟨?_, ?_⟩, ?_⟩ <;>
    simp [subsequent, Register.words, not_intersect_iff]

theorem exactMinimal_subsequent : ExactMinimal 0 subsequent := by
  refine (exactMinimal_iff_runsWithin spaced_subsequent.1 spaced_subsequent.2 0).mpr ⟨?_, ?_⟩
  · exact runsWithin_of_sum_le spaced_subsequent.1 (by decide)
  · exact runsWithin_of_sum_le spaced_subsequent.2 (by decide)

/-! Registers of four words each, without a gap. -/

def sample (i : Nat) : Register :=
  ⟨[UInt8.ofNat (i / 128), UInt8.ofNat (i % 128)], 4 * i, [0, 1, 2, 3, 4, 5, 6, 7], .double⟩

@[simp] theorem words_sample (i : Nat) : (sample i).words = 4 := by
  simp [sample, Register.words]

def recorder (samples : Nat) : Slave where
  name := str "Recorder"
  id := 1
  pollTimeMs := 1000
  inputRegisters := []
  outputRegisters := (List.range samples).map sample

theorem valid_recorder {samples : Nat} (hpos : 0 < samples) (hle : samples ≤ 16384) :
    Valid [recorder samples] {} := by
  constructor
  case nonempty => simp
  case ids => simp
  case names => simp
  case processors => exact ⟨by simp, by simp⟩
  case each =>
    rw [List.forall_mem_singleton]
    constructor
    case shaped =>
      simp only [recorder, List.nil_append, List.forall_mem_map]
      exact fun i _ => ⟨by simp [sample, DataType.width], rfl, by simp [sample]⟩
    case nonempty => simp [recorder, Nat.pos_iff_ne_zero.mp hpos]
    case inputsApart => exact .nil
    case outputsApart =>
      rw [recorder, List.pairwise_map]
      refine List.pairwise_lt_range.imp fun {i k} hik => ?_
      rw [not_intersect_iff (by simp [sample, Register.words]) (by simp [sample]; omega)]
      simp [sample, Register.words]
      omega
    case names =>
      simp only [recorder, List.nil_append, List.pairwise_map]
      refine List.pairwise_lt_range.imp_of_mem fun {i k} hi hk hik => ?_
      rw [List.mem_range] at hi hk
      simp only [sample, ne_eq, List.cons.injEq, and_true, not_and, ← UInt8.toNat_inj,
        UInt8.toNat_ofNat']
      omega

theorem addressable_recorder {samples : Nat} (hle : samples ≤ 16384) :
    Addressable [recorder samples] := by
  simp only [Addressable, List.forall_mem_singleton, recorder, List.nil_append,
    List.forall_mem_map, List.mem_range, sample]
  omega

theorem contiguous_samples (samples : Nat) :
    Contiguous 0 ((List.range samples).map sample) ∧
      (((List.range samples).map sample).map Register.words).sum = 4 * samples := by
  induction samples with
  | zero => exact ⟨trivial, rfl⟩
  | succ samples ih =>
      rw [List.range_succ, List.map_append, contiguous_append, List.map_append, List.sum_append,
        ih.2]
      refine ⟨⟨ih.1, by simp [sample], trivial⟩, ?_⟩
      rw [List.map_singleton, List.map_singleton, List.sum_singleton, words_sample, Nat.mul_succ]

theorem requestPlan_recorder {samples : Nat} (hpos : 0 < samples) (hle : samples ≤ 16384) :
    requestPlan (.ok 0) (recorder samples) = .ok [⟨⟨1, .readAnalogOutputHoldingRegisters, 0,
      UInt16.ofNat (4 * samples)⟩, (recorder samples).outputRegisters⟩] := by
  obtain ⟨samples, rfl⟩ := Nat.exists_eq_add_of_lt hpos
  rw [Nat.zero_add] at hle ⊢
  have haddress := addressable_recorder hle
  simp only [Addressable, List.forall_mem_singleton, recorder, List.nil_append] at haddress
  obtain ⟨hcontiguous, hsum⟩ := contiguous_samples (samples + 1)
  have hsorted : sortByKey Register.address ((List.range (samples + 1)).map sample) =
      (List.range (samples + 1)).map sample := by
    refine (eq_sortByKey _ (.refl _) ?_ ?_).symm
    · rw [List.pairwise_map]
      exact List.pairwise_lt_range.imp fun hik => by simp [sample]; omega
    · simp only [List.forall_mem_map, sample]
      intro i _ k _ hik
      rw [show i = k by omega]
  have hchain : ((List.range (samples + 1)).map sample).IsChain Adjacent := by
    have hfirst : ((List.range (samples + 1)).map sample).head? = some (sample 0) := by
      simp [List.range_succ_eq_map]
    exact (contiguous_iff_isChain haddress (by simp) hfirst).mp hcontiguous
  have houtputs : requestPlanOf (.ok 0) 1 .readAnalogOutputHoldingRegisters
      (recorder (samples + 1)).outputRegisters =
        .ok [describe 1 .readAnalogOutputHoldingRegisters 0
          ((List.range (samples + 1)).map sample)] := by
    rw [requestPlanOf, recorder, hsorted]
    rw [List.range_succ_eq_map, List.map_cons] at hchain ⊢
    rw [beginAddress, ok_bind, planFrom_of_isChain _ _ _ _ hchain]
    rfl
  rw [requestPlan]
  change requestPlanOf (.ok 0) 1 _ (recorder (samples + 1)).outputRegisters >>= _ = _
  rw [houtputs, ← hsum, ← rawRegisterCount_eq]
  rfl

theorem not_runsWithin_recorder {samples bound : Nat} (h : bound < 4 * samples) :
    ¬ RunsWithin bound (recorder samples).outputRegisters := by
  intro hruns
  obtain ⟨hcontiguous, hsum⟩ := contiguous_samples samples
  have := hruns 0 ((List.range samples).map sample) (fun _ => id) hcontiguous
  omega

/-- The only request asks for no words. -/
theorem recorder_not_exactMinimal :
    parseModbus { slaves := some [(recorder 16384).toJson] } = .ok ([recorder 16384], {}) ∧
      Addressable [recorder 16384] ∧
      (requestPlan (.ok 0) (recorder 16384)).map (List.map RequestDescription.span) =
        .ok [⟨0, 0⟩] ∧
      ¬ ExactMinimal 0 (recorder 16384) := by
  have hvalid := valid_recorder (by decide) (Nat.le_refl 16384)
  have haddress := addressable_recorder (Nat.le_refl 16384)
  have hparse := parseModbus_toJson hvalid haddress
  obtain ⟨hinputs, houtputs⟩ := spaced_of_parseModbus hparse haddress (recorder 16384)
    (List.mem_singleton_self _)
  refine ⟨hparse, haddress, ?_, fun h => ?_⟩
  · rw [requestPlan_recorder (by decide) (Nat.le_refl 16384)]
    rfl
  · exact not_runsWithin_recorder (by decide) (runsWithin_of_exactMinimal houtputs hinputs h).1

end Rdbus.Communication.Modbus
