import Rdbus.Communication.Modbus.PlanGroups

/-!
# The fields of a request on the wire

The `MB::ModbusRequest` constructor takes an 8-bit slave id and 16-bit start
address and count, while the configuration has them as `int`.  Nothing bounds
them before, so what is asked for is what was configured exactly for ids,
addresses and totals in range.
-/

namespace Rdbus.Communication.Modbus

open Foundation
open Config.Modbus

/-- Nothing of the id, the start address and the count is lost in the request. -/
structure Lossless (slave : Slave) (description : RequestDescription) : Prop where
  id : (description.request.slaveId.toNat : Int) = slave.id
  address : (description.request.address.toNat : Int) = description.extent.start
  count : description.request.registersNumber.toNat = description.extent.length

def Sends (pastEnd : Int) (slave : Slave) (description : RequestDescription) : Prop :=
  ∃ plan, requestPlan (.ok pastEnd) slave = .ok plan ∧ description ∈ plan

structure AsConfigured (pastEnd : Int) (slaves : List Slave) : Prop where
  lossless : ∀ slave ∈ slaves, ∀ description, Sends pastEnd slave description →
    Lossless slave description
  distinct : slaves.Pairwise fun a b => ∀ description other,
    Sends pastEnd a description → Sends pastEnd b other →
    description.request.slaveId ≠ other.request.slaveId
  located : ∀ slave ∈ slaves, ∀ description, Sends pastEnd slave description →
    ∀ before register after, description.registers = before ++ register :: after →
    (description.request.address.toNat : Int) +
      (before.map Register.words).sum = register.address
  bounded : ∀ slave ∈ slaves, ∀ description, Sends pastEnd slave description →
    description.request.address.toNat + description.request.registersNumber.toNat ≤ 65536

structure WithinWire (slaves : List Slave) : Prop where
  id : ∀ slave ∈ slaves, 0 ≤ slave.id ∧ slave.id ≤ 255
  address : ∀ slave ∈ slaves, ∀ register ∈ slave.inputRegisters ++ slave.outputRegisters,
    0 ≤ register.address ∧ register.address + register.words ≤ 65536
  total : ∀ slave ∈ slaves, (slave.inputRegisters.map Register.words).sum ≤ 65535 ∧
    (slave.outputRegisters.map Register.words).sum ≤ 65535

theorem lossless_iff {slave : Slave} {code : MBFunctionCode} {description : RequestDescription}
    (h : Formed slave.id code description) : Lossless slave description ↔
      (0 ≤ slave.id ∧ slave.id ≤ 255) ∧
      (0 ≤ description.extent.start ∧ description.extent.start ≤ 65535) ∧
        description.extent.length ≤ 65535 := by
  obtain ⟨first, hfirst, -⟩ := h.start
  have hid : description.request.slaveId.toNat = (slave.id % 256).toNat := by
    rw [h.slaveId_eq, UInt8.ofInt, UInt8.toNat_ofNat']
    omega
  have haddress : description.request.address.toNat =
      (description.extent.start % 65536).toNat := by
    rw [extent_start hfirst, h.address hfirst, UInt16.ofInt, UInt16.toNat_ofNat']
    omega
  have hcount : description.request.registersNumber.toNat =
      description.extent.length % 65536 := by
    rw [h.count, UInt16.toNat_ofNat']
    rfl
  constructor
  · rintro ⟨h, h', h''⟩
    omega
  · rintro ⟨h, h', h''⟩
    exact ⟨by omega, by omega, by omega⟩

/-! ## Every configured register is in some request -/

theorem sends_of_mem (pastEnd : Int) {slave : Slave} {register : Register}
    (hregister : register ∈ slave.inputRegisters ++ slave.outputRegisters) :
    ∃ description code, Sends pastEnd slave description ∧
      Formed slave.id code description ∧ register ∈ description.registers := by
  obtain ⟨outputs, inputs, hplan, houtputs, hinputs⟩ := requestPlan_collected pastEnd slave
  rcases List.mem_append.mp hregister with hregister | hregister
  · obtain ⟨description, hmem, hregister⟩ := hinputs.mem_iff.mp hregister
    exact ⟨description, _, ⟨_, hplan, List.mem_append_right _ hmem⟩,
      hinputs.formed description hmem, hregister⟩
  · obtain ⟨description, hmem, hregister⟩ := houtputs.mem_iff.mp hregister
    exact ⟨description, _, ⟨_, hplan, List.mem_append_left _ hmem⟩,
      houtputs.formed description hmem, hregister⟩

/-! ## The words of one kind -/

namespace Grouped

variable {slaveId : Int} {code : MBFunctionCode} {registers : List Register}
  {plan : List RequestDescription}

theorem total (h : Grouped slaveId code registers plan) :
    ((plan.map RequestDescription.extent).map Span.length).sum =
      (registers.map Register.words).sum := by
  have hperm := (perm_sortByKey Register.address registers).map Register.words
  rw [← hperm.sum_eq, ← h.inOrder, List.map_flatMap, List.flatMap, List.sum_flatten,
    List.map_map, List.map_map]
  rfl

theorem extent_bounds (h : Grouped slaveId code registers plan)
    (haddress : ∀ register ∈ registers,
      0 ≤ register.address ∧ register.address + register.words ≤ 65536)
    {description : RequestDescription} (hmem : description ∈ plan) :
    0 ≤ description.extent.start ∧ description.extent.stop ≤ 65536 := by
  have hregister : ∀ register ∈ description.registers,
      0 ≤ register.address ∧ register.address + register.words ≤ 65536 :=
    fun register hregister => haddress register (h.mem_iff.mpr ⟨_, hmem, hregister⟩)
  have hne := (h.formed description hmem).nonempty
  rw [extent_start (List.head?_eq_some_head hne),
    extent_stop (h.contiguous description hmem) (List.getLast?_eq_some_getLast hne)]
  exact ⟨(hregister _ (List.head_mem hne)).1, (hregister _ (List.getLast_mem hne)).2⟩

theorem length_le_total (h : Grouped slaveId code registers plan)
    {description : RequestDescription} (hmem : description ∈ plan) :
    description.extent.length ≤ (registers.map Register.words).sum := by
  rw [← h.total]
  exact List.le_sum_of_mem (List.mem_map_of_mem (List.mem_map_of_mem hmem))

/-- The words of one kind fill the address space only as a single request. -/
theorem total_le (h : Grouped slaveId code registers plan) (hspaced : Spaced registers)
    (haddress : ∀ register ∈ registers,
      0 ≤ register.address ∧ register.address + register.words ≤ 65536)
    (hcount : ∀ description ∈ plan, description.extent.length ≤ 65535) :
    (registers.map Register.words).sum ≤ 65535 := by
  rw [← h.total]
  have hbounds : ∀ span ∈ plan.map RequestDescription.extent,
      0 ≤ span.start ∧ span.stop ≤ 65536 := by
    rw [List.forall_mem_map]
    exact fun description hmem => h.extent_bounds haddress hmem
  by_cases hnil : plan = []
  · simp [hnil]
  have hsum := Span.sum_length_le (h.separated hspaced)
    (fun span hspan => (hbounds span hspan).1) (fun span hspan => (hbounds span hspan).2)
    (by simpa using hnil)
  rw [List.length_map] at hsum
  by_cases hone : plan.length = 1
  · obtain ⟨description, rfl⟩ := List.length_eq_one_iff.mp hone
    simpa using hcount description (by simp)
  · have hlength := List.length_pos_iff.mpr hnil
    omega

end Grouped

/-! ## The whole configuration -/

theorem withinWire_address {pastEnd : Int} {slaves : List Slave}
    (h : AsConfigured pastEnd slaves) {slave : Slave} (hslave : slave ∈ slaves)
    {register : Register} (hregister : register ∈ slave.inputRegisters ++ slave.outputRegisters) :
    (0 ≤ slave.id ∧ slave.id ≤ 255) ∧
      0 ≤ register.address ∧ register.address + register.words ≤ 65536 := by
  obtain ⟨description, code, hsends, hformed, hmem⟩ := sends_of_mem pastEnd hregister
  have hlossless := h.lossless slave hslave description hsends
  have hbounded := h.bounded slave hslave description hsends
  obtain ⟨before, after, hsplit⟩ := List.append_of_mem hmem
  have hlocated := h.located slave hslave description hsends before register after hsplit
  have hcount := hlossless.count
  have hlength : description.extent.length = (description.registers.map Register.words).sum :=
    rfl
  rw [hsplit, List.map_append, List.map_cons, List.sum_append, List.sum_cons] at hlength
  exact ⟨((lossless_iff hformed).mp hlossless).1, by omega⟩

theorem onWire_of_sends {j : ModbusJson} {slaves : List Slave}
    {processors : Config.Processors} (h : parseModbus j = .ok (slaves, processors))
    (hwithin : WithinWire slaves) (haddress : Addressable slaves) {pastEnd : Int}
    {slave : Slave} (hslave : slave ∈ slaves) {description : RequestDescription}
    (hsends : Sends pastEnd slave description) :
    Lossless slave description ∧ description.extent.stop ≤ 65536 ∧
      Contiguous description.extent.start description.registers := by
  obtain ⟨plan, hplan, hmem⟩ := hsends
  obtain ⟨hinputs, houtputs⟩ := spaced_of_parseModbus h haddress slave hslave
  obtain ⟨outputs, inputs, hplan', hout, hin⟩ :=
    requestPlan_grouped houtputs.toPlausible hinputs.toPlausible pastEnd
  cases hplan.symm.trans hplan'
  have hregister := hwithin.address slave hslave
  simp only [List.mem_append] at hregister
  have hkind : ∀ {code : MBFunctionCode} {registers : List Register}
      {plan : List RequestDescription}, Grouped slave.id code registers plan →
      Spaced registers →
      (∀ register ∈ registers,
        0 ≤ register.address ∧ register.address + register.words ≤ 65536) →
      (registers.map Register.words).sum ≤ 65535 → description ∈ plan →
      Lossless slave description ∧ description.extent.stop ≤ 65536 ∧
        Contiguous description.extent.start description.registers := by
    intro code registers plan hgrouped hspaced hbounds htotal hmem
    have hextent := hgrouped.extent_bounds hbounds hmem
    have hpos := hgrouped.length_pos hspaced.toPlausible hmem
    have hlength := (hgrouped.length_le_total hmem).trans htotal
    refine ⟨(lossless_iff (hgrouped.formed description hmem)).mpr
      ⟨hwithin.id slave hslave, ?_, hlength⟩, hextent.2, hgrouped.contiguous description hmem⟩
    rw [Span.stop] at hextent
    omega
  rcases List.mem_append.mp hmem with hmem | hmem
  · exact hkind hout houtputs (fun r hr => hregister r (.inr hr))
      (hwithin.total slave hslave).2 hmem
  · exact hkind hin hinputs (fun r hr => hregister r (.inl hr))
      (hwithin.total slave hslave).1 hmem

theorem asConfigured_of_withinWire {j : ModbusJson} {slaves : List Slave}
    {processors : Config.Processors} (h : parseModbus j = .ok (slaves, processors))
    (pastEnd : Int) (hwithin : WithinWire slaves) (haddress : Addressable slaves) :
    AsConfigured pastEnd slaves := by
  constructor
  · exact fun slave hslave description hsends =>
      (onWire_of_sends h hwithin haddress hslave hsends).1
  · obtain ⟨-, hchecked, -⟩ := parseModbus_ok h
    refine hchecked.ids.imp_of_mem ?_
    intro a b ha hb hne description other hsends hsends' hsame
    have hidA := (onWire_of_sends h hwithin haddress ha hsends).1.id
    have hidB := (onWire_of_sends h hwithin haddress hb hsends').1.id
    rw [hsame] at hidA
    omega
  · intro slave hslave description hsends before register after hsplit
    obtain ⟨hlossless, -, hcontiguous⟩ := onWire_of_sends h hwithin haddress hslave hsends
    rw [hsplit, contiguous_append] at hcontiguous
    rw [hlossless.address]
    exact hcontiguous.2.1.symm
  · intro slave hslave description hsends
    obtain ⟨hlossless, hbound, -⟩ := onWire_of_sends h hwithin haddress hslave hsends
    have haddress := hlossless.address
    have hcount := hlossless.count
    rw [Span.stop] at hbound
    omega

/-- An accepted configuration goes on the wire as it is exactly when it is in range. -/
theorem asConfigured_iff_withinWire {j : ModbusJson} {slaves : List Slave}
    {processors : Config.Processors} (h : parseModbus j = .ok (slaves, processors))
    (pastEnd : Int) : AsConfigured pastEnd slaves ↔ WithinWire slaves := by
  obtain ⟨hslaves, -, -⟩ := parseModbus_ok h
  have haddressable : (∀ slave ∈ slaves,
      ∀ register ∈ slave.inputRegisters ++ slave.outputRegisters,
        0 ≤ register.address ∧ register.address + register.words ≤ 65536) →
      Addressable slaves := by
    intro haddress slave hslave register hregister
    obtain ⟨_, -, hjson⟩ := mem_mapM_ok hslaves hslave
    have hwords := (Slave.fromJson_shaped hjson register hregister).words_bounds
    have := haddress slave hslave register hregister
    omega
  constructor
  · intro hconfigured
    have haddress : ∀ slave ∈ slaves,
        ∀ register ∈ slave.inputRegisters ++ slave.outputRegisters,
          0 ≤ register.address ∧ register.address + register.words ≤ 65536 :=
      fun slave hslave register hregister =>
        (withinWire_address hconfigured hslave hregister).2
    refine ⟨?_, haddress, ?_⟩
    · intro slave hslave
      obtain ⟨_, -, hjson⟩ := mem_mapM_ok hslaves hslave
      obtain ⟨register, hregister⟩ :=
        List.exists_mem_of_ne_nil _ (Slave.fromJson_nonempty hjson)
      exact (withinWire_address hconfigured hslave hregister).1
    · intro slave hslave
      obtain ⟨hinputs, houtputs⟩ :=
        spaced_of_parseModbus h (haddressable haddress) slave hslave
      obtain ⟨outputs, inputs, hplan, hout, hin⟩ :=
        requestPlan_grouped houtputs.toPlausible hinputs.toPlausible pastEnd
      have hcount : ∀ description ∈ outputs ++ inputs,
          description.extent.length ≤ 65535 := by
        intro description hmem
        rw [← (hconfigured.lossless slave hslave description ⟨_, hplan, hmem⟩).count]
        exact Nat.le_of_lt_succ description.request.registersNumber.toNat_lt
      have hregister := haddress slave hslave
      simp only [List.mem_append] at hregister hcount
      exact ⟨hin.total_le hinputs (fun r hr => hregister r (.inl hr))
          fun description hmem => hcount description (.inr hmem),
        hout.total_le houtputs (fun r hr => hregister r (.inr hr))
          fun description hmem => hcount description (.inl hmem)⟩
  · exact fun hwithin =>
      asConfigured_of_withinWire h pastEnd hwithin (haddressable hwithin.address)

theorem asConfigured_subsequent : AsConfigured 0 [subsequent] := by
  refine (asConfigured_iff_withinWire parseModbus_subsequent 0).mpr ⟨?_, ?_, ?_⟩
  · decide
  · decide
  · decide

/-! Two pumps whose ids differ by 256. -/

def pump (name : Bytes) (id : Int) : Slave where
  name := name
  id := id
  pollTimeMs := 1000
  inputRegisters := []
  outputRegisters := [⟨str "Pressure", 0, [0, 1], .uint16⟩]

def pumpJson (name : Bytes) (id : Int) : SlaveJson where
  name := some name
  id := some id
  pollTimeMs := some 1000
  analogOutputRegisters := some [{ name := some (str "Pressure"), address := some 0,
                                   dataType := some (str "UINT_16A") }]

def pumps : List Slave := [pump (str "Port") 1, pump (str "Starboard") 257]

def pumpsJson : ModbusJson where
  slaves := some [pumpJson (str "Port") 1, pumpJson (str "Starboard") 257]

theorem pumps_not_asConfigured :
    parseModbus pumpsJson = .ok (pumps, {}) ∧
      (pumps.map fun slave => (requestPlan (.ok 0) slave).map
        (List.map fun description => description.request.slaveId)) = [.ok [1], .ok [1]] ∧
      ∀ pastEnd, ¬ AsConfigured pastEnd pumps := by
  refine ⟨by decide +kernel, by decide +kernel, ?_⟩
  intro pastEnd h
  have hid := withinWire_address h (List.mem_cons_of_mem _ (List.mem_singleton_self _))
    (List.mem_singleton_self _)
  exact absurd hid.1.2 (by decide)

end Rdbus.Communication.Modbus
