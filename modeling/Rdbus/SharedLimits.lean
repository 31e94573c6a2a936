import Rdbus.Config.WagoOffsets
import Rdbus.Foundation.Runs
import Rdbus.Manager
import Rdbus.Out.Http
import Rdbus.Processing.LimitsHistory
import Rdbus.WholeReadings

/-!
# Managers that share the limits

Every manager runs in a thread of its own and sends twice in a run, so other
managers come between its readings and its limits; it has at most one processor.
An exception that leaves a run ends the program.  `produced` lists all outputs
of the processors with the number of their manager, the newest first.
-/

namespace Rdbus

open Foundation

namespace Processing.Limits

/-- The inputs `process` does not skip. -/
def isConsidered (store : Store) (input : Rdbus.Data) : Bool :=
  input.error.isNone && store[input.deviceName]?.isSome

end Processing.Limits

open Processing

/-- `list` holds the readings between the two sends of a run. -/
structure Thread where
  manager : Manager
  list : Option (List Data) := none

structure System where
  http : Out.Http
  threads : List Thread
  produced : List (Nat × Limits.Data) := []

namespace System

def initial (configs : List Config) : Except Throw System := do
  let managers ← configs.mapM initializeManager
  .ok { http := .initial (configs.any fun config => config.processors.limits.isSome)
        threads := managers.map fun manager => { manager } }

inductive Event where
  | collect (i : Nat) (outside : Nat → Outside) (now : Timestamp)
  | process (i : Nat) (now : Timestamp)

def sendOutputs (sizeofData : Nat) (now : Timestamp) (http : Out.Http)
    (outputs : List (List Limits.Data)) : Except Throw Out.Http :=
  outputs.foldlM (fun http output => http.sendLimits sizeofData now output) http

/-- The outputs of one manager, in front of what was produced before. -/
def record (i : Nat) (output : List Limits.Data) (produced : List (Nat × Limits.Data)) :
    List (Nat × Limits.Data) :=
  (output.map fun data => (i, data)).reverse ++ produced

def step (sizeofData : Nat) (system : System) : Event → Option System
  | .collect i outside now =>
      match system.threads[i]? with
      | some ⟨manager, none⟩ =>
          match manager.collect outside with
          | .ok (list, manager) =>
              let http := if list.isEmpty then system.http
                else system.http.send sizeofData now list
              some { system with http, threads := system.threads.set i ⟨manager, some list⟩ }
          | .error _ => none
      | _ => none
  | .process i now =>
      match system.threads[i]? with
      | some ⟨manager, some list⟩ =>
          match manager.process list with
          | .ok (outputs, manager) =>
              match sendOutputs sizeofData now system.http outputs with
              | .ok http =>
                  some { http
                         threads := system.threads.set i ⟨manager, none⟩
                         produced := record i outputs.flatten system.produced }
              | .error _ => none
          | .error _ => none
      | _ => none

def latest (produced : List (Nat × Limits.Data)) (i : Nat) (device : Bytes) :
    Option Limits.Data :=
  (produced.find? fun entry => entry.1 = i ∧ entry.2.deviceName = device).map Prod.snd

/-- What `/process/limits` lists. -/
def shown (system : System) : List Limits.Data :=
  match system.http.limitsStorage with
  | some buffer => buffer.parseFrom 0
  | none => []

/--
One entry for each pair of a manager and a device with output, and this entry
is the most recent output of the pair.
-/
def ShowsLatest (system : System) : Prop :=
  ∃ pairs : List (Nat × Bytes), pairs.Nodup ∧
    (∀ i device, (i, device) ∈ pairs ↔ (latest system.produced i device).isSome) ∧
    system.shown.map some = pairs.map fun pair => latest system.produced pair.1 pair.2

/--
No reading that a processor is about to consider is of a device another
manager has output for.
-/
def Unshared (system : System) : Event → Prop
  | .collect _ _ _ => True
  | .process i _ => ∀ thread ∈ system.threads[i]?, ∀ list ∈ thread.list,
      ∀ processor ∈ thread.manager.processors, ∀ input ∈ list,
        Limits.isConsidered processor.data input →
          ∀ entry ∈ system.produced, entry.2.deviceName = input.deviceName → entry.1 = i

instance (system : System) : ∀ event, Decidable (Unshared system event)
  | .collect _ _ _ => isTrue trivial
  | .process i _ => inferInstanceAs (Decidable (∀ thread ∈ system.threads[i]?,
      ∀ list ∈ thread.list, ∀ processor ∈ thread.manager.processors, ∀ input ∈ list,
        Limits.isConsidered processor.data input →
          ∀ entry ∈ system.produced, entry.2.deviceName = input.deviceName → entry.1 = i))

end System

/-! ## One output for each considered reading -/

namespace Processing.Limits

theorem processReading_cases (duration : Int) {input : Rdbus.Data} {store : Store}
    (h : store[input.deviceName]?.isSome) :
    (∃ output store', processReading duration input store = .ok output store' ∧
      output.deviceName = input.deviceName ∧
      ∀ device : Bytes, store'[device]?.isSome = store[device]?.isSome) ∨
    processReading duration input store = .error .undefinedBehaviour store := by
  obtain ⟨fieldsMap, hstore⟩ := Option.isSome_iff_exists.mp h
  by_cases hfields : input.fields = []
  · right
    unfold processReading getLatestTime
    rw [hfields]
    rfl
  · by_cases hcomparable : Comparable duration fieldsMap
    · obtain ⟨fieldsMap', store', hrun, hsets, -⟩ :=
        processReading_sets hstore hcomparable hfields
      refine .inl ⟨_, store', hrun, rfl, fun device => ?_⟩
      rw [hsets device]
      split
      case isTrue heq => rw [← heq, hstore]; rfl
      case isFalse => rfl
    · exact .inr (processReading_undefined hstore hcomparable)

theorem processFrom_names {duration : Int} {inputList : List Rdbus.Data}
    {outputList result : List Data} {store store' : Store}
    (h : processFrom duration outputList inputList store = .ok result store') :
    result.map Data.deviceName = outputList.map Data.deviceName ++
      (inputList.filter (isConsidered store)).map Rdbus.Data.deviceName ∧
    ∀ device : Bytes, store'[device]?.isSome = store[device]?.isSome := by
  induction inputList generalizing outputList store with
  | nil =>
      cases h
      simp
  | cons input inputList ih =>
      rw [processFrom] at h
      split at h
      case isTrue herror =>
        rw [List.filter_cons_of_neg]
        · exact ih h
        · simp [isConsidered, Option.isSome_iff_ne_none.mp herror]
      case isFalse herror =>
        split at h
        case isTrue hdevice =>
          rw [List.filter_cons_of_neg]
          · exact ih h
          · simpa [isConsidered] using fun _ => hdevice
        case isFalse hdevice =>
          have hsome : store[input.deviceName]?.isSome := by simpa using hdevice
          obtain ⟨output, next, hrun, hname, hkeys⟩ | hrun :=
            processReading_cases duration hsome
          · simp only [hrun] at h
            have hsame : isConsidered next = isConsidered store := by
              funext other
              rw [isConsidered, isConsidered, hkeys]
            obtain ⟨hnames, hkeys'⟩ := ih h
            refine ⟨?_, fun device => (hkeys' device).trans (hkeys device)⟩
            rw [hnames, hsame, List.filter_cons_of_pos]
            · simp [hname]
            · simpa [isConsidered, hsome] using herror
          · simp [hrun, caught] at h

theorem Processor.names_process {list : List Rdbus.Data} {processor next : Processor}
    {output : List Data} (h : processor.process list = .ok (output, next)) :
    output.map Data.deviceName =
      (list.filter (isConsidered processor.data)).map Rdbus.Data.deviceName ∧
    ∀ device : Bytes, next.data[device]?.isSome = processor.data[device]?.isSome := by
  unfold Processor.process Limits.process at h
  split at h
  case h_1 result store hrun =>
    cases h
    simpa using processFrom_names hrun
  case h_2 => cases h

end Processing.Limits

/-! ## The buffer -/

namespace System

theorem latest_isSome {produced : List (Nat × Limits.Data)} {i : Nat} {device : Bytes} :
    (latest produced i device).isSome ↔
      ∃ entry ∈ produced, entry.1 = i ∧ entry.2.deviceName = device := by
  simp [latest, List.find?_isSome]

theorem name_of_latest {produced : List (Nat × Limits.Data)} {i : Nat} {device : Bytes}
    {data : Limits.Data} (h : latest produced i device = some data) :
    data.deviceName = device := by
  obtain ⟨entry, hfind, rfl⟩ := Option.map_eq_some_iff.mp h
  have hmatch := List.find?_some hfind
  rw [decide_eq_true_eq] at hmatch
  exact hmatch.2

theorem latest_record_of_mem {produced : List (Nat × Limits.Data)} {i : Nat}
    {output : List Limits.Data} (hnames : (output.map Limits.Data.deviceName).Nodup)
    {data : Limits.Data} (hmem : data ∈ output) :
    latest (record i output produced) i data.deviceName = some data := by
  have hfound : ∃ entry ∈ (output.map fun data => (i, data)).reverse,
      decide (entry.1 = i ∧ entry.2.deviceName = data.deviceName) = true := by
    simpa using ⟨data, hmem, rfl⟩
  obtain ⟨entry, hfind⟩ := Option.isSome_iff_exists.mp (List.find?_isSome.mpr hfound)
  have hentry := List.mem_of_find?_eq_some hfind
  rw [List.mem_reverse, List.mem_map] at hentry
  obtain ⟨other, hother, rfl⟩ := hentry
  have hmatch := List.find?_some hfind
  rw [decide_eq_true_eq] at hmatch
  have hsame : other = data := List.inj_on_of_nodup_map hnames hother hmem hmatch.2
  rw [latest, record, List.find?_append, hfind, hsame]
  rfl

theorem latest_record_of_not {produced : List (Nat × Limits.Data)} {i j : Nat}
    {output : List Limits.Data} {device : Bytes}
    (h : j ≠ i ∨ device ∉ output.map Limits.Data.deviceName) :
    latest (record i output produced) j device = latest produced j device := by
  have hnone : (output.map fun data => (i, data)).reverse.find?
      (fun entry => entry.1 = j ∧ entry.2.deviceName = device) = none := by
    rw [List.find?_eq_none]
    intro entry hentry hmatch
    rw [List.mem_reverse, List.mem_map] at hentry
    obtain ⟨data, hdata, rfl⟩ := hentry
    obtain ⟨rfl, rfl⟩ := of_decide_eq_true hmatch
    exact h.elim (fun hne => hne rfl) fun hnot => hnot (List.mem_map_of_mem hdata)
  rw [latest, record, List.find?_append, hnone, Option.none_or, latest]

/-- Each device is listed once, with the most recent output of some manager. -/
structure Kept (buffer : Out.Buffer Limits.Data) (produced : List (Nat × Limits.Data)) :
    Prop where
  single : buffer.type = .single
  names : (buffer.data.map fun pair => pair.2.deviceName).Nodup
  owned : ∀ pair ∈ buffer.data, ∃ i, latest produced i pair.2.deviceName = some pair.2
  listed : ∀ entry ∈ produced, ∃ pair ∈ buffer.data,
    pair.2.deviceName = entry.2.deviceName

theorem Kept.add {buffer : Out.Buffer Limits.Data} {produced : List (Nat × Limits.Data)}
    (h : Kept buffer produced) {output : List Limits.Data}
    (hnames : (output.map Limits.Data.deviceName).Nodup) (sizeofData : Nat)
    (now : Timestamp) (i : Nat) :
    Kept (buffer.add Limits.Data.deviceName sizeofData now output)
      (record i output produced) := by
  obtain ⟨htype, hdata⟩ := Out.Buffer.data_add_single h.single Limits.Data.deviceName
    sizeofData now output
  have hnew : (output.map fun data => ((now, data) : Timestamp × Limits.Data)).map
      (fun pair => pair.2.deviceName) = output.map Limits.Data.deviceName := by
    simp [Function.comp_def]
  refine ⟨htype, ?_, ?_, ?_⟩
  · rw [hdata, List.map_append, hnew, List.nodup_append']
    refine ⟨h.names.sublist (List.filter_sublist.map _), hnames, ?_⟩
    intro device hold hdevice
    obtain ⟨pair, hpair, rfl⟩ := List.mem_map.mp hold
    exact of_decide_eq_true (List.mem_filter.mp hpair).2 hdevice
  · intro pair hpair
    rw [hdata] at hpair
    rcases List.mem_append.mp hpair with hpair | hpair
    · obtain ⟨hold, hnot⟩ := List.mem_filter.mp hpair
      obtain ⟨j, hlatest⟩ := h.owned pair hold
      refine ⟨j, ?_⟩
      rw [latest_record_of_not (.inr (of_decide_eq_true hnot)), hlatest]
    · obtain ⟨data, hmem, rfl⟩ := List.mem_map.mp hpair
      exact ⟨i, latest_record_of_mem hnames hmem⟩
  · intro entry hentry
    rw [hdata]
    by_cases hdevice : entry.2.deviceName ∈ output.map Limits.Data.deviceName
    · obtain ⟨data, hmem, hname⟩ := List.mem_map.mp hdevice
      exact ⟨(now, data), List.mem_append_right _ (List.mem_map_of_mem hmem), hname⟩
    · rcases List.mem_append.mp hentry with hentry | hentry
      · rw [List.mem_reverse, List.mem_map] at hentry
        obtain ⟨data, hmem, rfl⟩ := hentry
        exact absurd (List.mem_map_of_mem hmem) hdevice
      · obtain ⟨pair, hpair, hname⟩ := h.listed entry hentry
        refine ⟨pair, List.mem_append_left _ (List.mem_filter.mpr ⟨hpair, ?_⟩), hname⟩
        rw [hname]
        exact decide_eq_true hdevice

def Exclusive (produced : List (Nat × Limits.Data)) : Prop :=
  ∀ a ∈ produced, ∀ b ∈ produced, a.2.deviceName = b.2.deviceName → a.1 = b.1

/-- The storage of the limits; without it nothing is produced. -/
def Stored (http : Out.Http) (produced : List (Nat × Limits.Data)) : Prop :=
  match http.limitsStorage with
  | some buffer => Kept buffer produced
  | none => produced = []

theorem Kept.pairs_of_exclusive {buffer : Out.Buffer Limits.Data}
    {produced : List (Nat × Limits.Data)} (h : Kept buffer produced)
    (hexclusive : Exclusive produced) :
    ∃ pairs : List (Nat × Bytes), pairs.Nodup ∧
      (∀ i device, (i, device) ∈ pairs ↔ (latest produced i device).isSome) ∧
      (buffer.data.map Prod.snd).map some =
        pairs.map fun pair => latest produced pair.1 pair.2 := by
  choose! owner howner using h.owned
  refine ⟨buffer.data.map fun pair => (owner pair, pair.2.deviceName), ?_, ?_, ?_⟩
  · refine List.Nodup.of_map Prod.snd ?_
    simpa [Function.comp_def] using h.names
  · intro i device
    rw [List.mem_map]
    constructor
    · rintro ⟨pair, hpair, heq⟩
      rw [Prod.mk.injEq] at heq
      rw [← heq.1, ← heq.2, howner pair hpair]
      rfl
    · intro hsome
      obtain ⟨entry, hentry, rfl, rfl⟩ := latest_isSome.mp hsome
      obtain ⟨pair, hpair, hname⟩ := h.listed entry hentry
      have howned : (latest produced (owner pair) pair.2.deviceName).isSome := by
        rw [howner pair hpair]
        rfl
      obtain ⟨other, hother, hindex, hdevice⟩ := latest_isSome.mp howned
      refine ⟨pair, hpair, Prod.ext ?_ hname⟩
      rw [← hindex]
      exact hexclusive other hother entry hentry (hdevice.trans hname)
  · rw [List.map_map, List.map_map]
    exact List.map_congr_left fun pair hpair => (howner pair hpair).symm

theorem showsLatest_iff_exclusive {system : System}
    (h : Stored system.http system.produced) :
    system.ShowsLatest ↔ Exclusive system.produced := by
  unfold Stored at h
  unfold ShowsLatest shown
  cases hstorage : system.http.limitsStorage with
  | none =>
      rw [hstorage] at h
      simp only [h]
      exact iff_of_true ⟨[], List.nodup_nil, by simp [latest], rfl⟩ (by simp [Exclusive])
  | some buffer =>
      simp only [hstorage] at h ⊢
      have hshown : buffer.parseFrom 0 = buffer.data.map Prod.snd := by
        simp [Out.Buffer.parseFrom, h.single]
      rw [hshown]
      constructor
      · rintro ⟨pairs, -, hmem, hlatest⟩
        -- The devices of the pairs are those of the entries, which differ.
        have hdevices : buffer.data.map (fun pair => pair.2.deviceName) =
            pairs.map Prod.snd := by
          have hnames := congrArg (List.map (Option.map Limits.Data.deviceName)) hlatest
          rw [List.map_map, List.map_map, List.map_map] at hnames
          apply (List.map_injective_iff.mpr (Option.some_injective Bytes))
          rw [List.map_map, List.map_map]
          refine hnames.trans (List.map_congr_left fun pair hpair => ?_)
          obtain ⟨data, hdata⟩ := Option.isSome_iff_exists.mp ((hmem pair.1 pair.2).mp hpair)
          simp only [Function.comp_apply, hdata, Option.map_some]
          rw [name_of_latest hdata]
        have hnodup : (pairs.map Prod.snd).Nodup := hdevices ▸ h.names
        intro a ha b hb hname
        have hpair : ∀ entry ∈ system.produced, (entry.1, entry.2.deviceName) ∈ pairs :=
          fun entry hentry =>
            (hmem _ _).mpr (latest_isSome.mpr ⟨entry, hentry, rfl, rfl⟩)
        have hsame := List.inj_on_of_nodup_map hnodup (hpair a ha) (hpair b hb) hname
        exact (Prod.mk.inj hsame).1
      · exact h.pairs_of_exclusive

theorem record_append (i : Nat) (first second : List Limits.Data)
    (produced : List (Nat × Limits.Data)) :
    record i (first ++ second) produced = record i second (record i first produced) := by
  simp [record]

theorem exclusive_record_iff {i : Nat} {output : List Limits.Data}
    {produced : List (Nat × Limits.Data)} :
    Exclusive (record i output produced) ↔ Exclusive produced ∧
      ∀ data ∈ output, ∀ entry ∈ produced, entry.2.deviceName = data.deviceName →
        entry.1 = i := by
  have hmem : ∀ entry : Nat × Limits.Data, entry ∈ record i output produced ↔
      (entry.1 = i ∧ entry.2 ∈ output) ∨ entry ∈ produced := by
    intro entry
    simp [record, Prod.ext_iff, and_comm, eq_comm]
  constructor
  · intro h
    refine ⟨fun a ha b hb => ?_, fun data hdata entry hentry hname => ?_⟩
    · exact h a ((hmem a).mpr (.inr ha)) b ((hmem b).mpr (.inr hb))
    · exact h entry ((hmem entry).mpr (.inr hentry)) (i, data)
        ((hmem (i, data)).mpr (.inl ⟨rfl, hdata⟩)) hname
  · rintro ⟨hold, hnew⟩ a ha b hb hname
    rcases (hmem a).mp ha with ⟨hai, ha⟩ | ha
    · rcases (hmem b).mp hb with ⟨hbi, hb⟩ | hb
      · exact hai.trans hbi.symm
      · exact hai.trans (hnew a.2 ha b hb hname.symm).symm
    · rcases (hmem b).mp hb with ⟨hbi, hb⟩ | hb
      · exact (hnew b.2 hb a ha hname).trans hbi.symm
      · exact hold a ha b hb hname

theorem Stored.sendLimits {http next : Out.Http} {produced : List (Nat × Limits.Data)}
    (h : Stored http produced) {sizeofData : Nat} {now : Timestamp} (i : Nat)
    {output : List Limits.Data} (hnames : (output.map Limits.Data.deviceName).Nodup)
    (hsend : http.sendLimits sizeofData now output = .ok next) :
    Stored next (record i output produced) := by
  unfold Out.Http.sendLimits at hsend
  unfold Stored at h ⊢
  cases hstorage : http.limitsStorage with
  | none =>
      rw [hstorage] at hsend
      cases hsend
  | some buffer =>
      simp only [hstorage] at h hsend
      cases hsend
      exact h.add hnames sizeofData now i

theorem Stored.sendOutputs {http next : Out.Http} {produced : List (Nat × Limits.Data)}
    (h : Stored http produced) {sizeofData : Nat} {now : Timestamp} (i : Nat)
    {outputs : List (List Limits.Data)}
    (hnames : ∀ output ∈ outputs, (output.map Limits.Data.deviceName).Nodup)
    (hsend : sendOutputs sizeofData now http outputs = .ok next) :
    Stored next (record i outputs.flatten produced) := by
  induction outputs generalizing http produced with
  | nil =>
      cases hsend
      exact h
  | cons output outputs ih =>
      obtain ⟨hfirst, hothers⟩ := List.forall_mem_cons.mp hnames
      obtain ⟨after, hlimits, hsend⟩ := bind_eq_ok.mp hsend
      rw [List.flatten_cons, record_append]
      exact ih (h.sendLimits i hfirst hlimits) hothers hsend

end System

/-! ## Devices of a manager -/

namespace Communication

theorem Modbus.name_of_request {pastEnd : Except Throw Int}
    {send : Nat → ModbusRequest → Except Throw ModbusResponse} {now : Nat → Timestamp}
    {slave : Config.Modbus.Slave} {data : Data}
    (h : request pastEnd send now slave = .ok data) : data.deviceName = slave.name := by
  obtain ⟨descriptions, -, h⟩ := bind_eq_ok.mp h
  unfold Modbus.caught at h
  split at h <;> cases h <;> rfl

theorem Wago.name_of_request {getSingle : Nat → Int → Except Throw Int16}
    {now : Nat → Timestamp} {module : Config.Wago.Module} {data : Data}
    (h : request getSingle now module = .ok data) : data.deviceName = module.name := by
  change caught module.name _ = .ok data at h
  unfold Wago.caught at h
  split at h <;> cases h <;> rfl

end Communication

/-- The device of a task with at most one reading in a run. -/
def Task.device : Task → Option Bytes
  | .pollSlave slave _ => some slave.name
  | .listen _ => none
  | .pollModule module _ => some module.name

theorem Task.names_run {outside : Outside} {task next : Task} {list : List Data}
    {device : Bytes} (hdevice : task.device = some device)
    (h : task.run outside = .ok (list, next)) :
    next.device = some device ∧ (list.map Data.deviceName).Sublist [device] := by
  obtain ⟨rfl, rfl⟩ | ⟨slave, lastRun, data, rfl, hrequest, rfl, rfl⟩ | ⟨nmea, rfl, -⟩ |
    ⟨module, lastRun, data, rfl, hrequest, rfl, rfl⟩ := run_ok h
  · exact ⟨hdevice, List.nil_sublist _⟩
  · cases hdevice
    rw [List.map_singleton, Communication.Modbus.name_of_request hrequest]
    exact ⟨rfl, List.Sublist.refl _⟩
  · cases hdevice
  · cases hdevice
    rw [List.map_singleton, Communication.Wago.name_of_request hrequest]
    exact ⟨rfl, List.Sublist.refl _⟩

namespace Manager

theorem names_runTasks {outside : Nat → Outside} {k : Nat} {tasks next : List Task}
    {list : List Data} {names : List Bytes}
    (hnames : tasks.map Task.device = names.map some)
    (h : runTasks outside k tasks = .ok (list, next)) :
    next.map Task.device = names.map some ∧ (list.map Data.deviceName).Sublist names := by
  induction tasks generalizing k list next names with
  | nil =>
      cases h
      exact ⟨hnames, List.nil_sublist _⟩
  | cons task tasks ih =>
      cases names with
      | nil => cases hnames
      | cons name names =>
          obtain ⟨hfirst, hothers⟩ := List.cons.inj hnames
          obtain ⟨⟨data, after⟩, htask, h⟩ := bind_eq_ok.mp h
          obtain ⟨⟨rest, tasks'⟩, htasks, h⟩ := bind_eq_ok.mp h
          cases h
          obtain ⟨hdevice, hdata⟩ := Task.names_run hfirst htask
          obtain ⟨hdevices, hrest⟩ := ih hothers htasks
          refine ⟨?_, ?_⟩
          · rw [List.map_cons, hdevice, hdevices, List.map_cons]
          · rw [List.map_append]
            exact hdata.append hrest

theorem runProcessors_ok {list : List Data}
    {processors next : List Limits.Processor} {outputs : List (List Limits.Data)}
    (h : runProcessors list processors = .ok (outputs, next)) :
    (outputs.map (List.map Limits.Data.deviceName) = processors.map fun processor =>
      (list.filter (Limits.isConsidered processor.data)).map Data.deviceName) ∧
    ∀ after ∈ next, ∃ processor ∈ processors, ∀ device : Bytes,
      after.data[device]?.isSome = processor.data[device]?.isSome := by
  induction processors generalizing outputs next with
  | nil =>
      cases h
      simp
  | cons processor processors ih =>
      obtain ⟨⟨output, after⟩, hprocess, h⟩ := bind_eq_ok.mp h
      obtain ⟨⟨rest, processors'⟩, hrest, h⟩ := bind_eq_ok.mp h
      cases h
      obtain ⟨hnames, hkeys⟩ := Limits.Processor.names_process hprocess
      obtain ⟨hnames', hkeys'⟩ := ih hrest
      refine ⟨by rw [List.map_cons, List.map_cons, hnames, hnames'], ?_⟩
      refine List.forall_mem_cons.mpr ⟨⟨processor, List.mem_cons_self, hkeys⟩, ?_⟩
      intro other hmem
      obtain ⟨own, hown, hsame⟩ := hkeys' other hmem
      exact ⟨own, List.mem_cons_of_mem _ hown, hsame⟩

/-- The outputs are of the considered readings. -/
theorem forall_outputs_iff {list : List Data} {processors next : List Limits.Processor}
    {outputs : List (List Limits.Data)}
    (h : runProcessors list processors = .ok (outputs, next)) (property : Bytes → Prop) :
    (∀ data ∈ outputs.flatten, property data.deviceName) ↔
      ∀ processor ∈ processors, ∀ input ∈ list,
        Limits.isConsidered processor.data input → property input.deviceName := by
  have hnames := congrArg List.flatten (runProcessors_ok h).1
  rw [← List.map_flatten] at hnames
  rw [← List.forall_mem_map, hnames]
  simp only [List.forall_mem_flatten, List.forall_mem_map, List.forall_mem_filter]

end Manager

/--
With processors the tasks have devices of different names, and so have the
readings of a run.
-/
structure Thread.Distinct (thread : Thread) : Prop where
  tasks : thread.manager.processors ≠ [] →
    ∃ names : List Bytes, names.Nodup ∧
      thread.manager.tasks.map Task.device = names.map some
  list : thread.manager.processors ≠ [] → ∀ list ∈ thread.list,
    (list.map Data.deviceName).Nodup

theorem Thread.distinct_of_fromJson {j : Config.ConfigJson} {config : Config}
    {manager : Manager} (hconfig : Config.fromJson j = .ok config)
    (hmanager : initializeManager config = .ok manager) :
    Thread.Distinct { manager } := by
  refine ⟨fun hprocessors => ?_, fun _ => by simp⟩
  obtain ⟨tasks, htasks, hmanager⟩ := bind_eq_ok.mp hmanager
  cases hmanager
  obtain ⟨-, hslaves, hmodules⟩ := initializeTasks_ok htasks
  obtain ⟨hprotocol, -, hparse⟩ | ⟨-, -, -, hparse⟩ | ⟨hprotocol, -, hparse⟩ :=
    Config.fromJson_ok hconfig
  · obtain ⟨-, hchecked, -⟩ := Config.Modbus.parseModbus_ok hparse
    refine ⟨config.modbus.map Config.Modbus.Slave.name,
      List.pairwise_map.mpr hchecked.names, ?_⟩
    rw [hslaves hprotocol, List.map_map, List.map_map]
    rfl
  · have hnone := (Config.Nmea.parseNMEA_ok hparse).2
    simp [initializeProcessors, hnone] at hprocessors
  · have hnames := (Config.Wago.modules_of_parseWago hparse).1
    refine ⟨config.wago.map Config.Wago.Module.name, hnames, ?_⟩
    rw [hmodules hprotocol, List.map_map, List.map_map]
    rfl

/-! ## Steps and runs -/

namespace System

structure Sound (system : System) : Prop where
  stored : Stored system.http system.produced
  distinct : ∀ thread ∈ system.threads, thread.Distinct

theorem sound_initial {jsons : List Config.ConfigJson} {configs : List Config}
    (hconfigs : jsons.mapM Config.fromJson = .ok configs) {system : System}
    (h : initial configs = .ok system) : system.Sound ∧ system.produced = [] := by
  obtain ⟨managers, hmanagers, h⟩ := bind_eq_ok.mp h
  cases h
  refine ⟨⟨?_, ?_⟩, rfl⟩
  · unfold Stored Out.Http.initial
    split
    case h_1 buffer hbuffer =>
      rw [Option.ite_none_right_eq_some] at hbuffer
      obtain ⟨-, hbuffer⟩ := hbuffer
      cases hbuffer
      exact ⟨rfl, by simp, by simp, by simp⟩
    case h_2 => rfl
  · intro thread hthread
    obtain ⟨manager, hmem, rfl⟩ := List.mem_map.mp hthread
    obtain ⟨config, hconfig, hmanager⟩ := mem_mapM_ok hmanagers hmem
    obtain ⟨j, -, hjson⟩ := mem_mapM_ok hconfigs hconfig
    exact Thread.distinct_of_fromJson hjson hmanager

theorem step_collect {sizeofData : Nat} {system next : System} {i : Nat}
    {outside : Nat → Outside} {now : Timestamp}
    (h : step sizeofData system (.collect i outside now) = some next) :
    ∃ manager list manager', system.threads[i]? = some ⟨manager, none⟩ ∧
      manager.collect outside = .ok (list, manager') ∧
      next.http.limitsStorage = system.http.limitsStorage ∧
      next.threads = system.threads.set i ⟨manager', some list⟩ ∧
      next.produced = system.produced := by
  simp only [step] at h
  split at h
  case h_1 manager hthread =>
    split at h
    case h_1 list manager' hcollect =>
      cases h
      refine ⟨manager, list, manager', hthread, hcollect, ?_, rfl, rfl⟩
      dsimp only
      split <;> rfl
    case h_2 => cases h
  case h_2 => cases h

theorem step_process {sizeofData : Nat} {system next : System} {i : Nat} {now : Timestamp}
    (h : step sizeofData system (.process i now) = some next) :
    ∃ manager list outputs manager' http, system.threads[i]? = some ⟨manager, some list⟩ ∧
      manager.process list = .ok (outputs, manager') ∧
      sendOutputs sizeofData now system.http outputs = .ok http ∧
      next = ⟨http, system.threads.set i ⟨manager', none⟩,
        record i outputs.flatten system.produced⟩ := by
  simp only [step] at h
  split at h
  case h_1 manager list hthread =>
    split at h
    case h_1 outputs manager' hprocess =>
      split at h
      case h_1 http hsend =>
        cases h
        exact ⟨manager, list, outputs, manager', http, hthread, hprocess, hsend, rfl⟩
      case h_2 => cases h
    case h_2 => cases h
  case h_2 => cases h

theorem Sound.collect {sizeofData : Nat} {system next : System} {i : Nat}
    {outside : Nat → Outside} {now : Timestamp} (h : system.Sound)
    (hstep : step sizeofData system (.collect i outside now) = some next) : next.Sound := by
  obtain ⟨manager, list, manager', hthread, hcollect, hstorage, hthreads, hproduced⟩ :=
    step_collect hstep
  have hdistinct := h.distinct _ (List.mem_of_getElem? hthread)
  constructor
  · unfold Stored
    rw [hstorage, hproduced]
    exact h.stored
  · intro thread hmem
    rw [hthreads] at hmem
    rcases List.mem_or_eq_of_mem_set hmem with hmem | rfl
    · exact h.distinct thread hmem
    · obtain ⟨⟨data, tasks⟩, htasks, hcollect⟩ := bind_eq_ok.mp hcollect
      cases hcollect
      constructor
      · intro hprocessors
        obtain ⟨names, hnodup, hnames⟩ := hdistinct.tasks hprocessors
        exact ⟨names, hnodup, (Manager.names_runTasks hnames htasks).1⟩
      · rintro hprocessors _ ⟨⟩
        obtain ⟨names, hnodup, hnames⟩ := hdistinct.tasks hprocessors
        exact hnodup.sublist (Manager.names_runTasks hnames htasks).2

theorem Sound.process {sizeofData : Nat} {system next : System} {i : Nat} {now : Timestamp}
    (h : system.Sound) (hstep : step sizeofData system (.process i now) = some next) :
    next.Sound := by
  obtain ⟨manager, list, outputs, manager', http, hthread, hprocess, hsend, rfl⟩ :=
    step_process hstep
  have hdistinct := h.distinct _ (List.mem_of_getElem? hthread)
  obtain ⟨⟨sent, processors⟩, hrun, hprocess⟩ := bind_eq_ok.mp hprocess
  cases hprocess
  constructor
  · refine h.stored.sendOutputs i (fun output hmem => ?_) hsend
    have hname : output.map Limits.Data.deviceName ∈
        outputs.map (List.map Limits.Data.deviceName) := List.mem_map_of_mem hmem
    rw [(Manager.runProcessors_ok hrun).1] at hname
    obtain ⟨processor, hprocessor, hname⟩ := List.mem_map.mp hname
    rw [← hname]
    exact (hdistinct.list (List.ne_nil_of_mem hprocessor) list rfl).sublist
      (List.filter_sublist.map _)
  · intro thread hmem
    rcases List.mem_or_eq_of_mem_set hmem with hmem | rfl
    · exact h.distinct thread hmem
    · refine ⟨fun hprocessors => hdistinct.tasks ?_, fun _ => by simp⟩
      obtain ⟨after, hafter⟩ := List.exists_mem_of_ne_nil _ hprocessors
      obtain ⟨processor, hprocessor, -⟩ := (Manager.runProcessors_ok hrun).2 after hafter
      exact List.ne_nil_of_mem hprocessor

theorem Sound.step {sizeofData : Nat} {system next : System} {event : Event}
    (h : system.Sound) (hstep : step sizeofData system event = some next) : next.Sound := by
  cases event with
  | collect i outside now => exact h.collect hstep
  | process i now => exact h.process hstep

theorem exclusive_step_iff {sizeofData : Nat} {system next : System} {event : Event}
    (hstep : step sizeofData system event = some next) :
    Exclusive next.produced ↔ Exclusive system.produced ∧ Unshared system event := by
  cases event with
  | collect i outside now =>
      obtain ⟨_, _, _, -, -, -, -, hproduced⟩ := step_collect hstep
      rw [hproduced, Unshared, and_true]
  | process i now =>
      obtain ⟨manager, list, outputs, manager', http, hthread, hprocess, -, rfl⟩ :=
        step_process hstep
      obtain ⟨⟨sent, processors⟩, hrun, hprocess⟩ := bind_eq_ok.mp hprocess
      cases hprocess
      rw [exclusive_record_iff, Unshared, hthread]
      simp only [Option.mem_def, Option.some.injEq, forall_eq']
      rw [Manager.forall_outputs_iff hrun fun device => ∀ entry ∈ system.produced,
        entry.2.deviceName = device → entry.1 = i]

theorem sound_run {jsons : List Config.ConfigJson} {configs : List Config}
    (hconfigs : jsons.mapM Config.fromJson = .ok configs) {system final : System}
    (hinitial : initial configs = .ok system) {sizeofData : Nat} {events : List Event}
    (hrun : run (step sizeofData) system events = some final) : final.Sound :=
  run_invariant Sound (fun _ => Sound.step) alongRun_true (sound_initial hconfigs hinitial).1 hrun

/--
In every run of the managers of accepted files, the limits show the latest
output of each manager for each device exactly if no device is shared.
-/
theorem showsLatest_iff_unshared {jsons : List Config.ConfigJson} {configs : List Config}
    (hconfigs : jsons.mapM Config.fromJson = .ok configs) {system final : System}
    (hinitial : initial configs = .ok system) (sizeofData : Nat) {events : List Event}
    (hrun : run (step sizeofData) system events = some final) :
    final.ShowsLatest ↔ AlongRun (step sizeofData) Unshared system events := by
  obtain ⟨hsound, hproduced⟩ := sound_initial hconfigs hinitial
  have hfinal : final.Sound := sound_run hconfigs hinitial hrun
  rw [showsLatest_iff_exclusive hfinal.stored, alongRun_iff Sound.step
    (fun _ => exclusive_step_iff) hsound hrun]
  simp [hproduced, Exclusive]

theorem ShowsLatest.mem_shown {system : System} (h : system.ShowsLatest) {i : Nat}
    {device : Bytes} {data : Limits.Data}
    (hlatest : latest system.produced i device = some data) : data ∈ system.shown := by
  obtain ⟨pairs, -, hmem, hshown⟩ := h
  have hpair : (i, device) ∈ pairs := (hmem i device).mpr (by rw [hlatest]; rfl)
  have hdata : some data ∈ system.shown.map some := by
    rw [hshown]
    exact List.mem_map.mpr ⟨(i, device), hpair, hlatest⟩
  simpa using hdata

/-- A slave with one register, and a limits processor for it. -/
def limitedJson (path device register : Bytes) : Config.ConfigJson where
  protocol := some (str "modbus")
  serial := some { path := some path, baudRate := some 9600, stopBitsCount := some 1,
                   parity := some (str "none"), responseTimeoutMs := some 1000,
                   lineTimeoutMs := some 100 }
  slaves := some [{ name := some device, id := some 1, pollTimeMs := some 1000,
                    analogInputRegisters := some [{ name := some register, address := some 0,
                                                    dataType := some (str "UINT_16A") }] }]
  dataProcessors := some { limits := some { storageDurationMinutes := some 10,
                                            devices := some [device] } }

def limited (path device register : Bytes) : Config where
  protocol := str "modbus"
  modbus := [⟨device, 1, 1000, [⟨register, 0, [0, 1], .uint16⟩], []⟩]
  processors := ⟨some ⟨10, [device]⟩⟩
  serial := some ⟨path, 9600, 1, 1000, 100, .none⟩

def bothRun : List Event :=
  [.collect 0 (fun _ => answering 1000) 1, .process 0 2,
    .collect 1 (fun _ => answering 1000) 3, .process 1 4]

theorem showsLatest_pumpAndTank : ∃ configs system final,
    [limitedJson (str "/dev/ttyUSB0") (str "Pump") (str "Pressure"),
      limitedJson (str "/dev/ttyUSB1") (str "Tank") (str "Pressure")].mapM Config.fromJson =
        .ok configs ∧
    initial configs = .ok system ∧ run (step 200) system bothRun = some final ∧
    final.ShowsLatest := by
  have hconfigs : [limitedJson (str "/dev/ttyUSB0") (str "Pump") (str "Pressure"),
      limitedJson (str "/dev/ttyUSB1") (str "Tank") (str "Pressure")].mapM Config.fromJson =
        .ok [limited (str "/dev/ttyUSB0") (str "Pump") (str "Pressure"),
          limited (str "/dev/ttyUSB1") (str "Tank") (str "Pressure")] := by
    decide +kernel
  obtain ⟨system, hinitial⟩ : ∃ system, initial
      [limited (str "/dev/ttyUSB0") (str "Pump") (str "Pressure"),
        limited (str "/dev/ttyUSB1") (str "Tank") (str "Pressure")] = .ok system := ⟨_, rfl⟩
  have hunshared : AlongRun (step 200) Unshared system bothRun := by
    cases hinitial
    decide +kernel
  have hruns : (run (step 200) system bothRun).isSome := by
    cases hinitial
    decide +kernel
  obtain ⟨final, hrun⟩ := Option.isSome_iff_exists.mp hruns
  exact ⟨_, system, final, hconfigs, hinitial, hrun,
    (showsLatest_iff_unshared hconfigs hinitial 200 hrun).mpr hunshared⟩

/-- Both files have a slave of the same name. -/
theorem sensor_lost : ∃ configs system final temperature pressure,
    [limitedJson (str "/dev/ttyUSB0") (str "Sensor") (str "Temperature"),
      limitedJson (str "/dev/ttyUSB1") (str "Sensor") (str "Pressure")].mapM Config.fromJson =
        .ok configs ∧
    initial configs = .ok system ∧ run (step 200) system bothRun = some final ∧
    latest final.produced 0 (str "Sensor") = some ⟨str "Sensor", [temperature]⟩ ∧
    temperature.name = str "Temperature" ∧ pressure.name = str "Pressure" ∧
    final.shown = [⟨str "Sensor", [pressure]⟩] ∧ ¬ final.ShowsLatest := by
  have hconfigs : [limitedJson (str "/dev/ttyUSB0") (str "Sensor") (str "Temperature"),
      limitedJson (str "/dev/ttyUSB1") (str "Sensor") (str "Pressure")].mapM Config.fromJson =
        .ok [limited (str "/dev/ttyUSB0") (str "Sensor") (str "Temperature"),
          limited (str "/dev/ttyUSB1") (str "Sensor") (str "Pressure")] := by
    decide +kernel
  let temperature : Limits.FieldLimit :=
    ⟨str "Temperature", some (.uint16 0), some (.uint16 0)⟩
  let pressure : Limits.FieldLimit := ⟨str "Pressure", some (.uint16 0), some (.uint16 0)⟩
  obtain ⟨system, hinitial⟩ : ∃ system, initial
      [limited (str "/dev/ttyUSB0") (str "Sensor") (str "Temperature"),
        limited (str "/dev/ttyUSB1") (str "Sensor") (str "Pressure")] = .ok system := ⟨_, rfl⟩
  have hruns : (run (step 200) system bothRun).map (fun final => (final.produced, final.shown)) =
      some ([(1, ⟨str "Sensor", [pressure]⟩), (0, ⟨str "Sensor", [temperature]⟩)],
        [⟨str "Sensor", [pressure]⟩]) := by
    cases hinitial
    decide +kernel
  obtain ⟨final, hrun, hfinal⟩ := Option.map_eq_some_iff.mp hruns
  rw [Prod.mk.injEq] at hfinal
  have hlatest : latest final.produced 0 (str "Sensor") =
      some ⟨str "Sensor", [temperature]⟩ := by
    rw [hfinal.1]
    decide +kernel
  refine ⟨_, system, final, temperature, pressure, hconfigs, hinitial, hrun, hlatest, rfl, rfl,
    hfinal.2, fun hshows => ?_⟩
  have hmem := hshows.mem_shown hlatest
  rw [hfinal.2] at hmem
  revert hmem
  decide +kernel

/-! ## Files that name different devices -/

/-- The file with number `i` names the device in its limits section. -/
def Limited (configs : List Config) (i : Nat) (device : Bytes) : Prop :=
  ∃ config, configs[i]? = some config ∧
    ∃ limits, config.processors.limits = some limits ∧ device ∈ limits.devices

/-- Managers consider, and have outputs of, devices of their own file only. -/
structure Confined (configs : List Config) (system : System) : Prop where
  threads : ∀ i thread, system.threads[i]? = some thread →
    ∀ processor ∈ thread.manager.processors, ∀ device : Bytes,
      processor.data[device]?.isSome → Limited configs i device
  produced : ∀ entry ∈ system.produced, Limited configs entry.1 entry.2.deviceName

theorem confined_initial {configs : List Config} {system : System}
    (h : initial configs = .ok system) : Confined configs system := by
  obtain ⟨managers, hmanagers, h⟩ := bind_eq_ok.mp h
  cases h
  refine ⟨?_, by simp⟩
  intro i thread hthread processor hprocessor device hsome
  have hprocessors : managers.map Manager.processors = configs.map initializeProcessors := by
    refine map_of_mapM_ok (fun config _ manager hmanager => ?_) hmanagers
    obtain ⟨tasks, -, hmanager⟩ := bind_eq_ok.mp hmanager
    cases hmanager
    rfl
  have hown := congrArg (fun processors => processors[i]?) hprocessors
  rw [List.getElem?_map, Option.map_eq_some_iff] at hthread
  obtain ⟨manager, hmanager, rfl⟩ := hthread
  simp only [List.getElem?_map, hmanager, Option.map_some] at hown
  obtain ⟨config, hconfig, hinitial⟩ := Option.map_eq_some_iff.mp hown.symm
  refine ⟨config, hconfig, ?_⟩
  rw [← hinitial, initializeProcessors] at hprocessor
  cases hlimits : config.processors.limits with
  | none => simp [hlimits] at hprocessor
  | some limits =>
      rw [hlimits, List.mem_singleton] at hprocessor
      rw [hprocessor, Limits.getElem?_initial] at hsome
      exact ⟨limits, rfl, by simpa using hsome⟩

theorem Confined.set {configs : List Config} {system : System} (h : Confined configs system)
    {i : Nat} {thread next : Thread} (hthread : system.threads[i]? = some thread)
    (hnext : ∀ after ∈ next.manager.processors, ∃ processor ∈ thread.manager.processors,
      ∀ device : Bytes, after.data[device]?.isSome = processor.data[device]?.isSome)
    {j : Nat} {other : Thread} (hother : (system.threads.set i next)[j]? = some other) :
    ∀ processor ∈ other.manager.processors, ∀ device : Bytes,
      processor.data[device]?.isSome → Limited configs j device := by
  rw [List.getElem?_set] at hother
  split at hother
  case isTrue heq =>
    subst heq
    split at hother
    case isTrue =>
      cases hother
      intro after hafter device hsome
      obtain ⟨processor, hprocessor, hsame⟩ := hnext after hafter
      exact h.threads i thread hthread processor hprocessor device (hsame device ▸ hsome)
    case isFalse => cases hother
  case isFalse => exact h.threads j other hother

theorem Confined.step {configs : List Config} {sizeofData : Nat} {system next : System}
    {event : Event} (h : Confined configs system)
    (hstep : step sizeofData system event = some next) : Confined configs next := by
  cases event with
  | collect i outside now =>
      obtain ⟨manager, list, manager', hthread, hcollect, -, hthreads, hproduced⟩ :=
        step_collect hstep
      obtain ⟨⟨data, tasks⟩, -, hcollect⟩ := bind_eq_ok.mp hcollect
      cases hcollect
      refine ⟨fun j other hother => ?_, by rw [hproduced]; exact h.produced⟩
      rw [hthreads] at hother
      refine h.set hthread ?_ hother
      exact fun processor hmem => ⟨processor, hmem, fun _ => rfl⟩
  | process i now =>
      obtain ⟨manager, list, outputs, manager', http, hthread, hprocess, -, rfl⟩ :=
        step_process hstep
      obtain ⟨⟨sent, processors⟩, hrun, hprocess⟩ := bind_eq_ok.mp hprocess
      cases hprocess
      refine ⟨fun j other => h.set hthread (Manager.runProcessors_ok hrun).2, ?_⟩
      have hown : ∀ data ∈ outputs.flatten, Limited configs i data.deviceName := by
        rw [Manager.forall_outputs_iff hrun (Limited configs i)]
        intro processor hprocessor input _ hconsidered
        refine h.threads i _ hthread processor hprocessor input.deviceName ?_
        exact (Bool.and_eq_true_iff.mp hconsidered).2
      intro entry hentry
      rcases List.mem_append.mp hentry with hentry | hentry
      · rw [List.mem_reverse, List.mem_map] at hentry
        obtain ⟨data, hdata, rfl⟩ := hentry
        exact hown data hdata
      · exact h.produced entry hentry

/-- Files that name different devices have outputs of different devices. -/
theorem exclusive_run {configs : List Config}
    (hdisjoint : ∀ i j device, Limited configs i device → Limited configs j device → i = j)
    {system final : System} (hinitial : initial configs = .ok system) {sizeofData : Nat}
    {events : List Event} (hrun : run (step sizeofData) system events = some final) :
    Exclusive final.produced := by
  have hconfined : Confined configs final :=
    run_invariant _ (fun _ => Confined.step) alongRun_true (confined_initial hinitial) hrun
  intro a ha b hb hname
  refine hdisjoint a.1 b.1 a.2.deviceName (hconfined.produced a ha) ?_
  rw [hname]
  exact hconfined.produced b hb

/-- Nothing is lost when no two files name the same device. -/
theorem showsLatest_of_disjoint {jsons : List Config.ConfigJson} {configs : List Config}
    (hconfigs : jsons.mapM Config.fromJson = .ok configs)
    (hdisjoint : ∀ i j device, Limited configs i device → Limited configs j device → i = j)
    {system final : System} (hinitial : initial configs = .ok system) (sizeofData : Nat)
    {events : List Event} (hrun : run (step sizeofData) system events = some final) :
    final.ShowsLatest := by
  have hfinal : final.Sound := sound_run hconfigs hinitial hrun
  rw [showsLatest_iff_exclusive hfinal.stored]
  exact exclusive_run hdisjoint hinitial hrun

theorem showsLatest_of_disjoint_pumpAndTank : ∃ configs system final,
    initial configs = .ok system ∧ run (step 200) system bothRun = some final ∧
    final.ShowsLatest := by
  have hconfigs : [limitedJson (str "/dev/ttyUSB0") (str "Pump") (str "Pressure"),
      limitedJson (str "/dev/ttyUSB1") (str "Tank") (str "Pressure")].mapM Config.fromJson =
        .ok [limited (str "/dev/ttyUSB0") (str "Pump") (str "Pressure"),
          limited (str "/dev/ttyUSB1") (str "Tank") (str "Pressure")] := by
    decide +kernel
  obtain ⟨system, hinitial⟩ : ∃ system, initial
      [limited (str "/dev/ttyUSB0") (str "Pump") (str "Pressure"),
        limited (str "/dev/ttyUSB1") (str "Tank") (str "Pressure")] = .ok system := ⟨_, rfl⟩
  have hdisjoint : ∀ i j device,
      Limited [limited (str "/dev/ttyUSB0") (str "Pump") (str "Pressure"),
        limited (str "/dev/ttyUSB1") (str "Tank") (str "Pressure")] i device →
      Limited [limited (str "/dev/ttyUSB0") (str "Pump") (str "Pressure"),
        limited (str "/dev/ttyUSB1") (str "Tank") (str "Pressure")] j device → i = j := by
    have hown : ∀ i device, Limited [limited (str "/dev/ttyUSB0") (str "Pump") (str "Pressure"),
        limited (str "/dev/ttyUSB1") (str "Tank") (str "Pressure")] i device →
        (i = 0 ∧ device = str "Pump") ∨ (i = 1 ∧ device = str "Tank") := by
      rintro i device ⟨config, hconfig, limits, hlimits, hmem⟩
      match i, hconfig with
      | 0, hconfig =>
          cases hconfig
          cases hlimits
          exact .inl ⟨rfl, List.mem_singleton.mp hmem⟩
      | 1, hconfig =>
          cases hconfig
          cases hlimits
          exact .inr ⟨rfl, List.mem_singleton.mp hmem⟩
    intro i j device hi hj
    have hne : str "Pump" ≠ str "Tank" := by decide
    rcases hown i device hi with ⟨rfl, hdevice⟩ | ⟨rfl, hdevice⟩ <;>
      rcases hown j device hj with ⟨rfl, hdevice'⟩ | ⟨rfl, hdevice'⟩
    · rfl
    · exact absurd (hdevice.symm.trans hdevice') hne
    · exact absurd (hdevice'.symm.trans hdevice) hne
    · rfl
  have hruns : (run (step 200) system bothRun).isSome := by
    cases hinitial
    decide +kernel
  obtain ⟨final, hrun⟩ := Option.isSome_iff_exists.mp hruns
  exact ⟨_, system, final, hinitial, hrun,
    showsLatest_of_disjoint hconfigs hdisjoint hinitial 200 hrun⟩

end System

end Rdbus
