import Rdbus.Foundation.Throttle
import Rdbus.Survival

/-!
# When devices are polled

A task that polls is a throttle on the steady clock.  A running program polls
each device of its files at no shorter distance than its poll time, and never
lets a chance go by.
-/

namespace Rdbus

open Foundation

namespace Task

/-- The poll time and the last run of a task that polls. -/
def poll? : Task → Option (Int × Int)
  | .pollSlave slave lastRun => some (slave.pollTimeMs, lastRun)
  | .listen _ => none
  | .pollModule module lastRun => some (module.pollTimeMs, lastRun)

theorem isDue_mono {a b now pollTimeMs : Int} (h : a ≤ b)
    (hdue : isDue now b pollTimeMs = true) : isDue now a pollTimeMs = true := by
  unfold isDue at hdue ⊢
  rw [decide_eq_true_eq] at hdue ⊢
  have hmono : (now - b).tdiv 1000000 ≤ (now - a).tdiv 1000000 :=
    Int.tdiv_le_tdiv (by decide) (by omega)
  exact le_trans hdue hmono

/-- A task polls when it is due, and then keeps the time. -/
theorem run_poll {outside : Outside} {task next : Task} {list : List Data} {name : Bytes}
    {pollTimeMs lastRun : Int} (hname : task.device = some name)
    (hpoll : task.poll? = some (pollTimeMs, lastRun))
    (h : task.run outside = .ok (list, next)) :
    (isDue outside.steadyNow lastRun pollTimeMs = true ∧ list.map Data.deviceName = [name] ∧
      next.poll? = some (pollTimeMs, outside.steadyNow)) ∨
    (isDue outside.steadyNow lastRun pollTimeMs = false ∧ list = [] ∧
      next.poll? = some (pollTimeMs, lastRun)) := by
  cases task with
  | pollSlave slave last =>
      cases hname
      cases hpoll
      rw [run] at h
      split at h
      case isTrue hdue =>
        obtain ⟨data, hrequest, h⟩ := bind_eq_ok.mp h
        cases h
        exact .inl ⟨hdue, by simp [Communication.Modbus.name_of_request hrequest], rfl⟩
      case isFalse hdue =>
        cases h
        exact .inr ⟨by simpa using hdue, rfl, rfl⟩
  | listen nmea => cases hname
  | pollModule module last =>
      cases hname
      cases hpoll
      rw [run] at h
      split at h
      case isTrue hdue =>
        obtain ⟨data, hrequest, h⟩ := bind_eq_ok.mp h
        cases h
        exact .inl ⟨hdue, by simp [Communication.Wago.name_of_request hrequest], rfl⟩
      case isFalse hdue =>
        cases h
        exact .inr ⟨by simpa using hdue, rfl, rfl⟩

end Task

/-- A run has read the device. -/
def Data.reads (name : Bytes) (list : List Data) : Bool :=
  list.any fun data => data.deviceName = name

theorem Data.reads_iff {name : Bytes} {list : List Data} :
    reads name list = true ↔ name ∈ list.map deviceName := by
  simp [reads]

namespace Manager

/-- What the task with number `j` adds to the list of a run. -/
theorem runTasks_nth {outside : Nat → Outside} {k : Nat} {tasks next : List Task}
    {list : List Data} {names : List Bytes} (hnames : tasks.map Task.device = names.map some)
    (h : runTasks outside k tasks = .ok (list, next)) {j : Nat} {task : Task}
    (htask : tasks[j]? = some task) :
    ∃ before data after task', task.run (outside (k + j)) = .ok (data, task') ∧
      next[j]? = some task' ∧ list = before ++ (data ++ after) ∧
      (before.map Data.deviceName).Sublist (names.take j) ∧
      (after.map Data.deviceName).Sublist (names.drop (j + 1)) := by
  induction tasks generalizing k j list next names with
  | nil => cases htask
  | cons first tasks ih =>
      cases names with
      | nil => cases hnames
      | cons name names =>
          obtain ⟨hfirst, hothers⟩ := List.cons.inj hnames
          obtain ⟨⟨data, first'⟩, hrun, h⟩ := bind_eq_ok.mp h
          obtain ⟨⟨rest, tasks'⟩, hrest, h⟩ := bind_eq_ok.mp h
          cases h
          cases j with
          | zero =>
              cases htask
              exact ⟨[], data, rest, first', hrun, rfl, rfl, List.nil_sublist _,
                (names_runTasks hothers hrest).2⟩
          | succ j =>
              obtain ⟨before, own, after, task', hown, hnext, rfl, hbefore, hafter⟩ :=
                ih hothers hrest htask
              refine ⟨data ++ before, own, after, task', ?_, hnext, by simp, ?_, hafter⟩
              · rw [← hown]
                congr 2
                omega
              · rw [List.map_append]
                exact (Task.names_run hfirst hrun).2.append hbefore

theorem not_mem_around {names : List Bytes} (h : names.Nodup) {j : Nat} {name : Bytes}
    (hname : names[j]? = some name) : name ∉ names.take j ∧ name ∉ names.drop (j + 1) := by
  obtain ⟨hlt, rfl⟩ := List.getElem?_eq_some_iff.mp hname
  rw [← List.take_append_drop j names, List.drop_eq_getElem_cons hlt, List.nodup_append'] at h
  obtain ⟨-, hbehind, hdisjoint⟩ := h
  exact ⟨fun hmem => hdisjoint hmem List.mem_cons_self, (List.nodup_cons.mp hbehind).1⟩

/-- The `j`-th task polls its device in exactly the runs in which it is due. -/
theorem collect_nth {outside : Nat → Outside} {manager manager' : Manager} {list : List Data}
    {names : List Bytes} (hnames : manager.tasks.map Task.device = names.map some)
    (hnodup : names.Nodup) (h : manager.collect outside = .ok (list, manager')) {j : Nat}
    {name : Bytes} (hname : names[j]? = some name) {task : Task}
    (htask : manager.tasks[j]? = some task) {pollTimeMs lastRun : Int}
    (hpoll : task.poll? = some (pollTimeMs, lastRun)) :
    manager'.tasks.map Task.device = names.map some ∧
    ∃ task', manager'.tasks[j]? = some task' ∧
      if Task.isDue (outside j).steadyNow lastRun pollTimeMs then
        Data.reads name list = true ∧ task'.poll? = some (pollTimeMs, (outside j).steadyNow)
      else Data.reads name list = false ∧ task'.poll? = some (pollTimeMs, lastRun) := by
  obtain ⟨⟨data, tasks⟩, htasks, h⟩ := bind_eq_ok.mp h
  cases h
  refine ⟨(names_runTasks hnames htasks).1, ?_⟩
  obtain ⟨before, own, after, task', hown, hnext, rfl, hbefore, hafter⟩ :=
    runTasks_nth hnames htasks htask
  obtain ⟨hfront, hback⟩ := not_mem_around hnodup hname
  have hdevice : task.device = some name := by
    have hboth := congrArg (fun devices => devices[j]?) hnames
    simpa [List.getElem?_map, htask, hname] using hboth
  have hreads : Data.reads name (before ++ (own ++ after)) = Data.reads name own := by
    rw [Bool.eq_iff_iff, Data.reads_iff, Data.reads_iff, List.map_append, List.map_append,
      List.mem_append, List.mem_append]
    have hnotBefore := fun hmem => hfront (hbefore.subset hmem)
    have hnotAfter := fun hmem => hback (hafter.subset hmem)
    tauto
  refine ⟨task', hnext, ?_⟩
  rw [Nat.zero_add] at hown
  obtain ⟨hdue, hlist, hpolled⟩ | ⟨hdue, rfl, hkept⟩ := Task.run_poll hdevice hpoll hown
  · rw [if_pos hdue, hreads]
    exact ⟨Data.reads_iff.mpr (by simp [hlist]), hpolled⟩
  · rw [if_neg (by simp [hdue]), hreads]
    exact ⟨rfl, hkept⟩

end Manager

/-- The steady clock of the `j`-th task in the runs that have read the device. -/
def pollTimes (name : Bytes) (j : Nat) (runs : List (List Data × (Nat → Outside))) : List Int :=
  (runs.filter fun run => Data.reads name run.1).map fun run => (run.2 j).steadyNow

theorem pollTimes_alone {names : List Bytes} (hnodup : names.Nodup) {j : Nat} {name : Bytes}
    (hname : names[j]? = some name) {pollTimeMs : Int} (outsides : List (Nat → Outside))
    {manager : Manager} (hnames : manager.tasks.map Task.device = names.map some) {task : Task}
    (htask : manager.tasks[j]? = some task) {lastRun : Int}
    (hpoll : task.poll? = some (pollTimeMs, lastRun)) :
    pollTimes name j ((manager.alone outsides).zip outsides) =
      throttle (fun lastRun now => Task.isDue now lastRun pollTimeMs) lastRun
        ((outsides.take (manager.alone outsides).length).map fun outside =>
          (outside j).steadyNow) := by
  induction outsides generalizing manager task lastRun with
  | nil => rfl
  | cons outside outsides ih =>
      cases hcollect : manager.collect outside with
      | error e =>
          have hnone : manager.alone (outside :: outsides) = [] := by
            simp [Manager.alone, hcollect]
          rw [hnone]
          rfl
      | ok result =>
          obtain ⟨list, manager'⟩ := result
          obtain ⟨hnames', task', htask', hpolled⟩ :=
            Manager.collect_nth hnames hnodup hcollect hname htask hpoll
          -- The runs behind this one.
          have hrest : ∀ {last : Int}, task'.poll? = some (pollTimeMs, last) →
              ∃ rest, manager.alone (outside :: outsides) = list :: rest ∧
                pollTimes name j (rest.zip outsides) =
                  throttle (fun lastRun now => Task.isDue now lastRun pollTimeMs) last
                    ((outsides.take rest.length).map fun outside => (outside j).steadyNow) := by
            intro last hlast
            cases hnext : manager'.next list with
            | none => exact ⟨[], by simp [Manager.alone, hcollect, hnext], rfl⟩
            | some processed =>
                have htasks := (Program.next_eq_some hnext).1
                refine ⟨processed.alone outsides, by simp [Manager.alone, hcollect, hnext], ?_⟩
                exact ih (htasks ▸ hnames') (htasks ▸ htask') hlast
          split at hpolled
          case isTrue hdue =>
            obtain ⟨rest, halone, hpolls⟩ := hrest hpolled.2
            rw [halone, List.length_cons, List.take_succ_cons, List.map_cons, throttle, if_pos hdue,
              ← hpolls]
            simp [pollTimes, hpolled.1]
          case isFalse hdue =>
            obtain ⟨rest, halone, hpolls⟩ := hrest hpolled.2
            rw [halone, List.length_cons, List.take_succ_cons, List.map_cons, throttle, if_neg hdue,
              ← hpolls]
            simp [pollTimes, hpolled.1]

/-! ## Devices of accepted files -/

/-- The devices of a file that are polled, with their poll times. -/
def Config.polled (config : Config) : List (Bytes × Int) :=
  (config.modbus.map fun slave => (slave.name, slave.pollTimeMs)) ++
    config.wago.map fun module => (module.name, module.pollTimeMs)

/-- Each device has a task, in the order of the file and under a name of its own. -/
theorem tasks_of_polled {json : Config.ConfigJson} {config : Config} {manager : Manager}
    (hjson : Config.fromJson json = .ok config)
    (hmanager : initializeManager config = .ok manager) {j : Nat} {name : Bytes}
    {pollTimeMs : Int} (hdevice : config.polled[j]? = some (name, pollTimeMs)) :
    ∃ names : List Bytes, names.Nodup ∧ manager.tasks.map Task.device = names.map some ∧
      names[j]? = some name ∧
      ∃ task, manager.tasks[j]? = some task ∧ task.poll? = some (pollTimeMs, 0) := by
  obtain ⟨tasks, htasks, hmanager⟩ := bind_eq_ok.mp hmanager
  cases hmanager
  obtain ⟨-, hslaves, hmodules⟩ := initializeTasks_ok htasks
  obtain ⟨hprotocol, hwago, hparse⟩ | ⟨-, hmodbus, hwago, -⟩ | ⟨hprotocol, hmodbus, hparse⟩ :=
    Config.fromJson_ok hjson
  · obtain ⟨-, hchecked, -⟩ := Config.Modbus.parseModbus_ok hparse
    simp only [Config.polled, hwago, List.map_nil, List.append_nil, List.getElem?_map,
      Option.map_eq_some_iff, Prod.mk.injEq] at hdevice
    obtain ⟨slave, hslave, rfl, rfl⟩ := hdevice
    refine ⟨config.modbus.map Config.Modbus.Slave.name,
      List.pairwise_map.mpr hchecked.names, ?_, by simp [hslave], ?_⟩
    · rw [hslaves hprotocol, List.map_map, List.map_map]
      rfl
    · exact ⟨.pollSlave slave 0, by simp [hslaves hprotocol, hslave], rfl⟩
  · simp [Config.polled, hmodbus, hwago] at hdevice
  · have hnames := (Config.Wago.modules_of_parseWago hparse).1
    simp only [Config.polled, hmodbus, List.map_nil, List.nil_append, List.getElem?_map,
      Option.map_eq_some_iff, Prod.mk.injEq] at hdevice
    obtain ⟨module, hmodule, rfl, rfl⟩ := hdevice
    refine ⟨config.wago.map Config.Wago.Module.name, hnames, ?_, by simp [hmodule], ?_⟩
    · rw [hmodules hprotocol, List.map_map, List.map_map]
      rfl
    · exact ⟨.pollModule module 0, by simp [hmodules hprotocol, hmodule], rfl⟩

namespace Program

section

variable {sizeofData : Nat} {dumpError : Bytes → Option Bytes}

/--
However the threads take their turns, each device of an accepted file is polled
in some of the runs of its manager, each time at least its poll time behind the
time before, the first time behind the epoch of the clock, and no other choice of
the runs with this spacing has more of them.
-/
theorem polls_on_time {toStdout : Bool} {ipPort configDir : Bytes}
    {directory : Except Throw (List ConfigFile)}
    {construct : Config.Serial → Except Throw Unit} {made : Out.Output × List Manager}
    (hsetup : setup toStdout ipPort configDir directory construct = .ok made)
    {configs : List Config} (hconfigs : initializeConfigs configDir directory = .ok configs)
    {events : List Event} {final : Program}
    (hrun : run (step sizeofData dumpError) (initial (.ok made)) events = some final)
    {i : Nat} {config : Config} (hconfig : configs[i]? = some config) {j : Nat} {name : Bytes}
    {pollTimeMs : Int} (hdevice : config.polled[j]? = some (name, pollTimeMs)) :
    let outsides := events.filterMap (Event.outsideOf i)
    let times := (outsides.take (final.handedBy i).length).map fun outside =>
      (outside j).steadyNow
    let polls := pollTimes name j ((final.handedBy i).zip outsides)
    let due := fun lastRun now => Task.isDue now lastRun pollTimeMs
    polls.Sublist times ∧ Spaced due 0 polls ∧
      (times.Pairwise (· ≤ ·) → ∀ chosen : List Int, chosen.Sublist times →
        Spaced due 0 chosen → chosen.length ≤ polls.length) := by
  intro outsides times polls due
  obtain ⟨output, managers⟩ := made
  obtain ⟨others, hothers, hmanagers, -, -⟩ := setup_ok hsetup
  cases hconfigs.symm.trans hothers
  have hlength := length_of_mapM_ok hmanagers
  have hlt : i < managers.length := by
    rw [hlength]
    exact (List.getElem?_eq_some_iff.mp hconfig).1
  have hmanager : managers[i]? = some managers[i] := List.getElem?_eq_getElem hlt
  obtain ⟨own, hown, hbuilt⟩ := getElem?_of_mapM_ok hmanagers hmanager
  cases hconfig.symm.trans hown
  obtain ⟨jsons, -, hjsons⟩ := initializeConfigs_ok hconfigs
  obtain ⟨json, -, hjson⟩ := mem_mapM_ok hjsons (List.mem_of_getElem? hconfig)
  obtain ⟨names, hnodup, hnames, hname, task, htask, hpoll⟩ :=
    tasks_of_polled hjson hbuilt hdevice
  have hhanded : final.handedBy i = managers[i].alone outsides :=
    handed_alone hrun hmanager
  have hpolls : polls = throttle due 0 times := by
    have halone := pollTimes_alone hnodup hname outsides hnames htask hpoll
    rw [← hhanded] at halone
    exact halone
  rw [hpolls]
  refine ⟨throttle_sublist 0 times, throttle_spaced 0 times, ?_⟩
  intro hsorted chosen hchosen hspaced
  exact length_le_throttle due (fun a b now => Task.isDue_mono) le_rfl hsorted hchosen hspaced

def pumpFile : ConfigFile where
  path := str "./pump.rdbus.json"
  good := true
  json := .ok (System.limitedJson (str "/dev/ttyUSB0") (str "Pump") (str "Pressure"))

/-- The second run is too early. -/
def twoPolls : List Event :=
  [.configure, .spawn, .check 0, .collect 0 (fun _ => answering 1000) 5, .process 0 6, .wake 0,
    .check 0, .collect 0 (fun _ => answering 1500) 7]

theorem polls_on_time_pump :
    ([1000000000] : List Int).Sublist [1000000000, 1500000000] ∧
      Spaced (fun lastRun now => Task.isDue now lastRun 1000) 0 [1000000000] := by
  have hconfigs : initializeConfigs (str ".") (.ok [pumpFile]) =
      .ok [System.limited (str "/dev/ttyUSB0") (str "Pump") (str "Pressure")] := by
    decide +kernel
  have hall : (setup true [] (str ".") (.ok [pumpFile]) fun _ => .ok ()).toOption.bind (fun made =>
      (run (step 200 fun _ => none) (initial (.ok made)) twoPolls).map fun final =>
        ((final.handedBy 0).length, pollTimes (str "Pump") 0
          ((final.handedBy 0).zip (twoPolls.filterMap (Event.outsideOf 0))))) =
      some (2, [1000000000]) := by
    decide +kernel
  obtain ⟨made, hmade, hruns⟩ := Option.bind_eq_some_iff.mp hall
  have hsetup : setup true [] (str ".") (.ok [pumpFile]) (fun _ => .ok ()) = .ok made := by
    cases hmade : setup true [] (str ".") (.ok [pumpFile]) fun _ => .ok () <;>
      simp_all [Except.toOption]
  obtain ⟨final, hrun, hfinal⟩ := Option.map_eq_some_iff.mp hruns
  obtain ⟨hlength, hpolls⟩ := Prod.mk.inj hfinal
  have hdevice : (System.limited (str "/dev/ttyUSB0") (str "Pump") (str "Pressure")).polled[0]? =
      some (str "Pump", 1000) := rfl
  obtain ⟨htimes, hspaced, -⟩ := polls_on_time hsetup hconfigs hrun (i := 0) rfl hdevice
  rw [hlength, hpolls] at htimes
  rw [hpolls] at hspaced
  exact ⟨htimes, hspaced⟩

end

end Program

end Rdbus
