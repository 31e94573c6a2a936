import Rdbus.Out.Delivery
import Rdbus.Survival

/-!
# What the output is given

The server of a running program takes steps that it also takes by itself: the
calls of the threads and the requests of the clients, in the order in which they
happen.  What holds of the server alone then holds of the program.
-/

namespace Rdbus

open Foundation

namespace Out

/-- The log only grows, by what is sent. -/
theorem log_step {sizeofData : Nat} {dumpError : Bytes → Option Bytes} {world next : World}
    {event : Event} (h : step sizeofData dumpError world event = some next) :
    ∃ more, next.log = world.log ++ more ∧
      ∀ now list, event = .send now list → more.map Prod.snd = list := by
  cases event with
  | send now list =>
      cases h
      refine ⟨_, rfl, ?_⟩
      rintro now' list' ⟨⟩
      simp
  | sendLimits now list =>
      unfold step at h
      cases hsend : world.http.sendLimits sizeofData now list with
      | error e => simp [hsend] at h
      | ok http =>
          simp only [hsend, Option.some.injEq] at h
          rw [← h]
          exact ⟨[], by simp, by simp⟩
  | read now cookie =>
      obtain ⟨response, http, -, rfl⟩ := step_read h
      exact ⟨[], by simp, by simp⟩
  | processLimits =>
      cases h
      exact ⟨[], by simp, by simp⟩

theorem log_run {sizeofData : Nat} {dumpError : Bytes → Option Bytes} {world final : World}
    {events : List Event} (h : run (step sizeofData dumpError) world events = some final) :
    ∃ more, final.log = world.log ++ more := by
  refine run_invariant (fun next => ∃ more, next.log = world.log ++ more) ?_ alongRun_true
    ⟨[], by simp⟩ h
  rintro state event next - ⟨more, hmore⟩ hstep
  obtain ⟨extra, hextra, -⟩ := log_step hstep
  exact ⟨more ++ extra, by rw [hextra, hmore, List.append_assoc]⟩

/-- What can be written at the end could be written all along. -/
theorem written_of_writable {sizeofData : Nat} {dumpError : Bytes → Option Bytes}
    {world final : World} {events : List Event}
    (hrun : run (step sizeofData dumpError) world events = some final)
    (h : Writable dumpError final) :
    AlongRun (step sizeofData dumpError) (Written dumpError) world events := by
  induction events generalizing world with
  | nil => trivial
  | cons event events ih =>
      obtain ⟨next, hstep, hrest⟩ := run_cons.mp hrun
      unfold AlongRun
      rw [hstep]
      refine ⟨?_, ih hrest⟩
      obtain ⟨more, hmore, hsent⟩ := log_step hstep
      obtain ⟨later, hlater⟩ := log_run hrest
      cases event with
      | send now list =>
          intro data hdata
          rw [← hsent now list rfl] at hdata
          obtain ⟨pair, hpair, rfl⟩ := List.mem_map.mp hdata
          refine h pair ?_
          rw [hlater, hmore]
          exact List.mem_append_left later (List.mem_append_right world.log hpair)
      | sendLimits now list => trivial
      | read now cookie => trivial
      | processLimits => trivial

theorem exactlyOnce_of_kept {world : World} (hconsistent : Consistent world)
    (hkept : SessionsKept world) {before after : List Read} {created : Read} {id : Int}
    (hreads : world.reads = before ++ created :: after) (hcreated : created.session = none)
    (hid : created.response.setCookie = some id)
    (hidle : NeverIdle (accesses id created after)) :
    ExactlyOnce (world.log.map Prod.snd) (accesses id created after) := by
  apply exactlyOnce_of_delivers
  · intro read hmem
    rw [List.length_map]
    exact (hconsistent.recorded read (mem_reads_of_accesses hreads hmem)).2.1
  · refine hconsistent.growing.sublist ?_
    rw [hreads]
    exact (List.filter_sublist.cons_cons created).trans (List.sublist_append_right before _)
  · exact (hkept before created after id hreads hcreated hid hidle).1

/-- The output of the processors in one call after the other. -/
theorem run_sendLimits {sizeofData : Nat} {dumpError : Bytes → Option Bytes} {now : Timestamp}
    {outputs : List (List Processing.Limits.Data)} {world : World} {output : Output}
    (h : Output.sendOutputs sizeofData dumpError now outputs (.http world.http) = .ok output) :
    ∃ next, run (step sizeofData dumpError) world (outputs.map (.sendLimits now)) = some next ∧
      output = .http next.http ∧ next.log = world.log ∧ next.dropped = world.dropped ∧
      next.reads = world.reads ∧
      next.http.rdbusDataStorage = world.http.rdbusDataStorage := by
  induction outputs generalizing world with
  | nil =>
      cases h
      exact ⟨world, rfl, rfl, rfl, rfl, rfl, rfl⟩
  | cons list outputs ih =>
      unfold Output.sendOutputs at h ih
      rw [List.foldlM_cons] at h
      obtain ⟨middle, hfirst, hrest⟩ := bind_eq_ok.mp h
      simp only [Output.sendLimits] at hfirst
      cases hsend : world.http.sendLimits sizeofData now list with
      | error e => simp [hsend, Except.map] at hfirst
      | ok http =>
          have hstorage : http.rdbusDataStorage = world.http.rdbusDataStorage := by
            unfold Http.sendLimits at hsend
            split at hsend <;> cases hsend
            rfl
          rw [hsend] at hfirst
          cases hfirst
          have hsends : outputs.foldlM (fun output list =>
              output.sendLimits sizeofData dumpError now list)
              (Output.http ({ world with http, clock := now } : World).http) = .ok output := hrest
          obtain ⟨next, hrun, rfl, hlog, hdropped, hreads, hdata⟩ := ih hsends
          refine ⟨next, ?_, rfl, hlog, hdropped, hreads, hdata.trans hstorage⟩
          refine run_cons.mpr ⟨{ world with http, clock := now }, ?_, hrun⟩
          simp [step, hsend]

end Out

namespace Program

/-- The output, also one that is still to be configured. -/
def server (program : Program) : Out.Output :=
  match program.main with
  | .configuring (.ok (output, _)) => output
  | _ => program.output

theorem server_of_started {program : Program}
    (hmain : ∀ made, program.main ≠ .configuring made) : program.server = program.output := by
  unfold server
  split
  case h_1 hconfiguring => exact absurd hconfiguring (hmain _)
  case h_2 => rfl

section

variable (sizeofData : Nat) (dumpError : Bytes → Option Bytes)

/-- The steps of the server in a step of the program. -/
def calls (program : Program) : Event → List Out.Event
  | .collect i outside now =>
      match program.threads[i]? with
      | some ⟨manager, .collecting⟩ =>
          match manager.collect outside with
          | .ok (list, _) => if list.isEmpty then [] else [.send now list]
          | .error _ => []
      | _ => []
  | .process i now =>
      match program.threads[i]? with
      | some ⟨manager, .processing list⟩ =>
          match manager.process list with
          | .ok (outputs, _) =>
              match program.output.sendOutputs sizeofData dumpError now outputs with
              | .ok _ => outputs.map (.sendLimits now)
              | .error _ => []
          | .error _ => []
      | _ => []
  | .read now cookie => [.read now cookie]
  | .processLimits => [.processLimits]
  | _ => []

end

/-- The server is the one of this world, which has logged what was handed over. -/
structure Served (program : Program) (world : Out.World) : Prop where
  server : program.server = .http world.http
  early : ∀ made, program.main = .configuring made →
    program.threads = [] ∧ program.output = .pipe []
  replies : program.replies = world.reads
  log : world.log.map Prod.snd = program.handed.flatMap Prod.snd
  stream : world.http.rdbusDataStorage.type = .stream
  counted : world.dropped + world.http.rdbusDataStorage.data.length = world.log.length

section

variable {sizeofData : Nat} {dumpError : Bytes → Option Bytes}

theorem Served.output {program : Program} {world : Out.World} (h : Served program world)
    (hmain : ∀ made, program.main ≠ .configuring made) : program.output = .http world.http := by
  rw [← server_of_started hmain]
  exact h.server

theorem Served.of_thread {program : Program} {world : Out.World} (h : Served program world)
    {i : Nat} {thread : Thread} (hthread : program.threads[i]? = some thread) :
    (∀ made, program.main ≠ .configuring made) ∧ program.output = .http world.http := by
  have hmain : ∀ made, program.main ≠ .configuring made := by
    intro made heq
    rw [(h.early made heq).1] at hthread
    cases hthread
  exact ⟨hmain, h.output hmain⟩

/-- A step that changes only what the server does not see. -/
theorem Served.same {program next : Program} {world : Out.World} (h : Served program world)
    (hmain : ∀ made, next.main ≠ .configuring made) (houtput : next.output = .http world.http)
    (hreplies : next.replies = program.replies)
    (hhanded : next.handed.flatMap Prod.snd = program.handed.flatMap Prod.snd) :
    Served next world := by
  refine ⟨?_, fun made heq => absurd heq (hmain made), hreplies.trans h.replies,
    h.log.trans hhanded.symm, h.stream, h.counted⟩
  rw [server_of_started hmain]
  exact houtput

theorem Served.send {program next : Program} {world : Out.World} (h : Served program world)
    {now : Timestamp} {list : List Data} {i : Nat}
    (hmain : ∀ made, next.main ≠ .configuring made)
    (houtput : next.output = .http (world.http.send sizeofData now list))
    (hreplies : next.replies = program.replies)
    (hhanded : next.handed = program.handed ++ [(i, list)]) :
    ∃ after, Out.step sizeofData dumpError world (.send now list) = some after ∧
      Served next after := by
  refine ⟨_, rfl, ?_⟩
  have hdata : (world.http.send sizeofData now list).rdbusDataStorage.data =
      Out.Buffer.constrainSize sizeofData
        (world.http.rdbusDataStorage.data ++ list.map fun entry => (now, entry)) := by
    simp [Out.Http.send, Out.Buffer.add, h.stream]
  have hlength := congrArg List.length (Out.Buffer.constrainSize_eq_drop sizeofData
    (world.http.rdbusDataStorage.data ++ list.map fun entry => (now, entry)))
  rw [← hdata, List.length_drop, List.length_append, List.length_map] at hlength
  have hcounted := h.counted
  refine ⟨?_, fun made heq => absurd heq (hmain made), hreplies.trans h.replies, ?_, ?_, ?_⟩
  · rw [server_of_started hmain]
    exact houtput
  · rw [hhanded]
    simp [h.log]
  · simp [Out.Http.send, Out.Buffer.add, h.stream]
  · simp only [List.length_append, List.length_map]
    omega

theorem flatMap_handed {program : Program} {i : Nat} :
    (program.handed ++ [(i, [])]).flatMap Prod.snd = program.handed.flatMap Prod.snd := by
  simp

/-- A step without calls. -/
theorem served_silent {program next : Program} {event : Event} {world : Out.World}
    (hcalls : program.calls sizeofData dumpError event = []) (h : Served next world) :
    ∃ after, run (Out.step sizeofData dumpError) world (program.calls sizeofData dumpError event) =
      some after ∧ Served next after := by
  rw [hcalls]
  exact ⟨world, rfl, h⟩

theorem served_configuring {program next : Program} {world : Out.World}
    (h : Served program world) (hserver : next.server = program.server)
    (hmain : ∀ made, next.main ≠ .configuring made) (hreplies : next.replies = program.replies)
    (hhanded : next.handed = program.handed) : Served next world :=
  ⟨hserver.trans h.server, fun made heq => absurd heq (hmain made), hreplies.trans h.replies,
    by rw [hhanded]; exact h.log, h.stream, h.counted⟩

theorem calls_collect {program : Program} {i : Nat} {outside : Nat → Outside} {now : Timestamp}
    {manager manager' : Manager} {list : List Data}
    (hthread : program.threads[i]? = some ⟨manager, .collecting⟩)
    (hcollect : manager.collect outside = .ok (list, manager')) :
    program.calls sizeofData dumpError (.collect i outside now) =
      if list.isEmpty then [] else [.send now list] := by
  rw [calls, hthread]
  simp only [hcollect]

theorem served_collect {program : Program} {i : Nat} {outside : Nat → Outside} {now : Timestamp}
    {manager manager' : Manager} {list : List Data} {output : Out.Output} {world : Out.World}
    (h : Served program world)
    (hthread : program.threads[i]? = some ⟨manager, .collecting⟩)
    (hcollect : manager.collect outside = .ok (list, manager'))
    (hsend : sendReadings sizeofData dumpError now list program.output = .ok output)
    {next : Program} (hmain : next.main = program.main) (houtput : next.output = output)
    (hreplies : next.replies = program.replies)
    (hhanded : next.handed = program.handed ++ [(i, list)]) :
    ∃ after, run (Out.step sizeofData dumpError) world
      (program.calls sizeofData dumpError (.collect i outside now)) = some after ∧
      Served next after := by
  obtain ⟨hstarted, hserver⟩ := h.of_thread hthread
  have hnext : ∀ made, next.main ≠ .configuring made := by
    rw [hmain]
    exact hstarted
  rw [calls_collect hthread hcollect]
  unfold sendReadings at hsend
  rw [hserver] at hsend
  split at hsend
  case isTrue hempty =>
    cases hsend
    have hnil : list = [] := List.isEmpty_iff.mp hempty
    subst hnil
    exact ⟨world, rfl, h.same hnext houtput hreplies (by rw [hhanded, flatMap_handed])⟩
  case isFalse hempty =>
    cases hsend
    rw [if_neg hempty]
    obtain ⟨after, hstep, hserved⟩ := h.send hnext houtput hreplies hhanded
    exact ⟨after, run_cons.mpr ⟨after, hstep, rfl⟩, hserved⟩

theorem served_process {program : Program} {i : Nat} {now : Timestamp}
    {manager manager' : Manager} {list : List Data}
    {outputs : List (List Processing.Limits.Data)} {output : Out.Output} {world : Out.World}
    (h : Served program world)
    (hthread : program.threads[i]? = some ⟨manager, .processing list⟩)
    (hprocess : manager.process list = .ok (outputs, manager'))
    (hsend : program.output.sendOutputs sizeofData dumpError now outputs = .ok output)
    {next : Program} (hmain : next.main = program.main) (houtput : next.output = output)
    (hreplies : next.replies = program.replies) (hhanded : next.handed = program.handed) :
    ∃ after, run (Out.step sizeofData dumpError) world
      (program.calls sizeofData dumpError (.process i now)) = some after ∧
      Served next after := by
  obtain ⟨hstarted, hserver⟩ := h.of_thread hthread
  have hnext : ∀ made, next.main ≠ .configuring made := by
    rw [hmain]
    exact hstarted
  have hcalls : program.calls sizeofData dumpError (.process i now) =
      outputs.map (.sendLimits now) := by
    rw [calls, hthread]
    simp only [hprocess, hsend]
  rw [hserver] at hsend
  obtain ⟨after, hrun, hafter, hlog, hdropped, hreads, hstorage⟩ := Out.run_sendLimits hsend
  refine ⟨after, by rw [hcalls, hrun], ?_, fun made heq => absurd heq (hnext made), ?_, ?_, ?_, ?_⟩
  · rw [server_of_started hnext]
    exact houtput.trans hafter
  · exact hreplies.trans (h.replies.trans hreads.symm)
  · rw [hhanded, hlog]
    exact h.log
  · rw [hstorage]
    exact h.stream
  · rw [hdropped, hstorage, hlog]
    exact h.counted

theorem served_read {program : Program} {now : Timestamp} {cookie : Option Bytes}
    {server server' : Out.Http} {response : Out.Http.Response} {world : Out.World}
    (h : Served program world) (houtput : program.output = .http server)
    (hread : server.handleRead dumpError now cookie = .ok (response, server')) :
    ∃ after, Out.step sizeofData dumpError world (.read now cookie) = some after ∧
      Served { program with
        output := .http server'
        replies := program.replies ++ [⟨now, cookie.map Out.Http.sessionId, response,
          (program.handed.flatMap Prod.snd).length,
          (program.handed.flatMap Prod.snd).length - server'.rdbusDataStorage.data.length⟩] }
        after := by
  have hmain : ∀ made, program.main ≠ .configuring made := by
    intro made heq
    rw [(h.early made heq).2] at houtput
    cases houtput
  cases houtput.symm.trans (h.output hmain)
  obtain ⟨unwritten, hplain, -⟩ := Out.handleRead_ok hread
  have hstorage := Out.storage_read hplain
  have hcounted := h.counted
  have hlength : (program.handed.flatMap Prod.snd).length = world.log.length := by
    rw [← h.log, List.length_map]
  have hafter : Out.step sizeofData dumpError world (.read now cookie) = some { world with
      http := server'
      clock := now
      reads := world.reads ++ [⟨now, cookie.map Out.Http.sessionId, response, world.log.length,
        world.dropped⟩] } := by
    simp only [Out.step, hread]
  refine ⟨_, hafter, ?_, fun made heq => absurd heq (hmain made), ?_, h.log, ?_, ?_⟩
  · exact server_of_started hmain
  · have hdropped : world.log.length - server'.rdbusDataStorage.data.length = world.dropped := by
      rw [hstorage]
      omega
    simp only [h.replies, hlength, hdropped]
  · rw [hstorage]
    exact h.stream
  · rw [hstorage]
    exact hcounted

/-- Each step of the program is a run of its server. -/
theorem served_step : Simulates (step sizeofData dumpError) (Out.step sizeofData dumpError)
    (calls sizeofData dumpError) Served := by
  intro program next event world h hstep
  have hthread : ∀ {i : Nat} {thread : Thread} {manager : Manager} {stage : Stage},
      program.threads[i]? = some thread → Served (program.setThread i manager stage) world := by
    intro i thread manager stage hthread
    obtain ⟨hmain, hserver⟩ := h.of_thread hthread
    exact h.same hmain hserver rfl rfl
  cases steps_of_step hstep with
  | interrupt => exact served_silent rfl ⟨h.server, h.early, h.replies, h.log, h.stream, h.counted⟩
  | refuse hmain =>
      have hserver := h.server
      rw [server, hmain] at hserver
      simp only [(h.early _ hmain).2] at hserver
      cases hserver
  | configure hmain | spawn hmain | start hmain | join hmain | exit hmain =>
      refine served_silent rfl (served_configuring h ?_ (by simp) rfl rfl)
      simp [server, hmain]
  | check hchecking => exact served_silent rfl (hthread hchecking)
  | report hreporting =>
      obtain ⟨hmain, hserver⟩ := h.of_thread hreporting
      exact served_silent rfl (h.same hmain hserver rfl rfl)
  | lower hlowering =>
      obtain ⟨hmain, hserver⟩ := h.of_thread hlowering
      exact served_silent rfl (h.same hmain hserver rfl rfl)
  | fail hfailing =>
      obtain ⟨hmain, hserver⟩ := h.of_thread hfailing
      exact served_silent rfl (h.same hmain hserver rfl rfl)
  | wake hsleeping => exact served_silent rfl (hthread hsleeping)
  | collect hcollecting hcollect hsend =>
      exact served_collect h hcollecting hcollect hsend rfl rfl rfl rfl
  | collectThrows hcollecting hcollect =>
      refine served_silent ?_ (hthread hcollecting)
      rw [calls, hcollecting]
      simp only [hcollect]
  | sendThrows hcollecting hcollect hsend =>
      obtain ⟨-, hserver⟩ := h.of_thread hcollecting
      unfold sendReadings at hsend
      rw [hserver] at hsend
      split at hsend <;> cases hsend
  | process hprocessing hprocess hsend =>
      exact served_process h hprocessing hprocess hsend rfl rfl rfl rfl
  | processThrows hprocessing hprocess =>
      refine served_silent ?_ (hthread hprocessing)
      rw [calls, hprocessing]
      simp only [hprocess]
  | limitsThrow hprocessing hprocess hsend =>
      refine served_silent ?_ (hthread hprocessing)
      rw [calls, hprocessing]
      simp only [hprocess, hsend]
  | read hmain houtput hread =>
      obtain ⟨after, hafter, hserved⟩ := served_read h houtput hread
      exact ⟨after, run_cons.mpr ⟨after, hafter, rfl⟩, hserved⟩
  | processLimits => exact ⟨world, rfl, h⟩

/-! ## Sessions of a running program -/

/-- The clock that a step reads for the server. -/
def Event.time : Event → Option Timestamp
  | .collect _ _ now | .process _ now | .read now _ => some now
  | _ => none

/-- The clock is read later and later, and behind the epoch. -/
def Increasing (clock : Timestamp) (events : List Event) : Prop :=
  (clock :: events.filterMap Event.time).Pairwise (· < ·)

theorem served_initial (withLimits : Bool) (managers : List Manager) :
    Served (initial (.ok (.http (.initial withLimits), managers)))
      { http := .initial withLimits } := by
  constructor <;> simp [server, initial, Out.Http.initial]

/-- At most one processor for each manager, as `initializeProcessors` makes it. -/
def Slim (program : Program) : Prop :=
  ∀ thread ∈ program.crew, thread.manager.processors.length ≤ 1

theorem Advance.processors {thread thread' : Thread} {keepRunning keepRunning' : Bool}
    {own : Option (Nat → Outside)} {lists : List (List Data)}
    (h : Advance thread keepRunning own lists thread' keepRunning') :
    thread'.manager.processors.length = thread.manager.processors.length := by
  have hnext : ∀ {manager manager' : Manager} {list : List Data},
      manager.next list = some manager' →
      manager'.processors.length = manager.processors.length := by
    intro manager manager' list hnext
    unfold Manager.next at hnext
    split at hnext <;> cases hnext
    case h_1 hprocess => exact Manager.length_process hprocess
  cases h with
  | collect hcollect => rw [(Manager.collect_ok hcollect).2]
  | sendThrows hcollect => rw [(Manager.collect_ok hcollect).2]
  | process hprocess => exact hnext hprocess
  | processThrows hprocess =>
      rcases hprocess with rfl | hprocess
      · rfl
      · exact hnext hprocess
  | _ => rfl

theorem Slim.step {program next : Program} {event : Event} (h : program.Slim)
    (hstep : program.step sizeofData dumpError event = some next) : next.Slim := by
  intro thread hmem
  obtain ⟨hcrew, -⟩ | ⟨j, old, new, own, lists, hold, hadvance, hcrew, -⟩ :=
    advance_of_steps (steps_of_step hstep)
  · exact h thread (hcrew ▸ hmem)
  · rw [hcrew] at hmem
    rcases List.mem_or_eq_of_mem_set hmem with hmem | rfl
    · exact h thread hmem
    · rw [hadvance.processors]
      exact h old (List.mem_of_getElem? hold)

variable (sizeofData dumpError) in
/-- A step has at most one call, at the time the step reads. -/
theorem calls_timed {program : Program} (h : program.Slim) (event : Event) :
    (∀ call ∈ program.calls sizeofData dumpError event, call = .processLimits) ∨
    ∃ now call, program.calls sizeofData dumpError event = [call] ∧ event.time = some now ∧
      (∀ world, Out.LaterClock world call ↔ world.clock < now) ∧
      ∀ world next, Out.step sizeofData dumpError world call = some next → next.clock = now := by
  cases event with
  | collect i outside now =>
      rw [calls]
      split
      case h_1 manager hthread =>
        split
        case h_1 list manager' hcollect =>
          split
          case isTrue => exact .inl (by simp)
          case isFalse =>
            refine .inr ⟨now, _, rfl, rfl, fun world => Iff.rfl, ?_⟩
            rintro world next ⟨⟩
            rfl
        case h_2 => exact .inl (by simp)
      case h_2 => exact .inl (by simp)
  | process i now =>
      rw [calls]
      split
      case h_1 manager list hthread =>
        split
        case h_1 outputs manager' hprocess =>
          split
          case h_1 =>
            have hlength := (Manager.process_ok hprocess).2.1
            have hle := h _ (List.mem_of_getElem? (crew_of_thread hthread))
            rw [← hlength] at hle
            match outputs, hle with
            | [], _ => exact .inl (by simp)
            | [output], _ =>
                refine .inr ⟨now, _, rfl, rfl, fun world => Iff.rfl, fun world next hnext => ?_⟩
                unfold Out.step at hnext
                cases hsend : world.http.sendLimits sizeofData now output with
                | error e => simp [hsend] at hnext
                | ok http =>
                    simp only [hsend, Option.some.injEq] at hnext
                    rw [← hnext]
          case h_2 => exact .inl (by simp)
        case h_2 => exact .inl (by simp)
      case h_2 => exact .inl (by simp)
  | read now cookie =>
      refine .inr ⟨now, _, rfl, rfl, fun world => Iff.rfl, fun world next hnext => ?_⟩
      obtain ⟨response, http, -, rfl⟩ := Out.step_read hnext
      rfl
  | _ => exact .inl (by simp [calls])

theorem Increasing.later {clock : Timestamp} {event : Event} {events : List Event}
    (h : Increasing clock (event :: events)) : Increasing clock events ∧
      ∀ now, event.time = some now → clock < now ∧ Increasing now events := by
  unfold Increasing at h ⊢
  cases htime : event.time with
  | none =>
      rw [List.filterMap_cons_none htime] at h
      exact ⟨h, by simp⟩
  | some now =>
      rw [List.filterMap_cons_some htime] at h
      obtain ⟨hfirst, hrest⟩ := List.pairwise_cons.mp h
      obtain ⟨-, hlater⟩ := List.pairwise_cons.mp hrest
      refine ⟨List.pairwise_cons.mpr ⟨fun t ht => hfirst t (by simp [ht]), hlater⟩, ?_⟩
      rintro _ ⟨⟩
      exact ⟨hfirst now (by simp), hrest⟩

theorem clock_processLimits {world final : Out.World} {calls : List Out.Event}
    (hcalls : ∀ call ∈ calls, call = .processLimits)
    (hrun : run (Out.step sizeofData dumpError) world calls = some final) : final = world := by
  induction calls with
  | nil =>
      cases hrun
      rfl
  | cons call calls ih =>
      obtain ⟨rfl, hothers⟩ := List.forall_mem_cons.mp hcalls
      obtain ⟨next, hstep, hrest⟩ := run_cons.mp hrun
      cases hstep
      exact ih hothers hrest

/-- The clock of the program is that of its server. -/
theorem laterClock_calls {program : Program} {world : Out.World} (h : Served program world)
    (hslim : program.Slim) {events : List Event} (hincreasing : Increasing world.clock events) :
    AlongRun (Out.step sizeofData dumpError) Out.LaterClock world
      (traceOf (step sizeofData dumpError) (calls sizeofData dumpError) program events) := by
  induction events generalizing program world with
  | nil => trivial
  | cons event events ih =>
      obtain ⟨hrest, htimed⟩ := hincreasing.later
      -- Behind the calls of the event it is the induction hypothesis.
      obtain ⟨others, htrace, hothers⟩ : ∃ others,
          traceOf (step sizeofData dumpError) (calls sizeofData dumpError) program
            (event :: events) = calls sizeofData dumpError program event ++ others ∧
          ∀ middle, run (Out.step sizeofData dumpError) world
              (calls sizeofData dumpError program event) = some middle →
            Increasing middle.clock events →
            AlongRun (Out.step sizeofData dumpError) Out.LaterClock middle others := by
        refine ⟨_, rfl, fun middle hmiddle hclock => ?_⟩
        cases hstep : step sizeofData dumpError program event with
        | none => trivial
        | some next =>
            obtain ⟨after, hafter, hserved⟩ := served_step h hstep
            cases hafter.symm.trans hmiddle
            exact ih hserved (hslim.step hstep) hclock
      rw [htrace, alongRun_append]
      obtain hcalls | ⟨now, call, hcalls, htime, hlater, hclock⟩ :=
        calls_timed sizeofData dumpError hslim event
      · constructor
        · refine alongRun_of_invariant (fun _ => True) (fun _ _ => trivial) ?_ trivial
          intro world _ call hcall
          rw [hcalls call hcall]
          trivial
        · intro middle hmiddle
          refine hothers middle hmiddle ?_
          rw [clock_processLimits hcalls hmiddle]
          exact hrest
      · obtain ⟨hlt, hbehind⟩ := htimed now htime
        rw [hcalls]
        refine ⟨⟨(hlater world).mpr hlt, ?_⟩, ?_⟩
        · cases Out.step sizeofData dumpError world call <;> trivial
        · intro middle hmiddle
          refine hothers middle (hcalls.symm ▸ hmiddle) ?_
          obtain ⟨only, honly, hnil⟩ := run_cons.mp hmiddle
          cases hnil
          rw [hclock world _ honly]
          exact hbehind

/--
Whatever threads and clients do to each other, a session that is never idle for
too long is given each reading that some manager has handed over once and in
the order of handing over, except those that the server has dropped by then.
-/
theorem session_exactlyOnce {withLimits : Bool} {managers : List Manager}
    (hslim : ∀ manager ∈ managers, manager.processors.length ≤ 1) {events : List Event}
    (hincreasing : Increasing 0 events) {final : Program}
    (hrun : run (step sizeofData dumpError)
      (initial (.ok (.http (.initial withLimits), managers))) events = some final)
    (hwritten : ∀ entry ∈ final.handed, ∀ data ∈ entry.2,
      data.texts.findSome? dumpError = none)
    {before after : List Out.Read} {created : Out.Read} {id : Int}
    (hreplies : final.replies = before ++ created :: after) (hcreated : created.session = none)
    (hid : created.response.setCookie = some id)
    (hidle : Out.NeverIdle (Out.accesses id created after)) :
    Out.ExactlyOnce (final.handed.flatMap Prod.snd) (Out.accesses id created after) := by
  have hserved := served_initial withLimits managers
  obtain ⟨world, hworld, hfinal⟩ := served_step.run hserved hrun
  have hslim : (initial (.ok (.http (.initial withLimits), managers))).Slim := by
    intro thread hmem
    obtain ⟨manager, hmanager, rfl⟩ := List.mem_map.mp hmem
    exact hslim manager hmanager
  have hwritable : Out.Writable dumpError world := by
    intro pair hpair
    have hmem : pair.2 ∈ final.handed.flatMap Prod.snd := by
      rw [← hfinal.log]
      exact List.mem_map_of_mem hpair
    obtain ⟨entry, hentry, hdata⟩ := List.mem_flatMap.mp hmem
    exact hwritten entry hentry pair.2 hdata
  have hkept : Out.Consistent world ∧ Out.Writable dumpError world ∧ Out.SessionsKept world := by
    refine run_invariant
      (fun world => Out.Consistent world ∧ Out.Writable dumpError world ∧ Out.SessionsKept world)
      ?_ (alongRun_and (laterClock_calls hserved hslim hincreasing)
        (Out.written_of_writable hworld hwritable))
      ⟨Out.consistent_initial withLimits, by simp [Out.Writable], ?_⟩ hworld
    · rintro world event next ⟨hclock, hevent⟩ ⟨hconsistent, hwritable, hkept⟩ hnext
      exact ⟨hconsistent.step hclock hnext, hwritable.step hevent hnext,
        hkept.step hclock hconsistent hwritable hnext⟩
    · intro before created after id heq
      simp at heq
  rw [← hfinal.log]
  exact Out.exactlyOnce_of_kept hkept.1 hkept.2.2 (hfinal.replies ▸ hreplies) hcreated hid hidle

/-- A client comes twice while a talker is silent. -/
def twoReads : List Event :=
  [.configure, .spawn, .check 0, .collect 0 (fun _ => silent) 5, .start, .read 10 none,
    .process 0 15, .wake 0, .check 0, .collect 0 (fun _ => silent) 20,
    .read 30 (some (str "id=1"))]

def silence : Data :=
  Communication.Nmea.errorEntry { sentences := [], name := str "GPS" } .nmea
    (str "Unidentifiable response!")

theorem session_exactlyOnce_twoReads : ∃ final created after,
    run (step 200 fun _ => none) (initial (.ok (.http (.initial false), [talker]))) twoReads =
      some final ∧
    final.handed.flatMap Prod.snd = [silence, silence] ∧
    final.replies = created :: after ∧ after.length = 1 ∧
    Out.ExactlyOnce (final.handed.flatMap Prod.snd) (Out.accesses 1 created after) := by
  have hruns : (run (step 200 fun _ => none) (initial (.ok (.http (.initial false), [talker])))
      twoReads).map (fun final => (final.replies, final.handed)) =
      some ([⟨10, none, { setCookie := some 1, content := .data [silence] }, 1, 0⟩,
        ⟨30, some 1, { content := .data [silence] }, 2, 0⟩],
        [(0, [silence]), (0, [silence])]) := by
    decide +kernel
  obtain ⟨final, hrun, hfinal⟩ := Option.map_eq_some_iff.mp hruns
  obtain ⟨hreplies, hhanded⟩ := Prod.mk.inj hfinal
  refine ⟨final, _, _, hrun, by rw [hhanded]; rfl, hreplies, rfl, ?_⟩
  rw [← List.nil_append (_ :: _)] at hreplies
  refine session_exactlyOnce (by simp [talker]) ?_ hrun (by simp) hreplies rfl rfl ?_
  · unfold Increasing
    decide
  · simp [Out.NeverIdle, Out.accesses, Out.Sessioner.inactivityTimeout]

end

end Program

end Rdbus
