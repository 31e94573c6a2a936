import Rdbus.Independence
import Rdbus.Initialize
import Rdbus.SharedLimits

/-!
# What ends the program

With accepted files whose polls stay defined, no device and no other manager
makes a run throw.  What is left are the texts that a pipe cannot print, while
the server keeps running and answers an error.
-/

namespace Rdbus

open Foundation

namespace Processing.Limits

theorem processFrom_error {duration : Int} {outputList : List Data}
    {inputList : List Rdbus.Data} {store store' : Store} {e : Throw}
    (h : processFrom duration outputList inputList store = .error e store') :
    e = .undefinedBehaviour := by
  induction inputList generalizing outputList store with
  | nil => cases h
  | cons input inputList ih =>
      rw [processFrom] at h
      split at h
      case isTrue => exact ih h
      case isFalse =>
        split at h
        case isTrue => exact ih h
        case isFalse =>
          split at h
          case h_1 => exact ih h
          case h_2 =>
            unfold caught at h
            split at h
            case isTrue he =>
              cases h
              exact he
            case isFalse => cases h

theorem Processor.process_error {list : List Rdbus.Data} {processor : Processor} {e : Throw}
    (h : processor.process list = .error e) : e = .undefinedBehaviour := by
  unfold Processor.process at h
  split at h
  case h_1 => cases h
  case h_2 hprocess =>
    cases h
    exact processFrom_error hprocess

end Processing.Limits

namespace Manager

theorem process_error {list : List Data} {manager : Manager} {e : Throw}
    (h : manager.process list = .error e) : e = .undefinedBehaviour := by
  have hrun : ∀ processors : List Processing.Limits.Processor,
      runProcessors list processors = .error e → e = .undefinedBehaviour := by
    intro processors
    induction processors with
    | nil =>
        intro h
        cases h
    | cons processor processors ih =>
        intro h
        rw [runProcessors] at h
        cases hfirst : processor.process list with
        | error e' =>
            rw [hfirst] at h
            cases h
            exact Processing.Limits.Processor.process_error hfirst
        | ok result =>
            rw [hfirst] at h
            cases hrest : runProcessors list processors with
            | error e' =>
                rw [ok_bind, hrest] at h
                cases h
                exact ih hrest
            | ok results =>
                rw [ok_bind, hrest] at h
                cases h
  rw [process] at h
  cases hprocessors : runProcessors list manager.processors with
  | error e' =>
      rw [hprocessors] at h
      cases h
      exact hrun _ hprocessors
  | ok results =>
      rw [hprocessors] at h
      cases h

theorem process_ok {list : List Data} {manager manager' : Manager}
    {outputs : List (List Processing.Limits.Data)}
    (h : manager.process list = .ok (outputs, manager')) :
    manager'.tasks = manager.tasks ∧ outputs.length = manager.processors.length ∧
      (manager'.processors ≠ [] → manager.processors ≠ []) := by
  obtain ⟨⟨sent, processors⟩, hrun, h⟩ := bind_eq_ok.mp h
  cases h
  obtain ⟨hnames, hnext⟩ := runProcessors_ok hrun
  refine ⟨rfl, by simpa using congrArg List.length hnames, fun hne hnil => ?_⟩
  obtain ⟨after, hafter⟩ := List.exists_mem_of_ne_nil _ hne
  obtain ⟨processor, hprocessor, -⟩ := hnext after hafter
  rw [hnil] at hprocessor
  cases hprocessor

theorem length_process {list : List Data} {manager manager' : Manager}
    {outputs : List (List Processing.Limits.Data)}
    (h : manager.process list = .ok (outputs, manager')) :
    manager'.processors.length = manager.processors.length := by
  have hrun : ∀ {processors after : List Processing.Limits.Processor}
      {outputs : List (List Processing.Limits.Data)},
      runProcessors list processors = .ok (outputs, after) →
      after.length = processors.length := by
    intro processors
    induction processors with
    | nil =>
        intro after outputs h
        cases h
        rfl
    | cons processor processors ih =>
        intro after outputs h
        obtain ⟨⟨output, processor'⟩, -, h⟩ := bind_eq_ok.mp h
        obtain ⟨⟨rest, processors'⟩, hrest, h⟩ := bind_eq_ok.mp h
        cases h
        rw [List.length_cons, List.length_cons, ih hrest]
  obtain ⟨⟨sent, processors⟩, hprocessors, h⟩ := bind_eq_ok.mp h
  cases h
  exact hrun hprocessors

theorem collect_ok {outside : Nat → Outside} {manager manager' : Manager} {list : List Data}
    (h : manager.collect outside = .ok (list, manager')) :
    runTasks outside 0 manager.tasks = .ok (list, manager'.tasks) ∧
      manager'.processors = manager.processors := by
  obtain ⟨⟨data, tasks⟩, htasks, h⟩ := bind_eq_ok.mp h
  cases h
  exact ⟨htasks, rfl⟩

end Manager

namespace Program

def Event.Plausible : Event → Prop
  | .collect _ outside _ => ∀ k, (outside k).Plausible
  | _ => True

/-- What the pipe is to print in a step. -/
def documents (program : Program) : Event → List Out.Document
  | .collect i outside _ =>
      match program.output, program.threads[i]? with
      | .pipe _, some ⟨manager, .collecting⟩ =>
          match manager.collect outside with
          | .ok (list, _) => Out.Output.readingsDocuments list
          | .error _ => []
      | _, _ => []
  | .process i _ =>
      match program.output, program.threads[i]? with
      | .pipe _, some ⟨manager, .processing list⟩ =>
          match manager.process list with
          | .ok (outputs, _) => Out.Output.limitsDocuments outputs
          | .error _ => []
      | _, _ => []
  | _ => []

/-- All texts that the step prints can be written. -/
def Writes (dumpError : Bytes → Option Bytes) (program : Program) (event : Event) : Prop :=
  ∀ document ∈ program.documents event, document.Written dumpError

instance (dumpError : Bytes → Option Bytes) (program : Program) (event : Event) :
    Decidable (Writes dumpError program event) :=
  inferInstanceAs (Decidable (∀ document ∈ _, _))

def Stage.faulty : Stage → Bool
  | .reporting _ | .lowering | .failing => true
  | _ => false

/-- Nothing was thrown so far. -/
structure Calm (program : Program) : Prop where
  critical : program.critical = []
  stages : ∀ thread ∈ program.crew, thread.stage.faulty = false

section

variable {sizeofData : Nat} {dumpError : Bytes → Option Bytes}

/-! ## The managers of the files -/

theorem next_eq_some {manager manager' : Manager} {list : List Data}
    (h : manager.next list = some manager') :
    manager'.tasks = manager.tasks ∧ (manager'.processors ≠ [] → manager.processors ≠ []) := by
  unfold Manager.next at h
  split at h <;> cases h
  case h_1 hprocess =>
    obtain ⟨htasks, -, hprocessors⟩ := Manager.process_ok hprocess
    exact ⟨htasks, hprocessors⟩

theorem Advance.manager {thread thread' : Thread} {keepRunning keepRunning' : Bool}
    {own : Option (Nat → Outside)} {lists : List (List Data)}
    (h : Advance thread keepRunning own lists thread' keepRunning') :
    (∀ config : Config, (∀ task ∈ thread.manager.tasks, task.Of config) →
      ∀ task ∈ thread'.manager.tasks, task.Of config) ∧
    (thread'.manager.processors ≠ [] → thread.manager.processors ≠ []) := by
  cases h with
  | collect hcollect =>
      obtain ⟨htasks, hprocessors⟩ := Manager.collect_ok hcollect
      exact ⟨fun config hof => Manager.runTasks_of hof htasks, by rw [hprocessors]; exact id⟩
  | sendThrows hcollect =>
      obtain ⟨htasks, hprocessors⟩ := Manager.collect_ok hcollect
      exact ⟨fun config hof => Manager.runTasks_of hof htasks, by rw [hprocessors]; exact id⟩
  | process hnext =>
      obtain ⟨htasks, hprocessors⟩ := next_eq_some hnext
      exact ⟨fun config hof => by rw [htasks]; exact hof, hprocessors⟩
  | processThrows hnext =>
      rcases hnext with rfl | hnext
      · exact ⟨fun _ => id, id⟩
      · obtain ⟨htasks, hprocessors⟩ := next_eq_some hnext
        exact ⟨fun config hof => by rw [htasks]; exact hof, hprocessors⟩
  | _ => exact ⟨fun _ => id, id⟩

theorem collect_reads {config : Config} (hfilled : config.Filled)
    (hdefined : config.StaysDefined) {manager : Manager}
    (hof : ∀ task ∈ manager.tasks, task.Of config) {outside : Nat → Outside}
    (houtside : ∀ k, (outside k).Plausible) :
    ∃ list manager', manager.collect outside = .ok (list, manager') ∧
      ∀ data ∈ list, config.Reads data := by
  obtain ⟨list, manager', hcollect, hreads, -⟩ :=
    Manager.collect_reads hfilled hdefined hof houtside
  exact ⟨list, manager', hcollect, hreads⟩

theorem Advance.reads {thread thread' : Thread} {keepRunning keepRunning' : Bool}
    {own : Option (Nat → Outside)} {lists : List (List Data)}
    (h : Advance thread keepRunning own lists thread' keepRunning') {config : Config}
    (hfilled : config.Filled) (hdefined : config.StaysDefined)
    (hof : ∀ task ∈ thread.manager.tasks, task.Of config)
    (houtside : ∀ outside, own = some outside → ∀ k, (outside k).Plausible) :
    ∀ list ∈ lists, ∀ data ∈ list, config.Reads data := by
  cases h with
  | collect hcollect =>
      obtain ⟨list, manager', hreads, hdata⟩ :=
        collect_reads hfilled hdefined hof (houtside _ rfl)
      cases hcollect.symm.trans hreads
      simpa using hdata
  | sendThrows hcollect =>
      obtain ⟨list, manager', hreads, hdata⟩ :=
        collect_reads hfilled hdefined hof (houtside _ rfl)
      cases hcollect.symm.trans hreads
      simpa using hdata
  | _ => simp

/-- The files are sound, and the program serves what they describe. -/
structure Serving (configs : List Config) (program : Program) : Prop where
  sound : WorkerPool.Sound program.pool
  setup : ∀ e, program.main ≠ .configuring (.error e)
  tasks : ∀ (i : Nat) (thread : Thread), program.crew[i]? = some thread →
    ∃ config, configs[i]? = some config ∧ ∀ task ∈ thread.manager.tasks, task.Of config
  handed : ∀ entry ∈ program.handed, ∃ config, configs[entry.1]? = some config ∧
    ∀ data ∈ entry.2, config.Reads data

/-- The server has a buffer for the limits if a manager has a processor for them. -/
def Stored (program : Program) (output : Out.Output) : Prop :=
  ∀ server, output = .http server → (∃ thread ∈ program.crew, thread.manager.processors ≠ []) →
    server.limitsStorage.isSome

theorem plausible_of_outsideOf {event : Event} (h : event.Plausible) {i : Nat}
    {outside : Nat → Outside} (houtside : event.outsideOf i = some outside) :
    ∀ k, (outside k).Plausible := by
  cases event with
  | collect j other now =>
      simp only [Event.outsideOf, Option.ite_none_right_eq_some, Option.some.injEq] at houtside
      exact houtside.2 ▸ h
  | _ => cases houtside

theorem sound_step {program next : Program} {event : Event}
    (h : WorkerPool.Sound program.pool)
    (hstep : program.step sizeofData dumpError event = some next) :
    WorkerPool.Sound next.pool := by
  obtain ⟨events', hrun⟩ := refines_pool hstep
  exact run_invariant WorkerPool.Sound (fun _ => WorkerPool.Sound.step) alongRun_true h hrun

theorem main_of_steps {program next : Program} {event : Event}
    (h : Steps sizeofData dumpError program event next) :
    next.main = program.main ∨ ∀ setup, next.main ≠ .configuring setup := by
  cases h with
  | configure | refuse | spawn | start | join | exit => exact .inr (by simp)
  | _ => exact .inl rfl

theorem Serving.step {configs : List Config}
    (hconfigs : ∀ config ∈ configs, config.Filled ∧ config.StaysDefined)
    {program next : Program} {event : Event} (hevents : event.Plausible)
    (h : Serving configs program)
    (hstep : program.step sizeofData dumpError event = some next) : Serving configs next := by
  have hsteps := steps_of_step hstep
  refine ⟨sound_step h.sound hstep, ?_, ?_, ?_⟩
  · rcases main_of_steps hsteps with hmain | hmain
    · rw [hmain]
      exact h.setup
    · exact fun e => hmain (.error e)
  · obtain ⟨hcrew, -⟩ | ⟨j, old, new, own, lists, hold, hadvance, hcrew, -⟩ :=
      advance_of_steps hsteps
    · rw [hcrew]
      exact h.tasks
    · intro i thread hthread
      rw [hcrew, List.getElem?_set] at hthread
      split at hthread
      case isTrue hij =>
        split at hthread <;> cases hthread
        obtain ⟨config, hconfig, hof⟩ := h.tasks j old hold
        exact ⟨config, hij ▸ hconfig, hadvance.manager.1 config hof⟩
      case isFalse => exact h.tasks i thread hthread
  · obtain ⟨-, hhanded, -⟩ | ⟨j, old, new, own, lists, hold, hadvance, -, hhanded, hown⟩ :=
      advance_of_steps hsteps
    · rw [hhanded]
      exact h.handed
    · rw [hhanded]
      refine List.forall_mem_append.mpr ⟨h.handed, List.forall_mem_map.mpr fun list hlist => ?_⟩
      obtain ⟨config, hconfig, hof⟩ := h.tasks j old hold
      obtain ⟨hfilled, hdefined⟩ := hconfigs config (List.mem_of_getElem? hconfig)
      refine ⟨config, hconfig, hadvance.reads hfilled hdefined hof ?_ list hlist⟩
      intro outside houtside
      exact plausible_of_outsideOf hevents (by rw [hown j, if_pos rfl, houtside])

/-! ## The buffer for the limits -/

theorem limitsStorage_handleRead {now : Timestamp} {cookie : Option Bytes}
    {server server' : Out.Http} {response : Out.Http.Response}
    (h : server.handleRead dumpError now cookie = .ok (response, server')) :
    server'.limitsStorage = server.limitsStorage := by
  obtain ⟨⟨read, after⟩, hread, h⟩ := bind_eq_ok.mp h
  cases h
  unfold Out.Http.read at hread
  split at hread
  case h_1 =>
    obtain ⟨⟨id, cookies⟩, -, hread⟩ := bind_eq_ok.mp hread
    cases hread
    rfl
  case h_2 => split at hread <;> cases hread <;> rfl

/-- The output has what the processors of the crew need. -/
structure Equipped (program : Program) : Prop where
  output : program.Stored program.output
  setup : ∀ output managers, program.main = .configuring (.ok (output, managers)) →
    program.Stored output

theorem Stored.mono {program next : Program} {output output' : Out.Output}
    (h : program.Stored output)
    (hcrew : (∃ thread ∈ next.crew, thread.manager.processors ≠ []) →
      ∃ thread ∈ program.crew, thread.manager.processors ≠ [])
    (houtput : ∀ server', output' = .http server' → ∃ server, output = .http server ∧
      server'.limitsStorage.isSome = server.limitsStorage.isSome) : next.Stored output' := by
  intro server' hserver' hprocessors
  obtain ⟨server, hserver, hsome⟩ := houtput server' hserver'
  rw [hsome]
  exact h server hserver (hcrew hprocessors)

theorem processors_of_crew {program next : Program} {event : Event}
    (h : Steps sizeofData dumpError program event next) :
    (∃ thread ∈ next.crew, thread.manager.processors ≠ []) →
      ∃ thread ∈ program.crew, thread.manager.processors ≠ [] := by
  rintro ⟨thread, hmem, hprocessors⟩
  obtain ⟨hcrew, -⟩ | ⟨j, old, new, own, lists, hold, hadvance, hcrew, -⟩ := advance_of_steps h
  · exact ⟨thread, hcrew ▸ hmem, hprocessors⟩
  · rw [hcrew] at hmem
    rcases List.mem_or_eq_of_mem_set hmem with hmem | rfl
    · exact ⟨thread, hmem, hprocessors⟩
    · exact ⟨old, List.mem_of_getElem? hold, hadvance.manager.2 hprocessors⟩

/-- The server of an equipped program takes the output of every processor. -/
theorem Equipped.sendOutputs {program : Program} (h : program.Equipped) {i : Nat}
    {manager manager' : Manager} {list : List Data}
    (hthread : program.threads[i]? = some ⟨manager, .processing list⟩)
    {outputs : List (List Processing.Limits.Data)}
    (hprocess : manager.process list = .ok (outputs, manager')) {server : Out.Http}
    (hserver : program.output = .http server) (now : Timestamp) :
    ∃ server' : Out.Http, program.output.sendOutputs sizeofData dumpError now outputs =
      .ok (.http server') ∧
      server'.limitsStorage.isSome = server.limitsStorage.isSome := by
  rw [hserver]
  refine Out.Output.sendOutputs_http ?_
  obtain ⟨-, hlength, -⟩ := Manager.process_ok hprocess
  cases hprocessors : manager.processors with
  | nil =>
      rw [hprocessors] at hlength
      exact .inl (List.length_eq_zero_iff.mp hlength)
  | cons processor processors =>
      refine .inr (h.output server hserver ⟨⟨manager, .processing list⟩, ?_, ?_⟩)
      · exact List.mem_of_getElem? (crew_of_thread hthread)
      · simp [hprocessors]

theorem sendReadings_http {now : Timestamp} {list : List Data} {output : Out.Output}
    {server' : Out.Http}
    (h : sendReadings sizeofData dumpError now list output = .ok (.http server')) :
    ∃ server, output = .http server ∧ server'.limitsStorage = server.limitsStorage := by
  unfold sendReadings at h
  split at h
  case isTrue =>
    cases h
    exact ⟨server', rfl, rfl⟩
  case isFalse =>
    cases output with
    | http server =>
        cases h
        exact ⟨server, rfl, rfl⟩
    | pipe printed =>
        unfold Out.Output.send at h
        cases hsend : Out.Pipe.send dumpError printed list <;> simp [hsend, Except.map] at h

theorem Equipped.step {program next : Program} {event : Event} (h : program.Equipped)
    (hstep : program.step sizeofData dumpError event = some next) : next.Equipped := by
  have hsteps := steps_of_step hstep
  have hcrew := processors_of_crew hsteps
  constructor
  · have hsame : next.output = program.output → next.Stored next.output := by
      intro heq
      rw [heq]
      exact h.output.mono hcrew fun server hserver => ⟨server, hserver, rfl⟩
    cases hsteps with
    | configure hmain =>
        exact (h.setup _ _ hmain).mono hcrew fun server hserver => ⟨server, hserver, rfl⟩
    | collect hthread hcollect hsend =>
        refine h.output.mono hcrew fun server' hserver' => ?_
        have houtput : _ = Out.Output.http server' := hserver'
        subst houtput
        obtain ⟨server, hserver, hstorage⟩ := sendReadings_http hsend
        exact ⟨server, hserver, by rw [hstorage]⟩
    | @process i now manager manager' list outputs output hthread hprocess hsend =>
        refine h.output.mono hcrew fun server' hserver' => ?_
        have houtput : output = .http server' := hserver'
        subst houtput
        cases hserver : program.output with
        | pipe printed =>
            rw [hserver, Out.Output.sendOutputs_pipe] at hsend
            cases hsend.2
        | http server =>
            obtain ⟨other, hother, hsome⟩ := h.sendOutputs hthread hprocess hserver now
            cases hsend.symm.trans hother
            exact ⟨server, rfl, hsome⟩
    | @read now cookie server server' response hmain houtput hread =>
        refine h.output.mono hcrew fun after hafter => ?_
        cases hafter
        exact ⟨server, houtput, by rw [limitsStorage_handleRead hread]⟩
    | _ => exact hsame rfl
  · intro output managers hmain
    rcases main_of_steps hsteps with hsame | hother
    · exact (h.setup output managers (hsame ▸ hmain)).mono hcrew
        fun server hserver => ⟨server, hserver, rfl⟩
    · exact absurd hmain (hother _)

/-! ## What is printed -/

/-- A step of a thread that is not faulty before and after it. -/
theorem calm_set {program next : Program} {i : Nat} {thread thread' : Thread}
    (hthread : program.threads[i]? = some thread)
    (hthreads : next.threads = program.threads.set i thread') (hmain : next.main = program.main)
    (hcritical : next.critical = program.critical) (hstage : thread.stage.faulty = false) :
    next.Calm ↔ program.Calm ∧ thread'.stage.faulty = false := by
  have hcrew := crew_set hthread hthreads hmain
  have hlt := (List.getElem?_eq_some_iff.mp (crew_of_thread hthread)).1
  constructor
  · intro hnext
    refine ⟨⟨hcritical ▸ hnext.critical, fun other hmem => ?_⟩, ?_⟩
    · obtain ⟨j, hj⟩ := List.mem_iff_getElem?.mp hmem
      by_cases hij : i = j
      · subst hij
        cases (crew_of_thread hthread).symm.trans hj
        exact hstage
      · refine hnext.stages other (List.mem_of_getElem? (i := j) ?_)
        rw [hcrew, List.getElem?_set_ne hij, hj]
    · refine hnext.stages thread' ?_
      rw [hcrew]
      exact List.mem_set hlt thread'
  · rintro ⟨hcalm, hstage'⟩
    refine ⟨hcritical.trans hcalm.critical, fun other hmem => ?_⟩
    rw [hcrew] at hmem
    rcases List.mem_or_eq_of_mem_set hmem with hmem | rfl
    · exact hcalm.stages other hmem
    · exact hstage'

theorem calm_of_crew {program next : Program} (hcrew : next.crew = program.crew)
    (hcritical : next.critical = program.critical) : next.Calm ↔ program.Calm := by
  constructor
  · exact fun h => ⟨hcritical ▸ h.critical, hcrew ▸ h.stages⟩
  · exact fun h => ⟨hcritical.trans h.critical, hcrew.symm ▸ h.stages⟩

theorem not_calm_of_faulty {program : Program} {i : Nat} {thread : Thread}
    (hthread : program.threads[i]? = some thread) (hstage : thread.stage.faulty = true) :
    ¬ program.Calm := by
  intro hcalm
  have hcalm := hcalm.stages thread (List.mem_of_getElem? (crew_of_thread hthread))
  rw [hstage] at hcalm
  cases hcalm

theorem writes_of_documents {program : Program} {event : Event}
    (h : program.documents event = []) : program.Writes dumpError event := by
  unfold Writes
  simp [h]

theorem sendReadings_pipe {now : Timestamp} {list : List Data} {printed : List Out.Document}
    {output : Out.Output} :
    sendReadings sizeofData dumpError now list (.pipe printed) = .ok output ↔
      (∀ document ∈ Out.Output.readingsDocuments list, document.Written dumpError) ∧
      output = .pipe (printed ++ Out.Output.readingsDocuments list) := by
  unfold sendReadings Out.Output.readingsDocuments
  cases hempty : list.isEmpty with
  | true => simp [eq_comm]
  | false =>
      simp only [Bool.false_eq_true, if_false, List.forall_mem_singleton]
      change (Out.Pipe.send dumpError printed list).map Out.Output.pipe = _ ↔ _
      unfold Out.Pipe.send
      cases hprint : Out.Pipe.print dumpError printed (.readings list) with
      | error e =>
          have hnot : ¬ (Out.Document.readings list).Written dumpError := by
            intro hwritten
            cases hprint.symm.trans (Out.Pipe.print_eq_ok.mpr ⟨hwritten, rfl⟩)
          simp [Except.map, hnot]
      | ok next =>
          obtain ⟨hwritten, rfl⟩ := Out.Pipe.print_eq_ok.mp hprint
          simp [Except.map, hwritten, eq_comm]

variable (sizeofData) in
theorem writes_collect_iff {program : Program} {i : Nat} {outside : Nat → Outside}
    {now : Timestamp} {manager manager' : Manager} {list : List Data}
    (hthread : program.threads[i]? = some ⟨manager, .collecting⟩)
    (hcollect : manager.collect outside = .ok (list, manager')) :
    program.Writes dumpError (.collect i outside now) ↔
      ∃ output, sendReadings sizeofData dumpError now list program.output = .ok output := by
  unfold Writes
  rw [documents, hthread]
  cases houtput : program.output with
  | http server =>
      simp only [List.not_mem_nil, false_imp_iff, implies_true, true_iff]
      unfold sendReadings
      split
      case isTrue => exact ⟨_, rfl⟩
      case isFalse => exact ⟨_, rfl⟩
  | pipe printed =>
      simp only [hcollect, sendReadings_pipe]
      simp

variable (sizeofData) in
theorem writes_process_iff {program : Program} (h : program.Equipped) {i : Nat}
    {now : Timestamp} {manager manager' : Manager} {list : List Data}
    {outputs : List (List Processing.Limits.Data)}
    (hthread : program.threads[i]? = some ⟨manager, .processing list⟩)
    (hprocess : manager.process list = .ok (outputs, manager')) :
    program.Writes dumpError (.process i now) ↔
      ∃ output, program.output.sendOutputs sizeofData dumpError now outputs = .ok output := by
  unfold Writes
  rw [documents, hthread]
  cases houtput : program.output with
  | http server =>
      simp only [List.not_mem_nil, false_imp_iff, implies_true, true_iff]
      obtain ⟨server', hsend, -⟩ := h.sendOutputs hthread hprocess houtput now
      exact ⟨_, houtput ▸ hsend⟩
  | pipe printed =>
      simp only [hprocess, Out.Output.sendOutputs_pipe]
      simp

/-- A step without documents that keeps the crew and the log. -/
theorem calm_same {program next : Program} {event : Event}
    (hdocuments : program.documents event = []) (hcrew : next.crew = program.crew)
    (hcritical : next.critical = program.critical) :
    next.Calm ↔ program.Calm ∧ program.Writes dumpError event := by
  rw [calm_of_crew hcrew hcritical, iff_self_and]
  exact fun _ => writes_of_documents hdocuments

theorem calm_false {program next : Program} {event : Event} (hprogram : ¬ program.Calm)
    (hnext : ¬ next.Calm) : next.Calm ↔ program.Calm ∧ program.Writes dumpError event :=
  iff_of_false hnext fun h => hprogram h.1

theorem calm_step_iff {configs : List Config}
    (hconfigs : ∀ config ∈ configs, config.Filled ∧ config.StaysDefined)
    {program next : Program} {event : Event} (hevents : event.Plausible)
    (h : Serving configs program) (hequipped : program.Equipped)
    (hstep : program.step sizeofData dumpError event = some next) :
    next.Calm ↔ program.Calm ∧ program.Writes dumpError event := by
  cases steps_of_step hstep with
  | interrupt => exact calm_same rfl rfl rfl
  | configure hmain => exact calm_same rfl (by simp [crew, hmain, Main.waiting]) rfl
  | refuse hmain => exact absurd hmain (h.setup _)
  | spawn hmain => exact calm_same rfl (by simp [crew, hmain, Main.waiting]) rfl
  | start hmain => exact calm_same rfl (by simp [crew, hmain, Main.waiting]) rfl
  | join hmain => exact calm_same rfl (by simp [crew, hmain, Main.waiting]) rfl
  | exit hmain => exact calm_same rfl (by simp [crew, hmain, Main.waiting]) rfl
  | read => exact calm_same rfl rfl rfl
  | processLimits => exact calm_same rfl rfl rfl
  | @check i manager hthread =>
      refine Iff.trans (calm_set hthread rfl rfl rfl rfl) ?_
      have hstage : (if program.keepRunning then Stage.collecting else .finished).faulty =
          false := by
        cases program.keepRunning <;> rfl
      exact and_congr_right fun _ => iff_of_true hstage (writes_of_documents rfl)
  | wake hthread =>
      refine Iff.trans (calm_set hthread rfl rfl rfl rfl) ?_
      exact and_congr_right fun _ => iff_of_true rfl (writes_of_documents rfl)
  | collect hthread hcollect hsend =>
      refine Iff.trans (calm_set hthread rfl rfl rfl rfl) ?_
      rw [writes_collect_iff sizeofData hthread hcollect]
      simp [Stage.faulty, hsend]
  | collectThrows hthread hcollect =>
      obtain ⟨config, hconfig, hof⟩ := h.tasks _ _ (crew_of_thread hthread)
      obtain ⟨hfilled, hdefined⟩ := hconfigs config (List.mem_of_getElem? hconfig)
      obtain ⟨list, manager', hreads, -⟩ := collect_reads hfilled hdefined hof hevents
      cases hcollect.symm.trans hreads
  | sendThrows hthread hcollect hsend =>
      refine Iff.trans (calm_set hthread rfl rfl rfl rfl) ?_
      rw [writes_collect_iff sizeofData hthread hcollect]
      simp [Stage.faulty, hsend]
  | process hthread hprocess hsend =>
      refine Iff.trans (calm_set hthread rfl rfl rfl rfl) ?_
      rw [writes_process_iff sizeofData hequipped hthread hprocess]
      simp [Stage.faulty, hsend]
  | processThrows hthread hprocess he => exact absurd (Manager.process_error hprocess) he
  | limitsThrow hthread hprocess hsend =>
      refine Iff.trans (calm_set hthread rfl rfl rfl rfl) ?_
      rw [writes_process_iff sizeofData hequipped hthread hprocess]
      simp [Stage.faulty, hsend]
  | report hthread =>
      exact calm_false (not_calm_of_faulty hthread rfl) fun hcalm => by
        simpa [setThread] using hcalm.critical
  | @lower i manager hthread =>
      have hset : (({ program with keepRunning := false }).setThread i manager
          .failing).threads[i]? = some ⟨manager, .failing⟩ :=
        List.getElem?_set_self (List.getElem?_eq_some_iff.mp hthread).1
      exact calm_false (not_calm_of_faulty hthread rfl) (not_calm_of_faulty hset rfl)
  | @fail i manager hthread =>
      -- The exception was logged before.
      have hfailing : program.pool.Failing := .inr (List.mem_of_getElem? (worker_pool hthread))
      have hcritical : program.critical ≠ [] := by
        simpa [pool] using h.sound.reported.mpr (.inr hfailing)
      exact calm_false (not_calm_of_faulty hthread rfl) fun hcalm => hcritical hcalm.critical

/-! ## Runs of accepted files -/

theorem filled_of_configs {configDir : Bytes} {directory : Except Throw (List ConfigFile)}
    {configs : List Config} (h : initializeConfigs configDir directory = .ok configs) :
    ∀ config ∈ configs, config.Filled := by
  intro config hmem
  obtain ⟨jsons, -, hjsons⟩ := initializeConfigs_ok h
  obtain ⟨j, -, hjson⟩ := mem_mapM_ok hjsons hmem
  exact Config.filled_of_fromJson hjson

theorem getElem?_of_mapM_ok {α β ε : Type} {f : α → Except ε β} {xs : List α} {ys : List β}
    (h : xs.mapM f = .ok ys) {i : Nat} {y : β} (hy : ys[i]? = some y) :
    ∃ x, xs[i]? = some x ∧ f x = .ok y := by
  induction xs generalizing ys i with
  | nil =>
      cases h
      cases hy
  | cons x xs ih =>
      rw [List.mapM_cons] at h
      obtain ⟨head, hhead, h⟩ := bind_eq_ok.mp h
      obtain ⟨tail, htail, h⟩ := bind_eq_ok.mp h
      cases h
      cases i with
      | zero =>
          cases hy
          exact ⟨x, rfl, hhead⟩
      | succ i => exact ih htail hy

theorem serving_initial {configDir : Bytes} {directory : Except Throw (List ConfigFile)}
    {configs : List Config} (hconfigs : initializeConfigs configDir directory = .ok configs)
    {managers : List Manager} (hmanagers : configs.mapM initializeManager = .ok managers)
    (output : Out.Output) : Serving configs (initial (.ok (output, managers))) := by
  refine ⟨WorkerPool.sound_initial _, by simp [initial], ?_, by simp [initial]⟩
  intro i thread hthread
  change (managers.map fun manager => (⟨manager, .checking⟩ : Thread))[i]? = _ at hthread
  rw [List.getElem?_map, Option.map_eq_some_iff] at hthread
  obtain ⟨manager, hmanager, rfl⟩ := hthread
  obtain ⟨config, hconfig, hbuilt⟩ := getElem?_of_mapM_ok hmanagers hmanager
  obtain ⟨jsons, -, hjsons⟩ := initializeConfigs_ok hconfigs
  obtain ⟨j, -, hjson⟩ := mem_mapM_ok hjsons (List.mem_of_getElem? hconfig)
  exact ⟨config, hconfig, (tasks_of_initializeManager hjson hbuilt).1⟩

theorem equipped_initial {configs : List Config} {managers : List Manager}
    (hmanagers : configs.mapM initializeManager = .ok managers) {output : Out.Output}
    (houtput : output = .pipe [] ∨ output = .http (.initial (processorDescriptions configs))) :
    (initial (.ok (output, managers))).Equipped := by
  constructor
  · rintro server ⟨⟩
  intro made others hmain server hserver
  obtain ⟨rfl, rfl⟩ := Prod.mk.inj (Except.ok.inj (Main.configuring.inj hmain))
  rintro ⟨thread, hmem, hprocessors⟩
  obtain ⟨manager, hmanager, rfl⟩ := List.mem_map.mp hmem
  obtain ⟨config, hconfig, hbuilt⟩ := mem_mapM_ok hmanagers hmanager
  obtain ⟨tasks, -, hbuilt⟩ := bind_eq_ok.mp hbuilt
  cases hbuilt
  rcases houtput with rfl | rfl
  · cases hserver
  · cases hserver
    have hlimits : config.processors.limits.isSome := by
      unfold initializeProcessors at hprocessors
      cases hnone : config.processors.limits with
      | none => simp [hnone] at hprocessors
      | some limits => rfl
    have hany : processorDescriptions configs = true :=
      List.any_eq_true.mpr ⟨config, hconfig, hlimits⟩
    simp [Out.Http.initial, hany]

theorem calm_initial {output : Out.Output} {managers : List Manager} :
    (initial (.ok (output, managers))).Calm := by
  refine ⟨rfl, fun thread hmem => ?_⟩
  obtain ⟨manager, -, rfl⟩ := List.mem_map.mp hmem
  rfl

theorem unprompted_step {program next : Program} {event : Event}
    (h : WorkerPool.Sound program.pool ∧ program.pool.Unprompted) (hevent : event ≠ .interrupt)
    (hstep : program.step sizeofData dumpError event = some next) :
    WorkerPool.Sound next.pool ∧ next.pool.Unprompted := by
  refine ⟨sound_step h.1 hstep, ?_⟩
  obtain ⟨-, heq⟩ | ⟨hinterrupt, -⟩ | ⟨event', hsteps, hne⟩ := steps_pool (steps_of_step hstep)
  · exact heq ▸ h.2
  · exact absurd hinterrupt hevent
  · exact h.2.step h.1 hsteps hne

theorem length_crew {program next : Program} {event : Event}
    (hstep : program.step sizeofData dumpError event = some next) :
    next.crew.length = program.crew.length := by
  obtain ⟨hcrew, -⟩ | ⟨j, old, new, own, lists, -, -, hcrew, -⟩ :=
    advance_of_steps (steps_of_step hstep)
  · rw [hcrew]
  · rw [hcrew, List.length_set]

/-- Whatever the files and the devices, a program that exits with 0 was interrupted. -/
theorem interrupted_of_clean_exit {made : Out.Output × List Manager} (hmanagers : made.2 ≠ [])
    {events : List Event} {final : Program}
    (hrun : run (step sizeofData dumpError) (initial (.ok made)) events = some final)
    (hexit : final.main = .exited 0) : .interrupt ∈ events := by
  by_contra hnever
  have hmain : final.pool.main = .exited 0 := by simp [pool, hexit, Main.pool]
  have halong : AlongRun (step sizeofData dumpError)
      (fun _ event => event ≠ Event.interrupt) (initial (.ok made)) events := by
    refine alongRun_of_forall (fun event hmem heq => ?_) _
    exact hnever (heq ▸ hmem)
  obtain ⟨hsound, hunprompted⟩ := run_invariant
    (fun program => WorkerPool.Sound program.pool ∧ program.pool.Unprompted)
    (fun hevent h => unprompted_step h hevent) halong
    ⟨WorkerPool.sound_initial _, WorkerPool.unprompted_initial _⟩ hrun
  have hlength : final.crew.length = made.2.length := by
    refine run_invariant (fun program => program.crew.length = made.2.length)
      (fun _ h hstep => (length_crew hstep).trans h) alongRun_true ?_ hrun
    simp [crew, initial, Main.waiting]
  have hworkers : final.pool.workers ≠ [] := by
    intro hnone
    have hthreads : final.threads = [] := by simpa [pool] using hnone
    simp [crew, hthreads, hexit, Main.waiting] at hlength
    exact hmanagers (List.length_eq_zero_iff.mp hlength.symm)
  cases hunprompted.exited_code hsound hworkers hmain

theorem interrupted_of_clean_exit_talker :
    .interrupt ∈ untilInterrupt ++ afterInterrupt := by
  have hrun := run_append.mpr ⟨interrupted, run_untilInterrupt, run_afterInterrupt⟩
  exact interrupted_of_clean_exit (by simp) hrun rfl

/-! ## A talker that is silent -/

def talkerFile : ConfigFile where
  path := str "./gps.rdbus.json"
  good := true
  json := .ok { protocol := some (str "nmea")
                serial := busJson.serial
                name := some (str "GPS"), checksum := some false, sentences := some [] }

theorem setup_talker : setup true [] (str ".") (.ok [talkerFile]) (fun _ => .ok ()) =
    .ok (.pipe [], [talker]) := by
  rfl

theorem plausible_silent : silent.Plausible where
  send _ _ := .inr ⟨_, rfl, .timeout _⟩
  getData := .inl ⟨[], rfl⟩
  getSingle _ _ _ h := by cases h

end

end Program

end Rdbus
