import Rdbus.Foundation.WorkerPool
import Rdbus.Program

/-!
# How the program ends

The threads of the managers are a pool of workers, so that the exit code and
the end of the program are those of the pool: a `collect` is the first and a
`process` the last step of a job.
-/

namespace Rdbus

open Foundation

namespace Program

def Stage.phase : Stage → WorkerPool.Phase
  | .checking => .checking
  | .collecting => .busy 1
  | .processing _ => .busy 0
  | .reporting _ => .reporting
  | .lowering => .lowering
  | .failing => .failing
  | .sleeping => .resting
  | .finished => .finished

def Main.pool : Main → WorkerPool.Main
  | .configuring setup => .configuring (setup.toOption.map fun made => made.2.length)
  | .starting waiting => .starting waiting.length
  | .joining joined => .joining joined
  | .exited code => .exited code

def pool (program : Program) : WorkerPool.Pool where
  main := program.main.pool
  keepRunning := program.keepRunning
  result := program.result
  workers := program.threads.map fun thread => thread.stage.phase
  reports := program.critical.map Prod.fst

def Event.isClient : Event → Bool
  | .read _ _ | .processLimits => true
  | _ => false

theorem pool_setThread (program : Program) (i : Nat) (manager : Manager) (stage : Stage) :
    (program.setThread i manager stage).pool =
      { program.pool with workers := program.pool.workers.set i stage.phase } := by
  simp [pool, setThread, List.map_set]

theorem worker_pool {program : Program} {i : Nat} {manager : Manager} {stage : Stage}
    (h : program.threads[i]? = some ⟨manager, stage⟩) :
    program.pool.workers[i]? = some stage.phase := by
  simp [pool, h]

section

variable {sizeofData : Nat} {dumpError : Bytes → Option Bytes}

/-- A thread moves as its worker does. -/
theorem moves_pool {program next : Program} {i : Nat} {manager : Manager} {stage : Stage}
    {phase : WorkerPool.Phase} {move : WorkerPool.Move}
    (hthread : program.threads[i]? = some ⟨manager, stage⟩)
    (hmoves : WorkerPool.Moves 1 program.keepRunning move stage.phase phase)
    (hnext : next.pool = program.pool.after i phase move) :
    ∃ event', WorkerPool.Steps 1 program.pool event' next.pool ∧ event' ≠ .interrupt := by
  refine ⟨.worker i move, ?_, by simp⟩
  rw [hnext]
  exact .worker (worker_pool hthread) hmoves

/-- Moves that leave the shared variables alone. -/
theorem moves_setThread {program next : Program} {i : Nat} {manager manager' : Manager}
    {stage stage' : Stage} {move : WorkerPool.Move}
    (hthread : program.threads[i]? = some ⟨manager, stage⟩)
    (hmoves : WorkerPool.Moves 1 program.keepRunning move stage.phase stage'.phase)
    (hmove : move ≠ .report ∧ move ≠ .lower ∧ move ≠ .fail)
    (hnext : next.pool = (program.setThread i manager' stage').pool) :
    ∃ event', WorkerPool.Steps 1 program.pool event' next.pool ∧ event' ≠ .interrupt := by
  refine moves_pool hthread hmoves ?_
  rw [hnext, pool_setThread]
  simp [WorkerPool.Pool.after, hmove]

theorem steps_pool {program next : Program} {event : Event}
    (h : Steps sizeofData dumpError program event next) :
    (event.isClient = true ∧ next.pool = program.pool) ∨
    (event = .interrupt ∧ WorkerPool.Steps 1 program.pool .interrupt next.pool) ∨
    ∃ event', WorkerPool.Steps 1 program.pool event' next.pool ∧ event' ≠ .interrupt := by
  cases h with
  | interrupt => exact .inr (.inl ⟨rfl, .interrupt⟩)
  | read => exact .inl ⟨rfl, rfl⟩
  | processLimits => exact .inl ⟨rfl, rfl⟩
  | @configure output managers hmain =>
      have hpool : program.pool.main = .configuring (some managers.length) := by
        simp [pool, hmain, Main.pool, Except.toOption]
      exact .inr (.inr ⟨.configure, .configure hpool, by simp⟩)
  | @refuse e hmain he =>
      have hpool : program.pool.main = .configuring none := by
        simp [pool, hmain, Main.pool, Except.toOption]
      refine .inr (.inr ⟨.configure, ?_, by simp⟩)
      have hsteps : WorkerPool.Steps 1 program.pool _ _ := .refuse hpool
      simpa [pool, Main.pool] using hsteps
  | @spawn manager waiting hmain =>
      have hpool : program.pool.main = .starting (waiting.length + 1) := by
        simp [pool, hmain, Main.pool]
      refine .inr (.inr ⟨.spawn, ?_, by simp⟩)
      have hsteps : WorkerPool.Steps 1 program.pool _ _ := .spawn hpool
      simpa [pool, Main.pool, Stage.phase] using hsteps
  | start hmain =>
      have hpool : program.pool.main = .starting 0 := by
        simp [pool, hmain, Main.pool]
      exact .inr (.inr ⟨.start, .start hpool, by simp⟩)
  | @join joined manager hmain hthread =>
      have hpool : program.pool.main = .joining joined := by
        simp [pool, hmain, Main.pool]
      exact .inr (.inr ⟨.join, .join hpool (worker_pool hthread), by simp⟩)
  | exit hmain =>
      have hpool : program.pool.main = .joining program.pool.workers.length := by
        simp [pool, hmain, Main.pool]
      exact .inr (.inr ⟨.exit, .exit hpool, by simp⟩)
  | @check i manager hthread =>
      right; right
      cases hrunning : program.keepRunning with
      | false =>
          have hmoves : WorkerPool.Moves 1 program.keepRunning .check Stage.checking.phase
            Stage.finished.phase := .stop hrunning
          exact moves_setThread hthread hmoves (by simp) rfl
      | true =>
          have hmoves : WorkerPool.Moves 1 program.keepRunning .check Stage.checking.phase
            Stage.collecting.phase := .begin hrunning
          exact moves_setThread hthread hmoves (by simp) rfl
  | collect hthread => exact .inr (.inr (moves_setThread hthread (.work 0) (by simp) rfl))
  | collectThrows hthread =>
      exact .inr (.inr (moves_setThread hthread (.raise 1) (by simp) rfl))
  | sendThrows hthread => exact .inr (.inr (moves_setThread hthread (.raise 1) (by simp) rfl))
  | process hthread => exact .inr (.inr (moves_setThread hthread (.complete 0) (by simp) rfl))
  | processThrows hthread =>
      exact .inr (.inr (moves_setThread hthread (.raise 0) (by simp) rfl))
  | limitsThrow hthread => exact .inr (.inr (moves_setThread hthread (.raise 0) (by simp) rfl))
  | wake hthread => exact .inr (.inr (moves_setThread hthread .wake (by simp) rfl))
  | report hthread =>
      refine .inr (.inr (moves_pool hthread .report ?_))
      simp [pool, setThread, WorkerPool.Pool.after, List.map_set, Stage.phase]
  | lower hthread =>
      refine .inr (.inr (moves_pool hthread .lower ?_))
      simp [pool, setThread, WorkerPool.Pool.after, List.map_set, Stage.phase]
  | fail hthread =>
      refine .inr (.inr (moves_pool hthread .fail ?_))
      simp [pool, setThread, WorkerPool.Pool.after, List.map_set, Stage.phase]

theorem refines_pool : Refines (step sizeofData dumpError) (WorkerPool.step 1) pool := by
  intro program next event hstep
  obtain ⟨-, heq⟩ | ⟨-, hsteps⟩ | ⟨event', hsteps, -⟩ := steps_pool (steps_of_step hstep)
  · exact ⟨[], by rw [heq]; rfl⟩
  · exact ⟨[.interrupt], run_cons.mpr ⟨_, WorkerPool.step_of_steps hsteps, rfl⟩⟩
  · exact ⟨[event'], run_cons.mpr ⟨_, WorkerPool.step_of_steps hsteps, rfl⟩⟩

theorem sound_pool {setup : Except Throw (Out.Output × List Manager)} {events : List Event}
    {final : Program} (hrun : run (step sizeofData dumpError) (initial setup) events = some final) :
    WorkerPool.Sound final.pool := by
  obtain ⟨events', hpool⟩ := refines_pool.run hrun
  exact run_invariant WorkerPool.Sound (fun _ => WorkerPool.Sound.step) alongRun_true
    (WorkerPool.sound_initial _) hpool

/--
However the steps of the threads, the clients and the signal are mixed, the
program returns 1 exactly when it has logged an exception, of its setup or of a
run, and it logs at most one of each thread.
-/
theorem exit_code {setup : Except Throw (Out.Output × List Manager)} {events : List Event}
    {final : Program} (hrun : run (step sizeofData dumpError) (initial setup) events = some final)
    {code : Nat} (hexit : final.main = .exited code) :
    (code = 0 ∨ code = 1) ∧ (code = 1 ↔ final.critical ≠ []) ∧
      (final.critical.map Prod.fst).Nodup := by
  have hmain : final.pool.main = .exited code := by simp [pool, hexit, Main.pool]
  obtain ⟨hcode, hreported, hnodup⟩ := (sound_pool hrun).exited_code hmain
  refine ⟨hcode, hreported.trans ?_, hnodup⟩
  simp [pool]

/-- The manager of a talker that sends nothing that can be split. -/
def talker : Manager := ⟨[.listen { sentences := [], name := str "GPS" }], []⟩

def silent : Outside where
  steadyNow := 0
  now _ := 0
  pastEnd := 0
  send _ _ := .error (osTimeout (str "Device timeout!"))
  getData := .ok []
  outOfRange _ := 0
  getSingle _ _ := .ok 0

def untilInterrupt : List Event :=
  [.configure, .spawn, .check 0, .collect 0 (fun _ => silent) 5, .start, .interrupt]

def afterInterrupt : List Event :=
  [.process 0 6, .wake 0, .check 0, .join, .exit]

def interrupted : Program where
  main := .joining 0
  keepRunning := false
  output := .pipe [.readings [Communication.Nmea.errorEntry { sentences := [], name := str "GPS" }
    .nmea (str "Unidentifiable response!")]]
  threads := [⟨talker, .processing [Communication.Nmea.errorEntry
    { sentences := [], name := str "GPS" } .nmea (str "Unidentifiable response!")]⟩]
  handed := [(0, [Communication.Nmea.errorEntry { sentences := [], name := str "GPS" }
    .nmea (str "Unidentifiable response!")])]

theorem run_untilInterrupt : run (step 200 fun _ => none) (initial (.ok (.pipe [], [talker])))
    untilInterrupt = some interrupted := by
  rfl

theorem run_afterInterrupt : run (step 200 fun _ => none) interrupted afterInterrupt =
    some { interrupted with main := .exited 0, threads := [⟨talker, .finished⟩] } := by
  rfl

theorem exit_code_interrupted : ∃ final : Program,
    run (step 200 fun _ => none) (initial (.ok (.pipe [], [talker])))
      (untilInterrupt ++ afterInterrupt) = some final ∧
    final.main = .exited 0 ∧ final.critical = [] := by
  have hrun := run_append.mpr ⟨interrupted, run_untilInterrupt, run_afterInterrupt⟩
  obtain ⟨-, hcritical, -⟩ := exit_code hrun rfl
  exact ⟨_, hrun, rfl, by simpa using hcritical⟩

/-! ## The end of the program -/

/-- A step of `main` or of a thread. -/
def Event.isOwn : Event → Bool
  | .interrupt | .read _ _ | .processLimits => false
  | _ => true

/-- A step of a run of a manager, which waits for devices. -/
def Event.isRun : Event → Bool
  | .collect _ _ _ | .process _ _ => true
  | _ => false

def Stage.inRun : Stage → Bool
  | .collecting | .processing _ => true
  | _ => false

/-- The managers that have no thread yet. -/
def unstarted (program : Program) : Nat :=
  match program.main with
  | .configuring setup => (setup.toOption.map fun made => made.2.length).getD 0
  | .starting waiting => waiting.length
  | _ => 0

theorem weight_phase_le (stage : Stage) : stage.phase.weight ≤ 7 := by
  cases stage <;> simp [Stage.phase, WorkerPool.Phase.weight]

theorem weight_pool_le (program : Program) :
    program.pool.weight ≤ 8 * program.threads.length + 3 * program.unstarted + 3 := by
  have hsum : ∀ threads : List Thread,
      ((threads.map fun thread => thread.stage.phase).map WorkerPool.Phase.weight).sum ≤
        7 * threads.length := by
    intro threads
    induction threads with
    | nil => simp
    | cons thread threads ih =>
        have hle := weight_phase_le thread.stage
        simp only [List.map_cons, List.sum_cons, List.length_cons]
        omega
  have hworkers := hsum program.threads
  unfold WorkerPool.Pool.weight WorkerPool.Pool.mainWeight unstarted
  cases hmain : program.main with
  | configuring setup =>
      cases setup with
      | error e =>
          simp only [pool, hmain, Main.pool, Except.toOption, Option.map_none, List.length_map]
          simp only [Option.getD_none]
          omega
      | ok made =>
          simp only [pool, hmain, Main.pool, Except.toOption, Option.map_some, List.length_map]
          simp only [Option.getD_some]
          omega
  | starting waiting =>
      simp only [pool, hmain, Main.pool, List.length_map]
      omega
  | joining joined =>
      simp only [pool, hmain, Main.pool, List.length_map]
      omega
  | exited code =>
      simp only [pool, hmain, Main.pool]
      omega

theorem keepRunning_step {program next : Program} {event : Event}
    (hdown : program.keepRunning = false)
    (hstep : program.step sizeofData dumpError event = some next) : next.keepRunning = false := by
  obtain ⟨-, heq⟩ | ⟨-, hsteps⟩ | ⟨event', hsteps, -⟩ := steps_pool (steps_of_step hstep)
  · exact (congrArg WorkerPool.Pool.keepRunning heq).trans hdown
  · exact hsteps.down hdown
  · exact hsteps.down hdown

theorem weight_step {program next : Program} {event : Event}
    (hdown : program.keepRunning = false)
    (hstep : program.step sizeofData dumpError event = some next) :
    next.pool.weight + (if event.isOwn then 1 else 0) ≤ program.pool.weight := by
  obtain ⟨hclient, heq⟩ | ⟨hevent, hsteps⟩ | ⟨event', hsteps, hne⟩ :=
    steps_pool (steps_of_step hstep)
  · have hown : event.isOwn = false := by
      cases event <;> simp [Event.isClient] at hclient <;> rfl
    simp [hown, heq]
  · have hpool : next.pool = { program.pool with keepRunning := false } :=
      (Option.some.inj (WorkerPool.step_of_steps hsteps)).symm
    simp [hevent, Event.isOwn, hpool, WorkerPool.Pool.weight, WorkerPool.Pool.mainWeight]
  · have hlt := hsteps.weight_lt hdown hne
    split <;> omega

/-- When `main` and the threads between their runs can do nothing, all is over. -/
theorem exited_of_stuck {program : Program} (hsound : WorkerPool.Sound program.pool)
    (hstuck : ∀ event : Event, event.isOwn → ¬ event.isRun →
      program.step sizeofData dumpError event = none) :
    (∃ code, program.main = .exited code) ∨
    (∃ thread ∈ program.threads, thread.stage.inRun) ∨
    program.main = .configuring (.error .undefinedBehaviour) := by
  cases hmain : program.main with
  | exited code => exact .inl ⟨code, rfl⟩
  | configuring setup =>
      have hnone := hstuck .configure rfl (by simp [Event.isRun])
      simp only [step, stepMain, hmain] at hnone
      right; right
      cases setup with
      | ok made => simp at hnone
      | error e => cases e <;> simp_all
  | starting waiting =>
      cases waiting with
      | nil =>
          have hnone := hstuck .start rfl (by simp [Event.isRun])
          simp [step, stepMain, hmain] at hnone
      | cons manager waiting =>
          have hnone := hstuck .spawn rfl (by simp [Event.isRun])
          simp [step, stepMain, hmain] at hnone
  | joining joined =>
      obtain ⟨hle, -⟩ := hsound.joined joined (by simp [pool, hmain, Main.pool])
      rw [pool, List.length_map] at hle
      rcases hle.lt_or_eq with hlt | heq
      · obtain ⟨⟨manager, stage⟩, hthread⟩ :
            ∃ thread, program.threads[joined]? = some thread :=
          ⟨_, List.getElem?_eq_getElem hlt⟩
        right; left
        refine ⟨⟨manager, stage⟩, List.mem_of_getElem? hthread, ?_⟩
        -- Every stage outside a run has a step.
        cases stage with
        | collecting => rfl
        | processing list => rfl
        | checking =>
            have hnone := hstuck (.check joined) rfl (by simp [Event.isRun])
            simp [step, stepThread, hthread] at hnone
        | reporting e =>
            have hnone := hstuck (.report joined) rfl (by simp [Event.isRun])
            simp [step, stepThread, hthread] at hnone
        | lowering =>
            have hnone := hstuck (.lower joined) rfl (by simp [Event.isRun])
            simp [step, stepThread, hthread] at hnone
        | failing =>
            have hnone := hstuck (.fail joined) rfl (by simp [Event.isRun])
            simp [step, stepThread, hthread] at hnone
        | sleeping =>
            have hnone := hstuck (.wake joined) rfl (by simp [Event.isRun])
            simp [step, stepThread, hthread] at hnone
        | finished =>
            have hnone := hstuck .join rfl (by simp [Event.isRun])
            simp [step, stepMain, hmain, hthread] at hnone
      · have hnone := hstuck .exit rfl (by simp [Event.isRun])
        simp [step, stepMain, hmain, heq] at hnone

/--
Once the flag is down `main` and the threads have a bounded number of steps
left, and they lack none for returning but those of a run that has not come
back.  Mutexes and the thread of the server have no steps here.
-/
theorem shutdown {setup : Except Throw (Out.Output × List Manager)} {before after : List Event}
    {program final : Program}
    (hbefore : run (step sizeofData dumpError) (initial setup) before = some program)
    (hdown : program.keepRunning = false)
    (hafter : run (step sizeofData dumpError) program after = some final) :
    after.countP Event.isOwn ≤ 8 * program.threads.length + 3 * program.unstarted + 3 ∧
    ((∀ event : Event, event.isOwn → ¬ event.isRun →
        final.step sizeofData dumpError event = none) →
      (∃ code, final.main = .exited code) ∨ (∃ thread ∈ final.threads, thread.stage.inRun) ∨
      final.main = .configuring (.error .undefinedBehaviour)) := by
  constructor
  · have hcount := count_le_of_decreases Event.isOwn
      (fun program => program.keepRunning = false) (fun program => program.pool.weight)
      keepRunning_step weight_step hdown hafter
    have hweight := weight_pool_le program
    omega
  · exact exited_of_stuck (sound_pool (run_append.mpr ⟨program, hbefore, hafter⟩))

theorem shutdown_interrupted : ∃ final : Program,
    run (step 200 fun _ => none) interrupted afterInterrupt = some final ∧
    afterInterrupt.countP Event.isOwn ≤ 11 := by
  obtain ⟨hcount, -⟩ := shutdown run_untilInterrupt rfl run_afterInterrupt
  exact ⟨_, run_afterInterrupt, hcount⟩

/-! ## Runs after the flag is down -/

def Stage.runSteps : Stage → Nat
  | .collecting => 2
  | .processing _ => 1
  | _ => 0

/-- The steps that the run of the thread `i` has left, if it is in one. -/
def runSteps (program : Program) (i : Nat) : Nat :=
  ((program.threads[i]?).map fun thread => thread.stage.runSteps).getD 0

def Event.isRunOf (i : Nat) : Event → Bool
  | .collect j _ _ | .process j _ => j = i
  | _ => false

theorem runSteps_set {program next : Program} {j : Nat} {thread : Thread} {manager : Manager}
    {stage : Stage} {event : Event} (hthread : program.threads[j]? = some thread)
    (hnext : next.threads = program.threads.set j ⟨manager, stage⟩)
    (hevent : ∀ i, event.isRunOf i → j = i)
    (htaken : stage.runSteps + (if event.isRunOf j then 1 else 0) ≤ thread.stage.runSteps)
    (i : Nat) : next.runSteps i + (if event.isRunOf i then 1 else 0) ≤ program.runSteps i := by
  unfold runSteps
  rw [hnext]
  by_cases hij : j = i
  · subst hij
    rw [List.getElem?_set_self (List.getElem?_eq_some_iff.mp hthread).1, hthread]
    exact htaken
  · rw [List.getElem?_set_ne hij, if_neg fun hof => hij (hevent i hof)]
    exact Nat.le_refl _

theorem runSteps_step {program next : Program} {event : Event}
    (hdown : program.keepRunning = false)
    (hstep : program.step sizeofData dumpError event = some next) (i : Nat) :
    next.runSteps i + (if event.isRunOf i then 1 else 0) ≤ program.runSteps i := by
  cases steps_of_step hstep with
  | spawn hmain =>
      simp only [Event.isRunOf]
      unfold runSteps
      rw [List.getElem?_append]
      split
      case isTrue => simp
      case isFalse hge =>
        cases i - program.threads.length <;> simp [Stage.runSteps]
  | check hthread =>
      rw [hdown]
      exact runSteps_set hthread rfl (by simp [Event.isRunOf])
        (by simp [Event.isRunOf, Stage.runSteps]) i
  | collect hthread =>
      exact runSteps_set hthread rfl (by simp [Event.isRunOf])
        (by simp [Event.isRunOf, Stage.runSteps]) i
  | collectThrows hthread =>
      exact runSteps_set hthread rfl (by simp [Event.isRunOf])
        (by simp [Event.isRunOf, Stage.runSteps]) i
  | sendThrows hthread =>
      exact runSteps_set hthread rfl (by simp [Event.isRunOf])
        (by simp [Event.isRunOf, Stage.runSteps]) i
  | process hthread =>
      exact runSteps_set hthread rfl (by simp [Event.isRunOf])
        (by simp [Event.isRunOf, Stage.runSteps]) i
  | processThrows hthread =>
      exact runSteps_set hthread rfl (by simp [Event.isRunOf])
        (by simp [Event.isRunOf, Stage.runSteps]) i
  | limitsThrow hthread =>
      exact runSteps_set hthread rfl (by simp [Event.isRunOf])
        (by simp [Event.isRunOf, Stage.runSteps]) i
  | report hthread =>
      exact runSteps_set hthread rfl (by simp [Event.isRunOf])
        (by simp [Event.isRunOf, Stage.runSteps]) i
  | lower hthread =>
      exact runSteps_set hthread rfl (by simp [Event.isRunOf])
        (by simp [Event.isRunOf, Stage.runSteps]) i
  | fail hthread =>
      exact runSteps_set hthread rfl (by simp [Event.isRunOf])
        (by simp [Event.isRunOf, Stage.runSteps]) i
  | wake hthread =>
      exact runSteps_set hthread rfl (by simp [Event.isRunOf])
        (by simp [Event.isRunOf, Stage.runSteps]) i
  | _ => exact Nat.le_refl _

/--
No run begins once the flag is down: all that a thread does of a run is what is
left of the one it is in.
-/
theorem runs_after_stop {program final : Program} (hdown : program.keepRunning = false)
    {events : List Event} (hrun : run (step sizeofData dumpError) program events = some final)
    (i : Nat) : events.countP (Event.isRunOf i) ≤ program.runSteps i := by
  have hcount := count_le_of_decreases (Event.isRunOf i)
    (fun program => program.keepRunning = false) (fun program => program.runSteps i)
    keepRunning_step (fun hdown hstep => runSteps_step hdown hstep i) hdown hrun
  omega

theorem runs_after_stop_interrupted : ∃ final : Program,
    run (step 200 fun _ => none) interrupted afterInterrupt = some final ∧
    afterInterrupt.countP (Event.isRunOf 0) ≤ 1 :=
  ⟨_, run_afterInterrupt, runs_after_stop rfl run_afterInterrupt 0⟩

end

end Program

end Rdbus
