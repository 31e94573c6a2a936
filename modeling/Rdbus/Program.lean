import Rdbus.Foundation.Simulation
import Rdbus.Manager
import Rdbus.Out.Delivery
import Rdbus.Out.Output

/-!
# The program

`main` sets everything up, starts a thread for each manager and joins the
threads one after the other.  Threads, clients of the server and the signal
handler take their steps in any order; `keepRunning` and `result` are shared.

A run of a manager has two steps, up to its first `send` and behind it; it has
at most one processor.  The lists of a step are also printed in it, as if nothing
came between.  What runs into undefined behaviour takes no step.
-/

namespace Rdbus

open Foundation

namespace Program

/-- Where the thread of a manager stands in its loop. -/
inductive Stage where
  | checking
  | collecting
  | processing (list : List Data)
  | reporting (e : Throw)
  | lowering
  | failing
  | sleeping
  | finished

structure Thread where
  manager : Manager
  stage : Stage := .checking

inductive Main where
  | configuring (setup : Except Throw (Out.Output × List Manager))
  | starting (waiting : List Manager)
  | joining (joined : Nat)
  | exited (code : Nat)

end Program

/--
`critical` is the log, with the number of the thread that writes, `handed` the
readings that the runs collected and `replies` what clients were answered.
-/
structure Program where
  main : Program.Main
  keepRunning : Bool := true
  result : Nat := 0
  output : Out.Output := .pipe []
  threads : List Program.Thread := []
  critical : List (Option Nat × Bytes) := []
  handed : List (Nat × List Data) := []
  replies : List Out.Read := []

namespace Program

def initial (setup : Except Throw (Out.Output × List Manager)) : Program where
  main := .configuring setup

inductive Event where
  | interrupt
  | configure
  | spawn
  | start
  | join
  | exit
  | check (i : Nat)
  | collect (i : Nat) (outside : Nat → Outside) (now : Timestamp)
  | process (i : Nat) (now : Timestamp)
  | report (i : Nat)
  | lower (i : Nat)
  | fail (i : Nat)
  | wake (i : Nat)
  | read (now : Timestamp) (cookie : Option Bytes)
  | processLimits

def setThread (program : Program) (i : Nat) (manager : Manager) (stage : Stage) : Program :=
  { program with threads := program.threads.set i ⟨manager, stage⟩ }

/-- The two `catch` clauses around `manager.run()`. -/
def leave (program : Program) (i : Nat) (manager : Manager) (e : Throw) : Option Program :=
  if e = .undefinedBehaviour then none
  else some (program.setThread i manager (.reporting e))

def stepMain (program : Program) : Event → Option Program
  | .configure =>
      match program.main with
      | .configuring (.ok (output, managers)) =>
          some { program with main := .starting managers, output }
      | .configuring (.error .undefinedBehaviour) => none
      | .configuring (.error e) => some { program with
          main := .joining 0
          result := 1
          critical := program.critical ++ [(none, e.what)] }
      | _ => none
  | .spawn =>
      match program.main with
      | .starting (manager :: waiting) => some { program with
          main := .starting waiting
          threads := program.threads ++ [{ manager }] }
      | _ => none
  | .start =>
      match program.main with
      | .starting [] => some { program with main := .joining 0 }
      | _ => none
  | .join =>
      match program.main with
      | .joining joined =>
          match program.threads[joined]? with
          | some ⟨_, .finished⟩ => some { program with main := .joining (joined + 1) }
          | _ => none
      | _ => none
  | .exit =>
      match program.main with
      | .joining joined =>
          if joined = program.threads.length then
            some { program with main := .exited program.result }
          else none
      | _ => none
  | _ => none

/-- The first `send` of a run, which is left out for an empty list. -/
def sendReadings (sizeofData : Nat) (dumpError : Bytes → Option Bytes) (now : Timestamp)
    (list : List Data) (output : Out.Output) : Except Throw Out.Output :=
  if list.isEmpty then .ok output else output.send sizeofData dumpError now list

/-- `Manager::run` up to the first `send`. -/
def collect (sizeofData : Nat) (dumpError : Bytes → Option Bytes) (program : Program)
    (i : Nat) (outside : Nat → Outside) (now : Timestamp) (manager : Manager) :
    Option Program :=
  match manager.collect outside with
  | .error e => program.leave i manager e
  | .ok (list, manager) =>
      let program := { program with handed := program.handed ++ [(i, list)] }
      match sendReadings sizeofData dumpError now list program.output with
      | .error e => program.leave i manager e
      | .ok output => some ({ program with output }.setThread i manager (.processing list))

/-- `Manager::run` after the first `send`. -/
def process (sizeofData : Nat) (dumpError : Bytes → Option Bytes) (program : Program)
    (i : Nat) (now : Timestamp) (manager : Manager) (list : List Data) : Option Program :=
  match manager.process list with
  | .error e => program.leave i manager e
  | .ok (outputs, manager) =>
      match program.output.sendOutputs sizeofData dumpError now outputs with
      | .error e => program.leave i manager e
      | .ok output => some ({ program with output }.setThread i manager .sleeping)

/-- The function of the thread with number `i`. -/
def stepThread (sizeofData : Nat) (dumpError : Bytes → Option Bytes) (program : Program) :
    Event → Option Program
  | .check i =>
      match program.threads[i]? with
      | some ⟨manager, .checking⟩ => some (program.setThread i manager
          (if program.keepRunning then .collecting else .finished))
      | _ => none
  | .collect i outside now =>
      match program.threads[i]? with
      | some ⟨manager, .collecting⟩ =>
          program.collect sizeofData dumpError i outside now manager
      | _ => none
  | .process i now =>
      match program.threads[i]? with
      | some ⟨manager, .processing list⟩ =>
          program.process sizeofData dumpError i now manager list
      | _ => none
  | .report i =>
      match program.threads[i]? with
      | some ⟨manager, .reporting e⟩ => some ({ program with
          critical := program.critical ++ [(some i, e.what)] }.setThread i manager .lowering)
      | _ => none
  | .lower i =>
      match program.threads[i]? with
      | some ⟨manager, .lowering⟩ =>
          some ({ program with keepRunning := false }.setThread i manager .failing)
      | _ => none
  | .fail i =>
      match program.threads[i]? with
      | some ⟨manager, .failing⟩ =>
          some ({ program with result := 1 }.setThread i manager .sleeping)
      | _ => none
  | .wake i =>
      match program.threads[i]? with
      | some ⟨manager, .sleeping⟩ => some (program.setThread i manager .checking)
      | _ => none
  | _ => none

/-- The handlers of the server, which stops when `main` has returned. -/
def stepClient (dumpError : Bytes → Option Bytes) (program : Program) (event : Event) :
    Option Program :=
  match program.main, program.output, event with
  | .exited _, _, _ => none
  | _, .http server, .read now cookie =>
      match server.handleRead dumpError now cookie with
      | .error _ => none
      | .ok (response, server) =>
          let stored := (program.handed.flatMap Prod.snd).length
          let reply : Out.Read := ⟨now, cookie.map Out.Http.sessionId, response, stored,
            stored - server.rdbusDataStorage.data.length⟩
          some { program with output := .http server, replies := program.replies ++ [reply] }
  | _, .http _, .processLimits => some program
  | _, _, _ => none

def step (sizeofData : Nat) (dumpError : Bytes → Option Bytes) (program : Program)
    (event : Event) : Option Program :=
  match event with
  | .interrupt => some { program with keepRunning := false }
  | .configure | .spawn | .start | .join | .exit => program.stepMain event
  | .check _ | .collect _ _ _ | .process _ _ | .report _ | .lower _ | .fail _ | .wake _ =>
      program.stepThread sizeofData dumpError event
  | .read _ _ | .processLimits => program.stepClient dumpError event

/-! ## What a step can do -/

section

variable (sizeofData : Nat) (dumpError : Bytes → Option Bytes)

inductive Steps (program : Program) : Event → Program → Prop where
  | interrupt : Steps program .interrupt { program with keepRunning := false }
  | configure {output : Out.Output} {managers : List Manager}
      (hmain : program.main = .configuring (.ok (output, managers))) :
      Steps program .configure { program with main := .starting managers, output }
  | refuse {e : Throw} (hmain : program.main = .configuring (.error e))
      (he : e ≠ .undefinedBehaviour) :
      Steps program .configure { program with
        main := .joining 0
        result := 1
        critical := program.critical ++ [(none, e.what)] }
  | spawn {manager : Manager} {waiting : List Manager}
      (hmain : program.main = .starting (manager :: waiting)) :
      Steps program .spawn { program with
        main := .starting waiting
        threads := program.threads ++ [{ manager }] }
  | start (hmain : program.main = .starting []) :
      Steps program .start { program with main := .joining 0 }
  | join {joined : Nat} {manager : Manager} (hmain : program.main = .joining joined)
      (hthread : program.threads[joined]? = some ⟨manager, .finished⟩) :
      Steps program .join { program with main := .joining (joined + 1) }
  | exit (hmain : program.main = .joining program.threads.length) :
      Steps program .exit { program with main := .exited program.result }
  | check {i : Nat} {manager : Manager}
      (hthread : program.threads[i]? = some ⟨manager, .checking⟩) :
      Steps program (.check i) (program.setThread i manager
        (if program.keepRunning then .collecting else .finished))
  | collect {i : Nat} {outside : Nat → Outside} {now : Timestamp} {manager manager' : Manager}
      {list : List Data} {output : Out.Output}
      (hthread : program.threads[i]? = some ⟨manager, .collecting⟩)
      (hcollect : manager.collect outside = .ok (list, manager'))
      (hsend : sendReadings sizeofData dumpError now list program.output = .ok output) :
      Steps program (.collect i outside now) ({ program with
        handed := program.handed ++ [(i, list)], output }.setThread i manager'
          (.processing list))
  | collectThrows {i : Nat} {outside : Nat → Outside} {now : Timestamp} {manager : Manager}
      {e : Throw} (hthread : program.threads[i]? = some ⟨manager, .collecting⟩)
      (hcollect : manager.collect outside = .error e) (he : e ≠ .undefinedBehaviour) :
      Steps program (.collect i outside now) (program.setThread i manager (.reporting e))
  | sendThrows {i : Nat} {outside : Nat → Outside} {now : Timestamp}
      {manager manager' : Manager} {list : List Data} {e : Throw}
      (hthread : program.threads[i]? = some ⟨manager, .collecting⟩)
      (hcollect : manager.collect outside = .ok (list, manager'))
      (hsend : sendReadings sizeofData dumpError now list program.output = .error e)
      (he : e ≠ .undefinedBehaviour) :
      Steps program (.collect i outside now) ({ program with
        handed := program.handed ++ [(i, list)] }.setThread i manager' (.reporting e))
  | process {i : Nat} {now : Timestamp} {manager manager' : Manager} {list : List Data}
      {outputs : List (List Processing.Limits.Data)} {output : Out.Output}
      (hthread : program.threads[i]? = some ⟨manager, .processing list⟩)
      (hprocess : manager.process list = .ok (outputs, manager'))
      (hsend : program.output.sendOutputs sizeofData dumpError now outputs = .ok output) :
      Steps program (.process i now) ({ program with output }.setThread i manager' .sleeping)
  | processThrows {i : Nat} {now : Timestamp} {manager : Manager} {list : List Data}
      {e : Throw} (hthread : program.threads[i]? = some ⟨manager, .processing list⟩)
      (hprocess : manager.process list = .error e) (he : e ≠ .undefinedBehaviour) :
      Steps program (.process i now) (program.setThread i manager (.reporting e))
  | limitsThrow {i : Nat} {now : Timestamp} {manager manager' : Manager} {list : List Data}
      {outputs : List (List Processing.Limits.Data)} {e : Throw}
      (hthread : program.threads[i]? = some ⟨manager, .processing list⟩)
      (hprocess : manager.process list = .ok (outputs, manager'))
      (hsend : program.output.sendOutputs sizeofData dumpError now outputs = .error e)
      (he : e ≠ .undefinedBehaviour) :
      Steps program (.process i now) (program.setThread i manager' (.reporting e))
  | report {i : Nat} {manager : Manager} {e : Throw}
      (hthread : program.threads[i]? = some ⟨manager, .reporting e⟩) :
      Steps program (.report i) ({ program with
        critical := program.critical ++ [(some i, e.what)] }.setThread i manager .lowering)
  | lower {i : Nat} {manager : Manager}
      (hthread : program.threads[i]? = some ⟨manager, .lowering⟩) :
      Steps program (.lower i) ({ program with keepRunning := false }.setThread i manager .failing)
  | fail {i : Nat} {manager : Manager}
      (hthread : program.threads[i]? = some ⟨manager, .failing⟩) :
      Steps program (.fail i) ({ program with result := 1 }.setThread i manager .sleeping)
  | wake {i : Nat} {manager : Manager}
      (hthread : program.threads[i]? = some ⟨manager, .sleeping⟩) :
      Steps program (.wake i) (program.setThread i manager .checking)
  | read {now : Timestamp} {cookie : Option Bytes} {server server' : Out.Http}
      {response : Out.Http.Response} (hmain : ∀ code, program.main ≠ .exited code)
      (houtput : program.output = .http server)
      (hread : server.handleRead dumpError now cookie = .ok (response, server')) :
      Steps program (.read now cookie) { program with
        output := .http server'
        replies := program.replies ++ [⟨now, cookie.map Out.Http.sessionId, response,
          (program.handed.flatMap Prod.snd).length,
          (program.handed.flatMap Prod.snd).length - server'.rdbusDataStorage.data.length⟩] }
  | processLimits {server : Out.Http} (hmain : ∀ code, program.main ≠ .exited code)
      (houtput : program.output = .http server) : Steps program .processLimits program

variable {sizeofData dumpError}

theorem leave_eq_some {program next : Program} {i : Nat} {manager : Manager} {e : Throw} :
    program.leave i manager e = some next ↔
      e ≠ .undefinedBehaviour ∧ next = program.setThread i manager (.reporting e) := by
  rw [leave]
  split
  case isTrue he => simp [he]
  case isFalse he => simp [he, eq_comm]

theorem steps_of_stepMain {program next : Program} {event : Event}
    (h : program.stepMain event = some next) :
    Steps sizeofData dumpError program event next := by
  unfold stepMain at h
  split at h
  case h_1 =>
    split at h <;> cases h
    case h_1 hmain => exact .configure hmain
    case h_3 he hmain => exact .refuse hmain he
  case h_2 =>
    split at h <;> cases h
    case h_1 hmain => exact .spawn hmain
  case h_3 =>
    split at h <;> cases h
    case h_1 hmain => exact .start hmain
  case h_4 =>
    split at h
    case h_1 hmain =>
      split at h <;> cases h
      case h_1 hthread => exact .join hmain hthread
    case h_2 => cases h
  case h_5 =>
    split at h
    case h_1 hmain =>
      split at h <;> cases h
      case isTrue hlength => exact .exit (hlength ▸ hmain)
    case h_2 => cases h
  case h_6 => cases h

theorem steps_of_collect {program next : Program} {i : Nat} {outside : Nat → Outside}
    {now : Timestamp} {manager : Manager}
    (hthread : program.threads[i]? = some ⟨manager, .collecting⟩)
    (h : program.collect sizeofData dumpError i outside now manager = some next) :
    Steps sizeofData dumpError program (.collect i outside now) next := by
  unfold collect at h
  split at h
  case h_1 e hcollect =>
    obtain ⟨he, rfl⟩ := leave_eq_some.mp h
    exact .collectThrows hthread hcollect he
  case h_2 list manager' hcollect =>
    simp only at h
    split at h
    case h_1 e hsend =>
      obtain ⟨he, rfl⟩ := leave_eq_some.mp h
      exact .sendThrows hthread hcollect hsend he
    case h_2 output hsend =>
      cases h
      exact .collect hthread hcollect hsend

theorem steps_of_process {program next : Program} {i : Nat} {now : Timestamp}
    {manager : Manager} {list : List Data}
    (hthread : program.threads[i]? = some ⟨manager, .processing list⟩)
    (h : program.process sizeofData dumpError i now manager list = some next) :
    Steps sizeofData dumpError program (.process i now) next := by
  unfold process at h
  split at h
  case h_1 e hprocess =>
    obtain ⟨he, rfl⟩ := leave_eq_some.mp h
    exact .processThrows hthread hprocess he
  case h_2 outputs manager' hprocess =>
    split at h
    case h_1 e hsend =>
      obtain ⟨he, rfl⟩ := leave_eq_some.mp h
      exact .limitsThrow hthread hprocess hsend he
    case h_2 output hsend =>
      cases h
      exact .process hthread hprocess hsend

theorem steps_of_stepClient {program next : Program} {event : Event}
    (h : program.stepClient dumpError event = some next) :
    Steps sizeofData dumpError program event next := by
  unfold stepClient at h
  split at h
  case h_1 => cases h
  case h_2 server now cookie houtput hmain =>
    split at h
    case h_1 => cases h
    case h_2 response server' hread =>
      cases h
      exact .read hmain houtput hread
  case h_3 server houtput hmain =>
    cases h
    exact .processLimits hmain houtput
  case h_4 => cases h

theorem steps_of_stepThread {program next : Program} {event : Event}
    (h : program.stepThread sizeofData dumpError event = some next) :
    Steps sizeofData dumpError program event next := by
  cases event with
  | check i =>
      rw [stepThread] at h
      split at h <;> cases h
      case h_1 hthread => exact .check hthread
  | collect i outside now =>
      rw [stepThread] at h
      split at h
      case h_1 hthread => exact steps_of_collect hthread h
      case h_2 => cases h
  | process i now =>
      rw [stepThread] at h
      split at h
      case h_1 hthread => exact steps_of_process hthread h
      case h_2 => cases h
  | report i =>
      rw [stepThread] at h
      split at h <;> cases h
      case h_1 hthread => exact .report hthread
  | lower i =>
      rw [stepThread] at h
      split at h <;> cases h
      case h_1 hthread => exact .lower hthread
  | fail i =>
      rw [stepThread] at h
      split at h <;> cases h
      case h_1 hthread => exact .fail hthread
  | wake i =>
      rw [stepThread] at h
      split at h <;> cases h
      case h_1 hthread => exact .wake hthread
  | _ => cases h

theorem steps_of_step {program next : Program} {event : Event}
    (h : program.step sizeofData dumpError event = some next) :
    Steps sizeofData dumpError program event next := by
  unfold step at h
  split at h
  case h_1 =>
    cases h
    exact .interrupt
  case h_2 | h_3 | h_4 | h_5 | h_6 => exact steps_of_stepMain h
  case h_14 | h_15 => exact steps_of_stepClient h
  all_goals exact steps_of_stepThread h

end

end Program

end Rdbus
