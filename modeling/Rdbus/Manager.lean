import Rdbus.Communication.Modbus.Communicator
import Rdbus.Communication.Nmea.Communicator
import Rdbus.Communication.Wago.Communicator
import Rdbus.Config.Config
import Rdbus.Processing.Limits

/-!
# Managers and their tasks

A manager runs the tasks of one configuration file and gives what they read to
its processors.  `Outside` is all that the rest of the world does while one
task runs.
-/

namespace Rdbus

open Communication
open Foundation

structure Outside where
  /-- Nanoseconds of the steady clock. -/
  steadyNow : Int
  now : Nat → Timestamp
  pastEnd : Int
  send : Nat → Modbus.ModbusRequest → Except Throw Modbus.ModbusResponse
  getData : Except Throw Bytes
  outOfRange : Nat → UInt8
  getSingle : Nat → Int → Except Throw Int16

/-- `PollSlave`, `Listen` and `PollModule`; `lastRun` starts at the epoch. -/
inductive Task where
  | pollSlave (slave : Config.Modbus.Slave) (lastRun : Int)
  | listen (nmea : Config.NMEA)
  | pollModule (module : Config.Wago.Module) (lastRun : Int)

namespace Task

/-- `timeSinceLastExecution >= pollTimeMs`, after the cast to milliseconds. -/
def isDue (now lastRun pollTimeMs : Int) : Bool :=
  pollTimeMs ≤ (now - lastRun).tdiv 1000000

def run (outside : Outside) : Task → Except Throw (List Data × Task)
  | .pollSlave slave lastRun =>
      if isDue outside.steadyNow lastRun slave.pollTimeMs then do
        let data ← Modbus.request (.ok outside.pastEnd) outside.send outside.now slave
        .ok ([data], .pollSlave slave outside.steadyNow)
      else .ok ([], .pollSlave slave lastRun)
  | .listen nmea => do
      let list ← Nmea.receive outside.outOfRange outside.getData (outside.now 0) nmea
      .ok (list, .listen nmea)
  | .pollModule module lastRun =>
      if isDue outside.steadyNow lastRun module.pollTimeMs then do
        let data ← Wago.request outside.getSingle outside.now module
        .ok ([data], .pollModule module outside.steadyNow)
      else .ok ([], .pollModule module lastRun)

/-- A task that is not due does nothing; a poll has one reading and sets `lastRun`. -/
theorem run_ok {outside : Outside} {task next : Task} {list : List Data}
    (h : task.run outside = .ok (list, next)) :
    (list = [] ∧ next = task) ∨
    (∃ slave lastRun data, task = .pollSlave slave lastRun ∧
      Modbus.request (.ok outside.pastEnd) outside.send outside.now slave = .ok data ∧
      list = [data] ∧ next = .pollSlave slave outside.steadyNow) ∨
    (∃ nmea, task = .listen nmea ∧ next = .listen nmea) ∨
    ∃ module lastRun data, task = .pollModule module lastRun ∧
      Wago.request outside.getSingle outside.now module = .ok data ∧
      list = [data] ∧ next = .pollModule module outside.steadyNow := by
  cases task with
  | pollSlave slave lastRun =>
      rw [run] at h
      split at h
      case isTrue =>
        obtain ⟨data, hrequest, h⟩ := bind_eq_ok.mp h
        cases h
        exact .inr (.inl ⟨slave, lastRun, data, rfl, hrequest, rfl, rfl⟩)
      case isFalse =>
        cases h
        exact .inl ⟨rfl, rfl⟩
  | listen nmea =>
      obtain ⟨_, -, h⟩ := bind_eq_ok.mp h
      cases h
      exact .inr (.inr (.inl ⟨nmea, rfl, rfl⟩))
  | pollModule module lastRun =>
      rw [run] at h
      split at h
      case isTrue =>
        obtain ⟨data, hrequest, h⟩ := bind_eq_ok.mp h
        cases h
        exact .inr (.inr (.inr ⟨module, lastRun, data, rfl, hrequest, rfl, rfl⟩))
      case isFalse =>
        cases h
        exact .inl ⟨rfl, rfl⟩

end Task

namespace Processing.Limits

structure Processor where
  duration : Int
  data : Store

def Processor.process (inputList : List Rdbus.Data) (processor : Processor) :
    Except Throw (List Data × Processor) :=
  match Limits.process processor.duration inputList processor.data with
  | .ok outputList data => .ok (outputList, { processor with data })
  | .error e _ => .error e

end Processing.Limits

structure Manager where
  tasks : List Task
  processors : List Processing.Limits.Processor

namespace Manager

/-- The loop over the tasks; `k` counts them. -/
def runTasks (outside : Nat → Outside) :
    Nat → List Task → Except Throw (List Data × List Task)
  | _, [] => .ok ([], [])
  | k, task :: tasks => do
      let (data, task) ← task.run (outside k)
      let (list, tasks) ← runTasks outside (k + 1) tasks
      .ok (data ++ list, task :: tasks)

/-- `run` up to the first `send`. -/
def collect (outside : Nat → Outside) (manager : Manager) :
    Except Throw (List Data × Manager) := do
  let (list, tasks) ← runTasks outside 0 manager.tasks
  .ok (list, { manager with tasks })

def runProcessors (list : List Data) :
    List Processing.Limits.Processor →
      Except Throw (List (List Processing.Limits.Data) × List Processing.Limits.Processor)
  | [] => .ok ([], [])
  | processor :: processors => do
      let (output, processor) ← processor.process list
      let (outputs, processors) ← runProcessors list processors
      .ok (output :: outputs, processor :: processors)

/-- `run` after the first `send`. -/
def process (list : List Data) (manager : Manager) :
    Except Throw (List (List Processing.Limits.Data) × Manager) := do
  let (outputs, processors) ← runProcessors list manager.processors
  .ok (outputs, { manager with processors })

/-- `Manager::run`: the readings, then the output of each processor. -/
def run (outside : Nat → Outside) (manager : Manager) :
    Except Throw (List Data × List (List Processing.Limits.Data) × Manager) := do
  let (list, manager) ← manager.collect outside
  let (outputs, manager) ← manager.process list
  .ok (list, outputs, manager)

end Manager

/-- `rdbus::throwIf`, which throws an `rdbus::Exception` itself. -/
def throwExceptionIf (condition : Bool) (message : Bytes) : Except Throw Unit :=
  if condition then .error (.std message) else .ok ()

def initializeTasks (config : Config) : Except Throw (List Task) :=
  if config.protocol = str "nmea" then do
    throwExceptionIf config.serial.isNone
      (str "'serial' configuration required for 'protocol' nmea!")
    .ok [.listen config.nmea]
  else if config.protocol = str "modbus" then do
    throwExceptionIf config.serial.isNone
      (str "'serial' configuration required for 'protocol' modbus!")
    .ok (config.modbus.map fun slave => .pollSlave slave 0)
  else if config.protocol = str "wago" then do
    throwExceptionIf config.address.isNone
      (str "'address' configuration required for 'protocol' wago!")
    .ok (config.wago.map fun module => .pollModule module 0)
  else .ok []

theorem initializeTasks_ok {config : Config} {tasks : List Task}
    (h : initializeTasks config = .ok tasks) :
    (config.protocol = str "nmea" → tasks = [.listen config.nmea]) ∧
    (config.protocol = str "modbus" →
      tasks = config.modbus.map fun slave => .pollSlave slave 0) ∧
    (config.protocol = str "wago" →
      tasks = config.wago.map fun module => .pollModule module 0) := by
  refine ⟨fun hprotocol => ?_, fun hprotocol => ?_, fun hprotocol => ?_⟩
  · rw [initializeTasks, if_pos hprotocol] at h
    obtain ⟨_, -, h⟩ := bind_eq_ok.mp h
    exact (Except.ok.inj h).symm
  · rw [initializeTasks, hprotocol, if_neg (by decide), if_pos rfl] at h
    obtain ⟨_, -, h⟩ := bind_eq_ok.mp h
    exact (Except.ok.inj h).symm
  · rw [initializeTasks, hprotocol, if_neg (by decide), if_neg (by decide), if_pos rfl] at h
    obtain ⟨_, -, h⟩ := bind_eq_ok.mp h
    exact (Except.ok.inj h).symm

def initializeProcessors (config : Config) : List Processing.Limits.Processor :=
  match config.processors.limits with
  | some limits => [⟨limits.durationMinutes, Processing.Limits.initial limits⟩]
  | none => []

def initializeManager (config : Config) : Except Throw Manager := do
  let tasks ← initializeTasks config
  .ok { tasks, processors := initializeProcessors config }

end Rdbus
