import Rdbus.Communication.Modbus.Adapter
import Rdbus.Foundation.Runs
import Mathlib.Data.List.Perm.Subperm

/-!
# The serial line

All slaves of one port share a line: requests that are written, transmitted and
answered, replies in flight and the unread input queue.  `Connection::sendData`
discards output that is not yet transmitted and nothing else, and
`Connection::getData` takes everything readable.  A device answers a request at
most once, at any time; frames may be lost and overtake one another.

`number` and `taken` only record which request a reply answers and which
replies a transaction consumed; the bytes on the line do not carry them.
-/

namespace Rdbus.Communication.Modbus

open Foundation
open Config.Modbus

/-- The request of the `number`-th write to the port. -/
structure Sent where
  number : Nat
  request : ModbusRequest
  deriving DecidableEq

structure Frame where
  sent : Sent
  reply : Reply
  deriving DecidableEq

def Library.rawFrame (mb : Library) (frame : Frame) : Bytes :=
  mb.withCRC
    (frame.reply.body frame.sent.request.slaveId frame.sent.request.functionCode)

structure Line where
  output : List Sent := []
  pending : List Sent := []
  inFlight : List Frame := []
  input : List Frame := []
  deriving DecidableEq

inductive LineEvent where
  | transmit
  | answer (i : Nat) (reply : Reply)
  | ignore (i : Nat)
  | lose (i : Nat)
  | deliver (i : Nat)
  deriving DecidableEq

namespace Line

/-- `Connection::sendData`: `tcflush( fd, TCOFLUSH )` and `write`. -/
def sendData (line : Line) (sent : Sent) : Line :=
  { line with output := [sent] }

def step (line : Line) : LineEvent → Option Line
  | .transmit =>
      some { line with output := [], pending := line.pending ++ line.output }
  | .answer i reply => do
      let sent ← line.pending[i]?
      return { line with
        pending := line.pending.eraseIdx i
        inFlight := line.inFlight ++ [⟨sent, reply⟩] }
  | .ignore i => some { line with pending := line.pending.eraseIdx i }
  | .lose i => some { line with inFlight := line.inFlight.eraseIdx i }
  | .deliver i => do
      let frame ← line.inFlight[i]?
      return { line with
        inFlight := line.inFlight.eraseIdx i
        input := line.input ++ [frame] }

/-- The requests whose reply may still be read. -/
def outstanding (line : Line) : List Sent :=
  line.output ++ line.pending ++ line.inFlight.map Frame.sent ++
    line.input.map Frame.sent

end Line

/-! ## Polling over the line -/

/-- One `adapter.send`; the timestamp is the clock read after a response. -/
structure Exchange where
  sent : Sent
  registers : List Register
  taken : List Frame
  outcome : Except Throw ModbusResponse
  timestamp : Timestamp

def Exchange.description (exchange : Exchange) : RequestDescription :=
  ⟨exchange.sent.request, exchange.registers⟩

/-- `Communicator::request` waiting in `getData`. -/
structure Poll where
  slave : Slave
  sent : Sent
  registers : List Register
  rest : List RequestDescription
  fields : List Data.Field
  exchanges : List Exchange

structure Returned where
  slave : Slave
  exchanges : List Exchange
  data : Data

structure State where
  line : Line := {}
  count : Nat := 0
  poll : Option Poll := none
  returned : List Returned := []

inductive Event where
  | line (event : LineEvent)
  | request (slave : Slave)
  | response (timestamp : Timestamp)
  | timeout
  | failure (what : Bytes) (read : Nat)

/-- `Communicator::request` returns; an exception it does not catch ends the run. -/
def finish (state : State) (slave : Slave) (exchanges : List Exchange)
    (outcome : Except Throw (List Data.Field)) : Option State :=
  match caught slave.name outcome with
  | .ok data => some { state with
      poll := none
      returned := state.returned ++ [⟨slave, exchanges, data⟩] }
  | .error _ => none

/-- The loop head: the next description, or the end of the loop. -/
def advance (state : State) (slave : Slave) (exchanges : List Exchange)
    (fields : List Data.Field) : List RequestDescription → Option State
  | [] => finish state slave exchanges (.ok fields)
  | description :: rest =>
      let sent : Sent := ⟨state.count, description.request⟩
      some { state with
        line := state.line.sendData sent
        count := state.count + 1
        poll := some
          { slave, sent, registers := description.registers, rest, fields, exchanges } }

/-- The loop body after `getData`. -/
def conclude (state : State) (poll : Poll) (taken : List Frame)
    (outcome : Except Throw ModbusResponse) (timestamp : Timestamp) : Option State :=
  let exchange : Exchange := ⟨poll.sent, poll.registers, taken, outcome, timestamp⟩
  match outcome >>= fun response => parse response poll.registers timestamp with
  | .ok parsed => advance state poll.slave (poll.exchanges ++ [exchange])
      (poll.fields ++ parsed) poll.rest
  | .error e => finish state poll.slave (poll.exchanges ++ [exchange]) (.error e)

/-- The buffer of `getData`; reading more runs over its end. -/
def maxSize : Nat := 2048

def Library.take (mb : Library) (taken : List Frame) : Except Throw ModbusResponse :=
  let rawed := taken.flatMap mb.rawFrame
  if rawed.length ≤ maxSize then mb.response rawed
  else .error .undefinedBehaviour

def step (mb : Library) (pastEnd : Int) (state : State) : Event → Option State
  | .line event => do
      let line ← state.line.step event
      return { state with line }
  | .request slave =>
      match state.poll, requestPlan (.ok pastEnd) slave with
      | none, .ok plan => advance state slave [] [] plan
      | _, _ => none
  | .response timestamp =>
      match state.poll, state.line.input with
      | some poll, frame :: frames =>
          conclude { state with line := { state.line with input := [] } } poll
            (frame :: frames) (mb.take (frame :: frames)) timestamp
      | _, _ => none
  | .timeout =>
      match state.poll, state.line.input with
      | some poll, [] =>
          conclude state poll [] (.error (osTimeout (str "Device timeout!"))) 0
      | _, _ => none
  | .failure what read =>
      match state.poll with
      | some poll =>
          let input := state.line.input.drop read
          conclude { state with line := { state.line with input } } poll
            (state.line.input.take read) (.error (osException what)) 0
      | none => none

/--
What a step can do.  The three ways out of `getData` differ in what they read;
only the first gives a response, and it leaves nothing unread.
-/
theorem step_cases {mb : Library} {pastEnd : Int} {state next : State}
    {event : Event} (h : step mb pastEnd state event = some next) :
    (∃ lineEvent line, event = .line lineEvent ∧
      state.line.step lineEvent = some line ∧ next = { state with line }) ∨
    (∃ slave plan, event = .request slave ∧ state.poll = none ∧
      requestPlan (.ok pastEnd) slave = .ok plan ∧
      advance state slave [] [] plan = some next) ∨
    (∃ poll taken unread outcome timestamp, state.poll = some poll ∧
      state.line.input = taken ++ unread ∧
      (∀ response, outcome = .ok response →
        taken ≠ [] ∧ unread = [] ∧ mb.take taken = .ok response) ∧
      conclude { state with line := { state.line with input := unread } } poll taken
        outcome timestamp = some next) := by
  unfold step at h
  cases event with
  | line lineEvent =>
      cases hline : state.line.step lineEvent with
      | none => simp [hline] at h
      | some line =>
          simp only [hline] at h
          cases h
          exact .inl ⟨lineEvent, line, rfl, hline, rfl⟩
  | request slave =>
      cases hpoll : state.poll with
      | some poll => simp [hpoll] at h
      | none =>
          cases hplan : requestPlan (.ok pastEnd) slave with
          | error e => simp [hpoll, hplan] at h
          | ok plan =>
              simp only [hpoll, hplan] at h
              exact .inr (.inl ⟨slave, plan, rfl, rfl, hplan, h⟩)
  | response timestamp =>
      cases hpoll : state.poll with
      | none => simp [hpoll] at h
      | some poll =>
          cases hinput : state.line.input with
          | nil => simp [hpoll, hinput] at h
          | cons frame frames =>
              simp only [hpoll, hinput] at h
              refine .inr (.inr ⟨poll, _, [], _, _, rfl, by simp, ?_, h⟩)
              intro response hresponse
              exact ⟨by simp, rfl, hresponse⟩
  | timeout =>
      cases hpoll : state.poll with
      | none => simp [hpoll] at h
      | some poll =>
          cases hinput : state.line.input with
          | cons frame frames => simp [hpoll, hinput] at h
          | nil =>
              simp only [hpoll, hinput] at h
              have hsame :
                  { state with line := { state.line with input := [] } } = state := by
                rw [← hinput]
              rw [← hsame, hpoll] at h
              refine .inr (.inr ⟨poll, [], [], _, _, rfl, rfl, ?_, h⟩)
              rintro response ⟨⟩
  | failure what read =>
      cases hpoll : state.poll with
      | none => simp [hpoll] at h
      | some poll =>
          simp only [hpoll] at h
          refine .inr (.inr ⟨poll, _, _, _, _, rfl,
            (List.take_append_drop read state.line.input).symm, ?_, h⟩)
          rintro response ⟨⟩

/-! ## A returned reading is what `Communicator::request` computes -/

/-- `send` and `now` are the outside world that these exchanges met. -/
def Agrees (send : Nat → ModbusRequest → Except Throw ModbusResponse)
    (now : Nat → Timestamp) (exchanges : List Exchange) : Prop :=
  ∀ k exchange, exchanges[k]? = some exchange →
    send k exchange.sent.request = exchange.outcome ∧ now k = exchange.timestamp

theorem Agrees.of_append {send : Nat → ModbusRequest → Except Throw ModbusResponse}
    {now : Nat → Timestamp} {first second : List Exchange}
    (h : Agrees send now (first ++ second)) : Agrees send now first := by
  intro k exchange hk
  have hlt := (List.getElem?_eq_some_iff.mp hk).1
  exact h k exchange (by rw [List.getElem?_append_left hlt, hk])

theorem Agrees.last {send : Nat → ModbusRequest → Except Throw ModbusResponse}
    {now : Nat → Timestamp} {exchanges : List Exchange} {exchange : Exchange}
    (h : Agrees send now (exchanges ++ [exchange])) :
    send exchanges.length exchange.sent.request = exchange.outcome ∧
      now exchanges.length = exchange.timestamp :=
  h exchanges.length exchange (by simp)

/-- What the run so far says about `request`, whatever the world does later. -/
structure Computes (pastEnd : Int) (state : State) : Prop where
  poll : ∀ poll, state.poll = some poll → ∀ send now,
    Agrees send now poll.exchanges →
    request (.ok pastEnd) send now poll.slave = caught poll.slave.name
      (collect send now poll.exchanges.length poll.fields
        (⟨poll.sent.request, poll.registers⟩ :: poll.rest))
  returned : ∀ returned ∈ state.returned, ∀ send now,
    Agrees send now returned.exchanges →
    request (.ok pastEnd) send now returned.slave = .ok returned.data

theorem Computes.finish {pastEnd : Int} {state next : State} {slave : Slave}
    {exchanges : List Exchange} {outcome : Except Throw (List Data.Field)}
    (h : ∀ returned ∈ state.returned, ∀ send now,
      Agrees send now returned.exchanges →
      request (.ok pastEnd) send now returned.slave = .ok returned.data)
    (houtcome : ∀ send now, Agrees send now exchanges →
      request (.ok pastEnd) send now slave = caught slave.name outcome)
    (hnext : finish state slave exchanges outcome = some next) :
    Computes pastEnd next := by
  unfold Modbus.finish at hnext
  cases hcaught : caught slave.name outcome with
  | error e =>
      rw [hcaught] at hnext
      cases hnext
  | ok data =>
      rw [hcaught] at hnext
      cases hnext
      constructor
      · rintro poll ⟨⟩
      · intro returned hmem
        rcases List.mem_append.mp hmem with hmem | hmem
        · exact h returned hmem
        · rw [List.mem_singleton.mp hmem]
          intro send now hagrees
          rw [houtcome send now hagrees, hcaught]

theorem Computes.advance {pastEnd : Int} {state next : State} {slave : Slave}
    {exchanges : List Exchange} {fields : List Data.Field}
    {descriptions : List RequestDescription}
    (h : ∀ returned ∈ state.returned, ∀ send now,
      Agrees send now returned.exchanges →
      request (.ok pastEnd) send now returned.slave = .ok returned.data)
    (hrest : ∀ send now, Agrees send now exchanges →
      request (.ok pastEnd) send now slave = caught slave.name
        (collect send now exchanges.length fields descriptions))
    (hnext : advance state slave exchanges fields descriptions = some next) :
    Computes pastEnd next := by
  cases descriptions with
  | nil => exact Computes.finish h hrest hnext
  | cons description rest =>
      cases hnext
      constructor
      · rintro poll ⟨⟩
        exact hrest
      · exact h

theorem Computes.conclude {pastEnd : Int} {state next : State} {poll : Poll}
    {taken : List Frame} {outcome : Except Throw ModbusResponse}
    {timestamp : Timestamp}
    (h : ∀ returned ∈ state.returned, ∀ send now,
      Agrees send now returned.exchanges →
      request (.ok pastEnd) send now returned.slave = .ok returned.data)
    (hpoll : ∀ send now, Agrees send now poll.exchanges →
      request (.ok pastEnd) send now poll.slave = caught poll.slave.name
        (collect send now poll.exchanges.length poll.fields
          (⟨poll.sent.request, poll.registers⟩ :: poll.rest)))
    (hnext : conclude state poll taken outcome timestamp = some next) :
    Computes pastEnd next := by
  have hcollect : ∀ send now, Agrees send now (poll.exchanges ++
      [⟨poll.sent, poll.registers, taken, outcome, timestamp⟩]) →
      request (.ok pastEnd) send now poll.slave = caught poll.slave.name (do
        let parsed ← outcome >>= fun response =>
          parse response poll.registers timestamp
        collect send now (poll.exchanges.length + 1) (poll.fields ++ parsed)
          poll.rest) := by
    intro send now hagrees
    rcases hagrees.last with ⟨hsend, hnow⟩
    rw [hpoll send now hagrees.of_append, collect]
    simp only at hsend hnow ⊢
    rw [hsend, hnow, bind_assoc]
  unfold Modbus.conclude at hnext
  cases hparsed : outcome >>= fun response => parse response poll.registers timestamp with
  | error e =>
      rw [hparsed] at hnext hcollect
      exact Computes.finish h hcollect hnext
  | ok parsed =>
      rw [hparsed] at hnext hcollect
      refine Computes.advance h ?_ hnext
      intro send now hagrees
      rw [hcollect send now hagrees, List.length_append]
      rfl

theorem Computes.step {mb : Library} {pastEnd : Int} {state next : State}
    {event : Event} (h : Computes pastEnd state)
    (hnext : step mb pastEnd state event = some next) : Computes pastEnd next := by
  rcases step_cases hnext with ⟨lineEvent, line, -, -, rfl⟩ |
    ⟨slave, plan, -, -, hplan, hadvance⟩ |
    ⟨poll, taken, unread, outcome, timestamp, hpoll, -, -, hconclude⟩
  · exact ⟨h.poll, h.returned⟩
  · refine Computes.advance h.returned ?_ hadvance
    intro send now _
    unfold request
    rw [hplan]
    rfl
  · refine Computes.conclude ?_ (h.poll poll hpoll) hconclude
    exact h.returned

/--
Every reading a run returns is the one `Communicator::request` computes from
the outcomes of its exchanges.
-/
theorem returned_eq_request {mb : Library} {pastEnd : Int} {events : List Event}
    {state : State} (hrun : run (step mb pastEnd) {} events = some state)
    {returned : Returned} (hmem : returned ∈ state.returned)
    {send : Nat → ModbusRequest → Except Throw ModbusResponse}
    {now : Nat → Timestamp} (hagrees : Agrees send now returned.exchanges) :
    request (.ok pastEnd) send now returned.slave = .ok returned.data := by
  have hcomputes : Computes pastEnd state := by
    refine run_invariant _ (fun _ h => Computes.step h) alongRun_true ?_ hrun
    exact ⟨by simp, by simp⟩
  exact hcomputes.returned returned hmem send now hagrees

end Rdbus.Communication.Modbus
