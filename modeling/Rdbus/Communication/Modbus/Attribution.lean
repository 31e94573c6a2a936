import Rdbus.Communication.Modbus.SerialLine

/-!
# Which reply a reading comes from

A reply that outlives its request stays on the line, and the next transaction
takes it for its own.  When every poll finds the line quiet, each field of an
error-free reading comes from the reply to the request it was asked for with.
-/

namespace Rdbus.Communication.Modbus

open Foundation
open Config.Modbus

/-- The exchange took the reply to its own request, and that reply says `parsed`. -/
def Decodes (exchange : Exchange) (parsed : List Data.Field) : Prop :=
  ∃ values, exchange.taken = [⟨exchange.sent, .registers values⟩] ∧
    parse ⟨exchange.sent.request.slaveId.toNat, exchange.sent.request.functionCode,
      values.val⟩ exchange.registers exchange.timestamp = .ok parsed

/-- Every field was decoded from the reply to the request of the plan that asks for it. -/
def Attributed (pastEnd : Int) (returned : Returned) : Prop :=
  ∃ parsed, requestPlan (.ok pastEnd) returned.slave =
      .ok (returned.exchanges.map Exchange.description) ∧
    List.Forall₂ Decodes returned.exchanges parsed ∧
    returned.data.fields = parsed.flatten

/-- No reply to an earlier request can still arrive when a slave is polled. -/
def Quiet (state : State) : Event → Prop
  | .request _ => state.line.outstanding = []
  | _ => True

instance (state : State) (event : Event) : Decidable (Quiet state event) := by
  unfold Quiet
  cases event <;> infer_instance

/-! ## The line -/

/-- An element moves from one list to the end of the next. -/
private theorem perm_move {α : Type} {xs : List α} {i : Nat} {x : α}
    (h : xs[i]? = some x) (ys : List α) :
    (xs.eraseIdx i ++ (ys ++ [x])).Perm (xs ++ ys) := by
  rcases List.getElem?_eq_some_iff.mp h with ⟨hlt, rfl⟩
  have hends : (xs.eraseIdx i ++ (ys ++ [xs[i]])).Perm (xs[i] :: xs.eraseIdx i ++ ys) := by
    rw [← List.append_assoc]
    exact List.perm_append_singleton _ _
  exact hends.trans ((List.getElem_cons_eraseIdx_perm hlt).append_right ys)

/-- The line by itself never makes a request outstanding. -/
theorem Line.outstanding_step {line next : Line} {event : LineEvent}
    (h : line.step event = some next) :
    next.outstanding.Subperm line.outstanding := by
  cases event with
  | transmit =>
      cases h
      refine List.Perm.subperm ?_
      simp only [outstanding, List.nil_append]
      refine List.Perm.append_right _ (List.Perm.append_right _ ?_)
      exact List.perm_append_comm
  | answer i reply =>
      cases hi : line.pending[i]? with
      | none => simp [Line.step, hi] at h
      | some sent =>
          simp only [Line.step, hi] at h
          cases h
          have hmoved := perm_move hi (line.inFlight.map Frame.sent)
          simpa [outstanding] using ((hmoved.append_left line.output).append_right
            (line.input.map Frame.sent)).subperm
  | ignore i =>
      cases h
      refine List.Sublist.subperm ?_
      simp only [outstanding]
      refine List.Sublist.append_right (List.Sublist.append_right ?_ _) _
      exact List.Sublist.append_left (List.eraseIdx_sublist _ _) _
  | lose i =>
      cases h
      refine List.Sublist.subperm ?_
      simp only [outstanding]
      refine List.Sublist.append_right (List.Sublist.append_left ?_ _) _
      exact (List.eraseIdx_sublist _ _).map _
  | deliver i =>
      cases hi : line.inFlight[i]? with
      | none => simp [Line.step, hi] at h
      | some frame =>
          simp only [Line.step, hi] at h
          cases h
          have hsent : (line.inFlight.map Frame.sent)[i]? = some frame.sent := by simp [hi]
          have hmoved := perm_move hsent (line.input.map Frame.sent)
          simpa [outstanding, List.eraseIdx_map] using
            (hmoved.append_left (line.output ++ line.pending)).subperm

/-! ## Polling a quiet line -/

/--
While a poll waits, its own request is the only one that can still be answered,
and the exchanges behind it are attributed.
-/
structure Orderly (pastEnd : Int) (state : State) : Prop where
  waiting : ∀ poll, state.poll = some poll →
    state.line.outstanding.Subperm [poll.sent]
  planned : ∀ poll, state.poll = some poll →
    requestPlan (.ok pastEnd) poll.slave =
      .ok (poll.exchanges.map Exchange.description ++
        ⟨poll.sent.request, poll.registers⟩ :: poll.rest)
  decoded : ∀ poll, state.poll = some poll →
    ∃ parsed, List.Forall₂ Decodes poll.exchanges parsed ∧
      poll.fields = parsed.flatten
  returned : ∀ returned ∈ state.returned, returned.data.error = none →
    Attributed pastEnd returned

theorem Orderly.finish_error {pastEnd : Int} {state next : State} {slave : Slave}
    {exchanges : List Exchange} {e : Throw}
    (h : ∀ returned ∈ state.returned, returned.data.error = none →
      Attributed pastEnd returned)
    (hnext : finish state slave exchanges (.error e) = some next) :
    Orderly pastEnd next := by
  have hreturned : ∀ data, caught slave.name (.error e) = .ok data →
      data.error ≠ none := by
    unfold caught
    cases e <;> rintro data ⟨⟩ <;> simp
  unfold finish at hnext
  cases hcaught : caught slave.name (.error e) with
  | error e' =>
      rw [hcaught] at hnext
      cases hnext
  | ok data =>
      rw [hcaught] at hnext
      cases hnext
      refine ⟨by simp, by simp, by simp, ?_⟩
      intro returned hmem hnone
      rcases List.mem_append.mp hmem with hmem | hmem
      · exact h returned hmem hnone
      · rw [List.mem_singleton.mp hmem] at hnone
        exact absurd hnone (hreturned data hcaught)

theorem Orderly.advance {pastEnd : Int} {state next : State} {slave : Slave}
    {exchanges : List Exchange} {fields : List Data.Field}
    {parsed : List (List Data.Field)} {descriptions : List RequestDescription}
    (h : ∀ returned ∈ state.returned, returned.data.error = none →
      Attributed pastEnd returned)
    (hquiet : state.line.outstanding = [])
    (hplan : requestPlan (.ok pastEnd) slave =
      .ok (exchanges.map Exchange.description ++ descriptions))
    (hdecoded : List.Forall₂ Decodes exchanges parsed)
    (hfields : fields = parsed.flatten)
    (hnext : advance state slave exchanges fields descriptions = some next) :
    Orderly pastEnd next := by
  cases descriptions with
  | nil =>
      cases hnext
      refine ⟨by simp, by simp, by simp, ?_⟩
      intro returned hmem hnone
      rcases List.mem_append.mp hmem with hmem | hmem
      · exact h returned hmem hnone
      · rw [List.mem_singleton.mp hmem]
        rw [List.append_nil] at hplan
        exact ⟨parsed, hplan, hdecoded, hfields⟩
  | cons description rest =>
      cases hnext
      refine ⟨?_, ?_, ?_, h⟩
      · rintro poll ⟨⟩
        simp only [Line.outstanding, List.append_eq_nil_iff] at hquiet
        simp [Line.outstanding, Line.sendData, hquiet]
      · rintro poll ⟨⟩
        exact hplan
      · rintro poll ⟨⟩
        exact ⟨parsed, hdecoded, hfields⟩

/-- Everything readable is at most the reply to the waiting request. -/
theorem Line.input_of_outstanding {line : Line} {sent : Sent}
    (h : line.outstanding.Subperm [sent]) (hinput : line.input ≠ []) :
    ∃ reply, line.input = [⟨sent, reply⟩] ∧
      { line with input := [] }.outstanding = [] := by
  have hlength := h.length_le
  simp only [outstanding, List.length_append, List.length_map,
    List.length_singleton] at hlength
  cases hframes : line.input with
  | nil => exact absurd hframes hinput
  | cons frame frames =>
      rw [hframes, List.length_cons] at hlength
      have hsent : frame.sent = sent := by
        have hmem : frame.sent ∈ line.outstanding := by
          simp [outstanding, hframes]
        simpa using h.subset hmem
      have hframesNil : frames = [] := List.eq_nil_of_length_eq_zero (by omega)
      have houtput : line.output = [] := List.eq_nil_of_length_eq_zero (by omega)
      have hpending : line.pending = [] := List.eq_nil_of_length_eq_zero (by omega)
      have hinFlight : line.inFlight = [] := List.eq_nil_of_length_eq_zero (by omega)
      refine ⟨frame.reply, ?_, ?_⟩
      · rw [hframesNil, ← hsent]
      · simp [outstanding, houtput, hpending, hinFlight]

theorem Library.Documented.take_reply {mb : Library} (h : mb.Documented)
    {sent : Sent} {reply : Reply} {response : ModbusResponse}
    (htake : mb.take [⟨sent, reply⟩] = .ok response) :
    ∃ values, reply = .registers values ∧
      response = ⟨sent.request.slaveId.toNat, sent.request.functionCode,
        values.val⟩ := by
  unfold Library.take at htake
  simp only [List.flatMap_cons, List.flatMap_nil, List.append_nil] at htake
  split at htake
  · exact h.eq_registers htake
  · cases htake

theorem Orderly.conclude {mb : Library} (hmb : mb.Documented) {pastEnd : Int}
    {state next : State} {poll : Poll} {taken unread : List Frame}
    {outcome : Except Throw ModbusResponse} {timestamp : Timestamp}
    (h : Orderly pastEnd state) (hpoll : state.poll = some poll)
    (hinput : state.line.input = taken ++ unread)
    (hresponse : ∀ response, outcome = .ok response →
      taken ≠ [] ∧ unread = [] ∧ mb.take taken = .ok response)
    (hnext : conclude { state with line := { state.line with input := unread } } poll
      taken outcome timestamp = some next) :
    Orderly pastEnd next := by
  unfold Modbus.conclude at hnext
  cases hparsed : outcome >>= fun response =>
      parse response poll.registers timestamp with
  | error e =>
      rw [hparsed] at hnext
      refine Orderly.finish_error ?_ hnext
      exact h.returned
  | ok fields =>
      rw [hparsed] at hnext
      rcases bind_eq_ok.mp hparsed with ⟨response, houtcome, hfields⟩
      rcases hresponse response houtcome with ⟨hne, rfl, htake⟩
      rw [List.append_nil] at hinput
      rcases Line.input_of_outstanding (h.waiting poll hpoll) (hinput ▸ hne) with
        ⟨reply, hreply, hquiet⟩
      have htaken : taken = [⟨poll.sent, reply⟩] := hinput.symm.trans hreply
      rw [htaken] at htake
      rcases hmb.take_reply htake with ⟨values, rfl, rfl⟩
      rcases h.decoded poll hpoll with ⟨parsed, hdecoded, hflatten⟩
      have happend : poll.fields ++ fields = (parsed ++ [fields]).flatten := by
        simp [hflatten]
      refine Orderly.advance ?_ hquiet ?_ ?_ happend hnext
      · exact h.returned
      · rw [h.planned poll hpoll]
        simp [Exchange.description]
      · exact List.rel_append hdecoded
          (List.Forall₂.cons ⟨values, htaken, hfields⟩ .nil)

theorem Orderly.step {mb : Library} (hmb : mb.Documented) {pastEnd : Int}
    {state next : State} {event : Event} (hquiet : Quiet state event)
    (h : Orderly pastEnd state) (hnext : step mb pastEnd state event = some next) :
    Orderly pastEnd next := by
  rcases step_cases hnext with ⟨lineEvent, line, -, hline, rfl⟩ |
    ⟨slave, plan, rfl, -, hplan, hadvance⟩ |
    ⟨poll, taken, unread, outcome, timestamp, hpoll, hinput, hresponse, hconclude⟩
  · refine ⟨?_, h.planned, h.decoded, h.returned⟩
    intro poll hpoll
    exact (Line.outstanding_step hline).trans (h.waiting poll hpoll)
  · exact Orderly.advance h.returned hquiet hplan .nil rfl hadvance
  · exact Orderly.conclude hmb h hpoll hinput hresponse hconclude

/--
In every run whose polls all find the line quiet, a reading without an error
was decoded, field by field, from the replies to its own requests.
-/
theorem attributed_of_quiet {mb : Library} (hmb : mb.Documented) (pastEnd : Int)
    (events : List Event)
    (hquiet : AlongRun (step mb pastEnd) Quiet {} events) {state : State}
    (hrun : run (step mb pastEnd) {} events = some state) :
    ∀ returned ∈ state.returned, returned.data.error = none →
      Attributed pastEnd returned := by
  have horderly : Orderly pastEnd state := by
    refine run_invariant _ (fun hquiet h => Orderly.step hmb hquiet h) hquiet ?_ hrun
    exact ⟨by simp, by simp, by simp, by simp⟩
  exact horderly.returned

/-! Two slaves with the same registers; the first one answers late. -/

def speed : Register := ⟨str "Speed", 10, [0, 1], .uint16⟩

def port : Slave := ⟨str "Port engine", 1, 1000, [], [speed]⟩

def starboard : Slave := ⟨str "Starboard engine", 2, 1000, [], [speed]⟩

def speedReply (value : UInt16) : Reply := .registers ⟨[value], by simp⟩

/-- Each slave answers in time. -/
def inTime : List Event :=
  [.request port, .line .transmit, .line (.answer 0 (speedReply 700)),
    .line (.deliver 0), .response 1, .request starboard, .line .transmit,
    .line (.answer 0 (speedReply 900)), .line (.deliver 0), .response 2]

theorem attributed_of_quiet_inTime :
    ∃ state, run (step Rtu.library 0) {} inTime = some state ∧
      state.returned.map (fun returned => returned.data.error) = [none, none] ∧
      ∀ returned ∈ state.returned, returned.data.error = none →
        Attributed 0 returned := by
  cases hrun : run (step Rtu.library 0) {} inTime with
  | none =>
      have : (run (step Rtu.library 0) {} inTime).isSome := by decide +kernel
      simp [hrun] at this
  | some state =>
      have hreturned : (run (step Rtu.library 0) {} inTime).map (fun state =>
          state.returned.map fun returned => returned.data.error) =
            some [none, none] := by decide +kernel
      rw [hrun] at hreturned
      refine ⟨state, rfl, by simpa using hreturned, ?_⟩
      exact attributed_of_quiet Rtu.documented 0 inTime (by decide +kernel) hrun

/-- The reply of the first slave arrives after its timeout. -/
def late : List Event :=
  [.request port, .line .transmit, .timeout, .line (.answer 0 (speedReply 700)),
    .line (.deliver 0), .request starboard, .response 1]

theorem Attributed.taken {pastEnd : Int} {returned : Returned}
    (h : Attributed pastEnd returned) {exchange : Exchange}
    (hmem : exchange ∈ returned.exchanges) :
    exchange.taken.map Frame.sent = [exchange.sent] := by
  rcases h with ⟨parsed, -, hdecodes, -⟩
  rcases List.mem_iff_getElem.mp hmem with ⟨k, hk, rfl⟩
  rcases hdecodes.get hk (hdecodes.length_eq ▸ hk) with ⟨values, htaken, -⟩
  simp only [List.get_eq_getElem] at htaken
  rw [htaken]
  rfl

/-- What the second poll of `late` reports, and which request it read the reply to. -/
def lateReport (returned : Returned) : Data × List (Nat × List Nat) :=
  (returned.data, returned.exchanges.map fun exchange =>
    (exchange.sent.number, exchange.taken.map fun frame => frame.sent.number))

/-- The second slave is reported with the value of the first. -/
theorem late_not_attributed :
    ∃ state returned, run (step Rtu.library 0) {} late = some state ∧
      returned ∈ state.returned ∧
      returned.data = { deviceName := str "Starboard engine", fields :=
        [{ name := str "Speed", value := some (.uint16 700), timestamp := 1 }] } ∧
      ¬ Attributed 0 returned := by
  have hreport : (run (step Rtu.library 0) {} late).map (fun state =>
      state.returned.map lateReport) = some
        [({ deviceName := str "Port engine", error := some ⟨.os,
            str "OS exception - Timeout - Device timeout!"⟩ }, [(0, [])]),
          ({ deviceName := str "Starboard engine", fields :=
            [{ name := str "Speed", value := some (.uint16 700), timestamp := 1 }] },
            [(1, [0])])] := by
    decide +kernel
  rcases Option.map_eq_some_iff.mp hreport with ⟨state, hrun, hstate⟩
  simp only [List.map_eq_cons_iff, lateReport, Prod.mk.injEq] at hstate
  rcases hstate with ⟨first, tail, hreturned, -, second, rest, rfl, ⟨hdata, exchange,
    more, hexchanges, ⟨hnumber, frame, frames, htaken, hframe, -⟩, -⟩, -⟩
  refine ⟨state, second, hrun, by simp [hreturned], hdata, ?_⟩
  intro hattributed
  have hmem : exchange ∈ second.exchanges := by
    simp [hexchanges]
  have hsent := hattributed.taken hmem
  rw [htaken, List.map_cons, List.cons.injEq] at hsent
  rw [hsent.1, hnumber] at hframe
  cases hframe

end Rdbus.Communication.Modbus
