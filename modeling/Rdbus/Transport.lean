import Rdbus.Communication.Connection
import Rdbus.Communication.Modbus.Adapter
import Rdbus.Communication.Termios
import Rdbus.WholeReadings

/-!
# Transactions over the operating system

The three ways in which a task talks to its device, down to the system calls of
the serial port and to the calls of the two libraries.  What the system answers
may depend on all that was sent before.
-/

namespace Rdbus

open Foundation

namespace Communication

/-- A `getData` that comes back. -/
structure Receiving where
  os : OS
  fuel : Nat
  returns : (Connection.getData os fuel).isSome

def Receiving.getData (receiving : Receiving) : Except Throw Bytes :=
  (Connection.getData receiving.os receiving.fuel).get receiving.returns

structure Transaction where
  tcflush : Except Bytes Unit
  /-- The number of bytes that were taken, which nobody looks at. -/
  write : Except Bytes Nat
  receiving : Receiving

/-- `Connection::sendData`. -/
def Transaction.sendData (transaction : Transaction) : Except Throw Unit := do
  Connection.extended (str "tcflush") transaction.tcflush
  let _ ← Connection.extended (str "write") transaction.write
  .ok ()

/-- `Adapter::send`. -/
def Modbus.Adapter.send (mb : Modbus.Library) (transaction : Transaction) :
    Except Throw Modbus.ModbusResponse := do
  transaction.sendData
  let rawed ← transaction.receiving.getData
  mb.response rawed

namespace EIP

def exception (what : Bytes) : Throw := .eip (str "EIP exception - " ++ what)

/-- One request: the session, and the general status with the data. -/
structure Exchange where
  session : Except Bytes Unit
  sendRequest : Except Bytes (UInt8 × Bytes)

/-- `Buffer >> CipInt` is a parameter.  The exception for a status goes through the `catch`
clause as well and gets the prefix twice. -/
def getSingle (readInt : Bytes → Except Bytes Int16) (exchange : Exchange) :
    Except Throw Int16 :=
  match exchange.session with
  | .error what => .error (.std what)
  | .ok () =>
      match exchange.sendRequest with
      | .error what => .error (exception what)
      | .ok (status, data) =>
          if status = 0 then (readInt data).mapError exception
          else
            let thrown := exception (str "Response error code - " ++ str (toString status.toNat))
            .error (exception thrown.what)

end EIP

end Communication

open Communication

/-- Everything that one run of a task meets. -/
structure Stack where
  steadyNow : Int
  now : Nat → Timestamp
  pastEnd : Int
  outOfRange : Nat → UInt8
  transaction : Nat → Modbus.ModbusRequest → Transaction
  listened : Receiving
  exchange : Nat → Int → EIP.Exchange

def Stack.outside (mb : Modbus.Library) (readInt : Bytes → Except Bytes Int16)
    (stack : Stack) : Outside where
  steadyNow := stack.steadyNow
  now := stack.now
  pastEnd := stack.pastEnd
  send k request := Modbus.Adapter.send mb (stack.transaction k request)
  getData := stack.listened.getData
  outOfRange := stack.outOfRange
  getSingle k id := EIP.getSingle readInt (stack.exchange k id)

/-! ## Receiving -/

namespace Communication

/-- No read stores bytes behind the end of the vector. -/
def Receiving.Within (receiving : Receiving) : Prop :=
  ∀ k s bytes, Connection.reached receiving.os k = some s →
    receiving.os.read k Connection.maxSize = .ok bytes →
    s.size + bytes.length ≤ Connection.maxSize

namespace Connection

theorem pass_of_overrun {os : OS} {k : Nat} {s : Reading} {bytes : Bytes}
    (hs : reached os k = some s) (hread : os.read k maxSize = .ok bytes)
    (hover : maxSize < s.size + bytes.length) : pass os k s = .error .undefinedBehaviour := by
  have hlength := (reached_holds hs).length
  have hstore : store s.data s.size bytes = .error .undefinedBehaviour := by
    rw [store, if_neg (by omega)]
  rw [pass, extendedRead_eq_ok.mpr hread, ok_bind, hstore, error_bind]

end Connection

open Connection

theorem Receiving.getData_eq {receiving : Receiving} {outcome : Except Throw Bytes} :
    receiving.getData = outcome ↔
      Connection.getData receiving.os receiving.fuel = some outcome := by
  constructor
  · rintro rfl
    exact (Option.some_get _).symm
  · exact Option.get_of_eq_some _

/-- A pass that overruns is the last one. -/
theorem Receiving.undefined_of_overrun {receiving : Receiving} {k : Nat} {s : Reading}
    (hs : reached receiving.os k = some s)
    (hpass : pass receiving.os k s = .error .undefinedBehaviour) :
    receiving.getData = .error .undefinedBehaviour := by
  obtain ⟨⟨status, hpoll⟩, hentered⟩ := reached_eq_some.mp hs
  have hleft : doWhile (pass receiving.os) (k + 1) 0 {} = some (.error .undefinedBehaviour) :=
    doWhile_of_left hentered hpass
  have hreturns := receiving.returns
  rw [getData_eq]
  simp only [Connection.getData, extendedPoll_eq_ok.mpr hpoll, readAll, Option.isSome_map,
    Option.isSome_iff_exists] at hreturns ⊢
  obtain ⟨outcome, houtcome⟩ := hreturns
  rw [houtcome, doWhile_unique houtcome hleft]
  rfl

theorem Receiving.undefined_iff {receiving : Receiving} :
    receiving.getData = .error .undefinedBehaviour ↔ ¬receiving.Within := by
  constructor
  case mp =>
    intro h hwithin
    rcases getData_cases (getData_eq.mp h) with ⟨_, _, h⟩ | ⟨_, h⟩ |
      ⟨k, s, hs, ⟨e, hpass, he⟩ | ⟨_, _, h⟩⟩
    · cases h
    · cases h
    · cases he
      obtain ⟨bytes, hread, hover⟩ := pass_undefined hpass
      have hfits := hwithin k s bytes hs hread
      rw [(reached_holds hs).length] at hover
      omega
    · cases h
  case mpr =>
    intro h
    simp only [Receiving.Within, not_forall, not_le] at h
    obtain ⟨k, s, bytes, hs, hread, hover⟩ := h
    exact undefined_of_overrun hs (pass_of_overrun hs hread hover)

/-- Whatever fails inside a pass is an exception of the system. -/
theorem pass_eq_error {os : OS} {k : Nat} {s : Reading} {e : Throw}
    (h : pass os k s = .error e) : e = .undefinedBehaviour ∨ ∃ what, e = .os what := by
  simp only [Connection.pass, bind_eq_error] at h
  rcases h with hread | ⟨bytes, -, hstore | ⟨data, -, hpoll | ⟨status, -, h⟩⟩⟩
  · obtain ⟨error, rfl⟩ := of_mapError_eq_error hread
    exact .inr ⟨_, rfl⟩
  · rw [store] at hstore
    split at hstore <;> cases hstore
    exact .inl rfl
  · obtain ⟨error, rfl⟩ := of_mapError_eq_error hpoll
    exact .inr ⟨_, rfl⟩
  · cases h

theorem Receiving.getData_eq_error {receiving : Receiving} {e : Throw}
    (h : receiving.getData = .error e) :
    e = .undefinedBehaviour ∨ (∃ what, e = .os what) ∨ ∃ what, e = .timeout what := by
  rcases getData_cases (getData_eq.mp h) with ⟨error, _, h⟩ | ⟨_, h⟩ |
    ⟨k, s, hs, ⟨thrown, hpass, h⟩ | ⟨_, _, h⟩⟩
  · cases h
    exact .inr (.inl ⟨_, rfl⟩)
  · cases h
    exact .inr (.inr ⟨_, rfl⟩)
  · cases h
    exact (pass_eq_error hpass).imp_right .inl
  · cases h

theorem Receiving.delivers_iff {receiving : Receiving} :
    Nmea.Delivers receiving.getData ↔ receiving.Within := by
  rw [← not_iff_not, ← undefined_iff]
  constructor
  case mp =>
    intro h
    cases hget : receiving.getData with
    | ok rawed => exact absurd (.inl ⟨rawed, hget⟩) h
    | error e =>
        rcases getData_eq_error hget with rfl | ⟨what, rfl⟩ | ⟨what, rfl⟩
        · rfl
        · exact absurd (.inr ⟨what, .inr hget⟩) h
        · exact absurd (.inr ⟨what, .inl hget⟩) h
  case mpr =>
    intro h
    rw [h]
    rintro (⟨_, h⟩ | ⟨_, h | h⟩) <;> cases h

/-! ## Transactions -/

namespace Modbus

/-- All exceptions of the library are its own. -/
def Library.Reports (mb : Library) : Prop :=
  ∀ rawed e, mb.fromRawCRC rawed = .error e → ∃ what, e = .modbus what

theorem Library.response_eq_ok {mb : Library} {rawed : Bytes} {response : ModbusResponse} :
    mb.response rawed = .ok response ↔ mb.fromRawCRC rawed = .ok response := by
  rw [Library.response]
  split
  case h_1 h => simp [h]
  case h_2 => rfl

theorem Library.Reports.response_eq_error {mb : Library} (h : mb.Reports) {rawed : Bytes}
    {e : Throw} (hresponse : mb.response rawed = .error e) : ∃ what, e = .modbus what := by
  rw [Library.response] at hresponse
  split at hresponse
  case h_1 =>
    cases hresponse
    exact ⟨_, rfl⟩
  case h_2 => exact h rawed e hresponse

end Modbus

/-- The vector is not overrun, and a reply the library takes has as many words as were asked
for. -/
structure Transaction.Fits (mb : Modbus.Library) (transaction : Transaction)
    (request : Modbus.ModbusRequest) : Prop where
  within : transaction.receiving.Within
  counted : ∀ rawed response, transaction.receiving.getData = .ok rawed →
    mb.fromRawCRC rawed = .ok response →
    response.registerValues.length = request.registersNumber.toNat

theorem Transaction.sendData_eq_error {transaction : Transaction} {e : Throw}
    (h : transaction.sendData = .error e) : ∃ what, e = .os what := by
  simp only [sendData, bind_eq_error] at h
  rcases h with hflush | ⟨_, -, hwrite | ⟨_, -, h⟩⟩
  · obtain ⟨error, rfl⟩ := of_mapError_eq_error hflush
    exact ⟨_, rfl⟩
  · obtain ⟨error, rfl⟩ := of_mapError_eq_error hwrite
    exact ⟨_, rfl⟩
  · cases h

theorem Transaction.answers_iff {mb : Modbus.Library} (hmb : mb.Reports)
    {transaction : Transaction} {request : Modbus.ModbusRequest} :
    ((∃ response, Modbus.Adapter.send mb transaction = .ok response ∧
        response.registerValues.length = request.registersNumber.toNat) ∨
      ∃ e, Modbus.Adapter.send mb transaction = .error e ∧ Modbus.Reported e) ↔
    (transaction.sendData = .ok () → transaction.Fits mb request) := by
  cases hsent : transaction.sendData with
  | error e =>
      obtain ⟨what, rfl⟩ := sendData_eq_error hsent
      have hsend : Modbus.Adapter.send mb transaction = .error (.os what) := by
        rw [Modbus.Adapter.send, hsent, error_bind]
      simp [hsend, Modbus.Reported.os]
  | ok _ =>
      have hsend : Modbus.Adapter.send mb transaction =
          transaction.receiving.getData >>= mb.response := by
        rw [Modbus.Adapter.send, hsent, ok_bind]
      rw [hsend, imp_iff_right rfl]
      constructor
      case mp =>
        intro h
        constructor
        case within =>
          by_contra hover
          rw [Receiving.undefined_iff.mpr hover, error_bind] at h
          rcases h with ⟨_, h, -⟩ | ⟨_, h, hreported⟩
          · cases h
          · cases h
            cases hreported
        case counted =>
          intro rawed response hget hresponse
          rw [hget, ok_bind, Modbus.Library.response_eq_ok.mpr hresponse] at h
          rcases h with ⟨_, h, hlength⟩ | ⟨_, h, -⟩
          · cases h
            exact hlength
          · cases h
      case mpr =>
        intro hfits
        cases hget : transaction.receiving.getData with
        | error e =>
            rcases Receiving.getData_eq_error hget with rfl | ⟨what, rfl⟩ | ⟨what, rfl⟩
            · exact absurd hfits.within (Receiving.undefined_iff.mp hget)
            · exact .inr ⟨_, rfl, .os what⟩
            · exact .inr ⟨_, rfl, .timeout what⟩
        | ok rawed =>
            rw [ok_bind]
            cases hresponse : mb.response rawed with
            | ok response =>
                have hlibrary := Modbus.Library.response_eq_ok.mp hresponse
                exact .inl ⟨response, rfl, hfits.counted rawed response hget hlibrary⟩
            | error e =>
                obtain ⟨what, rfl⟩ := hmb.response_eq_error hresponse
                exact .inr ⟨_, rfl, .modbus what⟩

/-- Every failure below is an exception of `EIP` or of the session. -/
theorem EIP.returns (readInt : Bytes → Except Bytes Int16) (exchange : Nat → Int → Exchange) :
    Wago.Returns fun k id => getSingle readInt (exchange k id) := by
  intro k id e h
  dsimp only at h
  rw [getSingle] at h
  split at h
  case h_1 =>
    cases h
    simp
  case h_2 =>
    split at h
    case h_1 =>
      cases h
      simp [exception]
    case h_2 =>
      split at h
      case isTrue =>
        obtain ⟨what, rfl⟩ := of_mapError_eq_error h
        simp [exception]
      case isFalse =>
        cases h
        simp [exception]

end Communication

/-- What the program relies on in everything that one run of a task meets. -/
structure Stack.Fits (mb : Modbus.Library) (stack : Stack) : Prop where
  listened : stack.listened.Within
  transactions : ∀ k request, (stack.transaction k request).sendData = .ok () →
    (stack.transaction k request).Fits mb request

namespace Communication

theorem Modbus.Rtu.reports : library.Reports := by
  intro rawed e h
  simp only [library] at h
  split at h
  case isTrue =>
    unfold readReply at h
    split at h
    case h_1 =>
      split at h
      case h_1 =>
        cases h
        exact ⟨_, rfl⟩
      case h_2 =>
        split at h <;> cases h
        exact ⟨_, rfl⟩
    case h_2 =>
      cases h
      exact ⟨_, rfl⟩
  case isFalse =>
    cases h
    exact ⟨_, rfl⟩

/-- A device that does not answer. -/
def Receiving.silent : Receiving where
  os := { poll := fun _ => .ok 0, read := fun _ _ => .ok [] }
  fuel := 1
  returns := rfl

end Communication

/-- Nobody answers, and the gateway does not know the instances. -/
def Stack.silent : Stack where
  steadyNow := 0
  now _ := 0
  pastEnd := 0
  outOfRange _ := 0
  transaction _ _ := ⟨.ok (), .ok 8, .silent⟩
  listened := .silent
  exchange _ _ := ⟨.ok (), .ok (5, [])⟩

def firstWord : Bytes → Except Bytes Int16
  | low :: high :: _ => .ok (high.toUInt16 <<< 8 ||| low.toUInt16).toInt16
  | _ => .error (str "Not enough data")

end Rdbus
