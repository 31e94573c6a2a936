import Rdbus.Communication.Modbus.RequestPlanner

/-!
# The Modbus communicator

`Communicator::request` sends the planned requests one after the other.  The
outside world is a function of the number of the transaction: `send k` is how
the `k`-th `adapter.send` of this poll ends and `now k` the clock read after it.
-/

namespace Rdbus.Communication.Modbus

open Config.Modbus

/-- The body of the `try` block. -/
def collect (send : Nat → ModbusRequest → Except Throw ModbusResponse)
    (now : Nat → Timestamp) :
    Nat → List Data.Field → List RequestDescription → Except Throw (List Data.Field)
  | _, fields, [] => .ok fields
  | k, fields, description :: rest => do
      let response ← send k description.request
      let parsed ← parse response description.registers (now k)
      collect send now (k + 1) (fields ++ parsed) rest

/-- The `catch` clauses; anything else leaves the function. -/
def caught (deviceName : Bytes) (outcome : Except Throw (List Data.Field)) :
    Except Throw Data :=
  match outcome with
  | .ok fields => .ok { deviceName, fields }
  | .error (.modbus what) | .error (.interpreter what) =>
      .ok { deviceName, error := some ⟨.modbus, what⟩ }
  | .error (.os what) | .error (.timeout what) =>
      .ok { deviceName, error := some ⟨.os, what⟩ }
  | .error e => .error e

/-- `Communicator::request`. -/
def request (pastEnd : Except Throw Int)
    (send : Nat → ModbusRequest → Except Throw ModbusResponse)
    (now : Nat → Timestamp) (slave : Slave) : Except Throw Data := do
  let requestDescriptions ← requestPlan pastEnd slave
  caught slave.name (collect send now 0 [] requestDescriptions)

end Rdbus.Communication.Modbus
