import Rdbus.Config.Wago
import Rdbus.Data

/-!
# The Wago communicator

One request for every instance of a module, by its instance id.  The Ethernet/IP
library is outside: `getSingle k id` is how the `k`-th `EIP` of this poll ends.
-/

namespace Rdbus.Communication.Wago

open Config.Wago

/-- The sign bit stays, the four diagnostic bits go. -/
def extractAnalog (value : Int16) : Int16 :=
  let sign := value &&& 0x8000
  let value := value &&& ~~~0x8000
  let value := value >>> 4
  value ||| sign

/-- Computed in `int`, with a division that rounds towards zero. -/
def map (x inMin inMax outMin outMax : Int16) : Int16 :=
  Int16.ofInt (((x.toInt - inMin.toInt) * (outMax.toInt - outMin.toInt)).tdiv
    (inMax.toInt - inMin.toInt) + outMin.toInt)

def minAnalogValue : Int16 := 0

/-- Max value of 11 bit integer. -/
def maxAnalogValue : Int16 := 0x7ff

/-- `offset++` of an `int`. -/
def increment (offset : Int) : Except Throw Int :=
  if offset + 1 < 2 ^ 31 then .ok (offset + 1) else .error .undefinedBehaviour

/-- The loop of the `try` block. -/
def collect (getSingle : Nat → Int → Except Throw Int16) (now : Nat → Timestamp) :
    Nat → Int → List Data.Field → List Instance → Except Throw (List Data.Field)
  | _, _, fields, [] => .ok fields
  | k, offset, fields, it :: rest => do
      let next ← increment offset
      let raw ← getSingle k offset
      let value := map (extractAnalog raw) minAnalogValue maxAnalogValue it.min it.max
      collect getSingle now (k + 1) next
        (fields ++ [{ name := it.name, value := some (.int16 value), timestamp := now k }]) rest

/-- The two `catch` clauses do the same. -/
def caught (deviceName : Bytes) (outcome : Except Throw (List Data.Field)) :
    Except Throw Data :=
  match outcome with
  | .ok fields => .ok { deviceName, fields }
  | .error .undefinedBehaviour => .error .undefinedBehaviour
  | .error e => .ok { deviceName, error := some ⟨.os, e.what⟩ }

/-- `Communicator::request`. -/
def request (getSingle : Nat → Int → Except Throw Int16) (now : Nat → Timestamp)
    (module : Module) : Except Throw Data :=
  let offset := module.offset.toInt32.toInt
  caught module.name (collect getSingle now 0 offset [] module.instances)

end Rdbus.Communication.Wago
