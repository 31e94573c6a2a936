import Rdbus.Config.Utility
import Rdbus.Data
import Rdbus.Foundation.MinMax
import Std.Data.TreeMap.Lemmas

/-!
# The limits processor

`Processor` keeps, for every configured device and every field name it has
seen, the values that may still count.  Its methods run on that map and can
throw: `map::at` by an exception the loop of `process` catches, an overflow of
the 64-bit nanosecond counts or an empty field list by undefined behaviour.
-/

namespace Rdbus.Processing.Limits

open Foundation

abbrev TimestampedValue := Timestamp × Variant

abbrev FieldsMap := Std.TreeMap Bytes (List TimestampedValue)

/-- The member `data`. -/
abbrev Store := Std.TreeMap Bytes FieldsMap

abbrev Action := EStateM Throw Store

structure FieldLimit where
  name : Bytes
  min : Option Variant := none
  max : Option Variant := none
  deriving DecidableEq, Repr

structure Data where
  deviceName : Bytes
  instanceLimits : List FieldLimit := []
  deriving DecidableEq, Repr

/-- The texts of `to_json`; the key `max` comes before `min`. -/
def Data.texts (data : Data) : List Bytes :=
  data.deviceName :: data.instanceLimits.flatMap fun limit =>
    Variant.texts limit.max ++ Variant.texts limit.min ++ [limit.name]

/-- The constructor. -/
def initial (limits : Config.Processors.Limits) : Store :=
  limits.devices.foldl (fun data deviceName => data.insertIfNew deviceName ∅) ∅

/-- `data.at( device )`. -/
def atDevice (device : Bytes) : Action FieldsMap := do
  match (← get)[device]? with
  | some fieldsMap => pure fieldsMap
  | none => throw (.std (str "map::at"))

def nanoseconds (minutes : Int) : Int := minutes * 60000000000

def fits (count : Int) : Bool := -2 ^ 63 ≤ count && count < 2 ^ 63

/-- `tv.first + duration` stays within the nanosecond counts. -/
def representable (duration : Int) (tv : TimestampedValue) : Bool :=
  fits (nanoseconds duration) && fits (tv.1 + nanoseconds duration)

/-- The predicate of `remove_if`. -/
def isOld (duration : Int) (currentTime : Timestamp) (tv : TimestampedValue) : Bool :=
  tv.1 + nanoseconds duration < currentTime

def getLatestTime (input : Rdbus.Data) : Action Timestamp :=
  match input.fields with
  | [] => throw .undefinedBehaviour
  | field :: _ => pure field.timestamp

/-- `remove_if` evaluates the sum for every value that is stored. -/
def removeOldValues (duration : Int) (device : Bytes) (currentTime : Timestamp) :
    Action Unit := do
  let fieldsMap ← atDevice device
  if fieldsMap.toList.all fun entry => entry.2.all (representable duration) then
    modify fun data => data.modify device fun fieldsMap => fieldsMap.map fun _ values =>
      values.filter fun tv => !isOld duration currentTime tv
  else throw .undefinedBehaviour

def addMissingFields (device : Bytes) : List Data.Field → Action Unit
  | [] => pure ()
  | field :: fields => do
      let _ ← atDevice device
      modify fun data => data.modify device fun fieldsMap =>
        fieldsMap.insertIfNew field.name []
      addMissingFields device fields

def insertNewValues (device : Bytes) : List Data.Field → Action Unit
  | [] => pure ()
  | field :: fields => do
      match field.value with
      | none => pure ()
      | some value =>
          let fieldsMap ← atDevice device
          match fieldsMap[field.name]? with
          | none => throw (.std (str "map::at"))
          | some _ => modify fun data => data.modify device fun fieldsMap =>
              fieldsMap.modify field.name (· ++ [(field.timestamp, value)])
      insertNewValues device fields

/-- One iteration of `generateOutput`. -/
def fieldLimit (name : Bytes) (values : List TimestampedValue) : FieldLimit :=
  match minmaxElement (fun left right => Variant.lt left.2 right.2) values with
  | none => { name }
  | some (min, max) => { name, min := some min.2, max := some max.2 }

def generateOutput (device : Bytes) : Action Data := do
  let fieldsMap ← atDevice device
  pure ⟨device, fieldsMap.toList.map fun entry => fieldLimit entry.1 entry.2⟩

/-- The body of the `try` block, for one input. -/
def processReading (duration : Int) (input : Rdbus.Data) : Action Data := do
  let currentTime ← getLatestTime input
  removeOldValues duration input.deviceName currentTime
  addMissingFields input.deviceName input.fields
  insertNewValues input.deviceName input.fields
  generateOutput input.deviceName

/-- The `catch` clause: an exception clears the list and ends the loop. -/
def caught (e : Throw) (store : Store) : EStateM.Result Throw Store (List Data) :=
  if e = .undefinedBehaviour then .error e store else .ok [] store

/-- The loop of `process`. -/
def processFrom (duration : Int) (outputList : List Data) (inputList : List Rdbus.Data)
    (store : Store) : EStateM.Result Throw Store (List Data) :=
  match inputList with
  | [] => .ok outputList store
  | input :: inputList =>
      if input.error.isSome then processFrom duration outputList inputList store
      else if store[input.deviceName]?.isNone then
        processFrom duration outputList inputList store
      else
        match processReading duration input store with
        | .ok output store => processFrom duration (outputList ++ [output]) inputList store
        | .error e store => caught e store

/-- `Processor::process`. -/
def process (duration : Int) (inputList : List Rdbus.Data) : Action (List Data) :=
  processFrom duration [] inputList

end Rdbus.Processing.Limits
