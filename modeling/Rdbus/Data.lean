import Rdbus.Exception
import Rdbus.Foundation.Ieee

/-!
# Readings

`rdbus::Data` is one reading of one device: either an error or a list of named
fields.  The value of a field is a variant; a `float` or `double` is kept as
its bit pattern, because the program only moves and compares such values.
-/

namespace Rdbus

open Foundation

/-- `rdbus::Type`. -/
inductive DataType where
  | none
  | string
  | float
  | double
  | uint16
  | int16
  | uint32
  | int32
  | uint64
  | int64
  deriving DecidableEq, Repr

/-- The number behind the enumerator, as `static_cast< int >` gives it. -/
def DataType.toNat : DataType → Nat
  | .none => 0
  | .string => 1
  | .float => 2
  | .double => 3
  | .uint16 => 4
  | .int16 => 5
  | .uint32 => 6
  | .int32 => 7
  | .uint64 => 8
  | .int64 => 9

/-- `sizeof` of the type a numeric enumerator stands for. -/
def DataType.width : DataType → Nat
  | .none | .string => 0
  | .uint16 | .int16 => 2
  | .float | .uint32 | .int32 => 4
  | .double | .uint64 | .int64 => 8

/-- `rdbus::Data::Field::Variant`, the alternatives in the declared order. -/
inductive Variant where
  | string (value : Bytes)
  | float (bits : UInt32)
  | double (bits : UInt64)
  | uint64 (value : UInt64)
  | int64 (value : Int64)
  | uint32 (value : UInt32)
  | int32 (value : Int32)
  | uint16 (value : UInt16)
  | int16 (value : Int16)
  deriving DecidableEq, Repr

namespace Variant

/-- `std::variant::index`. -/
def index : Variant → Nat
  | .string _ => 0
  | .float _ => 1
  | .double _ => 2
  | .uint64 _ => 3
  | .int64 _ => 4
  | .uint32 _ => 5
  | .int32 _ => 6
  | .uint16 _ => 7
  | .int16 _ => 8

/-- `operator<` of `std::variant`: the index decides, then the values. -/
def lt : Variant → Variant → Bool
  | .string a, .string b => a < b
  | .float a, .float b => Format.binary32.lt a.toNat b.toNat
  | .double a, .double b => Format.binary64.lt a.toNat b.toNat
  | .uint64 a, .uint64 b => a < b
  | .int64 a, .int64 b => a < b
  | .uint32 a, .uint32 b => a < b
  | .int32 a, .int32 b => a < b
  | .uint16 a, .uint16 b => a < b
  | .int16 a, .int16 b => a < b
  | a, b => a.index < b.index

/-- The texts `to_json` writes for an optional value. -/
def texts : Option Variant → List Bytes
  | some (.string value) => [value]
  | _ => []

end Variant

/-- Nanoseconds since the epoch of `std::chrono::system_clock`. -/
abbrev Timestamp := Int

structure Data.Field where
  name : Bytes
  value : Option Variant := none
  timestamp : Timestamp
  deriving DecidableEq, Repr

inductive Data.Error.Code where
  | os
  | modbus
  | nmea
  | wago
  deriving DecidableEq, Repr

structure Data.Error where
  code : Data.Error.Code
  what : Bytes
  deriving DecidableEq, Repr

structure Data where
  deviceName : Bytes
  fields : List Data.Field := []
  error : Option Data.Error := none
  metadata : Option Bytes := none
  deriving DecidableEq, Repr

/-- The texts of `to_json` besides keys and formatted times, in the order of the keys. -/
def Data.texts (data : Data) : List Bytes :=
  let content := match data.error with
    | some error => [error.what]
    | none => data.fields.flatMap fun field => field.name :: Variant.texts field.value
  data.deviceName :: content ++ data.metadata.toList

end Rdbus
