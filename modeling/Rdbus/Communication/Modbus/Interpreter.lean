import Rdbus.Config.Modbus
import Rdbus.Foundation.BytePlaces
import Mathlib.Tactic.Common

/-!
# Modbus data interpretation

The five stages of `modbus::interpreter::parse`, in calling order.  `input[ i ]`
and `( *inputIt )[ position ]` are unchecked accesses and the
`reinterpret_cast` reads as many bytes as its type has, so each of the three can
leave the container it reads from.
-/

namespace Rdbus.Communication.Modbus

open Foundation
open Config.Modbus

inductive MBFunctionCode where
  | readAnalogOutputHoldingRegisters
  | readAnalogInputRegisters
  deriving DecidableEq, Repr

/-- What the program takes from `MB::ModbusResponse`. -/
structure ModbusResponse where
  slaveId : Int
  functionCode : MBFunctionCode
  registerValues : List UInt16
  deriving DecidableEq, Repr

/-- `tools::Exception`. -/
def toolsException (what : Bytes) : Throw :=
  interpreterException (str "Modbus - " ++ what)

/-! ## The stages -/

def toRaw16BitRegisters (input : List UInt16) : List (UInt8 × UInt8) :=
  input.map fun (reg : UInt16) =>
    let lsb := (reg &&& 0xff).toUInt8
    let msb := ((reg >>> 8) &&& 0xff).toUInt8
    (msb, lsb)

/-- The inner loop: append the cells `i .. i + count - 1` to `word`. -/
def mergeWord (input : List (UInt8 × UInt8)) :
    Nat → Nat → Bytes → Except Throw Bytes
  | _, 0, word => .ok word
  | i, count + 1, word => do
      let cell ← index input i
      mergeWord input (i + 1) count (word ++ [cell.1, cell.2])

/-- The outer loop, `i` being the running index into `input`. -/
def mergeFrom (input : List (UInt8 × UInt8)) :
    Nat → List Register → Except Throw (List Bytes)
  | _, [] => .ok []
  | i, reg :: registers => do
      let word ← mergeWord input i reg.words []
      let output ← mergeFrom input (i + reg.words) registers
      .ok (word :: output)

def toRawMergedRegisters (input : List (UInt8 × UInt8))
    (registers : List Register) : Except Throw (List Bytes) :=
  mergeFrom input 0 registers

/-- One iteration of `toUserInterpretation`. -/
def reorder (byteOrder : List Nat) (input : Bytes) : Except Throw Bytes :=
  byteOrder.mapM (index input)

def toUserInterpretation (input : List Bytes) (registers : List Register) :
    Except Throw (List Bytes) := do
  if input.length ≠ registers.length then
    throw (toolsException (str "Config register and merged input register count mismatch!"))
  (input.zip registers).mapM fun (word, register) =>
    reorder register.byteOrder word

def toMachineInterpretation (input : List Bytes) : List Bytes :=
  input.map List.reverse

/-- The `width` bytes at `data()`, read as a little-endian number. -/
def readBytes (width : Nat) (word : Bytes) : Except Throw Nat :=
  if width ≤ word.length then .ok (littleEndian (word.take width))
  else .error .undefinedBehaviour

/-- The `switch` of `toParsedFields`. -/
def reinterpret (type : DataType) (word : Bytes) : Except Throw Variant :=
  match type with
  | .int16 => do return .int16 (UInt16.ofNat (← readBytes 2 word)).toInt16
  | .uint16 => do return .uint16 (UInt16.ofNat (← readBytes 2 word))
  | .int32 => do return .int32 (UInt32.ofNat (← readBytes 4 word)).toInt32
  | .uint32 => do return .uint32 (UInt32.ofNat (← readBytes 4 word))
  | .int64 => do return .int64 (UInt64.ofNat (← readBytes 8 word)).toInt64
  | .uint64 => do return .uint64 (UInt64.ofNat (← readBytes 8 word))
  | .float => do return .float (UInt32.ofNat (← readBytes 4 word))
  | .double => do return .double (UInt64.ofNat (← readBytes 8 word))
  | .none | .string =>
      .error (toolsException
        (str "Unsupported type " ++ str (toString type.toNat) ++ str "!"))

def toParsedFields (input : List Bytes) (registers : List Register)
    (timestamp : Timestamp) : Except Throw (List Data.Field) := do
  if input.length ≠ registers.length then
    throw (toolsException (str "Config register and input register count mismatch!"))
  (input.zip registers).mapM fun (word, register) => do
    let value ← reinterpret register.type word
    return { name := register.name, value := some value, timestamp }

def parse (response : ModbusResponse) (registers : List Register)
    (timestamp : Timestamp) : Except Throw (List Data.Field) := do
  let rawUint16List := toRaw16BitRegisters response.registerValues
  let rawMergedList ← toRawMergedRegisters rawUint16List registers
  let bigEndianRegisters ← toUserInterpretation rawMergedList registers
  let littleEndianRegisters := toMachineInterpretation bigEndianRegisters
  toParsedFields littleEndianRegisters registers timestamp

end Rdbus.Communication.Modbus
