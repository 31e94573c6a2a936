import Rdbus.Communication.Modbus.Communicator
import Mathlib.Tactic.Common

/-!
# The Modbus adapter and its frames

The MB library is not part of the repository: `Library` is what `Adapter::send`
takes from it, and `Library.Documented` says how it treats the frames of a
device that answers a read.  A frame is the body of a reply with the CRC behind
it, in the byte order `toRaw` uses for requests.
-/

namespace Rdbus.Communication.Modbus

structure Library where
  calculateCRC : Bytes → UInt16
  fromRawCRC : Bytes → Except Throw ModbusResponse
  /-- `what()` of `MB::ModbusException( rawed, true )`. -/
  exceptionWhat : Bytes → Bytes

namespace Library

/-- The two CRC bytes `toRaw` appends, the one at the lower address first. -/
def withCRC (mb : Library) (rawed : Bytes) : Bytes :=
  rawed ++ [(mb.calculateCRC rawed).toUInt8, (mb.calculateCRC rawed >>> 8).toUInt8]

/-- `Adapter::send` after `getData`. -/
def response (mb : Library) (rawed : Bytes) : Except Throw ModbusResponse :=
  match mb.fromRawCRC rawed with
  | .error (.modbus _) => .error (.modbus (mb.exceptionWhat rawed))
  | outcome => outcome

end Library

def MBFunctionCode.toByte : MBFunctionCode → UInt8
  | .readAnalogOutputHoldingRegisters => 3
  | .readAnalogInputRegisters => 4

/-- The byte count of a reply is one byte, so it carries at most 127 values. -/
inductive Reply where
  | registers (values : {values : List UInt16 // values.length ≤ 127})
  | exception (exceptionCode : UInt8)
  deriving DecidableEq

/-- A word on the wire, high byte first. -/
def wireWord (value : UInt16) : Bytes := [(value >>> 8).toUInt8, value.toUInt8]

def Reply.body (slaveId : UInt8) (code : MBFunctionCode) : Reply → Bytes
  | .registers values =>
      slaveId :: code.toByte :: UInt8.ofNat (2 * values.val.length) ::
        values.val.flatMap wireWord
  | .exception exceptionCode => [slaveId, code.toByte ||| 0x80, exceptionCode]

/-- The library decodes a frame by itself, without the request it answers. -/
structure Library.Documented (mb : Library) : Prop where
  accepts : ∀ slaveId code values,
    mb.fromRawCRC (mb.withCRC ((Reply.registers values).body slaveId code)) =
      .ok ⟨slaveId.toNat, code, values.val⟩
  rejects : ∀ slaveId code exceptionCode, ∃ what,
    mb.fromRawCRC (mb.withCRC ((Reply.exception exceptionCode).body slaveId code)) =
      .error (.modbus what)

theorem Library.Documented.response_registers {mb : Library}
    (h : mb.Documented) (slaveId : UInt8) (code : MBFunctionCode)
    (values : {values : List UInt16 // values.length ≤ 127}) :
    mb.response (mb.withCRC ((Reply.registers values).body slaveId code)) =
      .ok ⟨slaveId.toNat, code, values.val⟩ := by
  rw [Library.response, h.accepts]

theorem Library.Documented.eq_registers {mb : Library} (h : mb.Documented)
    {slaveId : UInt8} {code : MBFunctionCode} {reply : Reply}
    {response : ModbusResponse}
    (hok : mb.response (mb.withCRC (reply.body slaveId code)) = .ok response) :
    ∃ values, reply = .registers values ∧
      response = ⟨slaveId.toNat, code, values.val⟩ := by
  cases reply with
  | registers values =>
      rw [h.response_registers] at hok
      cases hok
      exact ⟨values, rfl, rfl⟩
  | exception exceptionCode =>
      rcases h.rejects slaveId code exceptionCode with ⟨what, hwhat⟩
      rw [Library.response, hwhat] at hok
      cases hok

/-! ## A library that keeps to the Modbus RTU framing -/

namespace Rtu

def shiftCRC (crc : UInt16) : UInt16 :=
  if crc &&& 1 = 1 then (crc >>> 1) ^^^ 0xA001 else crc >>> 1

def calculateCRC (rawed : Bytes) : UInt16 :=
  rawed.foldl (fun crc byte => shiftCRC^[8] (crc ^^^ byte.toUInt16)) 0xFFFF

def words : Bytes → List UInt16
  | high :: low :: rest => (high.toUInt16 <<< 8 ||| low.toUInt16) :: words rest
  | _ => []

def functionCode (function : UInt8) : Option MBFunctionCode :=
  if function = 3 then some .readAnalogOutputHoldingRegisters
  else if function = 4 then some .readAnalogInputRegisters
  else none

def readReply : Bytes → Except Throw ModbusResponse
  | slaveId :: function :: count :: data =>
      match functionCode function with
      | none => .error (.modbus (str "Illegal function"))
      | some code =>
          if data.length = count.toNat then .ok ⟨slaveId.toNat, code, words data⟩
          else .error (.modbus (str "Invalid byte order"))
  | _ => .error (.modbus (str "Invalid byte order"))

def library : Library where
  calculateCRC := calculateCRC
  fromRawCRC rawed :=
    let body := rawed.take (rawed.length - 2)
    let crc := calculateCRC body
    if rawed.drop (rawed.length - 2) = [crc.toUInt8, (crc >>> 8).toUInt8] then
      readReply body
    else .error (.modbus (str "Invalid CRC"))
  exceptionWhat _ := str "Modbus exception"

theorem fromRawCRC_withCRC (body : Bytes) :
    library.fromRawCRC (library.withCRC body) = readReply body := by
  simp [library, Library.withCRC]

private theorem glue (value : UInt16) :
    (value >>> 8).toUInt8.toUInt16 <<< 8 ||| value.toUInt8.toUInt16 = value := by
  apply UInt16.eq_of_toBitVec_eq
  simp only [UInt16.toBitVec_or, UInt16.toBitVec_shiftLeft, UInt8.toBitVec_toUInt16,
    UInt16.toBitVec_toUInt8, UInt16.toBitVec_shiftRight]
  ext i hi
  by_cases h : i < 8
  · simp [h, BitVec.getLsbD_eq_getElem hi]
  · have hlow : i - 8 < 8 := by omega
    have hback : 8 + (i - 8) = i := by omega
    simp [h, hlow, hback, BitVec.getLsbD_eq_getElem hi]

theorem words_flatMap (values : List UInt16) :
    words (values.flatMap wireWord) = values := by
  induction values with
  | nil => rfl
  | cons value values ih =>
      change ((value >>> 8).toUInt8.toUInt16 <<< 8 ||| value.toUInt8.toUInt16) ::
        words (values.flatMap wireWord) = _
      rw [ih, glue]

theorem documented : library.Documented where
  accepts slaveId code values := by
    rcases values with ⟨values, hvalues⟩
    have hcount : (values.flatMap wireWord).length = 2 * values.length := by
      simp [List.length_flatMap, wireWord, Nat.mul_comm]
    have hbyte : (UInt8.ofNat (2 * values.length)).toNat = 2 * values.length := by
      simp
      omega
    have hcode : functionCode code.toByte = some code := by
      cases code <;> rfl
    rw [fromRawCRC_withCRC]
    unfold Reply.body readReply
    simp only
    rw [hcode, hbyte, hcount, words_flatMap]
    simp
  rejects slaveId code exceptionCode := by
    have hcode : functionCode (code.toByte ||| 0x80) = none := by
      cases code <;> rfl
    rw [fromRawCRC_withCRC]
    unfold Reply.body readReply
    simp only
    rw [hcode]
    exact ⟨_, rfl⟩

end Rtu

end Rdbus.Communication.Modbus
