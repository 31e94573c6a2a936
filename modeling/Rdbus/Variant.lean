import Rdbus.Data
import Mathlib.Tactic.NormNum

/-!
# Numeric values as bit patterns

A numeric value occupies `type.width` bytes.  `bits` is their little-endian
number and `ofBits` the value a program sees when it reads them.
-/

namespace Rdbus

open Foundation

theorem DataType.even_width (type : DataType) : type.width % 2 = 0 := by
  cases type <;> rfl

def DataType.isInteger : DataType → Bool
  | .none | .string | .float | .double => false
  | .uint16 | .int16 | .uint32 | .int32 | .uint64 | .int64 => true

namespace Variant

def type : Variant → DataType
  | .string _ => .string
  | .float _ => .float
  | .double _ => .double
  | .uint64 _ => .uint64
  | .int64 _ => .int64
  | .uint32 _ => .uint32
  | .int32 _ => .int32
  | .uint16 _ => .uint16
  | .int16 _ => .int16

/-- The bytes of a numeric value in memory, as one number. -/
def bits : Variant → Nat
  | .string _ => 0
  | .float bits => bits.toNat
  | .double bits => bits.toNat
  | .uint64 value => value.toNat
  | .int64 value => value.toUInt64.toNat
  | .uint32 value => value.toNat
  | .int32 value => value.toUInt32.toNat
  | .uint16 value => value.toNat
  | .int16 value => value.toUInt16.toNat

/-- The value of a numeric type with the given bytes in memory. -/
def ofBits (type : DataType) (bits : Nat) : Variant :=
  match type with
  | .none | .string => .string []
  | .float => .float (UInt32.ofNat bits)
  | .double => .double (UInt64.ofNat bits)
  | .uint64 => .uint64 (UInt64.ofNat bits)
  | .int64 => .int64 (UInt64.ofNat bits).toInt64
  | .uint32 => .uint32 (UInt32.ofNat bits)
  | .int32 => .int32 (UInt32.ofNat bits).toInt32
  | .uint16 => .uint16 (UInt16.ofNat bits)
  | .int16 => .int16 (UInt16.ofNat bits).toInt16

theorem bits_lt (v : Variant) : v.bits < 256 ^ v.type.width := by
  cases v with
  | string value => simp [bits, type, DataType.width]
  | float bits => simpa [Variant.bits, type, DataType.width] using bits.toNat_lt
  | double bits => simpa [Variant.bits, type, DataType.width] using bits.toNat_lt
  | uint64 value => simpa [bits, type, DataType.width] using value.toNat_lt
  | int64 value => simpa [bits, type, DataType.width] using value.toUInt64.toNat_lt
  | uint32 value => simpa [bits, type, DataType.width] using value.toNat_lt
  | int32 value => simpa [bits, type, DataType.width] using value.toUInt32.toNat_lt
  | uint16 value => simpa [bits, type, DataType.width] using value.toNat_lt
  | int16 value => simpa [bits, type, DataType.width] using value.toUInt16.toNat_lt

theorem bits_ofBits {type : DataType} {bits : Nat}
    (h : bits < 256 ^ type.width) : (ofBits type bits).bits = bits := by
  cases type <;> simp [DataType.width] at h <;>
    simp [ofBits, Variant.bits, h]

theorem type_ofBits {type : DataType} (h : 0 < type.width) (bits : Nat) :
    (ofBits type bits).type = type := by
  cases type <;> simp [DataType.width] at h <;> rfl

theorem ofBits_bits {v : Variant} (h : 0 < v.type.width) :
    ofBits v.type v.bits = v := by
  cases v <;> simp [DataType.width, type] at h <;> simp [ofBits, bits, type]

/-- The number an integer alternative stands for. -/
def integer : Variant → Int
  | .string _ | .float _ | .double _ => 0
  | .uint64 value => value.toNat
  | .int64 value => value.toInt
  | .uint32 value => value.toNat
  | .int32 value => value.toInt
  | .uint16 value => value.toNat
  | .int16 value => value.toInt

theorem lt_iff_integer_lt {v w : Variant} (htype : v.type = w.type)
    (hinteger : v.type.isInteger) : lt v w ↔ v.integer < w.integer := by
  cases v <;> cases w <;>
    simp_all [type, lt, integer, DataType.isInteger, UInt64.lt_iff_toNat_lt,
      UInt32.lt_iff_toNat_lt, UInt16.lt_iff_toNat_lt, Int64.lt_iff_toInt_lt,
      Int32.lt_iff_toInt_lt, Int16.lt_iff_toInt_lt]

end Variant

end Rdbus
