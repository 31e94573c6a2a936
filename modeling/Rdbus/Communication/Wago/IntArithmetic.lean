import Rdbus.Communication.Wago.Scaling
import Rdbus.Foundation.SignedArithmetic

/-!
# The scale in `int`

The operands of `extractAnalog` and `map` are promoted to `int`, and only the
results come back to `int16_t`.  Here every operation is done in 32 bits:
the bit operations on `Int32`, the arithmetic with a check for overflow.
-/

namespace Rdbus.Communication.Wago

open Config.Wago Foundation

/-- Each assignment narrows an `int` to `int16_t`. -/
def extractAnalogInt (value : Int16) : Int16 :=
  let sign := (value.toInt32 &&& 0x8000).toInt16
  let value := (value.toInt32 &&& ~~~0x8000).toInt16
  let value := (value.toInt32 >>> 4).toInt16
  (value.toInt32 ||| sign.toInt32).toInt16

/-- `none` when an operation overflows or the divisor is zero. -/
def mapInt (x inMin inMax outMin outMax : Int16) : Option Int16 := do
  let left ← Signed.sub 32 x.toInt inMin.toInt
  let right ← Signed.sub 32 outMax.toInt outMin.toInt
  let product ← Signed.mul 32 left right
  let divisor ← Signed.sub 32 inMax.toInt inMin.toInt
  let quotient ← Signed.div 32 product divisor
  let sum ← Signed.add 32 quotient outMin.toInt
  return Int16.ofInt sum

/-! ## The bit operations -/

theorem narrow_shiftRight (value : Int16) : (value.toInt32 >>> 4).toInt16 = value >>> 4 := by
  have low := value.le_toInt
  have high := value.toInt_lt
  have wide : (value.toInt32 >>> 4).toInt = value.toInt / 16 := by
    rw [← Int32.toInt_toBitVec, Int32.toBitVec_shiftRight]
    simp [BitVec.toInt_sshiftRight, Int.shiftRight_eq_div_pow, BitVec.toInt_signExtend_of_le]
  have narrow : (value >>> 4).toInt = value.toInt / 16 := by
    rw [← Int16.toInt_toBitVec, Int16.toBitVec_shiftRight]
    simp [BitVec.toInt_sshiftRight, Int.shiftRight_eq_div_pow]
  rw [← Int16.toInt_inj, Int32.toInt_toInt16, wide, narrow]
  exact Int.bmod_eq_of_le_mul_two (by omega) (by omega)

theorem extractAnalogInt_eq (value : Int16) : extractAnalogInt value = extractAnalog value := by
  have sign : (value.toInt32 &&& 0x8000).toInt16 = value &&& 0x8000 := by simp
  have rest : (value.toInt32 &&& ~~~0x8000).toInt16 = value &&& ~~~0x8000 := by simp
  rw [extractAnalogInt, sign, rest, narrow_shiftRight, Int32.toInt16_or,
    Int16.toInt16_toInt32, Int16.toInt16_toInt32, extractAnalog]

/-! ## The arithmetic -/

theorem natAbs_toInt_le (x : Int16) : x.toInt.natAbs ≤ 32768 := by
  have low := x.le_toInt
  have high := x.toInt_lt
  omega

theorem natAbs_width_le (min max : Int16) : (max.toInt - min.toInt).natAbs ≤ 65535 := by
  have hmin := min.le_toInt
  have hmin' := min.toInt_lt
  have hmax := max.le_toInt
  have hmax' := max.toInt_lt
  omega

/-- The product stays 32768 below `2 ^ 31`, and the quotient is small enough for the sum. -/
theorem mapInt_analog (x min max : Int16) :
    mapInt x minAnalogValue maxAnalogValue min max =
      some (map x minAnalogValue maxAnalogValue min max) := by
  have hx : (x.toInt - minAnalogValue.toInt).natAbs ≤ 32768 := by
    simpa [minAnalogValue] using natAbs_toInt_le x
  have hwidth := natAbs_width_le min max
  have left := Signed.sub_of_natAbs_le 32 hx (by decide)
  have right := Signed.sub_of_natAbs_le 32 hwidth (by decide)
  have product := Signed.mul_of_natAbs_le 32 hx hwidth (by decide)
  have hproduct := Signed.natAbs_mul_le hx hwidth
  have divisor : Signed.sub 32 maxAnalogValue.toInt minAnalogValue.toInt =
      some (maxAnalogValue.toInt - minAnalogValue.toInt) := rfl
  have nonzero : maxAnalogValue.toInt - minAnalogValue.toInt ≠ 0 := by decide
  have quotient := Signed.div_of_natAbs_le 32 hproduct nonzero (by decide)
  have hquotient := Signed.natAbs_tdiv_le hproduct
    (maxAnalogValue.toInt - minAnalogValue.toInt)
  have sum := Signed.add_of_natAbs_le 32 hquotient (natAbs_toInt_le min) (by decide)
  simp only [mapInt, left, right, product, divisor, quotient, sum, Option.bind_eq_bind,
    Option.bind_some]
  rfl

/-- Every step of the scaling stays in `int`, and together they give what `map` does. -/
theorem scale_never_overflows (raw min max : Int16) :
    mapInt (extractAnalogInt raw) minAnalogValue maxAnalogValue min max =
      some (map (extractAnalog raw) minAnalogValue maxAnalogValue min max) := by
  rw [extractAnalogInt_eq, mapInt_analog]

end Rdbus.Communication.Wago
