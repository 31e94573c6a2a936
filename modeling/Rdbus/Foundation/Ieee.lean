import Mathlib.Data.Nat.Log
import Mathlib.Data.Rat.Floor

/-!
# Binary interchange formats as bit patterns

A format with `e` exponent bits and `m` mantissa bits stores a value in
`1 + e + m` bits.  Only what needs no arithmetic on the values is defined:
the comparison, which is the comparison of the signed magnitudes, and the
rounding of an exact rational to the nearest pattern.
-/

namespace Rdbus.Foundation

structure Format where
  exponentBits : Nat
  mantissaBits : Nat
  deriving DecidableEq, Repr

namespace Format

def binary32 : Format := ⟨8, 23⟩
def binary64 : Format := ⟨11, 52⟩

/-- The pattern without its sign bit. -/
def magnitude (f : Format) (bits : Nat) : Nat :=
  bits % 2 ^ (f.exponentBits + f.mantissaBits)

def negative (f : Format) (bits : Nat) : Bool :=
  bits / 2 ^ (f.exponentBits + f.mantissaBits) % 2 == 1

/-- The magnitude of the infinities; a larger one is a NaN. -/
def infinity (f : Format) : Nat :=
  (2 ^ f.exponentBits - 1) * 2 ^ f.mantissaBits

def isNaN (f : Format) (bits : Nat) : Bool :=
  f.infinity < f.magnitude bits

def signed (f : Format) (bits : Nat) : Int :=
  if f.negative bits then -(f.magnitude bits) else f.magnitude bits

/-- `a < b` on values; false when one of them is a NaN. -/
def lt (f : Format) (a b : Nat) : Bool :=
  !f.isNaN a && !f.isNaN b && f.signed a < f.signed b

def bias (f : Format) : Nat := 2 ^ (f.exponentBits - 1) - 1

/-- Rounding to the nearest integer, ties to even. -/
def roundEven (q : ℚ) : Int :=
  let floor := q.floor
  let rest := q - floor
  if rest < 1 / 2 then floor
  else if rest > 1 / 2 then floor + 1
  else if floor % 2 = 0 then floor else floor + 1

/-- The binary exponent of a positive rational: `2 ^ k ≤ q < 2 ^ (k + 1)`. -/
def exponent (q : ℚ) : Int :=
  let guess := (Nat.log2 q.num.natAbs : Int) - (Nat.log2 q.den : Int)
  if q < (2 : ℚ) ^ guess then guess - 1 else guess

/--
The magnitude of the pattern nearest to a nonnegative rational; `infinity`
or more when the value is too large for the format.
-/
def ofRat (f : Format) (q : ℚ) : Nat :=
  if q ≤ 0 then 0
  else
    let least : Int := 1 - (f.bias : Int)
    let k := max (exponent q) least
    let significand := roundEven (q / (2 : ℚ) ^ (k - f.mantissaBits))
    -- a carry out of the mantissa moves on to the exponent field by itself
    ((k - least) * 2 ^ f.mantissaBits + significand).toNat

/-- The rational a finite magnitude stands for. -/
def toRat (f : Format) (magnitude : Nat) : ℚ :=
  let field := magnitude / 2 ^ f.mantissaBits
  let mantissa := magnitude % 2 ^ f.mantissaBits
  let least : Int := 1 - (f.bias : Int) - f.mantissaBits
  if field = 0 then (mantissa : ℚ) * (2 : ℚ) ^ least
  else ((2 ^ f.mantissaBits + mantissa : Nat) : ℚ) *
    (2 : ℚ) ^ (least + (field : Int) - 1)

/--
A nonnegative rational is out of range when it rounds to an infinity, or when
it stays below the normal numbers after rounding and is not exact there.
-/
def outOfRange (f : Format) (q : ℚ) : Bool :=
  let least : Int := 1 - (f.bias : Int)
  f.infinity ≤ f.ofRat q ||
    (q < (2 : ℚ) ^ least - (2 : ℚ) ^ (least - f.mantissaBits - 2) &&
      f.toRat (f.ofRat q) ≠ q)

end Format

end Rdbus.Foundation
