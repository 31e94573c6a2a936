import Rdbus.Exception
import Rdbus.Foundation.Ieee

/-!
# Number conversions of the C library

`strtol` and its relatives skip white space, take an optional sign and then the
longest prefix of digits.  The `std::sto` functions hand them the text up to
its first NUL and turn "no digits" and `ERANGE` into exceptions.
-/

namespace Rdbus

open Foundation

/-- `std::isspace` in the default locale. -/
def isSpace (c : UInt8) : Bool := c = 32 || (9 ≤ c && c ≤ 13)

def isDigit (c : UInt8) : Bool := 48 ≤ c && c ≤ 57

/-- The value of a hexadecimal digit. -/
def hexDigit (c : UInt8) : Option Nat :=
  if isDigit c then some (c.toNat - 48)
  else if 65 ≤ c && c ≤ 70 then some (c.toNat - 55)
  else if 97 ≤ c && c ≤ 102 then some (c.toNat - 87)
  else none

def isHexDigit (c : UInt8) : Bool := (hexDigit c).isSome

def lower (c : UInt8) : UInt8 := if 65 ≤ c && c ≤ 90 then c + 32 else c

/-- The sign in front, and the rest. -/
def takeSign : Bytes → Bool × Bytes
  | c :: rest =>
      if c = 45 then (true, rest) else if c = 43 then (false, rest) else (false, c :: rest)
  | [] => (false, [])

def decimal (digits : Bytes) : Nat :=
  digits.foldl (fun value c => 10 * value + (c.toNat - 48)) 0

def octal (digits : Bytes) : Nat :=
  digits.foldl (fun value c => 8 * value + (c.toNat - 48)) 0

def hexadecimal (digits : Bytes) : Nat :=
  digits.foldl (fun value c => 16 * value + (hexDigit c).getD 0) 0

/-- The sign and the magnitude; `none` without digits. -/
def scanInteger (text : Bytes) : Option (Bool × Nat) :=
  let (negative, rest) := takeSign (text.dropWhile isSpace)
  let digits := rest.takeWhile isDigit
  if digits.isEmpty then none else some (negative, decimal digits)

def signedValue (negative : Bool) (magnitude : Nat) : Int :=
  if negative then -magnitude else magnitude

/-- `strtol`, which saturates at the ends of `long`. -/
def strtol (text : Bytes) : Int :=
  match scanInteger text with
  | none => 0
  | some (negative, magnitude) =>
      max (-2 ^ 63) (min (2 ^ 63 - 1) (signedValue negative magnitude))

/-- `std::atoi`: the `long` converted to `int`. -/
def atoi (text : Bytes) : Int := (strtol text).bmod (2 ^ 32)

/-! ## The `std::sto` functions -/

def cString (text : Bytes) : Bytes := text.takeWhile (· ≠ 0)

/--
The C function behind it gives no value when nothing is converted or `errno`
becomes `ERANGE`; both exceptions carry the name of the function.
-/
def stoa {α : Type} (name : Bytes) (convert : Bytes → Option α) (text : Bytes) :
    Except Throw α :=
  match convert (cString text) with
  | some value => .ok value
  | none => .error (.std name)

theorem stoa_throws {α : Type} {name text : Bytes} {convert : Bytes → Option α} {e : Throw}
    (h : stoa name convert text = .error e) : e = .std name := by
  unfold stoa at h
  split at h
  · cases h
  · exact (Except.error.inj h).symm

def strtoll (text : Bytes) : Option Int64 := do
  let (negative, magnitude) ← scanInteger text
  let value := signedValue negative magnitude
  if -2 ^ 63 ≤ value ∧ value < 2 ^ 63 then some (Int64.ofInt value) else none

/-- A sign is accepted and negates the result modulo `2 ^ 64`. -/
def strtoull (text : Bytes) : Option UInt64 := do
  let (negative, magnitude) ← scanInteger text
  if magnitude < 2 ^ 64 then some (UInt64.ofInt (signedValue negative magnitude)) else none

/-- An `int`; what saturates in `strtol` is no `int` either. -/
def strtoi (text : Bytes) : Option Int := do
  let (negative, magnitude) ← scanInteger text
  let value := signedValue negative magnitude
  if -2 ^ 31 ≤ value ∧ value < 2 ^ 31 then some value else none

/-- `std::stoi`. -/
def stoi : Bytes → Except Throw Int := stoa (str "stoi") strtoi

/-- `std::stoll`. -/
def stoll : Bytes → Except Throw Int64 := stoa (str "stoll") strtoll

/-- `std::stoull`. -/
def stoull : Bytes → Except Throw UInt64 := stoa (str "stoull") strtoull

/-! ## Floating point -/

inductive Literal where
  | finite (value : ℚ)
  | infinity
  | nan (payload : Nat)

/-- Digits around an optional point, at least one of them, and the rest. -/
def scanMantissa (base : Nat) (isDigit : UInt8 → Bool) (number : Bytes → Nat)
    (text : Bytes) : Option (ℚ × Bytes) :=
  let whole := text.takeWhile isDigit
  let rest := text.dropWhile isDigit
  let (fraction, rest) := match rest with
    | 46 :: after => (after.takeWhile isDigit, after.dropWhile isDigit)
    | _ => ([], rest)
  if (whole ++ fraction).isEmpty then none
  else some ((number (whole ++ fraction) : ℚ) / (base : ℚ) ^ fraction.length, rest)

/-- The exponent behind `marker`, 0 without digits. -/
def scanExponent (marker : UInt8) (text : Bytes) : Int :=
  match text with
  | [] => 0
  | c :: rest =>
      if lower c = marker then
        let (negative, rest) := takeSign rest
        signedValue negative (decimal (rest.takeWhile isDigit))
      else 0

def isLetter (c : UInt8) : Bool := 97 ≤ lower c && lower c ≤ 122

/-- All of the text as a number with the base its prefix says. -/
def prefixed (text : Bytes) : Option Nat :=
  if (text.take 2).map lower = str "0x" then
    let digits := text.drop 2
    if !digits.isEmpty && digits.all isHexDigit then some (hexadecimal digits) else none
  else if text.head? = some 48 then
    if text.all fun c => isDigit c && c < 56 then some (octal text) else none
  else if text.all isDigit then some (decimal text) else none

/-- What glibc keeps of `(...)` behind `nan`: a number, as far as there is room for it. -/
def nanPayload : Bytes → Nat
  | 40 :: rest =>
      let isChar := fun c => isDigit c || isLetter c || c = 95
      match prefixed (rest.takeWhile isChar), rest.dropWhile isChar with
      | some number, 41 :: _ => min number (2 ^ 64 - 1) % 2 ^ 51
      | _, _ => 0
  | _ => 0

/-- The unsigned forms of `strtod`. -/
def scanFloat (text : Bytes) : Option Literal :=
  if (text.take 3).map lower = str "inf" then some .infinity
  else if (text.take 3).map lower = str "nan" then some (.nan (nanPayload (text.drop 3)))
  else
    let hex := if (text.take 2).map lower = str "0x"
      then scanMantissa 16 isHexDigit hexadecimal (text.drop 2) else none
    match hex with
    | some (mantissa, rest) => some (.finite (mantissa * 2 ^ scanExponent 112 rest))
    | none => (scanMantissa 10 isDigit decimal text).map fun (mantissa, rest) =>
        .finite (mantissa * 10 ^ scanExponent 101 rest)

/-- The bits of the nearest `double`. -/
def strtod (text : Bytes) : Option UInt64 := do
  let (negative, rest) := takeSign (text.dropWhile isSpace)
  let magnitude ← match ← scanFloat rest with
    | .infinity => some Format.binary64.infinity
    | .nan payload => some (Format.binary64.infinity + 2 ^ 51 + payload)
    | .finite value =>
        if Format.binary64.outOfRange value then none
        else some (Format.binary64.ofRat value)
  some (UInt64.ofNat (magnitude + if negative then 2 ^ 63 else 0))

/-- `std::stod`. -/
def stod : Bytes → Except Throw UInt64 := stoa (str "stod") strtod

end Rdbus
