import Rdbus.Data
import Mathlib.Data.Nat.Digits.Lemmas

/-!
# Formatted times

`formattedTime` of a reading.  `localtime` knows the time zone of the machine
and is a parameter.  The `sprintf` behind it prints its own buffer to itself,
which is taken to append, as it is meant to.
-/

namespace Rdbus

/-- The part of `std::tm` that is printed, for times with a year of four digits. -/
structure Tm where
  year : Int
  mon : Nat
  mday : Nat
  hour : Nat
  min : Nat
  sec : Nat
  fits : (0 ≤ year + 1900 ∧ year + 1900 ≤ 9999) ∧ mon < 12 ∧ mday < 32 ∧ hour < 24 ∧
    min < 60 ∧ sec < 61

/-- `%0*d`. -/
def padded (width : Nat) (value : Int) : Bytes :=
  let digits := (Nat.digits 10 value.natAbs).reverse.map fun digit => UInt8.ofNat (48 + digit)
  if value < 0 then 45 :: (List.replicate (width - 1 - digits.length) 48 ++ digits)
  else List.replicate (width - digits.length) 48 ++ digits

/-- `std::strftime` with `%F %T`. -/
def Tm.strftime (time : Tm) : Bytes :=
  padded 4 (time.year + 1900) ++ str "-" ++ padded 2 (time.mon + 1) ++ str "-" ++
    padded 2 time.mday ++ str " " ++ padded 2 time.hour ++ str ":" ++
    padded 2 time.min ++ str ":" ++ padded 2 time.sec

/-- The clock counts nanoseconds. -/
def formattedTime (localtime : Int → Tm) (timestamp : Timestamp) : Bytes :=
  let millis := (timestamp.tdiv 1000000).tmod 1000
  let time := localtime (timestamp.tdiv 1000000000)
  time.strftime ++ str ":" ++ padded 3 millis

theorem ascii_padded (width : Nat) (value : Int) : (padded width value).all (· < 128) := by
  have hdigit : ∀ digit ∈ Nat.digits 10 value.natAbs, UInt8.ofNat (48 + digit) < 128 := by
    intro digit hmem
    have hlt := Nat.digits_lt_base (by decide) hmem
    rw [UInt8.lt_iff_toNat_lt, UInt8.toNat_ofNat']
    simp
    omega
  unfold padded
  split <;> simpa [List.all_append, List.all_replicate] using hdigit

theorem ascii_formattedTime (localtime : Int → Tm) (timestamp : Timestamp) :
    (formattedTime localtime timestamp).all (· < 128) := by
  have hdash : (str "-").all (· < 128) := by decide
  have hspace : (str " ").all (· < 128) := by decide
  have hcolon : (str ":").all (· < 128) := by decide
  simp only [formattedTime, Tm.strftime, List.all_append, ascii_padded, hdash, hspace, hcolon,
    Bool.and_self]

theorem length_padded_le {width : Nat} {value : Int} (h : value.natAbs < 10 ^ width) :
    (padded width value).length ≤ width + 1 := by
  have hdigits : (Nat.digits 10 value.natAbs).length ≤ width :=
    (Nat.digits_length_le_iff (by decide) _).mpr h
  unfold padded
  split <;> simp <;> omega

/-- The text and its NUL stay in the buffer of 32. -/
theorem length_formattedTime_lt (localtime : Int → Tm) (timestamp : Timestamp) :
    (formattedTime localtime timestamp).length < 32 := by
  have hmillis : (padded 3 ((timestamp.tdiv 1000000).tmod 1000)).length ≤ 4 := by
    have hlow := Int.lt_tmod_of_pos (timestamp.tdiv 1000000) (b := 1000) (by decide)
    have hhigh := Int.tmod_lt_of_pos (timestamp.tdiv 1000000) (b := 1000) (by decide)
    exact length_padded_le (by omega)
  have htwo : ∀ value : Int, 0 ≤ value ∧ value ≤ 99 → (padded 2 value).length ≤ 3 :=
    fun value hvalue => length_padded_le (by omega)
  have htext : ∀ time : Tm, time.strftime.length ≤ 25 := by
    intro time
    have hfits := time.fits
    have hyear : (padded 4 (time.year + 1900)).length ≤ 5 := length_padded_le (by omega)
    have hmon := htwo (time.mon + 1) (by omega)
    have hmday := htwo time.mday (by omega)
    have hhour := htwo time.hour (by omega)
    have hmin := htwo time.min (by omega)
    have hsec := htwo time.sec (by omega)
    have hmark : (str "-").length = 1 ∧ (str " ").length = 1 ∧ (str ":").length = 1 := by decide
    simp only [Tm.strftime, List.length_append]
    omega
  have hcolon : (str ":").length = 1 := by decide
  have hstrftime := htext (localtime (timestamp.tdiv 1000000000))
  simp only [formattedTime, List.length_append]
  omega

/-- New Year of 2024, in a zone without a shift. -/
def newYear : Tm := ⟨124, 0, 1, 0, 0, 0, by decide⟩

example : formattedTime (fun _ => newYear) 1704067200042000000 =
    str "2024-01-01 00:00:00:042" := by decide

end Rdbus
