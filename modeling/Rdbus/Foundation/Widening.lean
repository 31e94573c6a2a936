import Rdbus.Foundation.Ieee
import Mathlib.Algebra.Order.Field.Power
import Mathlib.Tactic.FieldSimp
import Mathlib.Tactic.Ring

/-!
# Converting to a wider format

Every finite value of the narrower format is one of the wider format.  A
subnormal one has a leading bit that becomes the hidden one.
-/

namespace Rdbus.Foundation.Format

/-- The magnitude after the conversion; a NaN becomes quiet. -/
def widenMagnitude (f g : Format) (magnitude : Nat) : Nat :=
  let field := magnitude / 2 ^ f.mantissaBits
  let mantissa := magnitude % 2 ^ f.mantissaBits
  let wide := mantissa * 2 ^ (g.mantissaBits - f.mantissaBits)
  if f.infinity < magnitude then g.infinity + (wide ||| 2 ^ (g.mantissaBits - 1))
  else if magnitude = f.infinity then g.infinity
  else if 0 < field then (field + g.bias - f.bias) * 2 ^ g.mantissaBits + wide
  else if mantissa = 0 then 0
  else
    let leading := Nat.log2 mantissa
    (g.bias + 1 + leading - (f.bias + f.mantissaBits)) * 2 ^ g.mantissaBits +
      (mantissa - 2 ^ leading) * 2 ^ (g.mantissaBits - leading)

def widen (f g : Format) (bits : Nat) : Nat :=
  (if f.negative bits then 2 ^ (g.exponentBits + g.mantissaBits) else 0) +
    widenMagnitude f g (f.magnitude bits)

/-- The sign and the exact value of a pattern that is neither infinite nor a NaN. -/
def finite? (f : Format) (bits : Nat) : Option (Bool × ℚ) :=
  if f.magnitude bits < f.infinity then some (f.negative bits, f.toRat (f.magnitude bits))
  else none

/-- The exponents and mantissas of one are those of the other. -/
structure Widens (f g : Format) : Prop where
  mantissa : 0 < f.mantissaBits ∧ f.mantissaBits ≤ g.mantissaBits
  least : f.bias + f.mantissaBits ≤ g.bias
  largest : 2 ^ f.exponentBits + g.bias ≤ 2 ^ g.exponentBits + f.bias

theorem binary64_widens : binary32.Widens binary64 := by
  constructor <;> decide

theorem toRat_normal (f : Format) {field mantissa : Nat} (hfield : 0 < field)
    (hmantissa : mantissa < 2 ^ f.mantissaBits) :
    f.toRat (field * 2 ^ f.mantissaBits + mantissa) =
      ((2 ^ f.mantissaBits + mantissa : Nat) : ℚ) *
        (2 : ℚ) ^ ((field : Int) - f.bias - f.mantissaBits) := by
  have hdiv : (field * 2 ^ f.mantissaBits + mantissa) / 2 ^ f.mantissaBits = field := by
    rw [Nat.mul_comm, Nat.mul_add_div (Nat.two_pow_pos _), Nat.div_eq_of_lt hmantissa,
      Nat.add_zero]
  have hmod : (field * 2 ^ f.mantissaBits + mantissa) % 2 ^ f.mantissaBits = mantissa := by
    rw [Nat.mul_comm, Nat.mul_add_mod, Nat.mod_eq_of_lt hmantissa]
  simp only [toRat, hdiv, hmod, if_neg hfield.ne']
  congr 2
  omega

/-- A finite magnitude is zero, subnormal or normal. -/
inductive Finite (f g : Format) (magnitude : Nat) : Prop where
  | zero (hzero : magnitude = 0) (hwide : widenMagnitude f g magnitude = 0)
  | subnormal (hleast : 0 < magnitude) (hsmall : magnitude < 2 ^ f.mantissaBits)
      (hwide : widenMagnitude f g magnitude =
        (g.bias + 1 + magnitude.log2 - (f.bias + f.mantissaBits)) * 2 ^ g.mantissaBits +
          (magnitude - 2 ^ magnitude.log2) * 2 ^ (g.mantissaBits - magnitude.log2))
  | normal (field mantissa : Nat) (hfield : 0 < field ∧ field < 2 ^ f.exponentBits - 1)
      (hmantissa : mantissa < 2 ^ f.mantissaBits)
      (hsplit : magnitude = field * 2 ^ f.mantissaBits + mantissa)
      (hwide : widenMagnitude f g magnitude =
        (field + g.bias - f.bias) * 2 ^ g.mantissaBits +
          mantissa * 2 ^ (g.mantissaBits - f.mantissaBits))

theorem finite_of_lt (f g : Format) {magnitude : Nat} (h : magnitude < f.infinity) :
    Finite f g magnitude := by
  have hnan : ¬f.infinity < magnitude := by omega
  have hinf : ¬magnitude = f.infinity := by omega
  have hpos := Nat.two_pow_pos f.mantissaBits
  have hsplit := Nat.div_add_mod' magnitude (2 ^ f.mantissaBits)
  by_cases hfield : 0 < magnitude / 2 ^ f.mantissaBits
  case pos =>
    refine .normal _ _ ⟨hfield, ?_⟩ (Nat.mod_lt magnitude hpos) hsplit.symm ?_
    · exact (Nat.div_lt_iff_lt_mul hpos).mpr h
    · simp only [widenMagnitude, if_neg hnan, if_neg hinf, if_pos hfield]
  case neg =>
    have hsmall : magnitude < 2 ^ f.mantissaBits := by
      rwa [Nat.div_pos_iff, not_and, not_le, imp_iff_right hpos] at hfield
    have hmod := Nat.mod_eq_of_lt hsmall
    by_cases hzero : magnitude = 0
    case pos =>
      refine .zero hzero ?_
      simp only [widenMagnitude, if_neg hnan, if_neg hinf, if_neg hfield, hmod, if_pos hzero]
    case neg =>
      refine .subnormal (Nat.pos_of_ne_zero hzero) hsmall ?_
      simp only [widenMagnitude, if_neg hnan, if_neg hinf, if_neg hfield, hmod, if_neg hzero]

variable {f g : Format}

theorem wide_lt (h : f.Widens g) {mantissa : Nat} (hmantissa : mantissa < 2 ^ f.mantissaBits) :
    mantissa * 2 ^ (g.mantissaBits - f.mantissaBits) < 2 ^ g.mantissaBits := by
  calc mantissa * 2 ^ (g.mantissaBits - f.mantissaBits)
      < 2 ^ f.mantissaBits * 2 ^ (g.mantissaBits - f.mantissaBits) :=
        Nat.mul_lt_mul_of_pos_right hmantissa (Nat.two_pow_pos _)
    _ = 2 ^ g.mantissaBits := by
        rw [← Nat.pow_add, Nat.add_sub_cancel' h.mantissa.2]

/-- What is left behind the leading bit. -/
theorem behind_lt {bits magnitude : Nat} (hleast : 0 < magnitude)
    (hbits : magnitude.log2 ≤ bits) :
    (magnitude - 2 ^ magnitude.log2) * 2 ^ (bits - magnitude.log2) < 2 ^ bits := by
  have hlog := Nat.lt_log2_self (n := magnitude)
  have hbehind : magnitude - 2 ^ magnitude.log2 < 2 ^ magnitude.log2 := by
    rw [Nat.pow_succ] at hlog
    have := Nat.two_pow_pos magnitude.log2
    omega
  calc (magnitude - 2 ^ magnitude.log2) * 2 ^ (bits - magnitude.log2)
      < 2 ^ magnitude.log2 * 2 ^ (bits - magnitude.log2) :=
        Nat.mul_lt_mul_of_pos_right hbehind (Nat.two_pow_pos _)
    _ = 2 ^ bits := by
        rw [← Nat.pow_add, Nat.add_sub_cancel' hbits]

theorem shifted (n k : Nat) {low high : Int} (h : k + low = high) :
    ((n * 2 ^ k : Nat) : ℚ) * (2 : ℚ) ^ low = (n : ℚ) * (2 : ℚ) ^ high := by
  rw [← h, zpow_add₀ two_ne_zero, zpow_natCast]
  push_cast
  ring

/-- The exact value is kept. -/
theorem toRat_widenMagnitude (h : f.Widens g) {magnitude : Nat}
    (hfinite : magnitude < f.infinity) :
    g.toRat (widenMagnitude f g magnitude) = f.toRat magnitude := by
  obtain ⟨-, hmantissas⟩ := h.mantissa
  have hbias := h.least
  cases finite_of_lt f g hfinite with
  | zero hzero hwide =>
      rw [hwide, hzero]
      simp [toRat]
  | subnormal hleast hsmall hwide =>
      have hlog : magnitude.log2 < f.mantissaBits := (Nat.log2_lt hleast.ne').mpr hsmall
      have hleading := Nat.log2_self_le hleast.ne'
      have hsum : 2 ^ g.mantissaBits +
            (magnitude - 2 ^ magnitude.log2) * 2 ^ (g.mantissaBits - magnitude.log2) =
          magnitude * 2 ^ (g.mantissaBits - magnitude.log2) := by
        have hpow : 2 ^ g.mantissaBits =
            2 ^ magnitude.log2 * 2 ^ (g.mantissaBits - magnitude.log2) := by
          rw [← Nat.pow_add, Nat.add_sub_cancel' (by omega)]
        rw [hpow, ← Nat.add_mul, Nat.add_sub_cancel' hleading]
      have hvalue : f.toRat magnitude =
          (magnitude : ℚ) * (2 : ℚ) ^ (1 - (f.bias : Int) - f.mantissaBits) := by
        simp only [toRat, Nat.div_eq_of_lt hsmall, Nat.mod_eq_of_lt hsmall, if_true]
      rw [hwide, hvalue, toRat_normal g (by omega) (behind_lt hleast (by omega)), hsum]
      apply shifted
      omega
  | normal field mantissa hfield hmantissa hsplit hwide =>
      have hsum : 2 ^ g.mantissaBits + mantissa * 2 ^ (g.mantissaBits - f.mantissaBits) =
          (2 ^ f.mantissaBits + mantissa) * 2 ^ (g.mantissaBits - f.mantissaBits) := by
        rw [Nat.add_mul, ← Nat.pow_add, Nat.add_sub_cancel' hmantissas]
      rw [hwide, hsplit, toRat_normal f hfield.1 hmantissa,
        toRat_normal g (by omega) (wide_lt h hmantissa), hsum]
      apply shifted
      omega

/-- Finite values stay finite. -/
theorem widenMagnitude_lt (h : f.Widens g) {magnitude : Nat} (hfinite : magnitude < f.infinity) :
    widenMagnitude f g magnitude < g.infinity := by
  have hbias := h.least
  have hlargest := h.largest
  have hpack {field mantissa : Nat} (hfield : field + 1 ≤ 2 ^ g.exponentBits - 1)
      (hmantissa : mantissa < 2 ^ g.mantissaBits) :
      field * 2 ^ g.mantissaBits + mantissa < g.infinity := by
    calc field * 2 ^ g.mantissaBits + mantissa
        < (field + 1) * 2 ^ g.mantissaBits := by
          rw [Nat.add_mul, Nat.one_mul]
          omega
      _ ≤ g.infinity := Nat.mul_le_mul_right _ hfield
  have hexponents : 2 ≤ 2 ^ f.exponentBits := by
    by_contra hnone
    have hempty : f.infinity = 0 := by
      rw [infinity, Nat.sub_eq_zero_of_le (by omega), Nat.zero_mul]
    omega
  cases finite_of_lt f g hfinite with
  | zero hzero hwide =>
      rw [hwide]
      have hfirst := @hpack 0 0 (by omega) (Nat.two_pow_pos _)
      omega
  | subnormal hleast hsmall hwide =>
      have hlog : magnitude.log2 < f.mantissaBits := (Nat.log2_lt hleast.ne').mpr hsmall
      have hmantissas := h.mantissa.2
      rw [hwide]
      exact hpack (by omega) (behind_lt hleast (by omega))
  | normal field mantissa hfield hmantissa hsplit hwide =>
      rw [hwide]
      exact hpack (by omega) (wide_lt h hmantissa)

theorem infinity_le_widenMagnitude {magnitude : Nat} (h : f.infinity ≤ magnitude) :
    g.infinity ≤ widenMagnitude f g magnitude := by
  rcases Nat.lt_or_eq_of_le h with hnan | hinf
  · simp only [widenMagnitude, if_pos hnan]
    omega
  · simp only [widenMagnitude, ← hinf, Nat.lt_irrefl, if_false, if_true, le_refl]

/-- The magnitude leaves the sign bit free. -/
theorem widenMagnitude_lt_two_pow (h : f.Widens g) (magnitude : Nat) :
    widenMagnitude f g magnitude < 2 ^ (g.exponentBits + g.mantissaBits) := by
  have htop : g.infinity + 2 ^ g.mantissaBits = 2 ^ (g.exponentBits + g.mantissaBits) := by
    rw [infinity, Nat.pow_add, ← Nat.succ_mul, Nat.succ_eq_add_one,
      Nat.sub_add_cancel (Nat.one_le_two_pow)]
  have hpos := Nat.two_pow_pos g.mantissaBits
  rcases Nat.lt_trichotomy magnitude f.infinity with hfinite | hinf | hnan
  · have := widenMagnitude_lt h hfinite
    omega
  · simp only [widenMagnitude, hinf, Nat.lt_irrefl, if_false, if_true]
    omega
  · have hwide := wide_lt h (Nat.mod_lt magnitude (Nat.two_pow_pos f.mantissaBits))
    have hquiet : 2 ^ (g.mantissaBits - 1) < 2 ^ g.mantissaBits :=
      Nat.pow_lt_pow_right Nat.one_lt_two (by have := h.mantissa; omega)
    have hor := Nat.or_lt_two_pow hwide hquiet
    simp only [widenMagnitude, if_pos hnan]
    omega

/-- What a pattern stands for is the same in both formats. -/
theorem finite?_widen (h : f.Widens g) (bits : Nat) :
    g.finite? (widen f g bits) = f.finite? bits := by
  have hwide := widenMagnitude_lt_two_pow h (f.magnitude bits)
  have hmagnitude : g.magnitude (widen f g bits) = widenMagnitude f g (f.magnitude bits) := by
    rw [magnitude, widen]
    split
    case isTrue => rw [Nat.add_mod_left, Nat.mod_eq_of_lt hwide]
    case isFalse => rw [Nat.zero_add, Nat.mod_eq_of_lt hwide]
  have hnegative : g.negative (widen f g bits) = f.negative bits := by
    rw [negative, widen]
    split
    case isTrue hneg =>
      rw [hneg, Nat.add_div_left _ (Nat.two_pow_pos _), Nat.div_eq_of_lt hwide]
      rfl
    case isFalse hpos =>
      rw [Bool.eq_false_iff.mpr hpos, Nat.zero_add, Nat.div_eq_of_lt hwide]
      rfl
  rw [finite?, finite?, hmagnitude, hnegative]
  by_cases hfinite : f.magnitude bits < f.infinity
  case pos =>
    rw [if_pos (widenMagnitude_lt h hfinite), if_pos hfinite, toRat_widenMagnitude h hfinite]
  case neg =>
    have hlarge : g.infinity ≤ widenMagnitude f g (f.magnitude bits) :=
      infinity_le_widenMagnitude (Nat.not_lt.mp hfinite)
    rw [if_neg (Nat.not_lt.mpr hlarge), if_neg hfinite]

end Rdbus.Foundation.Format
