import Rdbus.Communication.Wago.Communicator

/-!
# The scale of a Wago value

A non-negative word is scaled into the range of its instance and keeps its
order.  The sign of a word is put back above the shifted bits, so a negative
word becomes a number near `-2 ^ 15` and leaves the range.
-/

namespace Rdbus.Communication.Wago

open Config.Wago Foundation

/-- What `request` stores for a raw word. -/
def reported (it : Instance) (raw : Int16) : Int16 :=
  map (extractAnalog raw) minAnalogValue maxAnalogValue it.min it.max

/-- The words of a whole poll, each under the instance id it was read from. -/
theorem collect_reports {getSingle : Nat → Int → Except Throw Int16} {now : Nat → Timestamp}
    {k : Nat} {offset : Int} {fields out : List Data.Field} {instances : List Instance}
    (h : collect getSingle now k offset fields instances = .ok out) :
    ∃ raws : List Int16, raws.length = instances.length ∧
      (∀ i (hi : i < raws.length), getSingle (k + i) (offset + i) = .ok raws[i]) ∧
      out.map Data.Field.value = fields.map Data.Field.value ++
        List.zipWith (fun it raw => some (.int16 (reported it raw))) instances raws := by
  induction instances generalizing k offset fields with
  | nil =>
      cases h
      exact ⟨[], by simp⟩
  | cons it rest ih =>
      rw [collect] at h
      obtain ⟨next, hnext, h⟩ := bind_eq_ok.mp h
      obtain ⟨raw, hraw, h⟩ := bind_eq_ok.mp h
      obtain ⟨raws, hlength, hraws, hout⟩ := ih h
      have successor : next = offset + 1 := by
        unfold increment at hnext
        split at hnext <;> cases hnext
        rfl
      refine ⟨raw :: raws, by simp [hlength], fun i hi => ?_, by simp [hout, reported]⟩
      cases i with
      | zero => simpa using hraw
      | succ i =>
          have later := hraws i (by simpa using hi)
          rw [List.getElem_cons_succ, ← later, successor]
          congr 1 <;> omega

private theorem extractAnalog_toBitVec (value : Int16) :
    (extractAnalog value).toBitVec =
      (value.toBitVec &&& 0x8000#16) ||| (value.toBitVec &&& 0x7fff#16) >>> 4 := by
  have positive : (value.toBitVec &&& 0x7fff#16).msb = false := by
    rw [BitVec.msb_and, show (0x7fff#16).msb = false from rfl, Bool.and_false]
  have shift := BitVec.sshiftRight_eq_of_msb_false (s := 4) positive
  simp [extractAnalog, shift, BitVec.or_comm]

private theorem sign_bit (bits : BitVec 16) :
    (bits &&& 0x8000#16).toNat = 2 ^ 15 * (bits.toNat / 32768) := by
  have bit : bits &&& 0x8000#16 = if bits.getLsbD 15 then 0x8000#16 else 0#16 :=
    BitVec.and_twoPow bits 15
  have bound := bits.isLt
  have set : bits.getLsbD 15 = decide (bits.toNat / 32768 % 2 = 1) :=
    Nat.testBit_eq_decide_div_mod_eq
  rw [bit, set]
  by_cases h : bits.toNat / 32768 % 2 = 1
  · simp [h]
    omega
  · simp [h]
    omega

private theorem extractAnalog_toNat (value : Int16) :
    (extractAnalog value).toBitVec.toNat =
      2 ^ 15 * (value.toBitVec.toNat / 32768) + value.toBitVec.toNat % 32768 / 16 := by
  have low : (value.toBitVec &&& 0x7fff#16).toNat = value.toBitVec.toNat % 32768 := by
    rw [BitVec.toNat_and]
    exact Nat.and_two_pow_sub_one_eq_mod value.toBitVec.toNat 15
  have small : value.toBitVec.toNat % 32768 / 16 < 2 ^ 15 := by omega
  rw [extractAnalog_toBitVec, BitVec.toNat_or, sign_bit, BitVec.toNat_ushiftRight, low,
    Nat.shiftRight_eq_div_pow, Nat.two_pow_add_eq_or_of_lt small]

/-- A word without the sign keeps its upper twelve bits; the sign bit comes back as bit 15. -/
theorem extractAnalog_toInt (value : Int16) :
    (extractAnalog value).toInt =
      if 0 ≤ value then value.toInt / 16 else (value.toInt + 32768) / 16 - 32768 := by
  have bits := extractAnalog_toNat value
  have hv : value.toInt = _ := BitVec.toInt_eq_toNat_cond value.toBitVec
  have he : (extractAnalog value).toInt = _ :=
    BitVec.toInt_eq_toNat_cond (extractAnalog value).toBitVec
  have sign : 0 ≤ value ↔ 0 ≤ value.toInt := Int16.le_iff_toInt_le
  have bound := value.toBitVec.isLt
  simp only [sign]
  rw [he, bits]
  split <;> split <;> omega

def width (it : Instance) : Int := it.max.toInt - it.min.toInt

theorem width_nonneg {it : Instance} (range : it.min ≤ it.max) : 0 ≤ width it := by
  have h := Int16.le_iff_toInt_le.mp range
  simp only [width]
  omega

theorem reported_toInt (it : Instance) (raw : Int16) :
    (reported it raw).toInt =
      (((extractAnalog raw).toInt * width it).tdiv 2047 + it.min.toInt).bmod (2 ^ 16) := by
  simp [reported, map, width, minAnalogValue, maxAnalogValue]

/-! ## Words without the sign -/

theorem share_nonneg {n width : Int} (h : 0 ≤ n) (hw : 0 ≤ width) : 0 ≤ n * width / 2047 :=
  Int.ediv_nonneg (Int.mul_nonneg h hw) (by decide)

theorem share_mono {n m width : Int} (h : n ≤ m) (hw : 0 ≤ width) :
    n * width / 2047 ≤ m * width / 2047 :=
  Int.ediv_le_ediv (by decide) (Int.mul_le_mul_of_nonneg_right h hw)

theorem share_le {n width : Int} (h : n ≤ 2047) (hw : 0 ≤ width) : n * width / 2047 ≤ width := by
  have bound := share_mono h hw
  rwa [Int.mul_ediv_cancel_left width (by decide)] at bound

theorem reported_of_nonneg {it : Instance} {raw : Int16} (range : it.min ≤ it.max)
    (h : 0 ≤ raw) :
    (reported it raw).toInt = raw.toInt / 16 * width it / 2047 + it.min.toInt := by
  have sign := Int16.le_iff_toInt_le.mp h
  have word := raw.toInt_lt
  have hw := width_nonneg range
  have low := share_nonneg (n := raw.toInt / 16) (Int.ediv_nonneg sign (by decide)) hw
  have high : raw.toInt / 16 * width it / 2047 ≤ width it := share_le (by omega) hw
  have hmin := it.min.le_toInt
  have hmax := it.max.toInt_lt
  have hwidth : width it = it.max.toInt - it.min.toInt := rfl
  rw [reported_toInt, extractAnalog_toInt, if_pos h,
    Int.tdiv_eq_ediv_of_nonneg (Int.mul_nonneg (Int.ediv_nonneg sign (by decide)) hw)]
  exact Int.bmod_eq_of_le_mul_two (by omega) (by omega)

/-! ## Words with the sign -/

/-- How far below `min` a negative word is taken. -/
def shortfall (it : Instance) (raw : Int16) : Int :=
  (32768 - (raw.toInt + 32768) / 16) * width it / 2047

theorem reported_of_neg {it : Instance} {raw : Int16} (range : it.min ≤ it.max)
    (h : ¬ 0 ≤ raw) :
    (reported it raw).toInt = (it.min.toInt - shortfall it raw).bmod (2 ^ 16) := by
  have word := raw.toInt_lt
  have hw := width_nonneg range
  have turn : ((raw.toInt + 32768) / 16 - 32768) * width it =
      -((32768 - (raw.toInt + 32768) / 16) * width it) := by
    rw [← Int.neg_mul]
    congr 1
    omega
  rw [reported_toInt, extractAnalog_toInt, if_neg h, turn, Int.neg_tdiv,
    Int.tdiv_eq_ediv_of_nonneg (Int.mul_nonneg (by omega) hw)]
  congr 1
  simp only [shortfall]
  omega

/-- Between the two ends of the scale the shortfall grows by one whole width. -/
theorem shortfall_full_scale (it : Instance) :
    shortfall it (-32768) = shortfall it (-1) + width it := by
  have split : 32768 * width it = 30721 * width it + width it * 2047 := by omega
  have low : shortfall it (-32768) = 32768 * width it / 2047 := rfl
  have high : shortfall it (-1) = 30721 * width it / 2047 := rfl
  rw [low, high, split, Int.add_mul_ediv_right _ _ (by decide)]

/-! ## Range and order -/

/-- Both words are reported inside the range, and in their order. -/
structure Scaled (it : Instance) (a b : Int16) : Prop where
  lower : it.min ≤ reported it a ∧ reported it a ≤ it.max
  upper : it.min ≤ reported it b ∧ reported it b ≤ it.max
  order : reported it a ≤ reported it b

theorem range_of_fromJson {j : InstanceJson} {it : Instance}
    (h : Instance.fromJson j = .ok it) : it.min ≤ it.max := by
  unfold Instance.fromJson at h
  obtain ⟨name, -, h⟩ := bind_eq_ok.mp h
  obtain ⟨min, -, h⟩ := bind_eq_ok.mp h
  obtain ⟨max, -, h⟩ := bind_eq_ok.mp h
  obtain ⟨ordered, h⟩ := throwIf_bind_eq_ok.mp h
  cases h
  exact Int16.not_lt.mp (of_decide_eq_false ordered)

theorem scaled_of_nonneg {it : Instance} {a b : Int16} (range : it.min ≤ it.max)
    (hab : a ≤ b) (h : 0 ≤ a) : Scaled it a b := by
  have inside : ∀ {raw : Int16}, 0 ≤ raw →
      it.min ≤ reported it raw ∧ reported it raw ≤ it.max := by
    intro raw hraw
    have sign := Int16.le_iff_toInt_le.mp hraw
    have word := raw.toInt_lt
    have hw := width_nonneg range
    have low := share_nonneg (n := raw.toInt / 16) (Int.ediv_nonneg sign (by decide)) hw
    have high : raw.toInt / 16 * width it / 2047 ≤ width it := share_le (by omega) hw
    have hwidth : width it = it.max.toInt - it.min.toInt := rfl
    rw [Int16.le_iff_toInt_le, Int16.le_iff_toInt_le, reported_of_nonneg range hraw]
    omega
  have hb : 0 ≤ b := Int16.le_trans h hab
  have steps := Int.ediv_le_ediv (c := 16) (by decide) (Int16.le_iff_toInt_le.mp hab)
  have shares := share_mono steps (width_nonneg range)
  refine ⟨inside h, inside hb, ?_⟩
  rw [Int16.le_iff_toInt_le, reported_of_nonneg range h, reported_of_nonneg range hb]
  omega

/-- Below a width of 3854 a shortfall never wraps round into the range. -/
theorem reported_outside {it : Instance} {raw : Int16} (range : it.min ≤ it.max)
    (wide : it.min ≠ it.max) (narrow : width it < 3854) (h : ¬ 0 ≤ raw) :
    ¬ (it.min ≤ reported it raw ∧ reported it raw ≤ it.max) := by
  have word := raw.le_toInt
  have sign : ¬ 0 ≤ raw.toInt := fun hr => h (Int16.le_iff_toInt_le.mpr hr)
  have hmin := it.min.le_toInt
  have hmax := it.max.toInt_lt
  have hwidth : width it = it.max.toInt - it.min.toInt := rfl
  have positive : 0 < width it := by
    have hw := width_nonneg range
    have hne : it.min.toInt ≠ it.max.toInt := fun he => wide (Int16.toInt_inj.mp he)
    omega
  have least : width it ≤ shortfall it raw := by
    have shrink : 2047 * width it ≤ (32768 - (raw.toInt + 32768) / 16) * width it :=
      Int.mul_le_mul_of_nonneg_right (by omega) (by omega)
    have divided := Int.ediv_le_ediv (c := 2047) (by decide) shrink
    rwa [Int.mul_ediv_cancel_left _ (by decide)] at divided
  have most : shortfall it raw * 2047 ≤ 32768 * width it := by
    have grow : (32768 - (raw.toInt + 32768) / 16) * width it ≤ 32768 * width it :=
      Int.mul_le_mul_of_nonneg_right (by omega) (by omega)
    have divided := Int.ediv_mul_le ((32768 - (raw.toInt + 32768) / 16) * width it)
      (b := 2047) (by decide)
    exact Int.le_trans divided grow
  rw [Int16.le_iff_toInt_le, Int16.le_iff_toInt_le, reported_of_neg range h]
  -- either `min - shortfall` fits and is below `min`, or it comes back above `max`
  by_cases fits : -32768 ≤ it.min.toInt - shortfall it raw
  case pos =>
    rw [Int.bmod_eq_of_le_mul_two (by omega) (by omega)]
    omega
  case neg =>
    rw [← Int.add_bmod_right, Int.bmod_eq_of_le_mul_two (by omega) (by omega)]
    omega

theorem reported_of_flat {it : Instance} (flat : it.min = it.max) (raw : Int16) :
    reported it raw = it.min := by
  have none : width it = 0 := by
    simp [width, flat]
  have hmin := it.min.le_toInt
  have hmax := it.min.toInt_lt
  rw [← Int16.toInt_inj, reported_toInt, none, Int.mul_zero, Int.zero_tdiv, Int.zero_add]
  exact Int.bmod_eq_of_le_mul_two (by omega) (by omega)

/-- A negative word that is in order with 0 came round to `min` exactly. -/
theorem shortfall_of_scaled {it : Instance} {raw : Int16} (range : it.min ≤ it.max)
    (h : ¬ 0 ≤ raw) (scaled : Scaled it raw 0) : shortfall it raw % 65536 = 0 := by
  have zero : (reported it 0).toInt = it.min.toInt := by
    rw [reported_of_nonneg range (by decide), Int16.toInt_zero, Int.zero_ediv, Int.zero_mul,
      Int.zero_ediv, Int.zero_add]
  have low := Int16.le_iff_toInt_le.mp scaled.lower.1
  have high := Int16.le_iff_toInt_le.mp scaled.order
  rw [zero] at high
  rw [reported_of_neg range h, Int.bmod_def] at low high
  have hmin := it.min.le_toInt
  have hmax := it.min.toInt_lt
  split at low <;> omega

theorem flat_of_scaled {it : Instance} (range : it.min ≤ it.max)
    (scaled : ∀ a b : Int16, a ≤ b → Scaled it a b) : it.min = it.max := by
  have bottom := shortfall_of_scaled range (by decide) (scaled (-32768) 0 (by decide))
  have top := shortfall_of_scaled range (by decide) (scaled (-1) 0 (by decide))
  have whole := shortfall_full_scale it
  have hw := width_nonneg range
  have hwidth : width it = it.max.toInt - it.min.toInt := rfl
  have hmin := it.min.le_toInt
  have hmax := it.max.toInt_lt
  exact Int16.toInt_inj.mp (by omega)

/-- The smallest range that is not flat. -/
def bit : InstanceJson := { name := some (str "Pump"), min := some 0, max := some 1 }

theorem scaled_of_flat {it : Instance} (same : it.min = it.max) (a b : Int16) :
    Scaled it a b := by
  constructor <;> simp [reported_of_flat same, same]

theorem scaled_of_sound {it : Instance} (range : it.min ≤ it.max) {a b : Int16}
    (hab : a ≤ b) (h : 0 ≤ a ∨ it.min = it.max) : Scaled it a b := by
  rcases h with h | h
  · exact scaled_of_nonneg range hab h
  · exact scaled_of_flat h a b

theorem scaled_iff_of_narrow {it : Instance} (range : it.min ≤ it.max)
    (narrow : width it < 3854) {a b : Int16} (hab : a ≤ b) :
    Scaled it a b ↔ 0 ≤ a ∨ it.min = it.max := by
  refine ⟨fun scaled => ?_, scaled_of_sound range hab⟩
  by_contra neither
  rcases not_or.mp neither with ⟨signed, wide⟩
  exact reported_outside range wide narrow signed scaled.lower

/--
A pair of words is scaled by every accepted instance exactly when neither has the
sign, and an instance scales every pair exactly when its range is a single value.
One of the two is enough for a single pair, and also necessary in a narrow range.
-/
theorem scaled_iff_unsigned {j : InstanceJson} {it : Instance}
    (accepted : Instance.fromJson j = .ok it) {a b : Int16} (hab : a ≤ b) :
    ((∀ j it, Instance.fromJson j = .ok it → Scaled it a b) ↔ 0 ≤ a) ∧
    ((∀ a b : Int16, a ≤ b → Scaled it a b) ↔ it.min = it.max) ∧
    (0 ≤ a ∨ it.min = it.max → Scaled it a b) ∧
    (width it < 3854 → (Scaled it a b ↔ 0 ≤ a ∨ it.min = it.max)) := by
  have range := range_of_fromJson accepted
  refine ⟨⟨fun scaled => ?_, fun h j it accepted => ?_⟩, ⟨fun scaled => ?_, fun same a b _ => ?_⟩,
    scaled_of_sound range hab, fun narrow => scaled_iff_of_narrow range narrow hab⟩
  · exact ((scaled_iff_of_narrow (by decide) (by decide) hab).mp
      (scaled bit _ rfl)).resolve_right (by decide)
  · exact scaled_of_nonneg (range_of_fromJson accepted) hab h
  · exact flat_of_scaled range scaled
  · exact scaled_of_flat same a b

theorem scaled_iff_unsigned_bit :
    Instance.fromJson bit = .ok ⟨str "Pump", 0, 1⟩ ∧
    Scaled ⟨str "Pump", 0, 1⟩ 0x1230 0x7ff0 ∧ ¬ Scaled ⟨str "Pump", 0, 1⟩ (-16) 0 := by
  have accepted : Instance.fromJson bit = .ok ⟨str "Pump", 0, 1⟩ := rfl
  have unsigned := scaled_iff_unsigned accepted (show (0x1230 : Int16) ≤ 0x7ff0 by decide)
  have signed := scaled_iff_unsigned accepted (show (-16 : Int16) ≤ 0 by decide)
  exact ⟨accepted, unsigned.2.2.1 (.inl (by decide)),
    fun scaled => absurd ((signed.2.2.2 (by decide)).mp scaled) (by decide)⟩

/-- 0 to 100: the word `-1` gives `-1500`. -/
theorem signed_word_not_scaled :
    ¬ ∀ (j : InstanceJson) (it : Instance), Instance.fromJson j = .ok it →
      ∀ a b : Int16, a ≤ b → Scaled it a b := by
  intro scaled
  have accepted : Instance.fromJson { name := some [], min := some 0, max := some 100 } =
      .ok ⟨[], 0, 100⟩ := rfl
  have broken := (scaled _ _ accepted (-1) 0 (by decide)).lower.1
  exact absurd broken (by decide)

end Rdbus.Communication.Wago
