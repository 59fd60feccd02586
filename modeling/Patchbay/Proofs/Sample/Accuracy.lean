import Mathlib.Data.Rat.Floor
import Patchbay.Proofs.Sample.Convert
import Patchbay.Proofs.Sample.Stored
/-!
# Accuracy of converted samples

A range up to 24 bits is hit as exactly as whole numbers allow: a sample is converted to one of the
two whole numbers around its exact position, larger samples to no smaller ones, and full scale to
the bounds (`faithful_of_narrow`). The ranges of the devices are such ranges, and their members are
stored as they are (`convert_devices`).
-/

namespace Patchbay

/-- The value of a number. An infinity counts as `2 ^ 128`. -/
def Single.value (x : Single) : ℚ := x.units / Single.unitsPerOne

namespace Single

theorem units_eq_value (x : Single) : (x.units : ℚ) = x.value * unitsPerOne := by
  have hpos : (unitsPerOne : ℚ) ≠ 0 := Nat.cast_ne_zero.2 (Nat.ne_of_gt unitsPerOne_pos)
  rw [value, div_mul_cancel₀ _ hpos]

theorem units_le_iff {x y : Single} : x.units ≤ y.units ↔ x.value ≤ y.value := by
  have hpos : (0 : ℚ) < unitsPerOne := Nat.cast_pos.2 unitsPerOne_pos
  rw [← Int.cast_le (R := ℚ), units_eq_value, units_eq_value]
  exact mul_le_mul_iff_left₀ hpos

theorem value_of_units {x : Single} {k : Int} (h : x.units = k * unitsPerOne) : x.value = k := by
  have hpos : (unitsPerOne : ℚ) ≠ 0 := Nat.cast_ne_zero.2 (Nat.ne_of_gt unitsPerOne_pos)
  rw [value, h, Int.cast_mul, Int.cast_natCast, mul_div_cancel_right₀ _ hpos]

theorem value_infinity (negative : Bool) :
    (infinity negative).value = ((if negative then -2 ^ 128 else 2 ^ 128 : Int) : ℚ) := by
  cases negative with
  | false => exact value_of_units (by decide +kernel)
  | true => exact value_of_units (by decide +kernel)

theorem value_clip {x : Single} (hx : x.isNaN = false) :
    x.clip.value = max (-1) (min 1 x.value) := by
  have hpos : (0 : ℚ) < unitsPerOne := Nat.cast_pos.2 unitsPerOne_pos
  rw [value, value, units_clip hx]
  push_cast
  rw [← max_div_div_right hpos.le, ← min_div_div_right hpos.le, neg_div, div_self hpos.ne']

theorem value_clip_mem (x : Single) : -1 ≤ x.clip.value ∧ x.clip.value ≤ 1 := by
  cases hx : x.isNaN with
  | true =>
    have hzero : (zero false).value = (0 : Int) := value_of_units (by decide +kernel)
    rw [clip_of_isNaN hx, hzero]
    norm_num
  | false =>
    rw [value_clip hx]
    exact ⟨le_max_left _ _, max_le (by norm_num) (min_le_left _ _)⟩

end Single

namespace SampleRange

open Single

/-- The exact position of a sample of a given value. -/
def ideal : SampleRange → ℚ → ℚ
  | .biased low high, a => (low + high) / 2 + a * ((high - low) / 2)
  | .signed fullScale, a => a * fullScale

theorem low_le_high {r : SampleRange} (hvalid : r.Valid) : r.low ≤ r.high := by
  cases r with
  | signed fullScale => exact Int.le_of_lt (Int.neg_lt_self_iff.2 hvalid)
  | biased low high => exact Int.le_of_lt hvalid

/-- The exact position of a clipped sample lies within the bounds. -/
theorem ideal_mem {r : SampleRange} (hvalid : r.Valid) {a : ℚ} (ha : -1 ≤ a ∧ a ≤ 1) :
    (r.low : ℚ) ≤ r.ideal a ∧ r.ideal a ≤ r.high := by
  cases r with
  | signed fullScale =>
    have hpos : (0 : ℚ) < fullScale := Int.cast_pos.2 hvalid
    simp only [ideal, low, high]
    push_cast
    constructor <;> nlinarith
  | biased low high =>
    have hspan : (low : ℚ) < high := Int.cast_lt.2 hvalid
    simp only [ideal, SampleRange.low, SampleRange.high]
    constructor <;> nlinarith

/-! ## Whole numbers on either side -/

/-- Twice the exact position in units. -/
def twiceIdeal : SampleRange → Single → Int
  | .biased low high, x => (low + high) * unitsPerOne + x.units * (high - low)
  | .signed fullScale, x => 2 * (x.units * fullScale)

theorem twiceIdeal_eq (r : SampleRange) (x : Single) :
    (r.twiceIdeal x : ℚ) = 2 * r.ideal x.value * unitsPerOne := by
  cases r with
  | signed fullScale =>
    simp only [twiceIdeal, ideal]
    push_cast
    rw [units_eq_value]
    ring
  | biased low high =>
    simp only [twiceIdeal, ideal]
    push_cast
    rw [units_eq_value]
    ring

section Whole

variable {r : SampleRange} {x : Single} {k : Int}

theorem le_twiceIdeal_iff : 2 * (k * unitsPerOne) ≤ r.twiceIdeal x ↔ (k : ℚ) ≤ r.ideal x.value := by
  have hpos : (0 : ℚ) < unitsPerOne := Nat.cast_pos.2 unitsPerOne_pos
  rw [← Int.cast_le (R := ℚ), twiceIdeal_eq]
  push_cast
  rw [← mul_assoc, mul_le_mul_iff_left₀ hpos, mul_le_mul_iff_right₀ two_pos]

theorem twiceIdeal_le_iff : r.twiceIdeal x ≤ 2 * (k * unitsPerOne) ↔ r.ideal x.value ≤ k := by
  have hpos : (0 : ℚ) < unitsPerOne := Nat.cast_pos.2 unitsPerOne_pos
  rw [← Int.cast_le (R := ℚ), twiceIdeal_eq]
  push_cast
  rw [← mul_assoc, mul_le_mul_iff_left₀ hpos, mul_le_mul_iff_right₀ two_pos]

end Whole

/-- The position that single precision gives to an exact one, if nothing else is rounded. -/
def roundedIdeal : SampleRange → Int → Int
  | .biased low high, t =>
    rounded ((low + high) * 2 ^ 148 +
      rounded ((t - (low + high) * unitsPerOne) * 2 ^ 148) unitsPerOne) 1
  | .signed _, t => rounded (t * 2 ^ 148) unitsPerOne

theorem roundedIdeal_mono (r : SampleRange) : Monotone r.roundedIdeal := by
  intro t u h
  cases r with
  | signed fullScale =>
    exact rounded_mono unitsPerOne_pos (Int.mul_le_mul_of_nonneg_right h (by decide))
  | biased low high =>
    refine rounded_mono Nat.one_pos (Int.add_le_add_left ?_ _)
    refine rounded_mono unitsPerOne_pos ?_
    exact Int.mul_le_mul_of_nonneg_right (Int.sub_le_sub_right h _) (by decide)

section Narrow

variable {r : SampleRange} (hvalid : r.Valid) (hnarrow : r.Narrow)

include hvalid hnarrow

theorem units_position_of_narrow (x : Single) :
    (r.position x).units = r.roundedIdeal (r.twiceIdeal x.clip) := by
  cases r with
  | signed fullScale =>
    have hfinite : (ofInt fullScale).Finite := finite_scale hvalid hnarrow.fits32
    have hpos : 0 < fullScale := hvalid
    have hbits : fullScale ≤ 2 ^ 24 := hnarrow
    change (x.clip * ofInt fullScale).units = _
    rw [units_mul (finite_clip x) hfinite, units_ofInt_of_natAbs_le (by omega), roundedIdeal,
      twiceIdeal, unitsPerOne_eq]
    congr 1
    push_cast
    ring
  | biased low high =>
    have hfinite : (scale (.biased low high)).Finite := finite_scale hvalid hnarrow.fits32
    rw [units_position_biased hvalid hnarrow.fits32 rfl, units_center_of_narrow hvalid hnarrow,
      units_mul (finite_clip x) hfinite, units_scale_of_narrow hvalid hnarrow, roundedIdeal,
      twiceIdeal, add_sub_cancel_left]
    congr 3
    ring

/-- Whole members are kept. -/
theorem roundedIdeal_of_mem {k : Int} (hk : k ∈ r) :
    r.roundedIdeal (2 * (k * unitsPerOne)) = k * unitsPerOne := by
  have hone : unitsPerOne = 2 ^ 149 := unitsPerOne_eq
  cases r with
  | signed fullScale =>
    obtain ⟨hlow, hhigh⟩ : -fullScale ≤ k ∧ k ≤ fullScale := hk
    have hbits : fullScale ≤ 2 ^ 24 := hnarrow
    have hgrid : OnGrid (k * unitsPerOne) := by
      rw [hone]
      exact onGrid_mul_two_pow (by omega) (by decide)
    have hexact : 2 * (k * unitsPerOne) * 2 ^ 148 = k * (unitsPerOne : Int) * unitsPerOne := by
      rw [hone]
      push_cast
      ring
    rw [roundedIdeal, hexact, rounded_of_onGrid unitsPerOne_pos hgrid]
  | biased low high =>
    obtain ⟨hlow, hhigh⟩ : low ≤ k ∧ k ≤ high := hk
    obtain ⟨hleast, hgreatest⟩ : -2 ^ 23 ≤ low ∧ high ≤ 2 ^ 23 := hnarrow
    have hgrid : OnGrid ((2 * k - (low + high)) * 2 ^ 148) :=
      onGrid_mul_two_pow (by omega) (by decide)
    have hgrid' : OnGrid (k * unitsPerOne) := by
      rw [hone]
      exact onGrid_mul_two_pow (by omega) (by decide)
    have hproduct : (2 * (k * unitsPerOne) - (low + high) * unitsPerOne) * 2 ^ 148 =
        (2 * k - (low + high)) * 2 ^ 148 * (unitsPerOne : Int) := by ring
    have hsum : (low + high) * 2 ^ 148 + (2 * k - (low + high)) * 2 ^ 148 =
        k * (unitsPerOne : Int) * (1 : Nat) := by
      rw [hone]
      push_cast
      ring
    rw [roundedIdeal, hproduct, rounded_of_onGrid unitsPerOne_pos hgrid, hsum,
      rounded_of_onGrid Nat.one_pos hgrid']

/-- What is exactly at a member or above it is converted to no less. -/
theorem le_convert {k : Int} (hk : k ∈ r) {x : Single} (h : (k : ℚ) ≤ r.ideal x.clip.value) :
    k ≤ r.convert x := by
  have hposition := r.roundedIdeal_mono (le_twiceIdeal_iff.2 h)
  rw [roundedIdeal_of_mem hvalid hnarrow hk, ← units_position_of_narrow hvalid hnarrow] at hposition
  rw [convert_eq]
  exact le_settle hnarrow.fits32 hk (finite_position hvalid hnarrow.fits32 x) hposition

theorem convert_le {k : Int} (hk : k ∈ r) {x : Single} (h : r.ideal x.clip.value ≤ k) :
    r.convert x ≤ k := by
  have hposition := r.roundedIdeal_mono (twiceIdeal_le_iff.2 h)
  rw [roundedIdeal_of_mem hvalid hnarrow hk, ← units_position_of_narrow hvalid hnarrow] at hposition
  rw [convert_eq]
  exact settle_le hnarrow.fits32 hk (finite_position hvalid hnarrow.fits32 x) hposition

theorem convert_mem_of_narrow (x : Single) : r.convert x ∈ r := by
  obtain ⟨hlow, hhigh⟩ := ideal_mem hvalid (value_clip_mem x)
  have hbounds := low_le_high hvalid
  exact ⟨le_convert hvalid hnarrow ⟨Int.le_refl _, hbounds⟩ hlow,
    convert_le hvalid hnarrow ⟨hbounds, Int.le_refl _⟩ hhigh⟩

/-- A result is one of the whole numbers around the exact position. -/
theorem convert_near (x : Single) : |(r.convert x : ℚ) - r.ideal x.clip.value| < 1 := by
  obtain ⟨hlow, hhigh⟩ := ideal_mem hvalid (value_clip_mem x)
  have hfloor : ⌊r.ideal x.clip.value⌋ ∈ r :=
    ⟨Int.le_floor.2 hlow, Int.cast_le.1 ((Int.floor_le _).trans hhigh)⟩
  have hceil : ⌈r.ideal x.clip.value⌉ ∈ r :=
    ⟨Int.cast_le.1 (hlow.trans (Int.le_ceil _)), Int.ceil_le.2 hhigh⟩
  have hbelow : (⌊r.ideal x.clip.value⌋ : ℚ) ≤ r.convert x :=
    Int.cast_le.2 (le_convert hvalid hnarrow hfloor (Int.floor_le _))
  have habove : (r.convert x : ℚ) ≤ ⌈r.ideal x.clip.value⌉ :=
    Int.cast_le.2 (convert_le hvalid hnarrow hceil (Int.le_ceil _))
  rw [abs_sub_lt_iff]
  constructor
  · linarith [Int.ceil_lt_add_one (r.ideal x.clip.value)]
  · linarith [Int.lt_floor_add_one (r.ideal x.clip.value)]

theorem convert_eq_of_ideal_eq {k : Int} (hk : k ∈ r) {x : Single}
    (h : r.ideal x.clip.value = k) : r.convert x = k :=
  le_antisymm (convert_le hvalid hnarrow hk (le_of_eq h))
    (le_convert hvalid hnarrow hk (ge_of_eq h))

end Narrow

/-- Conversion follows an exact map of values: it is monotone, takes full scale and beyond to the
bounds, and is off by less than one. -/
structure Faithful (r : SampleRange) (exact : ℚ → ℚ) : Prop where
  mono : ∀ {a b : Single}, a.isNaN = false → b.isNaN = false → a.value ≤ b.value →
    r.convert a ≤ r.convert b
  low : ∀ {a : Single}, a.isNaN = false → a.value ≤ -1 → r.convert a = r.low
  high : ∀ {a : Single}, a.isNaN = false → 1 ≤ a.value → r.convert a = r.high
  near : ∀ {a : Single}, a.isNaN = false → |a.value| ≤ 1 →
    |(r.convert a : ℚ) - exact a.value| < 1

theorem faithful_of_narrow {r : SampleRange} (hvalid : r.Valid) (hnarrow : r.Narrow) :
    r.Faithful r.ideal := by
  have hbounds := low_le_high hvalid
  refine ⟨fun ha hb h => ?_, fun ha h => ?_, fun ha h => ?_, fun {a} ha h => ?_⟩
  · exact convert_mono hvalid hnarrow.fits32 (units_clip_mono ha hb (units_le_iff.2 h))
  · refine convert_eq_of_ideal_eq hvalid hnarrow ⟨Int.le_refl _, hbounds⟩ ?_
    rw [value_clip ha, min_eq_right (h.trans (by norm_num)), max_eq_left h]
    cases r <;> simp only [ideal, low] <;> push_cast <;> ring
  · refine convert_eq_of_ideal_eq hvalid hnarrow ⟨hbounds, Int.le_refl _⟩ ?_
    rw [value_clip ha, min_eq_left h, max_eq_right (by norm_num)]
    cases r <;> simp only [ideal, high] <;> ring
  · obtain ⟨hlow, hhigh⟩ := abs_le.1 h
    have hclip : a.clip.value = a.value := by
      rw [value_clip ha, min_eq_right hhigh, max_eq_right hlow]
    rw [← hclip]
    exact convert_near hvalid hnarrow a

/-! ## The ranges of the devices -/

theorem narrow_signed16 : signed16.Narrow := show (32767 : Int) ≤ 2 ^ 24 by decide

theorem narrow_pwm (maxDuty : UInt16) : (pwm maxDuty).Narrow := by
  have hwidth := maxDuty.toNat_lt
  exact ⟨by decide, by omega⟩

theorem toInt_store_signed16 (sample : Single) :
    (signed16.store sample : Int16).toInt = signed16.convert sample := by
  obtain ⟨hlow, hhigh⟩ : -32767 ≤ signed16.convert sample ∧ signed16.convert sample ≤ 32767 :=
    convert_mem_of_narrow (by decide) narrow_signed16 sample
  exact Int16.toInt_ofInt_of_le (by omega) (by omega)

/-- Signed 16-bit samples and the duty cycles of any PWM channel follow the exact values to within
one, and are stored as they are. -/
theorem convert_devices :
    (signed16.Faithful (fun a => a * 32767) ∧
      ∀ sample, (signed16.store sample : Int16).toInt = signed16.convert sample) ∧
    ∀ maxDuty : UInt16, 0 < maxDuty →
      (pwm maxDuty).Faithful (fun a => (maxDuty.toNat : ℚ) / 2 + a * maxDuty.toNat / 2) ∧
      ∀ sample, ((pwm maxDuty).store sample : UInt16).toNat = (pwm maxDuty).convert sample := by
  refine ⟨⟨?_, toInt_store_signed16⟩, fun maxDuty hpos => ⟨?_, fun sample => ?_⟩⟩
  · exact faithful_of_narrow (by decide) narrow_signed16
  · have hvalid : (pwm maxDuty).Valid := by
      have hpos := UInt16.lt_iff_toNat_lt.1 hpos
      exact Int.natCast_pos.2 hpos
    have hideal : (pwm maxDuty).ideal =
        fun a => (maxDuty.toNat : ℚ) / 2 + a * maxDuty.toNat / 2 := by
      funext a
      simp only [pwm, ideal]
      push_cast
      ring
    rw [← hideal]
    exact faithful_of_narrow hvalid (narrow_pwm maxDuty)
  · exact toNat_ofInt_of_mem_pwm (convert_pwm_mem maxDuty sample)

/-- An odd duty, a sample between two of its members and samples beyond full scale. -/
theorem convert_devices_odd :
    (0 : UInt16) < 1023 ∧ half.isNaN = false ∧ half.value = 1 / 2 ∧
      |((pwm 1023).convert half : ℚ) - (1023 / 2 + half.value * 1023 / 2)| < 1 ∧
      (pwm 1023).convert (infinity true) = 0 ∧ (pwm 1023).convert (infinity false) = 1023 := by
  have hpos : (0 : UInt16) < 1023 := by decide
  have hhalf : half.value = 1 / 2 := by
    rw [value, units_half, unitsPerOne_eq]
    norm_num
  have hwithin : |half.value| ≤ 1 := by
    rw [hhalf]
    norm_num
  have hbelow : (infinity true).value ≤ -1 := by
    rw [value_infinity]
    norm_num
  have habove : 1 ≤ (infinity false).value := by
    rw [value_infinity]
    norm_num
  obtain ⟨-, hpwm⟩ := convert_devices
  obtain ⟨hfaithful, -⟩ := hpwm 1023 hpos
  exact ⟨hpos, by decide, hhalf, hfaithful.near (by decide) hwithin,
    hfaithful.low (by decide) hbelow, hfaithful.high (by decide) habove⟩

end SampleRange

end Patchbay
