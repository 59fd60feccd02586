import Patchbay.Proofs.Single.Units
import Patchbay.Sample.Range
/-!
# Conversion into a range

A sample is placed in a range (`position`) and the position is made a whole number. Both steps are
monotone, and all that is read of a sample are its units after clipping.
-/

namespace Patchbay.SampleRange

open Single

/-- The bounds are signed 32-bit integers, and so is the distance between those of a biased
range. -/
def Fits32 : SampleRange → Prop
  | .biased low high => -2 ^ 31 ≤ low ∧ high < 2 ^ 31 ∧ high - low < 2 ^ 31
  | .signed fullScale => fullScale < 2 ^ 31

instance : (r : SampleRange) → Decidable r.Fits32
  | .biased low high =>
    inferInstanceAs (Decidable (-2 ^ 31 ≤ low ∧ high < 2 ^ 31 ∧ high - low < 2 ^ 31))
  | .signed fullScale => inferInstanceAs (Decidable (fullScale < 2 ^ 31))

/-! ## The position of a sample -/

/-- The factor of the samples. -/
def scale : SampleRange → Single
  | .biased low high => Single.ofInt (high - low) * Single.half
  | .signed fullScale => Single.ofInt fullScale

/-- The position of silence. -/
def center : SampleRange → Single
  | .biased low high => Single.ofInt low + Single.ofInt (high - low) * Single.half
  | .signed _ => Single.zero false

/-- A position in a range made a member of it. -/
def settle : SampleRange → Single → Int
  | .biased low high, x => max low (min high (saturate32 x.roundHalfAway))
  | .signed _, x => saturate32 x.trunc

/-- The position of a sample. -/
def position : SampleRange → Single → Single
  | .biased low high, sample => center (.biased low high) + sample.clip * scale (.biased low high)
  | .signed fullScale, sample => sample.clip * scale (.signed fullScale)

theorem convert_eq (r : SampleRange) (sample : Single) :
    r.convert sample = r.settle (r.position sample) := by
  cases r <;> rfl

theorem saturate32_mono : Monotone saturate32 :=
  fun _ _ h => max_le_max_left _ (min_le_min_left _ h)

theorem saturate32_eq (i : Int) : saturate32 i = max (-2 ^ 31) (min (2 ^ 31 - 1) i) := by
  have hleast : Int32.minValue.toInt = -2 ^ 31 := by decide
  have hgreatest : Int32.maxValue.toInt = 2 ^ 31 - 1 := by decide
  rw [saturate32, hleast, hgreatest]

theorem saturate32_of_mem {i : Int} (hlow : -2 ^ 31 ≤ i) (hhigh : i < 2 ^ 31) :
    saturate32 i = i := by
  rw [saturate32_eq]
  omega

/-! ## Bounds on what is computed -/

theorem units_ofInt_nonneg {i : Int} (h : 0 ≤ i) : 0 ≤ (ofInt i).units := by
  rw [units_ofInt]
  refine le_rounded Nat.one_pos ⟨0, by decide, unitsOf_zero.symm⟩ ?_
  rw [Int.zero_mul]
  exact Int.mul_nonneg h (Int.natCast_nonneg _)

/-- The factor of a biased range is half the span as a single-precision number. -/
theorem units_scale_biased {low high : Int} (hvalid : low < high) (hspan : high - low < 2 ^ 31) :
    2 * (scale (.biased low high)).units = (ofInt (high - low)).units := by
  have habs : |high - low| ≤ 2 ^ 31 := by
    rw [abs_of_pos (by omega)]
    omega
  refine units_mul_half (finite_ofInt (by decide) habs) ?_
  have hone : (unitsPerOne : Int) ≤ (ofInt (high - low)).units := by
    rw [units_ofInt]
    refine le_rounded Nat.one_pos ?_ ?_
    · have hgrid := onGrid_two_pow (show 0 ≤ 103 by decide)
      rwa [pow_zero, Int.one_mul] at hgrid
    · rw [Int.natCast_one, Int.mul_one]
      exact le_mul_of_one_le_left (Int.natCast_nonneg _) (by omega)
  omega

section Fitting

variable {r : SampleRange} (hvalid : r.Valid) (hfits : r.Fits32)

include hvalid hfits

/-- The factor is not negative, and so small that no result overflows. -/
theorem scale_bounds : 0 ≤ r.scale.units ∧ r.scale.units ≤ 2 ^ 31 * unitsPerOne := by
  have hwhole : ∀ i : Int, 0 ≤ i → i < 2 ^ 31 →
      0 ≤ (ofInt i).units ∧ (ofInt i).units ≤ 2 ^ 31 * unitsPerOne := by
    intro i hpos hlt
    refine ⟨units_ofInt_nonneg hpos, (abs_le.1 (abs_units_ofInt_le (by decide) ?_)).2⟩
    rw [abs_of_nonneg hpos]
    exact Int.le_of_lt hlt
  cases r with
  | signed fullScale => exact hwhole fullScale (Int.le_of_lt hvalid) hfits
  | biased low high =>
    obtain ⟨-, -, hspan⟩ := hfits
    obtain ⟨hpos, hle⟩ := hwhole (high - low) (Int.le_of_lt (Int.sub_pos_of_lt hvalid)) hspan
    have hhalf := units_scale_biased hvalid hspan
    omega

theorem finite_scale : r.scale.Finite := by
  obtain ⟨hpos, hle⟩ := scale_bounds hvalid hfits
  refine finite_of_abs_le (onGrid_two_pow (show 31 ≤ 103 by decide)) ?_
  rwa [abs_of_nonneg hpos]

theorem abs_center_le : |r.center.units| ≤ 2 ^ 32 * unitsPerOne := by
  cases r with
  | signed fullScale =>
    have hzero : (center (.signed fullScale)).units = 0 := by
      change (Single.zero false).units = 0
      decide +kernel
    rw [hzero, abs_zero]
    exact Int.mul_nonneg (by decide) (Int.natCast_nonneg _)
  | biased low high =>
    have hlow : |low| ≤ 2 ^ 31 := by
      obtain ⟨hleast, hgreatest, -⟩ := hfits
      have hvalid : low < high := hvalid
      exact abs_le.2 ⟨hleast, by omega⟩
    obtain ⟨hpos, hle⟩ := scale_bounds hvalid hfits
    have hsum := abs_units_ofInt_le (show 31 ≤ 103 by decide) hlow
    change |(ofInt low + scale (.biased low high)).units| ≤ _
    rw [units_add (finite_ofInt (by decide) hlow) (finite_scale hvalid hfits)]
    refine abs_rounded_le Nat.one_pos (onGrid_two_pow (by decide)) ?_
    rw [abs_le] at hsum ⊢
    omega

theorem finite_center : r.center.Finite :=
  finite_of_abs_le (onGrid_two_pow (show 32 ≤ 103 by decide)) (abs_center_le hvalid hfits)

theorem units_position_biased {low high : Int} (hr : r = .biased low high) (sample : Single) :
    (r.position sample).units =
      rounded (r.center.units + (sample.clip * r.scale).units) 1 := by
  obtain ⟨hpos, -⟩ := scale_bounds hvalid hfits
  have hproduct := finite_clip_mul (x := sample) (finite_scale hvalid hfits) hpos
  have hsum := units_add (finite_center hvalid hfits) hproduct
  subst hr
  exact hsum

theorem finite_position (sample : Single) : (r.position sample).Finite := by
  obtain ⟨hpos, hle⟩ := scale_bounds hvalid hfits
  have hfinite := finite_scale hvalid hfits
  cases hr : r with
  | signed fullScale =>
    subst hr
    exact finite_clip_mul hfinite hpos
  | biased low high =>
    rw [← hr]
    refine finite_of_abs_le (onGrid_two_pow (show 33 ≤ 103 by decide)) ?_
    rw [units_position_biased hvalid hfits hr]
    refine abs_rounded_le Nat.one_pos (onGrid_two_pow (by decide)) ?_
    have hcenter := abs_center_le hvalid hfits
    have hproduct := abs_units_clip_mul_le (x := sample) hfinite hpos
    rw [abs_le] at hcenter hproduct ⊢
    omega

/-- A larger sample is not placed lower. -/
theorem units_position_mono {a b : Single} (h : a.clip.units ≤ b.clip.units) :
    (r.position a).units ≤ (r.position b).units := by
  have hproduct := units_clip_mul_mono (finite_scale hvalid hfits) (scale_bounds hvalid hfits).1 h
  cases hr : r with
  | signed fullScale =>
    subst hr
    exact hproduct
  | biased low high =>
    rw [← hr, units_position_biased hvalid hfits hr, units_position_biased hvalid hfits hr]
    exact rounded_mono Nat.one_pos (Int.add_le_add_left hproduct _)

end Fitting

/-! ## Ranges without rounding -/

/-- The bounds, their sum and their distance have 24 bits at most. -/
def Narrow : SampleRange → Prop
  | .biased low high => -2 ^ 23 ≤ low ∧ high ≤ 2 ^ 23
  | .signed fullScale => fullScale ≤ 2 ^ 24

theorem Narrow.fits32 {r : SampleRange} (h : r.Narrow) : r.Fits32 := by
  cases r with
  | biased low high =>
    obtain ⟨hlow, hhigh⟩ := h
    exact ⟨by omega, by omega, by omega⟩
  | signed fullScale => exact lt_of_le_of_lt h (by decide)

section Narrow

variable {low high : Int} (hvalid : low < high) (hnarrow : (biased low high).Narrow)

include hvalid hnarrow

theorem units_scale_of_narrow : (scale (.biased low high)).units = (high - low) * 2 ^ 148 := by
  obtain ⟨hlow, hhigh⟩ := hnarrow
  have hhalf := units_scale_biased hvalid (by omega)
  rw [units_ofInt_of_natAbs_le (by omega), unitsPerOne_eq] at hhalf
  omega

theorem units_center_of_narrow : (center (.biased low high)).units = (low + high) * 2 ^ 148 := by
  have hscale := units_scale_of_narrow hvalid hnarrow
  have hfinite : (scale (.biased low high)).Finite := finite_scale hvalid hnarrow.fits32
  obtain ⟨hlow, hhigh⟩ := hnarrow
  have hbits : low.natAbs ≤ 2 ^ 24 := by omega
  have habs : |low| ≤ 2 ^ 31 := by
    rw [Int.abs_eq_natAbs]
    omega
  have hsum : low * unitsPerOne + (high - low) * 2 ^ 148 = (low + high) * 2 ^ 148 := by
    rw [unitsPerOne_eq]
    omega
  have hkept := rounded_of_onGrid Nat.one_pos
    (onGrid_mul_two_pow (k := low + high) (by omega) (show 148 ≤ 252 by decide))
  change (ofInt low + scale (.biased low high)).units = _
  rw [units_add (finite_ofInt (by decide) habs) hfinite, hscale, units_ofInt_of_natAbs_le hbits,
    hsum]
  rwa [Int.natCast_one, Int.mul_one] at hkept

end Narrow

/-! ## Members of the range -/

theorem settle_mono (r : SampleRange) {x y : Single} (hx : x.Finite) (hy : y.Finite)
    (h : x.units ≤ y.units) : r.settle x ≤ r.settle y := by
  cases r with
  | signed fullScale => exact saturate32_mono (trunc_mono hx.not_isNaN hy.not_isNaN h)
  | biased low high =>
    have hround := saturate32_mono (roundHalfAway_mono hx.not_isNaN hy.not_isNaN h)
    exact max_le_max_left _ (min_le_min_left _ hround)

section Settle

variable {r : SampleRange} (hfits : r.Fits32) {k : Int} (hk : k ∈ r)

include hfits hk

theorem saturate32_of_mem_range : saturate32 k = k := by
  cases r with
  | signed fullScale =>
    obtain ⟨hlow, hhigh⟩ : -fullScale ≤ k ∧ k ≤ fullScale := hk
    have hfits : fullScale < 2 ^ 31 := hfits
    exact saturate32_of_mem (by omega) (by omega)
  | biased low high =>
    obtain ⟨hlow, hhigh⟩ : low ≤ k ∧ k ≤ high := hk
    obtain ⟨hleast, hgreatest, -⟩ := hfits
    exact saturate32_of_mem (by omega) (by omega)

variable {x : Single} (hx : x.Finite)

include hx

theorem le_settle (h : k * unitsPerOne ≤ x.units) : k ≤ r.settle x := by
  have hsaturate := saturate32_of_mem_range hfits hk
  cases r with
  | signed fullScale =>
    have hround := saturate32_mono (le_trunc hx.not_isNaN h)
    rwa [hsaturate] at hround
  | biased low high =>
    have hround := saturate32_mono (le_roundHalfAway hx.not_isNaN h)
    rw [hsaturate] at hround
    exact le_max_of_le_right (le_min hk.2 hround)

theorem settle_le (h : x.units ≤ k * unitsPerOne) : r.settle x ≤ k := by
  have hsaturate := saturate32_of_mem_range hfits hk
  cases r with
  | signed fullScale =>
    have hround := saturate32_mono (trunc_le hx.not_isNaN h)
    rwa [hsaturate] at hround
  | biased low high =>
    have hround := saturate32_mono (roundHalfAway_le hx.not_isNaN h)
    rw [hsaturate] at hround
    exact max_le hk.1 (min_le_of_right_le hround)

end Settle

section Fitting

variable {r : SampleRange} (hvalid : r.Valid) (hfits : r.Fits32) {a b : Single}

include hvalid hfits

/-- A larger sample gives no smaller member. -/
theorem convert_mono (h : a.clip.units ≤ b.clip.units) : r.convert a ≤ r.convert b := by
  rw [convert_eq, convert_eq]
  exact settle_mono r (finite_position hvalid hfits a) (finite_position hvalid hfits b)
    (units_position_mono hvalid hfits h)

/-- Samples that are clipped to the same value give the same member. -/
theorem convert_congr (h : a.clip.units = b.clip.units) : r.convert a = r.convert b :=
  le_antisymm (convert_mono hvalid hfits (le_of_eq h)) (convert_mono hvalid hfits (ge_of_eq h))

end Fitting

end Patchbay.SampleRange
