import Patchbay.Proofs.Sample.Convert
/-!
# Silence, converted and declared

A silent sample is a zero of either sign or a NaN. In a symmetric range it is converted to the
declared silence. In a biased one the middle of an odd span is rounded up from zero on, where the
declared silence is rounded down, so the two are one apart; beyond 24 bits single precision sets
them further apart (`convert_of_isSilent`).
-/

namespace Patchbay

/-- A zero of either sign or a NaN. -/
def Single.IsSilent (x : Single) : Prop := x.isNaN = true ∨ x.magnitude = 0

theorem Single.IsSilent.units_clip {x : Single} (h : x.IsSilent) : x.clip.units = 0 := by
  rcases h with hnan | hzero
  · rw [clip_of_isNaN hnan]
    decide
  · have hunits := natAbs_units x
    have hnumber : x.isNaN = false := by
      rw [isNaN, hzero]
      rfl
    rw [hzero, unitsOf_zero] at hunits
    rw [Single.units_clip hnumber]
    omega

namespace SampleRange

open Single

/-- How much a silent sample is converted to above the declared silence: half a step is rounded
away from zero, and not down. -/
def silenceGap : SampleRange → Int
  | .biased low high => if (high - low) % 2 = 1 ∧ 0 ≤ low + high then 1 else 0
  | .signed _ => 0

theorem silence_biased {low high : Int} (hvalid : low < high) :
    (biased low high).silence = (low + high) / 2 := by
  rw [silence, Int.tdiv_eq_ediv_of_nonneg (by omega)]
  omega

/-! ## The center of a biased range -/

section Biased

variable {low high : Int} (hvalid : (biased low high).Valid) (hfits : (biased low high).Fits32)

include hvalid hfits

/-- The center is off by 224 at most. -/
theorem units_center_near :
    |2 * (center (.biased low high)).units - (low + high) * unitsPerOne| ≤ 448 * unitsPerOne := by
  have hvalid' : low < high := hvalid
  obtain ⟨hleast, hgreatest, hspan⟩ := id hfits
  have hlow : |low| ≤ 2 ^ 31 := abs_le.2 ⟨hleast, by omega⟩
  have hlength : |high - low| ≤ 2 ^ 31 := by
    rw [abs_of_pos (by omega)]
    omega
  have hscale := units_scale_biased hvalid' hspan
  have hscaleBounds := scale_bounds hvalid hfits
  have hlowBounds := abs_le.1 (abs_units_ofInt_le (show 31 ≤ 103 by decide) hlow)
  have hlowNear := abs_le.1 (units_ofInt_near hlow)
  have hlengthNear := abs_le.1 (units_ofInt_near hlength)
  have hsize : ((ofInt low).units + (scale (.biased low high)).units).natAbs ≤
      2 ^ (24 + 157) * 1 := by
    rw [unitsPerOne_eq] at hscaleBounds hlowBounds
    omega
  have hnear := rounded_near Nat.one_pos (by decide) hsize
  have hfinite : (scale (.biased low high)).Finite := finite_scale hvalid hfits
  rw [← units_add (finite_ofInt (by decide) hlow) hfinite] at hnear
  change |2 * (ofInt low + scale (.biased low high)).units - _| ≤ _
  rw [unitsPerOne_eq] at hlowNear hlengthNear ⊢
  rw [abs_le]
  omega

end Biased

/-! ## What silent samples are converted to -/

section Silent

variable {x : Single} (hx : x.IsSilent)

include hx

theorem convert_signed_of_isSilent {fullScale : Int} (hvalid : (signed fullScale).Valid)
    (hfits : (signed fullScale).Fits32) : (signed fullScale).convert x = 0 := by
  have hscale : (scale (.signed fullScale)).Finite := finite_scale hvalid hfits
  have hposition : (position (.signed fullScale) x).units = 0 := by
    change (x.clip * scale (.signed fullScale)).units = 0
    rw [units_mul (finite_clip x) hscale, hx.units_clip, Int.zero_mul]
    decide +kernel
  have hnumber := (finite_position hvalid hfits x).not_isNaN
  rw [convert_eq, settle, trunc_eq hnumber, hposition, Int.zero_tdiv]
  decide

section Biased

variable {low high : Int} (hvalid : (biased low high).Valid) (hfits : (biased low high).Fits32)

include hvalid hfits

/-- The position of a silent sample is the center. -/
theorem units_position_of_isSilent :
    (position (.biased low high) x).units = (center (.biased low high)).units := by
  have hscale : (scale (.biased low high)).Finite := finite_scale hvalid hfits
  have hcenter : (center (.biased low high)).Finite := finite_center hvalid hfits
  have hproduct : (x.clip * scale (.biased low high)).units = 0 := by
    rw [units_mul (finite_clip x) hscale, hx.units_clip, Int.zero_mul]
    decide +kernel
  have hkept := rounded_of_onGrid Nat.one_pos hcenter.onGrid
  rw [Int.natCast_one, Int.mul_one] at hkept
  rw [units_position_biased hvalid hfits rfl, hproduct, Int.add_zero]
  exact hkept

/-- With 24 bits only the last step rounds. -/
theorem roundHalfAway_position_of_narrow (hnarrow : (biased low high).Narrow) :
    (position (.biased low high) x).roundHalfAway =
      mirrored (fun n => (n + 1) / 2) (low + high) := by
  rw [roundHalfAway_eq (finite_position hvalid hfits x).not_isNaN,
    units_position_of_isSilent hx hvalid hfits, units_center_of_narrow hvalid hnarrow,
    mirrored_wholes_mul_half]

theorem roundHalfAway_position_near :
    (low + high) / 2 - 224 ≤ (position (.biased low high) x).roundHalfAway ∧
      (position (.biased low high) x).roundHalfAway ≤ (low + high) / 2 + 225 := by
  have hnumber := (finite_position hvalid hfits x).not_isNaN
  have hnear := abs_le.1 (units_center_near hvalid hfits)
  rw [← units_position_of_isSilent hx hvalid hfits, unitsPerOne_eq] at hnear
  refine ⟨le_roundHalfAway hnumber ?_, roundHalfAway_le hnumber ?_⟩
  · rw [unitsPerOne_eq]
    omega
  · rw [unitsPerOne_eq]
    omega

end Biased

end Silent

/-- A silent sample is converted to the declared silence in a symmetric range. In a biased one it is
so up to a gap, which is as declared up to 24 bits and 256 at most beyond. -/
theorem convert_of_isSilent {r : SampleRange} (hvalid : r.Valid) (hfits : r.Fits32) {x : Single}
    (hx : x.IsSilent) :
    (∀ fullScale, r = .signed fullScale → r.convert x = r.silence) ∧
      (r.Narrow → r.convert x = r.silence + r.silenceGap) ∧
      |r.convert x - r.silence| ≤ 256 ∧
      ∀ y : Single, y.IsSilent → r.convert y = r.convert x := by
  have hsame : ∀ y : Single, y.IsSilent → r.convert y = r.convert x := by
    intro y hy
    exact convert_congr hvalid hfits (hy.units_clip.trans hx.units_clip.symm)
  cases r with
  | signed fullScale =>
    have hsilent : (signed fullScale).convert x = (signed fullScale).silence :=
      convert_signed_of_isSilent hx hvalid hfits
    refine ⟨fun _ _ => hsilent, fun _ => ?_, ?_, hsame⟩
    · rw [hsilent, silenceGap, Int.add_zero]
    · rw [hsilent, Int.sub_self]
      decide
  | biased low high =>
    obtain ⟨hnearLow, hnearHigh⟩ := roundHalfAway_position_near hx hvalid hfits
    have hlt : low < high := hvalid
    refine ⟨fun _ h => (nomatch h), fun hnarrow => ?_, ?_, hsame⟩
    · have hround := roundHalfAway_position_of_narrow hx hvalid hfits hnarrow
      obtain ⟨hlow, hhigh⟩ := hnarrow
      rw [convert_eq, settle, hround, silence_biased hlt, silenceGap, saturate32_eq, mirrored]
      split_ifs <;> omega
    · obtain ⟨hlow, hhigh, hspan⟩ := hfits
      rw [convert_eq, settle, silence_biased hlt, saturate32_eq, abs_le]
      omega

/-- An odd duty cycle. -/
theorem convert_of_isSilent_odd :
    (pwm 1023).Valid ∧ (pwm 1023).Fits32 ∧ (pwm 1023).Narrow ∧ Single.nan.IsSilent ∧
      (pwm 1023).convert Single.nan = (pwm 1023).silence + 1 ∧
      (pwm 1023).convert (Single.zero true) = (pwm 1023).convert Single.nan := by
  have hvalid : (pwm 1023).Valid := by decide
  have hfits : (pwm 1023).Fits32 := by decide
  have hnarrow : (pwm 1023).Narrow := ⟨by decide, by decide⟩
  have hsilent : Single.nan.IsSilent := .inl (by decide)
  have hzero : (Single.zero true).IsSilent := .inr (by decide)
  obtain ⟨-, hgap, -, hsame⟩ := convert_of_isSilent hvalid hfits hsilent
  exact ⟨hvalid, hfits, hnarrow, hsilent, hgap hnarrow, hsame _ hzero⟩

/-- A silent sample is not converted to the declared silence. -/
theorem convert_zero_ne_silence :
    (pwm 1023).Valid ∧ (pwm 1023).Fits32 ∧ (pwm 1023).convert (Single.zero false) = 512 ∧
      (pwm 1023).silence = 511 := by
  decide +kernel

end SampleRange

end Patchbay
