import Patchbay.Proofs.Sample.Convert
import Patchbay.Proofs.Sample.Stored
/-!
# Converted samples and the bounds of their range

In a biased range the result is kept within the bounds. In a symmetric one nothing keeps it there,
and the greatest member is rounded to 24 bits before a sample is multiplied by it: where it is
rounded up, full scale is converted to a value outside the range (`convert_mem_iff`).
-/

namespace Patchbay.SampleRange

open Single

/-- The factor of a symmetric range is not above its greatest member. -/
def ScaleKept : SampleRange → Prop
  | .biased _ _ => True
  | .signed fullScale => (Single.ofInt fullScale).units ≤ fullScale * unitsPerOne

section Signed

variable {fullScale : Int} (hvalid : 0 < fullScale) (hfits : fullScale < 2 ^ 31)

include hvalid hfits

/-- The product with a sample is as large as the factor at most. -/
theorem abs_units_position_signed_le (sample : Single) :
    |(position (.signed fullScale) sample).units| ≤ (ofInt fullScale).units :=
  abs_units_clip_mul_le (finite_scale (r := .signed fullScale) hvalid hfits)
    (scale_bounds (r := .signed fullScale) hvalid hfits).1

theorem units_position_minusOne :
    (position (.signed fullScale) minusOne).units = -(ofInt fullScale).units := by
  have hfinite : (ofInt fullScale).Finite := finite_scale (r := .signed fullScale) hvalid hfits
  have hclip : minusOne.clip.units = -(unitsPerOne : Int) := by decide +kernel
  change (minusOne.clip * ofInt fullScale).units = _
  rw [units_mul (finite_clip _) hfinite, hclip, Int.neg_mul, Int.mul_comm, ← Int.neg_mul]
  exact rounded_of_onGrid unitsPerOne_pos hfinite.onGrid.neg

/-- A factor that is rounded up is a whole number of ones. -/
theorem exists_units_eq_of_not_scaleKept (h : ¬ScaleKept (.signed fullScale)) :
    ∃ q : Int, fullScale < q ∧ q ≤ 2 ^ 31 ∧ (ofInt fullScale).units = q * unitsPerOne := by
  have habove : fullScale * unitsPerOne < (ofInt fullScale).units := Int.not_le.1 h
  have hle : (ofInt fullScale).units ≤ 2 ^ 31 * unitsPerOne :=
    (scale_bounds (r := .signed fullScale) hvalid hfits).2
  have hunits := natAbs_units (ofInt fullScale)
  have hlarge : 2 ^ 24 < fullScale := by
    by_contra hsmall
    rw [units_ofInt_of_natAbs_le (by omega)] at habove
    exact absurd habove (Int.lt_irrefl _)
  rw [unitsPerOne_eq] at habove hle ⊢
  have hdvd : 2 ^ 149 ∣ unitsOf (ofInt fullScale).magnitude := two_pow_dvd_unitsOf (by omega)
  obtain ⟨q, hq⟩ := hdvd
  exact ⟨q, by omega, by omega, by omega⟩

/-- Then full scale below zero is converted to less than the least member. -/
theorem convert_minusOne_lt (h : ¬ScaleKept (.signed fullScale)) :
    (signed fullScale).convert minusOne < -fullScale := by
  obtain ⟨q, habove, hle, hunits⟩ := exists_units_eq_of_not_scaleKept hvalid hfits h
  have hfinite := finite_position (r := .signed fullScale) hvalid hfits minusOne
  have htrunc : (position (.signed fullScale) minusOne).trunc = -q := by
    have hposition := units_position_minusOne hvalid hfits
    rw [hunits, ← Int.neg_mul] at hposition
    exact le_antisymm (trunc_le hfinite.not_isNaN (le_of_eq hposition))
      (le_trunc hfinite.not_isNaN (ge_of_eq hposition))
  rw [convert_eq, settle, htrunc, saturate32_of_mem (by omega) (by omega)]
  omega

/-- A bound on the factor bounds what samples are converted to. -/
theorem convert_signed_bounds {bound : Int}
    (h : (ofInt fullScale).units ≤ bound * unitsPerOne) (sample : Single) :
    -bound ≤ (signed fullScale).convert sample ∧ (signed fullScale).convert sample ≤ bound := by
  have hnumber := (finite_position (r := .signed fullScale) hvalid hfits sample).not_isNaN
  obtain ⟨hlow, hhigh⟩ := abs_le.1 (abs_units_position_signed_le hvalid hfits sample)
  have hleast : -bound ≤ (position (.signed fullScale) sample).trunc := by
    refine le_trunc hnumber ?_
    rw [Int.neg_mul]
    omega
  have hgreatest : (position (.signed fullScale) sample).trunc ≤ bound :=
    trunc_le hnumber (Int.le_trans hhigh h)
  rw [convert_eq, settle, saturate32_eq]
  omega

end Signed

/-- Samples are converted to members of a range exactly if the range is biased or its greatest
member is not rounded up as the factor of the samples; up to 24 bits it is not. Otherwise a result
misses the range by 64 at most. -/
theorem convert_mem_iff {r : SampleRange} (hvalid : r.Valid) (hfits : r.Fits32) :
    ((∀ sample, r.convert sample ∈ r) ↔ r.ScaleKept) ∧
      (r.high ≤ 2 ^ 24 → r.ScaleKept) ∧
      ∀ sample, r.low - 64 ≤ r.convert sample ∧ r.convert sample ≤ r.high + 64 := by
  cases r with
  | biased low high =>
    have hmem := convert_biased_mem (Int.le_of_lt (show low < high from hvalid))
    refine ⟨⟨fun _ => trivial, fun _ => hmem⟩, fun _ => trivial, fun sample => ?_⟩
    obtain ⟨hlow, hhigh⟩ := hmem sample
    omega
  | signed fullScale =>
    have hfits : fullScale < 2 ^ 31 := hfits
    have hvalid : 0 < fullScale := hvalid
    refine ⟨⟨?_, fun h => convert_signed_bounds hvalid hfits h⟩, ?_, fun sample => ?_⟩
    · intro hmem
      by_contra h
      exact absurd (hmem minusOne).1 (Int.not_le.2 (convert_minusOne_lt hvalid hfits h))
    · intro hsmall
      have hsmall : fullScale ≤ 2 ^ 24 := hsmall
      exact le_of_eq (units_ofInt_of_natAbs_le (by omega))
    · have habs : |fullScale| ≤ 2 ^ 31 := by
        rw [abs_of_pos hvalid]
        exact Int.le_of_lt hfits
      have hnear := (abs_le.1 (units_ofInt_near habs)).2
      have hfactor : (ofInt fullScale).units ≤ (fullScale + 64) * unitsPerOne := by
        rw [Int.add_mul]
        omega
      have hbounds := convert_signed_bounds hvalid hfits hfactor sample
      rwa [Int.neg_add] at hbounds

/-- A range in which full scale is rounded up. -/
theorem convert_mem_iff_wide :
    (signed 16777219).Valid ∧ (signed 16777219).Fits32 ∧ ¬(signed 16777219).ScaleKept ∧
      (∀ sample, -16777283 ≤ (signed 16777219).convert sample ∧
        (signed 16777219).convert sample ≤ 16777283) ∧
      ¬∀ sample, (signed 16777219).convert sample ∈ signed 16777219 := by
  have hvalid : (signed 16777219).Valid := by decide
  have hfits : (signed 16777219).Fits32 := by decide
  have hrounded : ¬(signed 16777219).ScaleKept := by unfold ScaleKept; decide +kernel
  obtain ⟨hiff, -, hbounds⟩ := convert_mem_iff hvalid hfits
  exact ⟨hvalid, hfits, hrounded, hbounds, fun hmem => hrounded (hiff.1 hmem)⟩

/-- Full scale is converted to a value outside the range. -/
theorem convert_one_not_mem :
    (signed 16777219).Valid ∧ (signed 16777219).Fits32 ∧
      (signed 16777219).convert one = 16777220 ∧
      (signed 16777219).convert one ∉ signed 16777219 := by
  decide +kernel

end Patchbay.SampleRange
