import Mathlib.Algebra.Order.Ring.Abs
import Mathlib.Algebra.Order.Ring.Int
import Mathlib.Data.Int.ConditionallyCompleteOrder
import Mathlib.Tactic.Linarith
import Patchbay.Proofs.Single.Nearest
import Patchbay.Single.Arithmetic
/-!
# Arithmetic in units

In units every result is the exact one, rounded once (`units_ofInt`, `units_add`, `units_mul`).
Rounding is monotone and keeps what is on the grid, so a result lies between two values of the grid
whenever the exact one does (`le_rounded`, `rounded_le`).
-/

namespace Patchbay.Single

/-! ## Numbers and their units -/

/-- Neither infinite nor a NaN. -/
def Finite (x : Single) : Prop := x.magnitude < infinityMagnitude

theorem unitsPerOne_eq : unitsPerOne = 2 ^ 149 := Nat.one_shiftLeft 149

theorem unitsPerOne_pos : 0 < unitsPerOne := unitsPerOne_eq ▸ Nat.two_pow_pos 149

theorem unitsOf_zero : unitsOf 0 = 0 := by decide

theorem natAbs_units (x : Single) : x.units.natAbs = unitsOf x.magnitude := by
  unfold units
  split
  · rw [Int.natAbs_neg, Int.natAbs_natCast]
  · rw [Int.natAbs_natCast]

/-- The finite numbers lie below the infinities, and the NaNs above them. -/
theorem finite_iff (x : Single) : x.Finite ↔ x.units.natAbs < unitsOf infinityMagnitude := by
  rw [natAbs_units, Finite]
  exact unitsOf_strictMono.lt_iff_lt.symm

theorem Finite.not_isNaN {x : Single} (h : x.Finite) : x.isNaN = false :=
  decide_eq_false (Nat.lt_asymm h)

theorem Finite.not_isInfinite {x : Single} (h : x.Finite) : x.isInfinite = false :=
  decide_eq_false (Nat.ne_of_lt h)

section OfMagnitude

variable (negative : Bool) {magnitude : Nat} (h : magnitude ≤ infinityMagnitude)

include h

theorem toNat_bits_ofMagnitude :
    (ofMagnitude negative magnitude).bits.toNat =
      if negative then signBit + magnitude else magnitude := by
  have hlt : (if negative then signBit + magnitude else magnitude) < UInt32.size := by
    unfold infinityMagnitude at h
    unfold signBit UInt32.size
    split <;> omega
  exact UInt32.toNat_ofNat_of_lt' hlt

theorem magnitude_ofMagnitude : (ofMagnitude negative magnitude).magnitude = magnitude := by
  rw [Single.magnitude, toNat_bits_ofMagnitude negative h]
  unfold infinityMagnitude at h
  unfold signBit
  split <;> omega

theorem negative_ofMagnitude : (ofMagnitude negative magnitude).negative = negative := by
  rw [Single.negative, toNat_bits_ofMagnitude negative h]
  unfold infinityMagnitude at h
  unfold signBit
  cases negative with
  | true => exact decide_eq_true (Nat.le_add_right _ _)
  | false => exact decide_eq_false (by simp only [Bool.false_eq_true, if_false]; omega)

theorem units_ofMagnitude :
    (ofMagnitude negative magnitude).units =
      if negative then -(unitsOf magnitude : Int) else unitsOf magnitude := by
  rw [units, negative_ofMagnitude negative h, magnitude_ofMagnitude negative h]

end OfMagnitude

/-! ## Rounding on both sides of zero -/

/-- A function of the absolute value, with the sign given back. -/
def mirrored (f : Nat → Nat) (u : Int) : Int :=
  if u < 0 then -(f u.natAbs : Int) else f u.natAbs

theorem mirrored_mono {f : Nat → Nat} (hf : Monotone f) : Monotone (mirrored f) := by
  intro u v h
  unfold mirrored
  split <;> split
  · have := hf (show v.natAbs ≤ u.natAbs by omega)
    omega
  · omega
  · omega
  · have := hf (show u.natAbs ≤ v.natAbs by omega)
    omega

/-- The sign may also come from elsewhere, and stand before a zero. -/
theorem mirrored_of_sign {f : Nat → Nat} (hzero : f 0 = 0) (negative : Bool) (n : Nat) :
    mirrored f (if negative then -(n : Int) else n) = if negative then -(f n : Int) else f n := by
  cases negative with
  | false => rfl
  | true =>
    simp only [if_true, mirrored, Int.natAbs_neg, Int.natAbs_natCast]
    split
    · rfl
    · obtain rfl : n = 0 := by omega
      rw [hzero]
      rfl

/-- The units of the number nearest to `num / den` units. -/
def rounded (num : Int) (den : Nat) : Int := mirrored (fun n => unitsOf (nearest n den)) num

/-- The units of finite numbers. -/
def OnGrid (u : Int) : Prop :=
  ∃ magnitude < infinityMagnitude, u.natAbs = unitsOf magnitude

theorem Finite.onGrid {x : Single} (h : x.Finite) : OnGrid x.units :=
  ⟨x.magnitude, h, natAbs_units x⟩

/-- A whole number of 24 bits is on the grid at every place but the highest. -/
theorem onGrid_mul_two_pow {k : Int} (hk : k.natAbs ≤ 2 ^ 24) {shift : Nat} (hshift : shift ≤ 252) :
    OnGrid (k * 2 ^ shift) := by
  obtain ⟨magnitude, hle, hvalue⟩ := exists_unitsOf_eq shift (k := k.natAbs) hk
  refine ⟨magnitude, ?_, ?_⟩
  · have hplace : (shift + 2) * fractions ≤ 254 * fractions := Nat.mul_le_mul_right _ (by omega)
    exact Nat.lt_of_le_of_lt (Nat.le_trans hle hplace) (by decide)
  · rw [hvalue, Int.natAbs_mul, Int.natAbs_pow]
    rfl

theorem OnGrid.neg {u : Int} (h : OnGrid u) : OnGrid (-u) := by
  obtain ⟨magnitude, hlt, hvalue⟩ := h
  exact ⟨magnitude, hlt, by rw [Int.natAbs_neg, hvalue]⟩

/-- A number is finite if a finite one is as large. -/
theorem finite_of_abs_le {x : Single} {u : Int} (hu : OnGrid u) (h : |x.units| ≤ u) : x.Finite := by
  obtain ⟨magnitude, hlt, hvalue⟩ := hu
  have hunits : unitsOf magnitude < unitsOf infinityMagnitude := unitsOf_strictMono hlt
  rw [Int.abs_eq_natAbs] at h
  rw [finite_iff]
  omega

section Rounded

variable {num num' u : Int} {den : Nat}

theorem unitsOf_nearest_zero (hden : 0 < den) : unitsOf (nearest 0 den) = 0 := by
  have hkept := nearest_unitsOf hden (Nat.zero_le infinityMagnitude)
  rw [unitsOf_zero, Nat.zero_mul] at hkept
  rw [hkept, unitsOf_zero]

theorem rounded_of_sign (hden : 0 < den) (negative : Bool) (n : Nat) :
    rounded (if negative then -(n : Int) else n) den =
      if negative then -(unitsOf (nearest n den) : Int) else unitsOf (nearest n den) :=
  mirrored_of_sign (f := fun n => unitsOf (nearest n den)) (unitsOf_nearest_zero hden) negative n

theorem rounded_mono (hden : 0 < den) (h : num ≤ num') : rounded num den ≤ rounded num' den :=
  mirrored_mono (fun _ _ h => unitsOf_strictMono.monotone (nearest_mono hden h)) h

/-- What is on the grid is kept. -/
theorem rounded_of_onGrid (hden : 0 < den) (hu : OnGrid u) : rounded (u * den) den = u := by
  obtain ⟨magnitude, hlt, hvalue⟩ := hu
  have hden' : (0 : Int) < den := Int.natCast_pos.2 hden
  have hnearest : nearest (u * den).natAbs den = magnitude := by
    rw [Int.natAbs_mul, Int.natAbs_natCast, hvalue]
    exact nearest_unitsOf hden (Nat.le_of_lt hlt)
  rw [rounded, mirrored, hnearest, ← hvalue]
  split
  · have hneg : u < 0 := neg_of_mul_neg_left ‹_› (Int.le_of_lt hden')
    omega
  · have hpos : 0 ≤ u := nonneg_of_mul_nonneg_left (Int.not_lt.1 ‹_›) hden'
    omega

theorem le_rounded (hden : 0 < den) (hu : OnGrid u) (h : u * den ≤ num) : u ≤ rounded num den := by
  rw [← rounded_of_onGrid hden hu]
  exact rounded_mono hden h

theorem rounded_le (hden : 0 < den) (hu : OnGrid u) (h : num ≤ u * den) : rounded num den ≤ u := by
  rw [← rounded_of_onGrid hden hu]
  exact rounded_mono hden h

theorem abs_rounded_le (hden : 0 < den) (hu : OnGrid u) (h : |num| ≤ u * den) :
    |rounded num den| ≤ u := by
  obtain ⟨hlow, hhigh⟩ := abs_le.1 h
  refine abs_le.2 ⟨le_rounded hden hu.neg ?_, rounded_le hden hu hhigh⟩
  rwa [Int.neg_mul]

/-- What has its 24 bits from some place on is off by half a unit of this place at most. -/
theorem rounded_near (hden : 0 < den) {place : Nat} (hplace : place ≤ 252)
    (h : num.natAbs ≤ 2 ^ (24 + place) * den) :
    2 * (rounded num den * den) ≤ 2 * num + den * 2 ^ place ∧
      2 * num ≤ 2 * (rounded num den * den) + den * 2 ^ place := by
  obtain ⟨hbelow, habove⟩ := nearest_near_of_le hden hplace h
  zify at hbelow habove
  unfold rounded mirrored
  split
  · rw [abs_of_neg ‹_›] at hbelow habove
    constructor <;> linarith
  · rw [abs_of_nonneg (Int.not_lt.1 ‹_›)] at hbelow habove
    exact ⟨hbelow, habove⟩

end Rounded

/-! ## Sums and products -/

theorem units_ofInt (i : Int) : (ofInt i).units = rounded (i * unitsPerOne) 1 := by
  have hexact : i * unitsPerOne =
      if decide (i < 0) then -((i.natAbs * unitsPerOne : Nat) : Int)
      else (i.natAbs * unitsPerOne : Nat) := by
    rcases Int.lt_or_le i 0 with hneg | hpos
    · rw [if_pos (decide_eq_true hneg), Int.natCast_mul, ← Int.neg_mul]
      congr 1
      omega
    · rw [if_neg (by simpa using hpos), Int.natCast_mul]
      congr 1
      omega
  rw [ofInt, units_ofMagnitude _ (nearest_le_infinityMagnitude _ _), hexact,
    rounded_of_sign Nat.one_pos]

/-- A whole number of up to 31 bits is off by 64 at most. -/
theorem units_ofInt_near {i : Int} (h : |i| ≤ 2 ^ 31) :
    |(ofInt i).units - i * unitsPerOne| ≤ 64 * unitsPerOne := by
  rw [Int.abs_eq_natAbs] at h
  have hsize : (i * unitsPerOne).natAbs ≤ 2 ^ (24 + 156) * 1 := by
    rw [unitsPerOne_eq]
    omega
  have hnear := rounded_near Nat.one_pos (by decide) hsize
  rw [← units_ofInt] at hnear
  rw [unitsPerOne_eq] at hnear ⊢
  rw [abs_le]
  omega

/-- A whole number of 24 bits is taken as it is. -/
theorem units_ofInt_of_natAbs_le {i : Int} (h : i.natAbs ≤ 2 ^ 24) :
    (ofInt i).units = i * unitsPerOne := by
  have hgrid : OnGrid (i * unitsPerOne) := by
    rw [unitsPerOne_eq]
    exact onGrid_mul_two_pow h (by decide)
  have hkept := rounded_of_onGrid Nat.one_pos hgrid
  rwa [Int.natCast_one, Int.mul_one, ← units_ofInt] at hkept

/-- A power of two is on the grid as a number of ones. -/
theorem onGrid_two_pow {n : Nat} (hn : n ≤ 103) : OnGrid (2 ^ n * unitsPerOne) := by
  have hone := onGrid_mul_two_pow (k := 1) (by decide) (show n + 149 ≤ 252 by omega)
  rwa [Int.one_mul, Int.pow_add] at hone

theorem abs_units_ofInt_le {i : Int} {n : Nat} (hn : n ≤ 103) (h : |i| ≤ 2 ^ n) :
    |(ofInt i).units| ≤ 2 ^ n * unitsPerOne := by
  rw [units_ofInt]
  refine abs_rounded_le Nat.one_pos (onGrid_two_pow hn) ?_
  rw [Int.natCast_one, Int.mul_one, abs_mul, abs_of_nonneg (Int.natCast_nonneg _)]
  exact Int.mul_le_mul_of_nonneg_right h (Int.natCast_nonneg _)

theorem finite_ofInt {i : Int} {n : Nat} (hn : n ≤ 103) (h : |i| ≤ 2 ^ n) : (ofInt i).Finite :=
  finite_of_abs_le (onGrid_two_pow hn) (abs_units_ofInt_le hn h)

section Operations

variable {x y : Single} (hx : x.Finite) (hy : y.Finite)

include hx hy

theorem units_add : (x + y).units = rounded (x.units + y.units) 1 := by
  change (add x y).units = _
  unfold add
  rw [hx.not_isNaN, hy.not_isNaN, hx.not_isInfinite, hy.not_isInfinite]
  simp only [Bool.or_self, Bool.false_eq_true, if_false]
  split
  · rename_i hzero
    have hround : rounded 0 1 = 0 := by decide
    rw [zero, units_ofMagnitude _ (Nat.zero_le _), hzero, unitsOf_zero, hround]
    split <;> rfl
  · rw [units_ofMagnitude _ (nearest_le_infinityMagnitude _ _), rounded, mirrored]
    simp only [decide_eq_true_eq]

theorem units_mul : (x * y).units = rounded (x.units * y.units) unitsPerOne := by
  have hexact : x.units * y.units =
      if x.negative != y.negative then -((unitsOf x.magnitude * unitsOf y.magnitude : Nat) : Int)
      else (unitsOf x.magnitude * unitsOf y.magnitude : Nat) := by
    unfold units
    cases x.negative <;> cases y.negative <;> simp
  change (mul x y).units = _
  unfold mul
  rw [hx.not_isNaN, hy.not_isNaN, hx.not_isInfinite, hy.not_isInfinite]
  simp only [Bool.or_self, Bool.false_eq_true, if_false]
  rw [units_ofMagnitude _ (nearest_le_infinityMagnitude _ _), hexact,
    rounded_of_sign unitsPerOne_pos]

end Operations

theorem units_half : half.units = 2 ^ 148 := by decide +kernel

theorem finite_half : half.Finite := by unfold Finite; decide +kernel

/-- Halving is exact, except for the least numbers. -/
theorem units_mul_half {x : Single} (hx : x.Finite) (hone : unitsPerOne ≤ x.units.natAbs) :
    2 * (x * half).units = x.units := by
  have hunits := natAbs_units x
  have hmagnitude : 2 * fractions ≤ x.magnitude := by
    refine unitsOf_strictMono.le_iff_le.1 (Nat.le_trans ?_ (hunits ▸ hone))
    decide +kernel
  have hdouble : unitsOf x.magnitude = 2 * unitsOf (x.magnitude - fractions) := by
    rw [← unitsOf_add_fractions (by omega), Nat.sub_add_cancel (by omega)]
  obtain ⟨u, hu⟩ : ∃ u, x.units = 2 * u := ⟨x.units / 2, by omega⟩
  have hgrid : OnGrid u :=
    ⟨x.magnitude - fractions, Nat.lt_of_le_of_lt (Nat.sub_le _ _) hx, by omega⟩
  have hexact : x.units * half.units = u * unitsPerOne := by
    rw [hu, units_half, unitsPerOne_eq]
    push_cast
    ring
  rw [units_mul hx finite_half, hexact, rounded_of_onGrid unitsPerOne_pos hgrid, hu]

/-! ## Whole numbers -/

/-- The whole number nearest to so many units, a half rounded up. -/
def wholes (n : Nat) : Nat := (2 * n + unitsPerOne) / (2 * unitsPerOne)

theorem wholes_mono : Monotone wholes :=
  fun _ _ h => Nat.div_le_div_right (Nat.add_le_add_right (Nat.mul_le_mul_left 2 h) _)

/-- Of halves. -/
theorem wholes_mul_half (n : Nat) : wholes (n * 2 ^ 148) = (n + 1) / 2 := by
  have hnum : 2 * (n * 2 ^ 148) + 2 ^ 149 = 2 ^ 149 * (n + 1) := by ring
  rw [wholes, unitsPerOne_eq, hnum, Nat.mul_comm 2, Nat.mul_div_mul_left _ _ (Nat.two_pow_pos 149)]

theorem mirrored_wholes_mul_half (n : Int) :
    mirrored wholes (n * 2 ^ 148) = mirrored (fun n => (n + 1) / 2) n := by
  have hneg : n * 2 ^ 148 < 0 ↔ n < 0 := by omega
  have habs : (n * 2 ^ 148).natAbs = n.natAbs * 2 ^ 148 := by
    rw [Int.natAbs_mul]
    rfl
  simp only [mirrored, habs, wholes_mul_half, hneg]

theorem mirrored_wholes_mul (k : Int) : mirrored wholes (k * unitsPerOne) = k := by
  have hhalves : k * unitsPerOne = 2 * k * 2 ^ 148 := by
    rw [unitsPerOne_eq]
    push_cast
    ring
  rw [hhalves, mirrored_wholes_mul_half, mirrored]
  split <;> omega

section Whole

variable {x : Single} (hx : x.isNaN = false) {k : Int}

include hx

theorem trunc_eq : x.trunc = x.units.tdiv unitsPerOne := by
  rw [trunc, hx, if_neg Bool.false_ne_true]

theorem le_trunc (h : k * unitsPerOne ≤ x.units) : k ≤ x.trunc := by
  have hpos : (0 : Int) < unitsPerOne := Int.natCast_pos.2 unitsPerOne_pos
  rw [trunc_eq hx, ← Int.mul_tdiv_cancel k (Int.ne_of_gt hpos)]
  exact Int.tdiv_le_tdiv hpos h

theorem trunc_le (h : x.units ≤ k * unitsPerOne) : x.trunc ≤ k := by
  have hpos : (0 : Int) < unitsPerOne := Int.natCast_pos.2 unitsPerOne_pos
  rw [trunc_eq hx, ← Int.mul_tdiv_cancel k (Int.ne_of_gt hpos)]
  exact Int.tdiv_le_tdiv hpos h

theorem trunc_mono {y : Single} (hy : y.isNaN = false) (h : x.units ≤ y.units) :
    x.trunc ≤ y.trunc := by
  rw [trunc_eq hx, trunc_eq hy]
  exact Int.tdiv_le_tdiv (Int.natCast_pos.2 unitsPerOne_pos) h

theorem roundHalfAway_eq : x.roundHalfAway = mirrored wholes x.units := by
  have hzero : wholes 0 = 0 := by decide
  rw [roundHalfAway, hx, if_neg Bool.false_ne_true, units, mirrored_of_sign hzero]
  rfl

theorem le_roundHalfAway (h : k * unitsPerOne ≤ x.units) : k ≤ x.roundHalfAway := by
  rw [roundHalfAway_eq hx, ← mirrored_wholes_mul k]
  exact mirrored_mono wholes_mono h

theorem roundHalfAway_le (h : x.units ≤ k * unitsPerOne) : x.roundHalfAway ≤ k := by
  rw [roundHalfAway_eq hx, ← mirrored_wholes_mul k]
  exact mirrored_mono wholes_mono h

theorem roundHalfAway_mono {y : Single} (hy : y.isNaN = false) (h : x.units ≤ y.units) :
    x.roundHalfAway ≤ y.roundHalfAway := by
  rw [roundHalfAway_eq hx, roundHalfAway_eq hy]
  exact mirrored_mono wholes_mono h

end Whole

/-! ## Clipping -/

theorem units_one : one.units = unitsPerOne := by decide +kernel

theorem units_minusOne : minusOne.units = -unitsPerOne := by decide +kernel

theorem clip_of_isNaN {x : Single} (hx : x.isNaN = true) : x.clip = zero false := by
  rw [clip, if_pos hx]

theorem units_clip {x : Single} (hx : x.isNaN = false) :
    x.clip.units = max (-(unitsPerOne : Int)) (min unitsPerOne x.units) := by
  have hpos : (0 : Int) < unitsPerOne := Int.natCast_pos.2 unitsPerOne_pos
  unfold clip
  rw [hx, units_one, units_minusOne]
  simp only [Bool.false_eq_true, if_false]
  split_ifs
  · rw [units_minusOne]
    omega
  · rw [units_one]
    omega
  · omega

theorem natAbs_units_clip_le (x : Single) : x.clip.units.natAbs ≤ unitsPerOne := by
  cases hx : x.isNaN with
  | true =>
    rw [clip_of_isNaN hx]
    exact Nat.zero_le _
  | false =>
    rw [units_clip hx]
    omega

theorem finite_clip (x : Single) : x.clip.Finite := by
  have hone : unitsPerOne < unitsOf infinityMagnitude := by decide +kernel
  exact (finite_iff _).2 (Nat.lt_of_le_of_lt (natAbs_units_clip_le x) hone)

theorem units_clip_mono {x y : Single} (hx : x.isNaN = false) (hy : y.isNaN = false)
    (h : x.units ≤ y.units) : x.clip.units ≤ y.clip.units := by
  rw [units_clip hx, units_clip hy]
  exact max_le_max_left _ (min_le_min_left _ h)

section ClipMul

variable {x x' y : Single} (hy : y.Finite) (hpos : 0 ≤ y.units)

include hy hpos

/-- A clipped number times a factor stays within the factor. -/
theorem abs_units_clip_mul_le : |(x.clip * y).units| ≤ y.units := by
  rw [units_mul (finite_clip x) hy]
  refine abs_rounded_le unitsPerOne_pos hy.onGrid ?_
  have hclip : |x.clip.units| ≤ unitsPerOne := by
    rw [Int.abs_eq_natAbs]
    exact Int.ofNat_le.2 (natAbs_units_clip_le x)
  rw [abs_mul, abs_of_nonneg hpos, Int.mul_comm]
  exact Int.mul_le_mul_of_nonneg_left hclip hpos

theorem finite_clip_mul : (x.clip * y).Finite :=
  finite_of_abs_le hy.onGrid (abs_units_clip_mul_le hy hpos)

theorem units_clip_mul_mono (h : x.clip.units ≤ x'.clip.units) :
    (x.clip * y).units ≤ (x'.clip * y).units := by
  rw [units_mul (finite_clip x) hy, units_mul (finite_clip x') hy]
  exact rounded_mono unitsPerOne_pos (Int.mul_le_mul_of_nonneg_right h hpos)

end ClipMul

end Patchbay.Single
