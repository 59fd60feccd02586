import Patchbay.Proofs.Single.Units
import Patchbay.Single.Text
/-!
# Between two neighbours

What lies between the values of two neighbouring magnitudes is rounded to the nearer of them, and
from halfway to the even one (`nearest_between`). So a decimal that reads back as a magnitude, which
is a comparison with the two midpoints around it, is rounded to this magnitude
(`ofDecimal_of_readsBack`).
-/

namespace Patchbay.Single

/-- The lower or the upper of two neighbours, by the side of their midpoint on which a number lies.
From the midpoint itself it is the even one. -/
def sided (lower : Nat) : Ordering → Nat
  | .lt => lower
  | .eq => lower + lower % 2
  | .gt => lower + 1

theorem sided_le (lower : Nat) (side : Ordering) : sided lower side ≤ lower + 1 := by
  cases side
  · exact Nat.le_succ lower
  · exact Nat.add_le_add_left (Nat.le_of_lt_succ (Nat.mod_lt _ Nat.two_pos)) lower
  · exact Nat.le_refl _

/-- The same neighbours, counted from an even number. -/
theorem add_sided {start : Nat} (h : start % 2 = 0) (lower : Nat) (side : Ordering) :
    start + sided lower side = sided (start + lower) side := by
  cases side <;> simp only [sided] <;> omega

section Between

variable {num den : Nat}

theorem roundHalfEven_between {k : Nat} (hlow : k * den ≤ num) (hhigh : num < (k + 1) * den) :
    roundHalfEven num den = sided k (compare (2 * num) ((2 * k + 1) * den)) := by
  have hquotient : num / den = k := Nat.div_eq_of_lt_le hlow hhigh
  have hrest : k * den + num % den = num := by
    rw [← hquotient, Nat.mul_comm]
    exact Nat.div_add_mod num den
  have hmiddle : (2 * k + 1) * den = 2 * (k * den) + den := by ring
  unfold roundHalfEven
  simp only [hquotient, hmiddle]
  split_ifs with hbelow habove
  · rw [Nat.compare_eq_lt.2 (by omega), sided]
  · rw [Nat.compare_eq_gt.2 (by omega), sided]
  · rw [Nat.compare_eq_eq.2 (by omega), sided]

/-- Rounding between two neighbours. -/
theorem nearest_between (hden : 0 < den) {magnitude : Nat} (h : magnitude < infinityMagnitude)
    (hlow : unitsOf magnitude * den ≤ num) (hhigh : num ≤ unitsOf (magnitude + 1) * den) :
    nearest num den =
      sided magnitude (compare (2 * num)
        ((unitsOf magnitude + unitsOf (magnitude + 1)) * den)) := by
  have hstep : unitsOf magnitude < unitsOf (magnitude + 1) :=
    unitsOf_strictMono (Nat.lt_succ_self magnitude)
  rcases Nat.eq_or_lt_of_le hhigh with rfl | hlt
  · have habove : (unitsOf magnitude + unitsOf (magnitude + 1)) * den <
        2 * (unitsOf (magnitude + 1) * den) := by
      have := Nat.mul_lt_mul_of_pos_right hstep hden
      rw [Nat.add_mul]
      omega
    rw [nearest_unitsOf hden (Nat.succ_le_of_lt h), Nat.compare_eq_gt.2 habove, sided]
  · obtain ⟨shift, k, rfl, hk, hlead⟩ := exists_shift magnitude
    have hnext : unitsOf (shift * fractions + k + 1) = (k + 1) <<< shift := by
      rw [Nat.add_assoc]
      exact unitsOf_shift (Nat.succ_le_of_lt hk) (hlead.imp_right Nat.le_succ_of_le)
    rw [unitsOf_shift (Nat.le_of_lt hk) hlead] at hlow ⊢
    rw [hnext] at hlt ⊢
    -- Both neighbours keep their bits from the same place on, so the number does too.
    have hplace : lastPlace num den = shift := by
      apply Nat.le_antisymm
      · refine lastPlace_le hden (Nat.lt_of_lt_of_le hlt (Nat.mul_le_mul_right _ ?_))
        rw [Nat.shiftLeft_eq, Nat.pow_add]
        exact Nat.mul_le_mul_right _ hk
      · rw [← lastPlace_shift hden hk hlead]
        exact lastPlace_mono hlow
    have hscale : ∀ n, n <<< shift * den = n * den <<< shift := by
      intro n
      rw [Nat.shiftLeft_eq, Nat.shiftLeft_eq]
      ring
    have hmiddle : (k <<< shift + (k + 1) <<< shift) * den = (2 * k + 1) * den <<< shift := by
      rw [Nat.add_mul, hscale, hscale]
      ring
    rw [hscale] at hlow hlt
    have hkept := roundHalfEven_between hlow hlt
    have heven : shift * fractions % 2 = 0 := by
      unfold fractions
      omega
    rw [nearest_eq, keptBits, hplace, roundHalfEven_between hlow hlt, add_sided heven, hmiddle]
    exact Nat.min_eq_left (Nat.le_trans (sided_le _ _) h)

end Between

/-! ## Decimals that read back -/

section ReadsBack

variable {magnitude : Nat} {d : Decimal}

theorem powTen_pos (n : Nat) : 0 < powTen n := Nat.pow_pos (by decide)

/-- The value decides whether a decimal reads back, not how it is split into digits and exponent. -/
theorem readsBack_congr {d' : Decimal} (h : d.twiceUnits = d'.twiceUnits) :
    readsBack magnitude d = readsBack magnitude d' := by
  rw [readsBack, readsBack, h]

/-- A decimal that reads back lies between the midpoints around the magnitude, and may lie on them
only if the magnitude is even. -/
theorem readsBack_iff :
    readsBack magnitude d = true ↔
      let low := (unitsOf (magnitude - 1) + unitsOf magnitude) * d.twiceUnits.2
      let high := (unitsOf magnitude + unitsOf (magnitude + 1)) * d.twiceUnits.2
      low ≤ d.twiceUnits.1 ∧ d.twiceUnits.1 ≤ high ∧
        (d.twiceUnits.1 = low ∨ d.twiceUnits.1 = high → magnitude % 2 = 0) := by
  unfold readsBack
  generalize d.twiceUnits = value
  simp only
  split
  · simp only [decide_eq_true_eq]
    omega
  · simp only [decide_eq_true_eq]
    omega

theorem nearest_of_readsBack (hpos : 0 < magnitude) (hlt : magnitude < infinityMagnitude)
    (h : readsBack magnitude d = true) :
    nearest (d.digits * powTen d.exponent.toNat * unitsPerOne) (powTen (-d.exponent).toNat) =
      magnitude := by
  obtain ⟨hlow, hhigh, htie⟩ := readsBack_iff.1 h
  simp only [Decimal.twiceUnits] at hlow hhigh htie
  have hden : 0 < powTen (-d.exponent).toNat := powTen_pos _
  generalize d.digits * powTen d.exponent.toNat * unitsPerOne = num at hlow hhigh htie ⊢
  generalize powTen (-d.exponent).toNat = den at hlow hhigh htie hden ⊢
  obtain ⟨lower, rfl⟩ := Nat.exists_eq_succ_of_ne_zero (Nat.ne_of_gt hpos)
  simp only [Nat.succ_eq_add_one, Nat.add_sub_cancel] at hlow hhigh htie ⊢
  have hbelow : unitsOf lower * den < unitsOf (lower + 1) * den :=
    Nat.mul_lt_mul_of_pos_right (unitsOf_strictMono (Nat.lt_succ_self _)) hden
  have habove : unitsOf (lower + 1) * den < unitsOf (lower + 1 + 1) * den :=
    Nat.mul_lt_mul_of_pos_right (unitsOf_strictMono (Nat.lt_succ_self _)) hden
  have hlowSum := Nat.add_mul (unitsOf lower) (unitsOf (lower + 1)) den
  have hhighSum := Nat.add_mul (unitsOf (lower + 1)) (unitsOf (lower + 1 + 1)) den
  rcases Nat.le_total num (unitsOf (lower + 1) * den) with hle | hge
  · rw [nearest_between hden (Nat.lt_of_succ_lt hlt) (by omega) hle]
    rcases Nat.eq_or_lt_of_le hlow with heq | hgt
    · rw [Nat.compare_eq_eq.2 heq.symm, sided]
      have := htie (.inl heq.symm)
      omega
    · rw [Nat.compare_eq_gt.2 hgt, sided]
  · rw [nearest_between hden hlt hge (show num ≤ unitsOf (lower + 1 + 1) * den by omega)]
    rcases Nat.eq_or_lt_of_le hhigh with heq | hlt'
    · rw [Nat.compare_eq_eq.2 heq, sided, htie (.inr heq), Nat.add_zero]
    · rw [Nat.compare_eq_lt.2 hlt', sided]

/-- Positive finite magnitudes are worth one unit or more, and less than `2 ^ 277`, so the value of a
decimal that reads back is bounded on either side. -/
theorem twiceUnits_bounds (hpos : 0 < magnitude) (hlt : magnitude < infinityMagnitude)
    (h : readsBack magnitude d = true) :
    d.twiceUnits.2 ≤ d.twiceUnits.1 ∧ d.twiceUnits.1 ≤ 2 ^ 278 * d.twiceUnits.2 := by
  obtain ⟨hlow, hhigh, -⟩ := readsBack_iff.1 h
  have hone : unitsOf 0 < unitsOf magnitude := unitsOf_strictMono hpos
  have hlarge : unitsOf (magnitude + 1) ≤ unitsOf infinityMagnitude :=
    unitsOf_strictMono.monotone hlt
  have hnext : unitsOf magnitude < unitsOf (magnitude + 1) :=
    unitsOf_strictMono (Nat.lt_succ_self magnitude)
  have hinfinity : unitsOf infinityMagnitude = 2 ^ 277 := by decide +kernel
  rw [hinfinity] at hlarge
  constructor
  · refine Nat.le_trans (Nat.le_mul_of_pos_left _ ?_) hlow
    omega
  · refine Nat.le_trans hhigh (Nat.mul_le_mul_right _ ?_)
    omega

/-- A decimal that reads back is read as the magnitude: it is none of those for which the exact
value is not worked out. -/
theorem ofDecimal_of_readsBack (negative : Bool) (hpos : 0 < magnitude)
    (hlt : magnitude < infinityMagnitude) (h : readsBack magnitude d = true) :
    ofDecimal negative d.digits d.exponent = ofMagnitude negative magnitude := by
  obtain ⟨hlow, hhigh⟩ := twiceUnits_bounds hpos hlt h
  simp only [Decimal.twiceUnits, unitsPerOne_eq] at hlow hhigh
  have hdigits : d.digits ≠ 0 := by
    intro hzero
    have hden := powTen_pos (-d.exponent).toNat
    rw [hzero, Nat.zero_mul, Nat.zero_mul] at hlow
    omega
  have hsmall : ¬50 < d.exponent := by
    intro hexponent
    have hwhole : (-d.exponent).toNat = 0 := by omega
    have hpower : 10 ^ 51 ≤ powTen d.exponent.toNat :=
      Nat.pow_le_pow_right (by decide) (by omega)
    have hvalue : 1 * 10 ^ 51 ≤ d.digits * powTen d.exponent.toNat :=
      Nat.mul_le_mul (Nat.pos_of_ne_zero hdigits) hpower
    rw [hwhole, show powTen 0 = 1 from rfl] at hhigh
    omega
  have hlarge : ¬d.exponent + (Nat.log2 d.digits + 1 : Nat) < -60 := by
    intro hexponent
    obtain ⟨places, hplaces⟩ : ∃ places, (-d.exponent).toNat = places + 61 :=
      ⟨(-d.exponent).toNat - 61, by omega⟩
    have hlog : d.digits < 2 ^ (Nat.log2 d.digits + 1) := Nat.lt_log2_self
    have hbits : 2 ^ (Nat.log2 d.digits + 1) ≤ 2 ^ places :=
      Nat.pow_le_pow_right (by decide) (by omega)
    have htens : 2 ^ places ≤ powTen places := Nat.pow_le_pow_left (by decide) _
    have hpower : powTen (places + 61) = powTen places * 10 ^ 61 := Nat.pow_add ..
    have hfraction : d.exponent.toNat = 0 := by omega
    rw [hplaces, hpower, hfraction, show powTen 0 = 1 from rfl] at hlow
    omega
  rw [ofDecimal, if_neg hdigits, if_neg hsmall, if_neg hlarge, nearest_of_readsBack hpos hlt h]

end ReadsBack

end Patchbay.Single
