import Mathlib.Algebra.Order.Ring.Nat
import Mathlib.Order.Monotone.Basic
import Mathlib.Tactic.Ring
import Patchbay.Single.Rounding
/-!
# The nearest magnitude

Magnitudes stand for a grid of values (`unitsOf`) that gets coarser with each power of two. Rounding
to the nearest one is monotone (`nearest_mono`), keeps what is on the grid (`nearest_unitsOf`), and
is off by half a step of the grid at most (`nearest_near`).
-/

namespace Patchbay.Single

/-! ## Rounding to whole numbers -/

section RoundHalfEven

variable {num num' den k : Nat}

theorem roundHalfEven_cases (num den : Nat) :
    roundHalfEven num den = num / den ∧ 2 * (num % den) ≤ den ∨
      roundHalfEven num den = num / den + 1 ∧ den ≤ 2 * (num % den) := by
  unfold roundHalfEven
  simp only
  split_ifs with hbelow habove
  · exact .inl ⟨rfl, Nat.le_of_lt hbelow⟩
  · exact .inr ⟨rfl, Nat.le_of_lt habove⟩
  · rcases Nat.mod_two_eq_zero_or_one (num / den) with heven | hodd
    · exact .inl ⟨by rw [heven, Nat.add_zero], Nat.le_of_not_lt habove⟩
    · exact .inr ⟨by rw [hodd], Nat.le_of_not_lt hbelow⟩

/-- The result is off by half at most. -/
theorem roundHalfEven_near (hden : 0 < den) (num : Nat) :
    2 * (roundHalfEven num den * den) ≤ 2 * num + den ∧
      2 * num ≤ 2 * (roundHalfEven num den * den) + den := by
  have hnum := Nat.div_add_mod num den
  have hrest := Nat.mod_lt num hden
  rw [Nat.mul_comm den] at hnum
  rcases roundHalfEven_cases num den with ⟨hround, hhalf⟩ | ⟨hround, hhalf⟩
  · rw [hround]
    omega
  · rw [hround, Nat.succ_mul (num / den)]
    omega

theorem le_roundHalfEven (hden : 0 < den) (h : k * den ≤ num) : k ≤ roundHalfEven num den := by
  have hfloor : k ≤ num / den := (Nat.le_div_iff_mul_le hden).2 h
  rcases roundHalfEven_cases num den with ⟨hround, -⟩ | ⟨hround, -⟩ <;> omega

theorem roundHalfEven_le (hden : 0 < den) (h : num ≤ k * den) : roundHalfEven num den ≤ k := by
  have hnum := Nat.div_add_mod num den
  have hfloor : num / den ≤ k := Nat.div_le_of_le_mul (by rwa [Nat.mul_comm])
  rcases roundHalfEven_cases num den with ⟨hround, -⟩ | ⟨hround, hrest⟩
  · rwa [hround]
  · rw [hround]
    refine Nat.lt_of_le_of_ne hfloor ?_
    rintro rfl
    rw [Nat.mul_comm] at h
    omega

theorem roundHalfEven_mono (h : num ≤ num') :
    roundHalfEven num den ≤ roundHalfEven num' den := by
  have hfloor : num / den ≤ num' / den := Nat.div_le_div_right h
  have hnum := Nat.div_add_mod num den
  have hnum' := Nat.div_add_mod num' den
  rcases Nat.lt_or_eq_of_le hfloor with hlt | heq
  · rcases roundHalfEven_cases num den with ⟨hround, -⟩ | ⟨hround, -⟩ <;>
      rcases roundHalfEven_cases num' den with ⟨hround', -⟩ | ⟨hround', -⟩ <;> omega
  · rw [heq] at hnum
    have hrest : num % den ≤ num' % den := by omega
    unfold roundHalfEven
    simp only [heq]
    split_ifs <;> omega

end RoundHalfEven

/-! ## The grid -/

theorem fractions_pos : 0 < fractions := by decide

/-- The value of a magnitude whose 24 bits begin at a given place. They may also carry to the next
power of two. -/
theorem unitsOf_shift {shift k : Nat} (hk : k ≤ 2 * fractions)
    (hlead : shift = 0 ∨ fractions ≤ k) : unitsOf (shift * fractions + k) = k <<< shift := by
  rcases Nat.lt_or_ge k fractions with hsmall | hlarge
  · obtain rfl : shift = 0 := by omega
    have hzero : (0 * fractions + k) / fractions = 0 := by
      rw [Nat.zero_mul, Nat.zero_add, Nat.div_eq_of_lt hsmall]
    rw [unitsOf]
    simp only [hzero, if_true]
    rw [Nat.zero_mul, Nat.zero_add, Nat.shiftLeft_zero]
  · rcases Nat.lt_or_eq_of_le hk with hlt | rfl
    · have hsum : shift * fractions + k = (k - fractions) + fractions * (shift + 1) := by
        rw [Nat.mul_succ, Nat.mul_comm fractions]
        omega
      have hexp : (shift * fractions + k) / fractions = shift + 1 := by
        rw [hsum, Nat.add_mul_div_left _ _ fractions_pos, Nat.div_eq_of_lt (by omega), Nat.zero_add]
      have hfraction : (shift * fractions + k) % fractions = k - fractions := by
        rw [hsum, Nat.add_mul_mod_self_left, Nat.mod_eq_of_lt (by omega)]
      rw [unitsOf]
      simp only [hexp, hfraction, if_neg (Nat.succ_ne_zero shift), Nat.add_sub_cancel]
      rw [Nat.add_sub_cancel' hlarge]
    · have hsum : shift * fractions + 2 * fractions = fractions * (shift + 2) := by ring
      rw [unitsOf, hsum]
      simp only [Nat.mul_div_cancel_left _ fractions_pos, Nat.mul_mod_right, Nat.add_zero,
        if_neg (Nat.succ_ne_zero (shift + 1)), Nat.shiftLeft_eq]
      rw [show shift + 2 - 1 = shift + 1 from rfl, Nat.pow_succ]
      ring

/-- A magnitude is given by 24 bits and their place. -/
theorem exists_shift (magnitude : Nat) :
    ∃ shift k, magnitude = shift * fractions + k ∧ k < 2 * fractions ∧
      (shift = 0 ∨ fractions ≤ k) := by
  have hsplit := Nat.div_add_mod magnitude fractions
  have hfraction := Nat.mod_lt magnitude fractions_pos
  rcases Nat.eq_zero_or_pos (magnitude / fractions) with hzero | hpos
  · rw [hzero, Nat.mul_zero, Nat.zero_add] at hsplit
    exact ⟨0, magnitude, by omega, by omega, .inl rfl⟩
  · obtain ⟨shift, hshift⟩ := Nat.exists_eq_succ_of_ne_zero (Nat.ne_of_gt hpos)
    rw [hshift, Nat.mul_succ, Nat.mul_comm fractions] at hsplit
    exact ⟨shift, fractions + magnitude % fractions, by omega, by omega, .inr (by omega)⟩

theorem unitsOf_strictMono : StrictMono unitsOf := by
  refine strictMono_nat_of_lt_succ fun magnitude => ?_
  obtain ⟨shift, k, rfl, hk, hlead⟩ := exists_shift magnitude
  have hnext : unitsOf (shift * fractions + (k + 1)) = (k + 1) <<< shift :=
    unitsOf_shift (Nat.succ_le_of_lt hk) (hlead.imp_right Nat.le_succ_of_le)
  rw [Nat.add_assoc, hnext, unitsOf_shift (Nat.le_of_lt hk) hlead, Nat.shiftLeft_eq,
    Nat.shiftLeft_eq]
  exact Nat.mul_lt_mul_of_pos_right (Nat.lt_succ_self k) (Nat.two_pow_pos shift)

/-- A number of 24 bits is on the grid at every place. -/
theorem exists_unitsOf_eq (shift : Nat) {k : Nat} (hk : k ≤ 2 * fractions) :
    ∃ magnitude, magnitude ≤ (shift + 2) * fractions ∧ unitsOf magnitude = k * 2 ^ shift := by
  induction shift generalizing k with
  | zero =>
    refine ⟨k, by omega, ?_⟩
    have hvalue := unitsOf_shift hk (.inl rfl)
    rwa [Nat.zero_mul, Nat.zero_add, Nat.shiftLeft_eq] at hvalue
  | succ shift ih =>
    rcases Nat.lt_or_ge k fractions with hsmall | hlarge
    · obtain ⟨magnitude, hle, hvalue⟩ := ih (k := 2 * k) (by omega)
      refine ⟨magnitude, Nat.le_trans hle (Nat.mul_le_mul_right _ (by omega)), ?_⟩
      rw [hvalue, Nat.pow_succ]
      ring
    · refine ⟨(shift + 1) * fractions + k, ?_, ?_⟩
      · rw [Nat.add_mul (shift + 1) 2]
        omega
      · rw [unitsOf_shift hk (.inr hlarge), Nat.shiftLeft_eq]

/-- The next exponent doubles the value. -/
theorem unitsOf_add_fractions {magnitude : Nat} (h : fractions ≤ magnitude) :
    unitsOf (magnitude + fractions) = 2 * unitsOf magnitude := by
  obtain ⟨shift, k, rfl, hk, hlead⟩ := exists_shift magnitude
  have hlead' : fractions ≤ k := by
    rcases hlead with rfl | hlead
    · rwa [Nat.zero_mul, Nat.zero_add] at h
    · exact hlead
  have hnext : shift * fractions + k + fractions = (shift + 1) * fractions + k := by ring
  rw [hnext, unitsOf_shift (Nat.le_of_lt hk) (.inr hlead'), unitsOf_shift (Nat.le_of_lt hk) hlead,
    Nat.shiftLeft_succ]

/-- From 24 bits above some place on the grid has multiples of this place only. -/
theorem two_pow_dvd_unitsOf {place magnitude : Nat} (h : 2 ^ (24 + place) ≤ unitsOf magnitude) :
    2 ^ place ∣ unitsOf magnitude := by
  obtain ⟨shift, k, rfl, hk, hlead⟩ := exists_shift magnitude
  have hvalue : unitsOf (shift * fractions + k) = k * 2 ^ shift := by
    rw [unitsOf_shift (Nat.le_of_lt hk) hlead, Nat.shiftLeft_eq]
  have hlt : k * 2 ^ shift < 2 ^ (24 + shift) := by
    rw [Nat.pow_add]
    exact Nat.mul_lt_mul_of_pos_right hk (Nat.two_pow_pos shift)
  rw [hvalue] at h ⊢
  have hplace : 24 + place < 24 + shift :=
    (Nat.pow_lt_pow_iff_right (by decide)).1 (Nat.lt_of_le_of_lt h hlt)
  exact Nat.dvd_mul_left_of_dvd (Nat.pow_dvd_pow 2 (by omega)) k

/-! ## Rounding to the grid -/

/-- The place of the last bit that is kept of a quotient. -/
def lastPlace (num den : Nat) : Nat := Nat.log2 (num / den) - 23

/-- The bits that are kept of a quotient. -/
def keptBits (num den : Nat) : Nat := roundHalfEven num (den <<< lastPlace num den)

section Nearest

variable {num num' den : Nat}

theorem nearest_eq (num den : Nat) :
    nearest num den =
      min (lastPlace num den * fractions + keptBits num den) infinityMagnitude := rfl

theorem nearest_le_infinityMagnitude (num den : Nat) : nearest num den ≤ infinityMagnitude :=
  Nat.min_le_right _ _

theorem lastPlace_mono (h : num ≤ num') : lastPlace num den ≤ lastPlace num' den := by
  unfold lastPlace
  rcases Nat.eq_zero_or_pos (num / den) with hzero | hpos
  · rw [hzero]
    exact Nat.le_trans (by decide) (Nat.zero_le _)
  · have hfloor : num / den ≤ num' / den := Nat.div_le_div_right h
    have hlog : Nat.log2 (num / den) ≤ Nat.log2 (num' / den) :=
      (Nat.le_log2 (by omega)).2 (Nat.le_trans (Nat.log2_self_le (by omega)) hfloor)
    omega

theorem lastPlace_le (hden : 0 < den) {place : Nat} (h : num < 2 ^ (24 + place) * den) :
    lastPlace num den ≤ place := by
  have hfloor : num / den < 2 ^ (24 + place) := (Nat.div_lt_iff_lt_mul hden).2 h
  rcases Nat.eq_zero_or_pos (num / den) with hzero | hpos
  · rw [lastPlace, hzero]
    exact Nat.le_trans (by decide) (Nat.zero_le _)
  · have hlog := (Nat.log2_lt (Nat.ne_of_gt hpos)).2 hfloor
    unfold lastPlace
    omega

theorem keptBits_le (hden : 0 < den) : keptBits num den ≤ 2 * fractions := by
  have hlog : num / den < 2 ^ (24 + lastPlace num den) :=
    Nat.lt_of_lt_of_le Nat.lt_log2_self
      (Nat.pow_le_pow_right (by decide) (by unfold lastPlace; omega))
  have hnum : num < 2 ^ (24 + lastPlace num den) * den := (Nat.div_lt_iff_lt_mul hden).1 hlog
  refine roundHalfEven_le (Nat.shiftLeft_pos_iff.2 hden) ?_
  rw [Nat.shiftLeft_eq, Nat.mul_comm den, ← Nat.mul_assoc]
  rw [Nat.pow_add] at hnum
  exact Nat.le_of_lt hnum

theorem le_keptBits (hden : 0 < den) : lastPlace num den = 0 ∨ fractions ≤ keptBits num den := by
  rcases Nat.eq_zero_or_pos (lastPlace num den) with hzero | hpos
  · exact .inl hzero
  · right
    have hlog : Nat.log2 (num / den) = 23 + lastPlace num den := by
      unfold lastPlace at hpos ⊢
      omega
    have hne : num / den ≠ 0 := by
      intro hnone
      rw [hnone] at hlog
      have : Nat.log2 0 = 0 := by decide
      omega
    have hfloor : 2 ^ (23 + lastPlace num den) * den ≤ num :=
      (Nat.le_div_iff_mul_le hden).1 (hlog ▸ Nat.log2_self_le hne)
    refine le_roundHalfEven (Nat.shiftLeft_pos_iff.2 hden) ?_
    rw [Nat.shiftLeft_eq, Nat.mul_comm den, ← Nat.mul_assoc]
    rwa [Nat.pow_add] at hfloor

theorem unitsOf_kept (hden : 0 < den) :
    unitsOf (lastPlace num den * fractions + keptBits num den) =
      keptBits num den <<< lastPlace num den :=
  unitsOf_shift (keptBits_le hden) (le_keptBits hden)

/-- Rounding is monotone. -/
theorem nearest_mono (hden : 0 < den) (h : num ≤ num') : nearest num den ≤ nearest num' den := by
  rw [nearest_eq, nearest_eq]
  refine Nat.le_min.2 ⟨Nat.le_trans (Nat.min_le_left _ _) ?_, Nat.min_le_right _ _⟩
  have hplace : lastPlace num den ≤ lastPlace num' den := lastPlace_mono h
  rcases Nat.lt_or_eq_of_le hplace with hlt | heq
  · -- The smaller number carries at most to the next place, where the larger one begins.
    have hkept : keptBits num den ≤ 2 * fractions := keptBits_le hden
    have hplaces : (lastPlace num den + 1) * fractions ≤ lastPlace num' den * fractions :=
      Nat.mul_le_mul_right _ hlt
    have hlead : fractions ≤ keptBits num' den :=
      (le_keptBits hden).resolve_left (by omega)
    rw [Nat.succ_mul] at hplaces
    omega
  · have hkept : keptBits num den ≤ keptBits num' den := by
      unfold keptBits
      rw [heq]
      exact roundHalfEven_mono h
    rw [heq]
    exact Nat.add_le_add_left hkept _

theorem lastPlace_shift (hden : 0 < den) {shift k : Nat} (hk : k < 2 * fractions)
    (hlead : shift = 0 ∨ fractions ≤ k) : lastPlace (k <<< shift * den) den = shift := by
  unfold lastPlace
  rw [Nat.mul_div_cancel _ hden, Nat.shiftLeft_eq]
  rcases hlead with rfl | hlarge
  · have hlog : Nat.log2 (k * 2 ^ 0) < 24 := by
      rw [Nat.pow_zero, Nat.mul_one]
      rcases Nat.eq_zero_or_pos k with rfl | hpos
      · decide
      · exact (Nat.log2_lt (Nat.ne_of_gt hpos)).2 hk
    omega
  · have hpos : k * 2 ^ shift ≠ 0 :=
      Nat.ne_of_gt (Nat.mul_pos (Nat.lt_of_lt_of_le fractions_pos hlarge) (Nat.two_pow_pos _))
    have hlog : Nat.log2 (k * 2 ^ shift) = 23 + shift := by
      refine (Nat.log2_eq_iff hpos).2 ⟨?_, ?_⟩
      · rw [Nat.pow_add]
        exact Nat.mul_le_mul_right _ hlarge
      · rw [Nat.add_right_comm, Nat.pow_add]
        exact Nat.mul_lt_mul_of_pos_right hk (Nat.two_pow_pos _)
    omega

/-- What is on the grid is kept. -/
theorem nearest_unitsOf (hden : 0 < den) {magnitude : Nat} (h : magnitude ≤ infinityMagnitude) :
    nearest (unitsOf magnitude * den) den = magnitude := by
  obtain ⟨shift, k, rfl, hk, hlead⟩ := exists_shift magnitude
  have hplace : lastPlace (k <<< shift * den) den = shift := lastPlace_shift hden hk hlead
  have hkept : keptBits (k <<< shift * den) den = k := by
    have hpos : 0 < den <<< shift := Nat.shiftLeft_pos_iff.2 hden
    have hexact : k <<< shift * den = k * den <<< shift := by
      rw [Nat.shiftLeft_eq, Nat.shiftLeft_eq]
      ring
    rw [keptBits, hplace, hexact]
    exact Nat.le_antisymm (roundHalfEven_le hpos (Nat.le_refl _))
      (le_roundHalfEven hpos (Nat.le_refl _))
  rw [unitsOf_shift (Nat.le_of_lt hk) hlead, nearest_eq, hplace, hkept]
  exact Nat.min_eq_left h

/-- Below the infinities the result is off by half a unit of the last place at most. -/
theorem nearest_near (hden : 0 < den) (h : nearest num den < infinityMagnitude) :
    2 * (unitsOf (nearest num den) * den) ≤ 2 * num + den <<< lastPlace num den ∧
      2 * num ≤ 2 * (unitsOf (nearest num den) * den) + den <<< lastPlace num den := by
  have hfinite : nearest num den = lastPlace num den * fractions + keptBits num den := by
    rw [nearest_eq] at h ⊢
    exact Nat.min_eq_left (by omega)
  have hvalue : unitsOf (nearest num den) * den =
      keptBits num den * den <<< lastPlace num den := by
    rw [hfinite, unitsOf_kept hden, Nat.shiftLeft_eq, Nat.shiftLeft_eq]
    ring
  rw [hvalue]
  exact roundHalfEven_near (Nat.shiftLeft_pos_iff.2 hden) num

/-- What has its 24 bits from some place on is off by half a unit of this place at most. -/
theorem nearest_near_of_le (hden : 0 < den) {place : Nat} (hplace : place ≤ 252)
    (h : num ≤ 2 ^ (24 + place) * den) :
    2 * (unitsOf (nearest num den) * den) ≤ 2 * num + den * 2 ^ place ∧
      2 * num ≤ 2 * (unitsOf (nearest num den) * den) + den * 2 ^ place := by
  obtain ⟨magnitude, hle, hvalue⟩ := exists_unitsOf_eq place (Nat.le_refl (2 * fractions))
  have hpower : unitsOf magnitude = 2 ^ (24 + place) := by
    rw [hvalue, Nat.pow_add]
    rfl
  have hmagnitude : magnitude < infinityMagnitude :=
    Nat.lt_of_le_of_lt (Nat.le_trans hle (Nat.mul_le_mul_right _ (Nat.add_le_add_right hplace 2)))
      (by decide)
  have hkept : nearest (unitsOf magnitude * den) den = magnitude :=
    nearest_unitsOf hden (Nat.le_of_lt hmagnitude)
  rw [hpower] at hkept
  rcases Nat.lt_or_eq_of_le h with hlt | rfl
  · have hfinite : nearest num den < infinityMagnitude :=
      Nat.lt_of_le_of_lt (nearest_mono hden h) (hkept ▸ hmagnitude)
    have hlast : lastPlace num den ≤ place := lastPlace_le hden hlt
    have hstep : den <<< lastPlace num den ≤ den * 2 ^ place := by
      rw [Nat.shiftLeft_eq]
      exact Nat.mul_le_mul_left _ (Nat.pow_le_pow_right (by decide) hlast)
    obtain ⟨hbelow, habove⟩ := nearest_near hden hfinite
    exact ⟨Nat.le_trans hbelow (Nat.add_le_add_left hstep _),
      Nat.le_trans habove (Nat.add_le_add_left hstep _)⟩
  · rw [hkept, hpower]
    exact ⟨Nat.le_add_right _ _, Nat.le_add_right _ _⟩

end Nearest

end Patchbay.Single
