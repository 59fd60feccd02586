import Mathlib.Algebra.Order.Group.Nat
import Patchbay.Sample.Stored
/-!
# Samples as devices store them

A buffer that is filled from the front and padded to its length (`toList_padded`, `toList_front`),
and the duty cycles of a PWM channel: whatever the engine produces is converted to a duty that the
channel reaches, silence is one (`convert_pwm_mem`, `silence_pwm_mem`), and such a duty is stored as
it is (`toNat_ofInt_of_mem_pwm`).
-/

namespace Patchbay

/-- A buffer that takes what there is of a list and repeats one value behind it. -/
theorem toList_padded {α β : Type} (l : List α) (f : α → β) (rest : β) (count : Nat) :
    (Vector.ofFn fun i : Fin count => (l[i.val]?.map f).getD rest).toList =
      (l.take count).map f ++ List.replicate (count - l.length) rest := by
  apply List.ext_getElem
  · simp only [Vector.length_toList, List.length_append, List.length_map, List.length_take,
      List.length_replicate]
    omega
  · intro i hi hi'
    rw [Vector.length_toList] at hi
    simp only [Vector.getElem_toList, Vector.getElem_ofFn]
    have hfront : ((l.take count).map f).length = min count l.length := by
      rw [List.length_map, List.length_take]
    rcases Nat.lt_or_ge i l.length with hsome | hnone
    · rw [List.getElem_append_left (by omega), List.getElem?_eq_getElem hsome, List.getElem_map,
        List.getElem_take]
      rfl
    · rw [List.getElem_append_right (by omega), List.getElem?_eq_none hnone,
        List.getElem_replicate]
      rfl

/-- A buffer of which a front is kept and the rest overwritten with one value. -/
theorem toList_front {α : Type} {count : Nat} (v : Vector α count) (kept : Nat) (rest : α) :
    (Vector.ofFn fun i : Fin count => if i.val < kept then getElem v i i.isLt else rest).toList =
      v.toList.take kept ++ List.replicate (count - kept) rest := by
  apply List.ext_getElem
  · simp only [Vector.length_toList, List.length_append, List.length_take, List.length_replicate]
    omega
  · intro i hi hi'
    rw [Vector.length_toList] at hi
    have hfront : (v.toList.take kept).length = min kept count := by
      rw [List.length_take, Vector.length_toList]
    simp only [Vector.getElem_toList, Vector.getElem_ofFn]
    by_cases hkept : i < kept
    · rw [if_pos hkept, List.getElem_append_left (by omega), List.getElem_take,
        Vector.getElem_toList]
      rfl
    · rw [if_neg hkept, List.getElem_append_right (by omega), List.getElem_replicate]

namespace SampleRange

theorem convert_biased_mem {low high : Int} (hbounds : low ≤ high) (sample : Single) :
    (biased low high).convert sample ∈ biased low high :=
  ⟨Int.le_max_left _ _, Int.max_le.2 ⟨hbounds, Int.min_le_left _ _⟩⟩

variable (maxDuty : UInt16)

theorem convert_pwm_mem (sample : Single) : (pwm maxDuty).convert sample ∈ pwm maxDuty :=
  convert_biased_mem (Int.natCast_nonneg _) sample

theorem silence_pwm_mem : (pwm maxDuty).silence ∈ pwm maxDuty := by
  have hhalf : (pwm maxDuty).silence = ((maxDuty.toNat / 2 : Nat) : Int) := by
    unfold silence pwm
    simp only [Int.zero_add, Int.sub_zero]
    exact (Int.ofNat_tdiv maxDuty.toNat 2).symm
  rw [hhalf]
  refine ⟨Int.natCast_nonneg _, ?_⟩
  exact Int.ofNat_le.2 (Nat.div_le_self _ _)

variable {maxDuty}

/-- A duty that the channel reaches is stored without wrapping around. -/
theorem toNat_ofInt_of_mem_pwm {duty : Int} (h : duty ∈ pwm maxDuty) :
    ((StoredSample.ofInt duty : UInt16).toNat : Int) = duty := by
  obtain ⟨hlow, hhigh⟩ : 0 ≤ duty ∧ duty ≤ maxDuty.toNat := h
  have hwidth := maxDuty.toNat_lt
  have hwhole : (duty % 2 ^ 16).toNat = duty.toNat := by
    rw [Int.emod_eq_of_lt hlow (by omega)]
  change ((UInt16.ofNat (duty % 2 ^ 16).toNat).toNat : Int) = duty
  rw [hwhole, UInt16.toNat_ofNat_of_lt' (by unfold UInt16.size; omega)]
  exact Int.toNat_of_nonneg hlow

theorem ofInt_le_of_mem_pwm {duty : Int} (h : duty ∈ pwm maxDuty) :
    (StoredSample.ofInt duty : UInt16) ≤ maxDuty := by
  have hstored := toNat_ofInt_of_mem_pwm h
  obtain ⟨-, hhigh⟩ : 0 ≤ duty ∧ duty ≤ maxDuty.toNat := h
  rw [UInt16.le_iff_toNat_le]
  omega

end SampleRange

end Patchbay
