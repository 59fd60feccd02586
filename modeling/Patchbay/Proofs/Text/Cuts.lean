import Patchbay.Text.Words
/-!
# Cuts

A cut at the first occurrence of a mark leaves none before it, and a cut at the last leaves none
after it. A text without the mark is not cut.
-/

namespace Patchbay.Text

variable {mark : Char} {cs before after : List Char}

/-! ## The first occurrence -/

theorem cutFirst_append (h : mark ∉ before) :
    cutFirst mark (before ++ mark :: after) = some (before, after) := by
  induction before with
  | nil => simp [cutFirst]
  | cons c before ih =>
    have hc : c ≠ mark := fun heq => h (heq ▸ List.mem_cons_self)
    rw [List.cons_append, cutFirst, if_neg hc, ih fun hmem => h (List.mem_cons_of_mem c hmem)]
    rfl

theorem cutFirst_eq_some :
    cutFirst mark cs = some (before, after) ↔ cs = before ++ mark :: after ∧ mark ∉ before := by
  refine ⟨fun h => ?_, fun ⟨hsplit, hbefore⟩ => hsplit ▸ cutFirst_append hbefore⟩
  induction cs generalizing before with
  | nil => simp [cutFirst] at h
  | cons c rest ih =>
    by_cases hc : c = mark
    · simp only [cutFirst, if_pos hc, Option.some.injEq, Prod.mk.injEq] at h
      obtain ⟨rfl, rfl⟩ := h
      exact ⟨by rw [hc, List.nil_append], List.not_mem_nil⟩
    · simp only [cutFirst, if_neg hc, Option.map_eq_some_iff, Prod.mk.injEq, Prod.exists] at h
      obtain ⟨before, _, hrest, rfl, rfl⟩ := h
      obtain ⟨hsplit, hbefore⟩ := ih hrest
      refine ⟨by rw [hsplit, List.cons_append], ?_⟩
      simp [Ne.symm hc, hbefore]

/-! ## The last occurrence -/

theorem cutLast_eq_none : cutLast mark cs = none ↔ mark ∉ cs := by
  induction cs with
  | nil => simp [cutLast]
  | cons c rest ih =>
    cases hrest : cutLast mark rest with
    | none =>
      have hmem : mark ∉ rest := ih.1 hrest
      by_cases hc : c = mark
      · simp [cutLast, hrest, hc]
      · simp [cutLast, hrest, hc, Ne.symm hc, hmem]
    | some parts =>
      have hmem : mark ∈ rest := by simpa [hrest] using ih
      simp [cutLast, hrest, hmem]

theorem of_cutLast_eq_some (h : cutLast mark cs = some (before, after)) :
    cs = before ++ mark :: after ∧ mark ∉ after := by
  induction cs generalizing before with
  | nil => simp [cutLast] at h
  | cons c rest ih =>
    cases hrest : cutLast mark rest with
    | none =>
      by_cases hc : c = mark
      · simp only [cutLast, hrest, if_pos hc, Option.some.injEq, Prod.mk.injEq] at h
        obtain ⟨rfl, rfl⟩ := h
        exact ⟨by rw [hc, List.nil_append], cutLast_eq_none.1 hrest⟩
      · simp [cutLast, hrest, hc] at h
    | some parts =>
      simp only [cutLast, hrest, Option.some.injEq, Prod.mk.injEq] at h
      obtain ⟨rfl, rfl⟩ := h
      obtain ⟨hsplit, hafter⟩ := ih hrest
      exact ⟨by rw [hsplit, List.cons_append], hafter⟩

end Patchbay.Text
