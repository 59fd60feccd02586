import Mathlib.Data.List.Forall2
/-!
# Runs

A machine takes calls one after another: a step gives the answer to one call and the next state.
What every step keeps a run keeps, and two machines that stay related answer a run alike. Where only
some of the calls concern a part of a machine, that part is a machine of its own, which takes these
calls and no others.
-/

namespace Patchbay

variable {σ τ γ δ ρ : Type}

/-- The answers to calls made one after another, and the state that they lead to. -/
def runAll (step : σ → γ → ρ × σ) (s : σ) : List γ → List ρ × σ
  | [] => ([], s)
  | call :: calls =>
    let r := runAll step (step s call).2 calls
    ((step s call).1 :: r.1, r.2)

@[simp] theorem length_runAll (step : σ → γ → ρ × σ) (s : σ) (calls : List γ) :
    (runAll step s calls).1.length = calls.length := by
  induction calls generalizing s with
  | nil => rfl
  | cons call calls ih => exact congrArg Nat.succ (ih _)

theorem runAll_append (step : σ → γ → ρ × σ) (s : σ) (calls more : List γ) :
    (runAll step s (calls ++ more)).2 = (runAll step (runAll step s calls).2 more).2 := by
  induction calls generalizing s with
  | nil => rfl
  | cons call calls ih => exact ih _

/-- What every step keeps, a run keeps. -/
theorem runAll_keeps {step : σ → γ → ρ × σ} {P : σ → Prop} {calls : List γ}
    (keeps : ∀ call ∈ calls, ∀ s, P s → P (step s call).2) {s : σ} (h : P s) :
    P (runAll step s calls).2 := by
  induction calls generalizing s with
  | nil => exact h
  | cons call calls ih =>
    rw [List.forall_mem_cons] at keeps
    exact ih keeps.2 (keeps.1 s h)

/-- What every answer satisfies as long as the state is as it should be. -/
theorem runAll_answers {step : σ → γ → ρ × σ} {P : σ → Prop} {Q : ρ → Prop} {calls : List γ}
    (keeps : ∀ call ∈ calls, ∀ s, P s → Q (step s call).1 ∧ P (step s call).2) {s : σ} (h : P s) :
    ∀ answer ∈ (runAll step s calls).1, Q answer := by
  induction calls generalizing s with
  | nil =>
    intro answer hanswer
    cases hanswer
  | cons call calls ih =>
    rw [List.forall_mem_cons] at keeps
    obtain ⟨hfirst, hnext⟩ := keeps.1 s h
    exact List.forall_mem_cons.2 ⟨hfirst, ih keeps.2 hnext⟩

/-- What every answer has to do with its call. -/
theorem runAll_forall₂ {step : σ → γ → ρ × σ} {Q : γ → ρ → Prop}
    (h : ∀ s call, Q call (step s call).1) (s : σ) (calls : List γ) :
    List.Forall₂ Q calls (runAll step s calls).1 := by
  induction calls generalizing s with
  | nil => exact .nil
  | cons call calls ih => exact .cons (h s call) (ih _)

/-- Two machines that answer every call alike and stay related answer a run alike. A call on the one
is the image of a call on the other. -/
theorem runAll_alike {step : σ → γ → ρ × σ} {step' : τ → δ → ρ × τ} (R : σ → τ → Prop)
    (image : γ → δ) {calls : List γ}
    (alike : ∀ call ∈ calls, ∀ s t, R s t →
      (step s call).1 = (step' t (image call)).1 ∧ R (step s call).2 (step' t (image call)).2)
    {s : σ} {t : τ} (h : R s t) :
    (runAll step s calls).1 = (runAll step' t (calls.map image)).1 ∧
      R (runAll step s calls).2 (runAll step' t (calls.map image)).2 := by
  induction calls generalizing s t with
  | nil => exact ⟨rfl, h⟩
  | cons call calls ih =>
    rw [List.forall_mem_cons] at alike
    obtain ⟨hanswer, hmid⟩ := alike.1 s t h
    obtain ⟨hanswers, hend⟩ := ih alike.2 hmid
    exact ⟨List.cons_eq_cons.2 ⟨hanswer, hanswers⟩, hend⟩

/-- A part that moves only with the calls picked for it moves as a machine that takes just these. -/
theorem runAll_part {π ε : Type} {step : σ → γ → ρ × σ} {move : π → ε → π} (part : σ → π)
    (pick : γ → Option ε)
    (moves : ∀ s call, part (step s call).2 = (pick call).elim (part s) (move (part s)))
    (s : σ) (calls : List γ) :
    part (runAll step s calls).2 = (calls.filterMap pick).foldl move (part s) := by
  induction calls generalizing s with
  | nil => rfl
  | cons call calls ih =>
    have hrest := ih (step s call).2
    rw [moves] at hrest
    cases hpick : pick call with
    | none =>
      rw [hpick] at hrest
      rw [List.filterMap_cons_none hpick]
      exact hrest
    | some e =>
      rw [hpick] at hrest
      rw [List.filterMap_cons_some hpick]
      exact hrest

/-- The same of a machine that stays related to the one that takes the picked calls. The answers to
these are all that is read of the answers. -/
theorem runAll_alongside {π ε α : Type} {step : σ → γ → ρ × σ} {step' : π → ε → α × π}
    (R : σ → π → Prop) (pick : γ → Option ε) (read : ρ → Option α)
    (picked : ∀ s p call e, R s p → pick call = some e →
      read (step s call).1 = some (step' p e).1 ∧ R (step s call).2 (step' p e).2)
    (others : ∀ s p call, R s p → pick call = none →
      read (step s call).1 = none ∧ R (step s call).2 p)
    {s : σ} {p : π} (h : R s p) (calls : List γ) :
    (runAll step s calls).1.filterMap read = (runAll step' p (calls.filterMap pick)).1 ∧
      R (runAll step s calls).2 (runAll step' p (calls.filterMap pick)).2 := by
  induction calls generalizing s p with
  | nil => exact ⟨rfl, h⟩
  | cons call calls ih =>
    cases hpick : pick call with
    | none =>
      obtain ⟨hread, hnext⟩ := others s p call h hpick
      obtain ⟨hanswers, hend⟩ := ih hnext
      rw [List.filterMap_cons_none hpick]
      exact ⟨(List.filterMap_cons_none hread).trans hanswers, hend⟩
    | some e =>
      obtain ⟨hread, hnext⟩ := picked s p call e h hpick
      obtain ⟨hanswers, hend⟩ := ih hnext
      rw [List.filterMap_cons_some hpick]
      exact ⟨(List.filterMap_cons_some hread).trans (List.cons_eq_cons.2 ⟨rfl, hanswers⟩), hend⟩

end Patchbay
