import Patchbay.Proofs.Output.PwmSession
import Patchbay.Proofs.Render.Gapless
/-!
# Duties that the channels reach

Whatever an engine produces and whichever writes fail, neither channel of a PWM output is ever told
a duty beyond the smaller of their greatest ones (`performAll_duties_le`).
-/

namespace Patchbay

variable {frames : Nat} {γ : Type}

def PwmAct.call (fill : Fill UInt16 (2 * frames) γ) : PwmAct → PwmCall frames γ
  | .start => .start
  | .stop => .stop
  | .interrupt => .interrupt fill

/-- A fill in a call leaves no duty in a chunk above a bound. -/
def PwmCall.Within (bound : UInt16) : PwmCall frames γ → Prop
  | .interrupt fill => ∀ chunk g, ∀ duty ∈ (fill chunk g).2.1.toList, duty ≤ bound
  | _ => True

theorem PwmAct.call_within {bound : UInt16} {fill : Fill UInt16 (2 * frames) γ}
    (h : PwmCall.Within bound (.interrupt fill)) (acts : List PwmAct) :
    ∀ call ∈ acts.map (PwmAct.call fill), call.Within bound := by
  intro call hcall
  obtain ⟨act, -, rfl⟩ := List.mem_map.1 hcall
  cases act with
  | start => trivial
  | stop => trivial
  | interrupt => exact h

def Moment.Within (bound : UInt16) (m : Moment frames) : Prop :=
  ∀ write ∈ m.left ++ m.right, write.duty ≤ bound

theorem Told.duty_le {bound left right : UInt16} {ok : Bool}
    {leftWrites rightWrites : List DutyWrite}
    (h : Told left right ok leftWrites rightWrites) (hleft : left ≤ bound)
    (hright : right ≤ bound) :
    ∀ write ∈ leftWrites ++ rightWrites, write.duty ≤ bound := by
  obtain ⟨taken, taken', rfl, rfl, -⟩ := h
  refine List.forall_mem_append.2 ⟨List.forall_mem_singleton.2 hleft, ?_⟩
  cases taken with
  | false =>
    intro write hwrite
    cases hwrite
  | true => exact List.forall_mem_singleton.2 hright

theorem Fetch.samples_le {bound silence : UInt16} {f : Fetch frames} (hsilence : silence ≤ bound)
    (hwritten : ∀ duty ∈ f.written.toList, duty ≤ bound) :
    ∀ duty ∈ f.samples silence, duty ≤ bound := by
  refine List.forall_mem_append.2 ⟨?_, ?_⟩
  · intro duty hduty
    exact hwritten duty (List.mem_of_mem_take hduty)
  · intro duty hduty
    rw [List.eq_of_mem_replicate hduty]
    exact hsilence

/-- A bridge for duties fills in duties. -/
theorem Bridge.fill_duties_le {ε : Type} [Engine ε] {b : Bridge} {maxDuty : UInt16}
    (hrange : b.range = .pwm maxDuty) {count : Nat} (hcount : 0 < count)
    (dest : Vector UInt16 count) (engine : ε) :
    ∀ duty ∈ (b.fill dest engine).2.1.toList, duty ≤ maxDuty := by
  rw [b.toList_fill dest hcount engine, hrange]
  refine List.forall_mem_append.2 ⟨?_, ?_⟩
  · intro duty hduty
    obtain ⟨sample, -, rfl⟩ := List.mem_map.1 hduty
    exact SampleRange.ofInt_le_of_mem_pwm (SampleRange.convert_pwm_mem maxDuty sample)
  · intro duty hduty
    rw [List.eq_of_mem_replicate hduty]
    exact SampleRange.ofInt_le_of_mem_pwm (SampleRange.silence_pwm_mem maxDuty)

namespace PwmOutput

variable {κ ρ φ : Type} {bound : UInt16}

structure Within (bound : UInt16) (o : PwmOutput κ ρ frames) : Prop where
  maxDuty_eq : o.maxDuty = bound
  chunk_le : ∀ duty ∈ o.chunk.toList, duty ≤ bound

theorem silence_le_maxDuty (o : PwmOutput κ ρ frames) : o.silence ≤ o.maxDuty :=
  SampleRange.ofInt_le_of_mem_pwm (SampleRange.silence_pwm_mem o.maxDuty)

namespace Within

variable {o : PwmOutput κ ρ frames}

theorem silence_le (h : Within bound o) : o.silence ≤ bound := by
  rw [← h.maxDuty_eq]
  exact o.silence_le_maxDuty

theorem getElem_le (h : Within bound o) {i : Nat} (hi : i < 2 * frames) : o.chunk[i] ≤ bound :=
  h.chunk_le _ (Vector.mem_toList_iff.2 (Vector.getElem_mem hi))

end Within

/-! ## One call -/

theorem Effect.within {s : PwmOutput κ ρ frames × γ} {call : PwmCall frames γ}
    {r : Moment frames × (PwmOutput κ ρ frames × γ)} (h : Effect s call r)
    (hcall : call.Within bound) (hs : Within bound s.1) :
    r.1.Within bound ∧ Within bound r.2.1 := by
  cases h with
  | started _ _ told => exact ⟨told.duty_le hs.silence_le hs.silence_le, hs.maxDuty_eq, hs.chunk_le⟩
  | refused _ _ told => exact ⟨told.duty_le hs.silence_le hs.silence_le, hs.maxDuty_eq, hs.chunk_le⟩
  | stopped _ _ told => exact ⟨told.duty_le hs.silence_le hs.silence_le, hs.maxDuty_eq, hs.chunk_le⟩
  | ignored _ =>
    refine ⟨?_, hs⟩
    intro write hwrite
    cases hwrite
  | continued _ _ _ _ _ told =>
    exact ⟨told.duty_le (hs.getElem_le _) (hs.getElem_le _), hs.maxDuty_eq, hs.chunk_le⟩
  | @refilled fill _ c c' _ _ _ fetch chunk first _ _ fetched filled _ told =>
    have hwritten : ∀ duty ∈ fetch.written.toList, duty ≤ bound := by
      have hfill := hcall s.1.chunk s.2
      rw [fetched] at hfill
      exact hfill
    have hnew : Within bound { s.1 with left := c, right := c', chunk, next := after first } := by
      refine ⟨hs.maxDuty_eq, ?_⟩
      rw [filled]
      exact Fetch.samples_le hs.silence_le hwritten
    exact ⟨told.duty_le (hnew.getElem_le _) (hnew.getElem_le _), hnew⟩

/-! ## Whole runs -/

variable [DutyChannel κ φ] [DutyChannel ρ φ]

theorem performAll_within {s : PwmOutput κ ρ frames × γ} {calls : List (PwmCall frames γ)}
    (hcalls : ∀ call ∈ calls, call.Within bound) (hs : Within bound s.1) :
    ∀ m ∈ (performAll s calls).1, m.Within bound := by
  refine runAll_answers (P := fun s => Within bound s.1) ?_ hs
  intro call hcall s hs
  exact (perform_effect s call).within (hcalls call hcall) hs

/-- An output whose chunks come from a bridge for its range never tells a channel a duty that one of
both cannot reach, whatever the engine produces, and no conversion to a duty wraps around. -/
theorem performAll_duties_le {samples : Nat} (hsome : 2 ≤ samples) (heven : samples % 2 = 0)
    (left : κ) (right : ρ) :
    ∃ o, create? samples left right = some o ∧
      ∀ {capacity block : Nat} {layout : BridgeLayout} {b : Bridge} {ε : Type} [Engine ε],
        (Bridge.create capacity block layout).value = .ok b → layout.range = o.spec.range →
        ∀ (engine : ε) (acts : List PwmAct),
          let run := performAll (o, engine) (acts.map (PwmAct.call b.fill))
          (∀ m ∈ run.1, ∀ write ∈ m.left ++ m.right, write.duty.toNat ≤
            min (DutyChannel.maxDuty left).toNat (DutyChannel.maxDuty right).toNat) ∧
          (∀ sample, ((b.range.store sample : UInt16).toNat : Int) = b.range.convert sample) ∧
          ((b.range.storedSilence : UInt16).toNat : Int) = b.range.silence ∧
          (run.2.1.silence.toNat : Int) = run.2.1.range.silence := by
  obtain ⟨o, hcreate, -, hmax, hchunk⟩ := create?_of_even hsome heven left right
  have hstart : Within (min (DutyChannel.maxDuty left) (DutyChannel.maxDuty right)) o := by
    refine ⟨hmax, ?_⟩
    intro duty hduty
    rw [hchunk duty hduty, ← hmax]
    exact o.silence_le_maxDuty
  refine ⟨o, hcreate, ?_⟩
  intro capacity block layout b ε _ hb hlayout engine acts run
  have hrange : b.range = .pwm (min (DutyChannel.maxDuty left) (DutyChannel.maxDuty right)) := by
    rw [(Bridge.createdFor_of_create hb).range_eq, hlayout, ← hmax]
    rfl
  have hfill : PwmCall.Within (min (DutyChannel.maxDuty left) (DutyChannel.maxDuty right))
      (.interrupt b.fill : PwmCall (samples / 2) ε) :=
    Bridge.fill_duties_le hrange (Nat.mul_pos Nat.two_pos o.frames_pos)
  have hrun := performAll_within (s := (o, engine)) (PwmAct.call_within hfill acts) hstart
  refine ⟨?_, ?_, ?_, ?_⟩
  · intro m hm write hwrite
    rw [← UInt16.toNat_min, ← UInt16.le_iff_toNat_le]
    exact hrun m hm write hwrite
  · intro sample
    rw [hrange]
    exact SampleRange.toNat_ofInt_of_mem_pwm (SampleRange.convert_pwm_mem _ sample)
  · rw [hrange]
    exact SampleRange.toNat_ofInt_of_mem_pwm (SampleRange.silence_pwm_mem _)
  · exact SampleRange.toNat_ofInt_of_mem_pwm (SampleRange.silence_pwm_mem run.2.1.maxDuty)

/-- The bridge for `flakyOutput`, with a block of one frame. -/
def flakyBridge : Bridge where
  inputs := 0
  outputs := 2
  range := .pwm 255
  block := 1
  capacity := 4
  outputs_pos := Nat.two_pos
  block_pos := Nat.one_pos
  range_valid := by decide
  tick_fits := by decide

/-- NaN plays as zero does, and what is out of scale as a bound. -/
theorem performAll_duties_le_screech :
    let acts : List PwmAct :=
      [.start, .interrupt, .interrupt, .interrupt, .start, .interrupt, .stop]
    let run := performAll (flakyOutput, ({} : Screech)) (acts.map (PwmAct.call flakyBridge.fill))
    (∀ m ∈ run.1, ∀ write ∈ m.left ++ m.right, write.duty.toNat ≤ min 255 2000) ∧
      (run.1.flatMap fun m => (m.left ++ m.right).map DutyWrite.duty) =
        [127, 127, 128, 0, 255, 128, 127, 127, 255, 128, 127, 127] := by
  intro acts run
  have hcreate : create? 4 flakyOutput.left flakyOutput.right = some flakyOutput := rfl
  have hb : (Bridge.create 4 1 (.ofSpec flakyOutput.spec)).value = .ok flakyBridge := rfl
  obtain ⟨o, ho, hduties⟩ :=
    performAll_duties_le (by decide : 2 ≤ 4) (by decide) flakyOutput.left flakyOutput.right
  obtain rfl := Option.some.inj (hcreate.symm.trans ho)
  obtain ⟨hle, -⟩ := hduties hb rfl ({} : Screech) acts
  refine ⟨?_, ?_⟩
  · exact hle
  · decide

end PwmOutput

end Patchbay
