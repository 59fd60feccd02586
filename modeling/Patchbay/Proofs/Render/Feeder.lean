import Patchbay.Proofs.Output.FrameQueue
import Patchbay.Proofs.Render.Rounds
/-!
# One render into a frame queue

A stereo render that fits the queue arrives there whole: the samples are cut into pieces of whole
frames, and each piece into batches, and every one of them is taken. What a feeder finds due always
fits.
-/

namespace Patchbay

/-- An engine that produces the samples of one stream, however its ticks are grouped into runs on
silent input. `ran` is the number of ticks it has run. -/
structure Engine.Streams {ε : Type} [Engine ε] (b : Bridge) (stream : Nat → Single)
    (ran : ε → Nat) : Prop where
  process : ∀ ticks engine,
    let silence := List.replicate (ticks * b.block * b.inputs) (Single.zero false)
    let result := Engine.process ticks silence (ticks * b.block * b.outputs) engine
    result.1.toList = (List.range (ticks * b.block * b.outputs)).map (fun i =>
      stream (ran engine * b.block * b.outputs + i)) ∧ ran result.2 = ran engine + ticks

/-- A frame of a stream of stereo samples, converted to a range. -/
def frameAt (range : SampleRange) (stream : Nat → Single) (i : Nat) : Frame :=
  ⟨range.store (stream (2 * i)), range.store (stream (2 * i + 1))⟩

theorem Engine.Streams.render {ε : Type} [Engine ε] {b : Bridge} {stream : Nat → Single}
    {ran : ε → Nat} (h : Engine.Streams b stream ran) {ticks : Nat} (hpos : 0 < ticks)
    (hmax : ticks ≤ b.maxTicks) (engine : ε) :
    (b.render ticks engine).1.toList = (List.range (ticks * b.block * b.outputs)).map (fun i =>
      stream (ran engine * b.block * b.outputs + i)) ∧
      ran (b.render ticks engine).2 = ran engine + ticks := by
  have hprocess := h.process (b.ticksFor ticks) engine
  unfold Bridge.render
  rw [Bridge.ticksFor_eq hpos hmax] at hprocess ⊢
  exact hprocess

namespace Feeder

/-- Pieces that fit are taken whole. -/
theorem enqueueAll_holds {n : Nat} {q : FrameQueue n} {l : List Frame} (h : q.ring.Holds l)
    {pieces : List (List Int16)} (heven : ∀ piece ∈ pieces, piece.length % 2 = 0)
    (hroom : l.length + (Frame.ofSamples pieces.flatten).length < n) :
    ∃ ring, enqueueAll pieces q = ((Frame.ofSamples pieces.flatten).length, { q with ring }) ∧
      ring.Holds (l ++ Frame.ofSamples pieces.flatten) := by
  induction pieces generalizing q l with
  | nil =>
    refine ⟨q.ring, rfl, ?_⟩
    simpa [Frame.ofSamples] using h
  | cons piece pieces ih =>
    obtain ⟨hpiece, hpieces⟩ := List.forall_mem_cons.1 heven
    rw [List.flatten_cons, Frame.ofSamples_append hpiece] at hroom ⊢
    rw [List.length_append] at hroom
    obtain ⟨htaken, hq, hring⟩ := FrameQueue.enqueue_holds h piece
    rw [← Frame.length_ofSamples, Nat.min_eq_left (by omega)] at htaken
    rw [List.take_of_length_le (by omega)] at hring
    obtain ⟨ring, hrest, hholds⟩ := ih hring hpieces (by rw [List.length_append]; omega)
    refine ⟨ring, ?_, ?_⟩
    · have hfirst : PushSink.enqueue piece q = (q.enqueue piece) := rfl
      rw [enqueueAll, hfirst]
      simp only [hrest, htaken, List.length_append]
      rw [hq]
    · rw [← List.append_assoc]
      exact hholds

/-! ## One render -/

variable {n : Nat} {f : Feeder} {q : FrameQueue n} {l : List Frame} {ε : Type} [Engine ε]
  {stream : Nat → Single} {ran : ε → Nat}

/-- A render that fits is added whole. -/
theorem renderInto_stored (hstereo : f.bridge.outputs = 2) (h : q.ring.Holds l) {ticks : Nat}
    (hpos : 0 < ticks) (hmax : ticks ≤ f.bridge.maxTicks)
    (hroom : l.length + ticks * f.bridge.block < n) (engine : ε) :
    ∃ ring, f.renderInto ticks q engine =
        (ticks * f.bridge.block, { q with ring }, (f.bridge.render ticks engine).2) ∧
      ring.Holds (l ++ Frame.ofSamples (f.stored ticks engine)) := by
  obtain ⟨hdvd, hframes⟩ : f.bridge.outputs ∣ (f.stored ticks engine : List Int16).length ∧
      (f.stored ticks engine : List Int16).length / f.bridge.outputs = ticks * f.bridge.block :=
    frames_stored hpos hmax engine
  have hwhole := f.dvd_pieceSize
  rw [hstereo] at hdvd hframes hwhole
  have heven : ∀ piece ∈ pieces f.pieceSize (f.stored ticks engine : List Int16),
      piece.length % 2 = 0 := by
    intro piece hpiece
    exact Nat.mod_eq_zero_of_dvd (dvd_length_of_mem_pieces hwhole hdvd piece hpiece)
  have hflat := f.flatten_pieces_pieceSize (f.stored ticks engine : List Int16)
  have hcount : (Frame.ofSamples (f.stored ticks engine)).length = ticks * f.bridge.block :=
    (Frame.length_ofSamples _).trans hframes
  obtain ⟨ring, hall, hholds⟩ := enqueueAll_holds h heven
    (by rw [hflat, hcount]; exact hroom)
  rw [hflat] at hall hholds
  refine ⟨ring, ?_, hholds⟩
  rw [renderInto_eq, hall, hcount]

theorem renderInto_holds (hengine : Engine.Streams f.bridge stream ran)
    (hstereo : f.bridge.outputs = 2) (h : q.ring.Holds l) {ticks : Nat} (hpos : 0 < ticks)
    (hmax : ticks ≤ f.bridge.maxTicks) (hroom : l.length + ticks * f.bridge.block < n)
    (engine : ε) :
    ∃ ring engine', f.renderInto ticks q engine =
        (ticks * f.bridge.block, { q with ring }, engine') ∧
      ran engine' = ran engine + ticks ∧
      ring.Holds (l ++ (List.range (ticks * f.bridge.block)).map fun i =>
        frameAt f.bridge.range stream (ran engine * f.bridge.block + i)) := by
  obtain ⟨hsamples, hran⟩ := hengine.render hpos hmax engine
  have hstored : (f.stored ticks engine : List Int16) =
      (List.range (2 * (ticks * f.bridge.block))).map fun i =>
        f.bridge.range.store (stream (2 * (ran engine * f.bridge.block) + i)) := by
    unfold stored
    rw [hsamples, hstereo, List.map_map, Nat.mul_comm _ 2, Nat.mul_comm _ 2]
    rfl
  have hframes : Frame.ofSamples (f.stored ticks engine) =
      (List.range (ticks * f.bridge.block)).map fun i =>
        frameAt f.bridge.range stream (ran engine * f.bridge.block + i) := by
    rw [hstored, Frame.ofSamples_map_range]
    refine List.map_congr_left fun i _ => ?_
    rw [frameAt, Nat.mul_add, Nat.add_assoc]
  obtain ⟨ring, hrender, hholds⟩ := renderInto_stored hstereo h hpos hmax hroom engine
  rw [hframes] at hholds
  exact ⟨ring, (f.bridge.render ticks engine).2, hrender, hran, hholds⟩

/-- Starting is a top-off after which the queue may play. -/
theorem start_value (f : Feeder) (q : FrameQueue n) (engine : ε) :
    let primed := f.topOff (fun q () => (q, ())) q engine ()
    ∃ active, (f.start q engine).value.2 = ({ primed.sink with active }, primed.engine) := by
  intro primed
  obtain ⟨active, hstart⟩ := primed.sink.start_queue
  unfold start
  simp only
  split
  · exact ⟨primed.sink.active, rfl⟩
  · refine ⟨active, ?_⟩
    rw [← hstart, Logged.value_bind]
    split <;> rfl

end Feeder

end Patchbay
