import Patchbay.Proofs.Render.Feeder
import Patchbay.Proofs.Run
/-!
# From the engine to the hardware

A `Rig` is a frame queue with the engine that fills it, and every call on it answers with a record
of the frames that were asked for. Whatever is called, and in whatever order, the frames that left
the queue and those that wait in it are the frames of the engine, in order and without a gap
(`Sound`). Every call keeps that: frames leave at the front (`Sound.pop`), a top-off adds the next
ones at the back (`Sound.topOffWithin`), also while the hardware takes frames between its renders.
-/

namespace Patchbay.Playback

variable {n : Nat}

/-! ## Calls -/

/-- One frame that was asked for. -/
structure Pop where
  /-- Whether the queue played. -/
  playing : Bool
  /-- The frames that waited. -/
  waiting : Nat
  /-- The answer. -/
  frame : Frame
deriving DecidableEq, Repr

/-- Whether the frame left the queue. -/
def Pop.taken (p : Pop) : Bool := p.playing && p.waiting != 0

/-- Whether there was no frame to play. -/
def Pop.missed (p : Pop) : Bool := p.playing && p.waiting == 0

/-- The frames that left a queue, in order. -/
def played (pops : List Pop) : List Frame :=
  (pops.filter Pop.taken).map Pop.frame

theorem played_append (pops pops' : List Pop) :
    played (pops ++ pops') = played pops ++ played pops' := by
  rw [played, List.filter_append, List.map_append]
  rfl

/-- The record of answers that a queue gave one after another. -/
def popsOf (q : FrameQueue n) : List Frame → List Pop
  | [] => []
  | frame :: rest => ⟨q.active, q.ring.size, frame⟩ :: popsOf q.pop.2 rest

/-- What the hardware side of a queue can do. -/
inductive Demand where
  | pop
  | popMany (count : Nat)
  | activate
  | deactivate
deriving DecidableEq, Repr

namespace Demand

/-- The frames that a demand asks for. -/
def frames : Demand → Nat
  | .pop => 1
  | .popMany count => count
  | .activate => 0
  | .deactivate => 0

/-- The frames that demands ask for together. -/
def total : List Demand → Nat
  | [] => 0
  | d :: rest => d.frames + total rest

/-- Meets a demand and puts on record what was asked for. -/
def perform (q : FrameQueue n) : Demand → List Pop × FrameQueue n
  | .pop => let r := q.pop; (popsOf q [r.1], r.2)
  | .popMany count => let r := q.popMany count; (popsOf q r.1, r.2)
  | .activate => ([], q.start.value.2)
  | .deactivate => ([], q.stop)

/-- Meets demands one after another. -/
def performAll (q : FrameQueue n) (ds : List Demand) : List Pop × FrameQueue n :=
  let r := runAll perform q ds
  (r.1.flatten, r.2)

end Demand

/-- Demands that come between the renders of a top-off: the first of them after its first render,
and so on. -/
abbrev Schedule : Type := List (List Demand)

/-- The frames that a schedule asks for. -/
def Schedule.frames : Schedule → Nat
  | [] => 0
  | demands :: rest => Demand.total demands + Schedule.frames rest

/-- Meets the next demands of a schedule and adds to the record. -/
def poll (q : FrameQueue n) : Schedule × List Pop → FrameQueue n × Schedule × List Pop
  | ([], pops) => (q, [], pops)
  | (demands :: rest, pops) =>
    let r := Demand.performAll q demands
    (r.2, rest, pops ++ r.1)

inductive Call where
  | topOff (schedule : Schedule)
  | start
  | demand (d : Demand)
deriving DecidableEq, Repr

structure Rig (n : Nat) (ε : Type) where
  queue : FrameQueue n
  engine : ε
  /-- Whether every top-off came to its own end, those of starts included. -/
  settled : Bool := true

variable {ε : Type} [Engine ε]

/-- Makes a call and puts on record what was asked for. -/
def perform (f : Feeder) (rig : Rig n ε) : Call → List Pop × Rig n ε
  | .topOff schedule =>
    let rounds := f.target + schedule.frames + 1
    let result := f.topOffWithin rounds poll 0 rig.queue rig.engine (schedule, [])
    (result.polling.2,
      { queue := result.sink
        engine := result.engine
        settled := rig.settled && result.finished })
  | .start =>
    let primed := f.topOff (fun queue () => (queue, ())) rig.queue rig.engine ()
    let started := (f.start rig.queue rig.engine).value.2
    ([],
      { queue := started.1
        engine := started.2
        settled := rig.settled && primed.finished })
  | .demand d => let r := d.perform rig.queue; (r.1, { rig with queue := r.2 })

/-- Makes calls one after another. -/
def performAll (f : Feeder) (rig : Rig n ε) (calls : List Call) : List (List Pop) × Rig n ε :=
  runAll (perform f) rig calls

/-! ## What is put on record -/

theorem length_popsOf (q : FrameQueue n) (frames : List Frame) :
    (popsOf q frames).length = frames.length := by
  induction frames generalizing q with
  | nil => rfl
  | cons frame frames ih => exact congrArg Nat.succ (ih q.pop.2)

theorem length_popMany (q : FrameQueue n) (count : Nat) : (q.popMany count).1.length = count := by
  induction count generalizing q with
  | zero => rfl
  | succ count ih => exact congrArg Nat.succ (ih q.pop.2)

theorem Demand.length_perform (q : FrameQueue n) (d : Demand) :
    (d.perform q).1.length = d.frames := by
  cases d with
  | pop => exact length_popsOf q [q.pop.1]
  | popMany count => exact (length_popsOf q _).trans (length_popMany q count)
  | activate => rfl
  | deactivate => rfl

theorem Demand.length_performAll (q : FrameQueue n) (ds : List Demand) :
    (performAll q ds).1.length = total ds := by
  induction ds generalizing q with
  | nil => rfl
  | cons d ds ih =>
    change ((d.perform q).1 ++ (performAll (d.perform q).2 ds).1).length = total (d :: ds)
    rw [List.length_append, length_perform, ih, total]

theorem Schedule.frames_append_singleton (done : Schedule) (demands : List Demand) :
    frames (done ++ [demands]) = frames done + Demand.total demands := by
  induction done with
  | nil => exact Nat.add_comm _ _
  | cons first done ih => exact (congrArg _ ih).trans (Nat.add_assoc _ _ _).symm

/-- A call puts as many pops on record as frames were asked for: a demand its own, and a top-off
those of the demands that it came to, which are the first of its schedule. -/
def Call.Records : Call → List Pop → Prop
  | .topOff schedule, pops => ∃ done, done <+: schedule ∧ pops.length = Schedule.frames done
  | .start, pops => pops = []
  | .demand d, pops => pops.length = d.frames

/-- A schedule that was come to in part: what came is on record and the rest is left. -/
def Schedule.Follows (schedule : Schedule) (s : Schedule × List Pop) : Prop :=
  ∃ done, done ++ s.1 = schedule ∧ s.2.length = frames done

theorem Schedule.follows_poll {schedule : Schedule} (q : FrameQueue n) {s : Schedule × List Pop}
    (h : schedule.Follows s) : schedule.Follows (poll q s).2 := by
  obtain ⟨rest, pops⟩ := s
  obtain ⟨done, hdone, hlength⟩ := h
  cases rest with
  | nil => exact ⟨done, hdone, hlength⟩
  | cons demands rest =>
    refine ⟨done ++ [demands], ?_, ?_⟩
    · rw [List.append_assoc]
      exact hdone
    · rw [frames_append_singleton, ← hlength]
      exact List.length_append.trans (congrArg _ (Demand.length_performAll q demands))

theorem perform_records (f : Feeder) (rig : Rig n ε) (call : Call) :
    call.Records (perform f rig call).1 := by
  cases call with
  | topOff schedule =>
    have hstart : schedule.Follows (schedule, []) := ⟨[], rfl, rfl⟩
    obtain ⟨done, hdone, hlength⟩ : schedule.Follows
        (f.topOffWithin (f.target + schedule.frames + 1) poll 0 rig.queue rig.engine
          (schedule, [])).polling :=
      Feeder.topOffWithin_polling (Schedule.follows_poll _) _ hstart
    exact ⟨done, ⟨_, hdone⟩, hlength⟩
  | start => rfl
  | demand d => exact d.length_perform rig.queue

/-! ## Frames leave at the front -/

/-- The frames that left the queue and the ones in it are the first `made` frames of a stream. -/
structure Sound (stream : Nat → Frame) (target made : Nat) (queued : List Frame)
    (q : FrameQueue n) (pops : List Pop) : Prop where
  holds : q.ring.Holds queued
  frames : played pops ++ queued = (List.range made).map stream
  silent : ∀ p ∈ pops, p.taken = false → p.frame = .silent
  underruns : q.underruns = UInt32.ofNat (pops.countP Pop.missed)
  length_le : queued.length ≤ target
  waiting_le : ∀ p ∈ pops, p.waiting ≤ target

namespace Sound

variable {stream : Nat → Frame} {target made : Nat} {queued : List Frame} {q : FrameQueue n}
  {pops : List Pop}

theorem setActive (h : Sound stream target made queued q pops) (active : Bool) :
    Sound stream target made queued { q with active } pops :=
  ⟨h.holds, h.frames, h.silent, h.underruns, h.length_le, h.waiting_le⟩

/-- One more answer is recorded. What it took is missing from the queue. -/
theorem record (h : Sound stream target made queued q pops) {queued' : List Frame}
    {q' : FrameQueue n} {p : Pop} (hring : q'.ring.Holds queued')
    (hframes : played [p] ++ queued' = queued) (hsilent : p.taken = false → p.frame = .silent)
    (hunderruns : q'.underruns = q.underruns + UInt32.ofNat ([p].countP Pop.missed))
    (hwaiting : p.waiting ≤ target) :
    Sound stream target made queued' q' (pops ++ [p]) := by
  have hlength := h.length_le
  rw [← hframes, List.length_append] at hlength
  refine ⟨hring, ?_, ?_, ?_, Nat.le_of_add_left_le hlength, ?_⟩
  · rw [played_append, List.append_assoc, hframes]
    exact h.frames
  · exact List.forall_mem_append.2 ⟨h.silent, List.forall_mem_singleton.2 hsilent⟩
  · rw [List.countP_append, UInt32.ofNat_add, ← h.underruns]
    exact hunderruns
  · exact List.forall_mem_append.2 ⟨h.waiting_le, List.forall_mem_singleton.2 hwaiting⟩

/-- One frame is asked for. -/
theorem pop (h : Sound stream target made queued q pops) :
    ∃ queued', Sound stream target made queued' q.pop.2
        (pops ++ [⟨q.active, q.ring.size, q.pop.1⟩]) ∧
      queued'.length ≤ queued.length ∧ queued.length ≤ queued'.length + 1 := by
  have hwaiting := h.length_le
  rw [h.holds.size_eq]
  cases hactive : q.active with
  | false =>
    rw [FrameQueue.pop_stopped hactive]
    refine ⟨queued, ?_, Nat.le_refl _, Nat.le_succ _⟩
    exact h.record h.holds rfl (fun _ => rfl) (UInt32.add_zero _).symm hwaiting
  | true =>
    cases queued with
    | nil =>
      rw [FrameQueue.pop_nil h.holds hactive]
      refine ⟨[], ?_, Nat.le_refl _, Nat.le_succ _⟩
      exact h.record h.holds rfl (fun _ => rfl) rfl hwaiting
    | cons frame queued =>
      obtain ⟨ring, hpop, hring⟩ := FrameQueue.pop_cons h.holds hactive
      rw [hpop]
      refine ⟨queued, ?_, Nat.le_succ _, Nat.le_refl _⟩
      refine h.record hring rfl ?_ (UInt32.add_zero _).symm hwaiting
      intro htaken
      cases htaken

theorem popMany (h : Sound stream target made queued q pops) (count : Nat) :
    ∃ queued', Sound stream target made queued' (q.popMany count).2
        (pops ++ popsOf q (q.popMany count).1) ∧
      queued'.length ≤ queued.length ∧ queued.length ≤ queued'.length + count := by
  induction count generalizing q pops queued with
  | zero =>
    refine ⟨queued, ?_, Nat.le_refl _, Nat.le_refl _⟩
    rw [FrameQueue.popMany, popsOf, List.append_nil]
    exact h
  | succ count ih =>
    obtain ⟨queued₁, hpop, hle₁, hge₁⟩ := h.pop
    obtain ⟨queued', hmany, hle, hge⟩ := ih hpop
    refine ⟨queued', ?_, by omega, by omega⟩
    rw [List.append_assoc] at hmany
    exact hmany

theorem demand (h : Sound stream target made queued q pops) (d : Demand) :
    ∃ queued', Sound stream target made queued' (d.perform q).2 (pops ++ (d.perform q).1) ∧
      queued'.length ≤ queued.length ∧ queued.length ≤ queued'.length + d.frames := by
  cases d with
  | pop => exact h.popMany 1
  | popMany count => exact h.popMany count
  | activate =>
    obtain ⟨active, hstart⟩ := q.start_queue
    refine ⟨queued, ?_, Nat.le_refl _, Nat.le_refl _⟩
    change Sound stream target made queued q.start.value.2 (pops ++ [])
    rw [hstart, List.append_nil]
    exact h.setActive active
  | deactivate =>
    refine ⟨queued, ?_, Nat.le_refl _, Nat.le_refl _⟩
    rw [Demand.perform, List.append_nil]
    exact h.setActive false

theorem demands (h : Sound stream target made queued q pops) (ds : List Demand) :
    ∃ queued', Sound stream target made queued' (Demand.performAll q ds).2
        (pops ++ (Demand.performAll q ds).1) ∧
      queued'.length ≤ queued.length ∧
      queued.length ≤ queued'.length + Demand.total ds := by
  induction ds generalizing q pops queued with
  | nil =>
    refine ⟨queued, ?_, Nat.le_refl _, Nat.le_refl _⟩
    rw [Demand.performAll, runAll, List.flatten_nil, List.append_nil]
    exact h
  | cons d ds ih =>
    obtain ⟨queued₁, hfirst, hle, hge⟩ := h.demand d
    obtain ⟨queued', hrest, hle', hge'⟩ := ih hfirst
    rw [List.append_assoc] at hrest
    refine ⟨queued', hrest, by omega, ?_⟩
    rw [Demand.total]
    omega

/-- The next frames of the stream are added. -/
theorem add (h : Sound stream target made queued q pops) {count : Nat} {ring : Ring Frame n}
    (hring : ring.Holds (queued ++ (List.range count).map fun i => stream (made + i)))
    (hfits : queued.length + count ≤ target) :
    Sound stream target (made + count)
      (queued ++ (List.range count).map fun i => stream (made + i)) { q with ring } pops := by
  refine ⟨hring, ?_, h.silent, h.underruns, ?_, h.waiting_le⟩
  · rw [← List.append_assoc, h.frames, List.range_add, List.map_append, List.map_map]
    rfl
  · rw [List.length_append, List.length_map, List.length_range]
    exact hfits

end Sound

/-! ## Frames come in at the back -/

/-- Work between renders that does no more than take frames from the queue. `pops` is the record it
keeps, and `left` bounds the frames that it still takes. -/
structure Drains {γ : Type} (stream : Nat → Frame) (target : Nat)
    (work : FrameQueue n → γ → FrameQueue n × γ) (pops : γ → List Pop) (left : γ → Nat) : Prop where
  keeps : ∀ {made queued q s}, Sound stream target made queued q (pops s) →
    ∃ queued', Sound stream target made queued' (work q s).1 (pops (work q s).2) ∧
      queued'.length ≤ queued.length ∧
      queued.length + left (work q s).2 ≤ queued'.length + left s

/-- Polling adds to the record that there is. -/
theorem poll_drains (stream : Nat → Frame) (target : Nat) (earlier : List Pop) :
    Drains stream target (@poll n) (fun s => earlier ++ s.2) (fun s => Schedule.frames s.1) := by
  refine ⟨?_⟩
  rintro made queued q ⟨schedule, pops⟩ h
  cases schedule with
  | nil => exact ⟨queued, h, Nat.le_refl _, Nat.le_refl _⟩
  | cons ds rest =>
    obtain ⟨queued', hdemands, hle, hge⟩ := h.demands ds
    rw [List.append_assoc] at hdemands
    refine ⟨queued', hdemands, hle, ?_⟩
    change queued.length + Schedule.frames rest ≤
      queued'.length + (Demand.total ds + Schedule.frames rest)
    omega

theorem idle_drains (stream : Nat → Frame) (target : Nat) (pops : List Pop) :
    Drains stream target (fun (q : FrameQueue n) () => (q, ())) (fun _ => pops) (fun _ => 0) := by
  refine ⟨?_⟩
  intro made queued q s h
  exact ⟨queued, h, Nat.le_refl _, Nat.le_refl _⟩

section TopOff

variable {γ : Type} {f : Feeder} {samples : Nat → Single} {ran : ε → Nat}
  (hengine : Engine.Streams f.bridge samples ran) (hstereo : f.bridge.outputs = 2)
  (htarget : f.target < n)

include hengine hstereo htarget in
/-- A top-off adds the next frames of the engine, and ends if it has a round for every frame that
may be missing. -/
theorem Sound.topOffWithin {work : FrameQueue n → γ → FrameQueue n × γ} {pops : γ → List Pop}
    {left : γ → Nat} (hwork : Drains (frameAt f.bridge.range samples) f.target work pops left)
    (rounds : Nat) {queued : List Frame} {q : FrameQueue n} {engine : ε} {s : γ}
    (h : Sound (frameAt f.bridge.range samples) f.target (ran engine * f.bridge.block) queued q
      (pops s)) (frames : Nat) :
    let result := f.topOffWithin rounds work frames q engine s
    (∃ queued', Sound (frameAt f.bridge.range samples) f.target
        (ran result.engine * f.bridge.block) queued' result.sink (pops result.polling)) ∧
      (f.target - queued.length + left s < rounds → result.finished = true) := by
  induction rounds generalizing queued q engine s frames with
  | zero => exact ⟨⟨queued, h⟩, fun hrounds => absurd hrounds (Nat.not_lt_zero _)⟩
  | succ rounds ih =>
    intro result
    by_cases hdue : f.dueTicks q = 0
    · have hresult : result = { frames, sink := q, engine, polling := s, finished := true } :=
        if_pos hdue
      rw [hresult]
      exact ⟨⟨queued, h⟩, fun _ => rfl⟩
    · obtain ⟨hmax, hfits⟩ := Feeder.dueTicks_fits hdue
      have hwaiting : PushSink.queued q = queued.length := h.holds.size_eq
      have hpos := Nat.pos_of_ne_zero hdue
      -- Polling takes frames away, so what was due before it still fits.
      let polled := Feeder.polled work frames q s
      obtain ⟨queued₁, hpolled, hle, hleft⟩ : ∃ queued',
          Sound (frameAt f.bridge.range samples) f.target (ran engine * f.bridge.block) queued'
            polled.1 (pops polled.2) ∧ queued'.length ≤ queued.length ∧
          queued.length + left polled.2 ≤ queued'.length + left s := by
        by_cases hfirst : 0 < frames
        · have hwhat : polled = work q s := if_pos hfirst
          rw [hwhat]
          exact hwork.keeps h
        · have hwhat : polled = (q, s) := if_neg hfirst
          rw [hwhat]
          exact ⟨queued, h, Nat.le_refl _, Nat.le_refl _⟩
      let count := f.dueTicks q * f.bridge.block
      have hcount : 0 < count := Nat.mul_pos hpos f.bridge.block_pos
      obtain ⟨ring, engine', hrender, hran, hring⟩ :=
        Feeder.renderInto_holds hengine hstereo hpolled.holds hpos hmax (by omega) engine
      have hadded := hpolled.add hring (by omega)
      rw [← Nat.add_mul, ← hran] at hadded
      obtain ⟨hrest, hfinished⟩ := ih hadded (frames + count)
      have hresult : result =
          f.topOffWithin rounds work (frames + count) { polled.1 with ring } engine' polled.2 := by
        refine (Feeder.topOffWithin_succ hdue).trans ?_
        change (if (f.renderInto _ polled.1 engine).1 = 0 then _ else _) = _
        rw [hrender]
        exact if_neg (Nat.ne_of_gt hcount)
      rw [hresult]
      refine ⟨hrest, fun hrounds => hfinished ?_⟩
      rw [List.length_append, List.length_map, List.length_range]
      change f.target - (queued₁.length + count) + left polled.2 < rounds
      omega

/-! ## Whole runs -/

/-- What holds of a rig between two calls, where `pops` is all that was put on record so far. -/
structure Rig.Sound (f : Feeder) (samples : Nat → Single) (ran : ε → Nat) (queued : List Frame)
    (rig : Rig n ε) (pops : List Pop) : Prop where
  sound : Playback.Sound (frameAt f.bridge.range samples) f.target
    (ran rig.engine * f.bridge.block) queued rig.queue pops
  settled : rig.settled = true

include hengine hstereo htarget in
theorem Rig.Sound.perform {queued : List Frame} {rig : Rig n ε} {pops : List Pop}
    (h : rig.Sound f samples ran queued pops) (call : Call) :
    let r := Playback.perform f rig call
    ∃ queued', r.2.Sound f samples ran queued' (pops ++ r.1) := by
  have hbefore := h.sound
  rw [← List.append_nil pops] at hbefore
  cases call with
  | topOff schedule =>
    obtain ⟨⟨queued', hsound⟩, hfinished⟩ :=
      Sound.topOffWithin hengine hstereo htarget (poll_drains _ _ pops)
        (f.target + Schedule.frames schedule + 1) (s := (schedule, [])) hbefore 0
    refine ⟨queued', hsound, ?_⟩
    have hrounds : f.target - queued.length + Schedule.frames schedule <
        f.target + Schedule.frames schedule + 1 := by omega
    have hdone := hfinished hrounds
    exact Bool.and_eq_true_iff.2 ⟨h.settled, hdone⟩
  | start =>
    obtain ⟨⟨queued', hsound⟩, hfinished⟩ :=
      Sound.topOffWithin hengine hstereo htarget (idle_drains _ _ (pops ++ [])) (f.target + 1)
        (s := ()) hbefore 0
    have hrounds : f.target - queued.length + 0 < f.target + 1 := by omega
    have hdone := hfinished hrounds
    obtain ⟨active, hstart⟩ := Feeder.start_value f rig.queue rig.engine
    refine ⟨queued', ?_, Bool.and_eq_true_iff.2 ⟨h.settled, hdone⟩⟩
    change Playback.Sound _ _ (ran (f.start rig.queue rig.engine).value.2.2 * _) _
      (f.start rig.queue rig.engine).value.2.1 (pops ++ [])
    rw [hstart]
    exact hsound.setActive active
  | demand d =>
    obtain ⟨queued', hsound, -, -⟩ := h.sound.demand d
    exact ⟨queued', hsound, h.settled⟩

include hengine hstereo htarget in
theorem Rig.Sound.performAll {queued : List Frame} {rig : Rig n ε} {pops : List Pop}
    (h : rig.Sound f samples ran queued pops) (calls : List Call) :
    let r := Playback.performAll f rig calls
    ∃ queued', r.2.Sound f samples ran queued' (pops ++ r.1.flatten) := by
  induction calls generalizing queued rig pops with
  | nil =>
    refine ⟨queued, ?_⟩
    rw [← List.append_nil pops] at h
    exact h
  | cons call rest ih =>
    obtain ⟨queued₁, hfirst⟩ := h.perform hengine hstereo htarget call
    obtain ⟨queued', hrest⟩ := ih hfirst
    rw [List.append_assoc] at hrest
    exact ⟨queued', hrest⟩

end TopOff

/-- No frame is lost, doubled or moved. Whatever is called on a new queue and the feeder that was
created for it: the frames that left the queue and then those that wait in it are the frames that
the engine made so far, what was asked for in vain is silent and counted while it played, the queue
never holds more than the target, and every top-off comes to an end. As many pops are on record as
frames were asked for. -/
theorem performAll_frames {chunkFrames depthMs rate : Nat} {q : FrameQueue n}
    (hqueue : FrameQueue.create? n chunkFrames depthMs = some q) {b : Bridge} {f : Feeder}
    (hfeeder : (Feeder.create b q.spec rate q).value = .ok f) {samples : Nat → Single}
    {ran : ε → Nat} (hengine : Engine.Streams b samples ran) {engine : ε} (hnew : ran engine = 0)
    (calls : List Call) :
    let run := performAll f { queue := q, engine } calls
    let rig := run.2
    let pops := run.1.flatten
    played pops ++ rig.queue.ring.contents =
        (List.range (b.block * ran rig.engine)).map (frameAt .signed16 samples) ∧
      (∀ p ∈ pops, p.taken = false → p.frame = .silent) ∧
      rig.queue.underruns = UInt32.ofNat (pops.countP Pop.missed) ∧
      rig.queue.ring.size = rig.queue.ring.contents.length ∧
      rig.queue.ring.size ≤ f.target ∧
      (∀ p ∈ pops, p.waiting ≤ f.target) ∧
      rig.settled = true ∧
      List.Forall₂ Call.Records calls run.1 := by
  obtain ⟨hempty, -, hcounter⟩ := FrameQueue.create_holds hqueue
  obtain ⟨rfl, hstereo, hrange, hcapacity⟩ := Feeder.create_ok hfeeder
  have hslots := q.ring.head.isLt
  have htarget : f.target < n := by
    change f.target ≤ n - 1 at hcapacity
    omega
  have hstart : Rig.Sound f samples ran [] { queue := q, engine } [] := by
    refine ⟨⟨hempty, ?_, ?_, hcounter, Nat.zero_le _, ?_⟩, rfl⟩
    · rw [hnew, Nat.zero_mul]
      rfl
    · intro p hp
      cases hp
    · intro p hp
      cases hp
  obtain ⟨queued, hsound, hsettled⟩ := hstart.performAll hengine hstereo htarget calls
  intro run rig pops
  have hcontents := hsound.holds.contents_eq
  have hsize := hsound.holds.size_eq
  refine ⟨?_, hsound.silent, hsound.underruns, ?_, ?_, hsound.waiting_le, hsettled,
    runAll_forall₂ (perform_records f) _ calls⟩
  · rw [hcontents]
    refine hsound.frames.trans ?_
    rw [Nat.mul_comm, hrange]
    rfl
  · rw [hcontents, hsize]
  · rw [hsize]
    exact hsound.length_le

/-! ## A rig with a square wave -/

/-- An engine that counts its ticks, each of so many samples. -/
structure Ticker (perTick : Nat) where
  ticks : Nat := 0
deriving DecidableEq, Repr

def square (i : Nat) : Single :=
  if i % 6 < 3 then Single.one else Single.minusOne

instance (perTick : Nat) : Engine (Ticker perTick) where
  process ticks _ count engine :=
    (Vector.ofFn fun i : Fin count => square (engine.ticks * perTick + i),
      { ticks := engine.ticks + ticks })

theorem Ticker.streams (b : Bridge) :
    Engine.Streams b square (@Ticker.ticks (b.block * b.outputs)) := by
  refine ⟨?_⟩
  intro ticks engine silence result
  refine ⟨?_, rfl⟩
  apply List.ext_getElem
  · simp [result]
  · intro i hi hi'
    have hsample : result.1.toList[i] = square (engine.ticks * (b.block * b.outputs) + i) := by
      simp [result, Engine.process]
    rw [hsample, List.getElem_map, List.getElem_range, Nat.mul_assoc]

def smallQueue : FrameQueue 8 where
  ring := { slots := Vector.replicate 8 none, head := 0, tail := 0 }
  chunkFrames := 2
  depthMs := 1

def smallBridge : Bridge where
  inputs := 0
  outputs := 2
  range := .signed16
  block := 2
  capacity := 8
  outputs_pos := by decide
  block_pos := by decide
  range_valid := by decide
  tick_fits := by decide

def smallFeeder : Feeder where
  bridge := smallBridge
  target := 5
  chunk := 2
  outputs_le := by decide

/-- The queue runs dry while it plays and is filled anew. Six frames have left it and four wait. -/
theorem performAll_frames_square :
    let calls : List Call :=
      [.topOff [[.activate, .pop]], .demand (.popMany 7), .start, .demand .deactivate,
        .demand .pop, .topOff []]
    let wave : List Frame := [⟨32767, 32767⟩, ⟨32767, -32767⟩, ⟨-32767, -32767⟩]
    let run := performAll smallFeeder { queue := smallQueue, engine := ({} : Ticker 4) } calls
    let rig := run.2
    let pops := run.1.flatten
    played pops ++ rig.queue.ring.contents = wave ++ wave ++ wave ++ wave.take 1 ∧
      played pops = wave ++ wave ∧
      (∀ p ∈ pops, p.taken = false → p.frame = .silent) ∧
      rig.queue.underruns = 2 ∧ rig.queue.ring.size = 4 ∧ (∀ p ∈ pops, p.waiting ≤ 5) ∧
      rig.settled = true ∧ List.Forall₂ Call.Records calls run.1 ∧
      run.1.map List.length = [1, 7, 0, 0, 1, 0] := by
  intro calls wave run rig pops
  have hqueue : FrameQueue.create? 8 2 1 = some smallQueue := rfl
  have hfeeder : (Feeder.create smallBridge smallQueue.spec 5000 smallQueue).value =
    .ok smallFeeder := rfl
  obtain ⟨hframes, hsilent, hunderruns, hsize, -, hwaiting, hsettled, hrecords⟩ :=
    performAll_frames hqueue hfeeder (Ticker.streams smallBridge) rfl calls
  have hmissed : pops.countP Pop.missed = 2 := by decide +kernel
  have hplayed : played pops = wave ++ wave := by decide +kernel
  have hticks : rig.engine.ticks = 5 := by decide +kernel
  have hwave : (List.range 10).map (frameAt .signed16 square) =
      wave ++ wave ++ wave ++ wave.take 1 := by
    decide +kernel
  have hall : played pops ++ rig.queue.ring.contents = wave ++ wave ++ wave ++ wave.take 1 := by
    refine hframes.trans ?_
    change (List.range (2 * rig.engine.ticks)).map _ = _
    rw [hticks]
    exact hwave
  have hwaits : rig.queue.ring.contents.length = 4 := by
    have hlength := congrArg List.length hall
    rw [hplayed, List.length_append] at hlength
    exact Nat.add_left_cancel hlength
  refine ⟨hall, hplayed, hsilent, ?_, hsize.trans hwaits, hwaiting, hsettled, hrecords, ?_⟩
  · refine hunderruns.trans ?_
    change UInt32.ofNat (pops.countP Pop.missed) = 2
    rw [hmissed]
    rfl
  · decide +kernel

end Patchbay.Playback
