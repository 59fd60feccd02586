import Mathlib.Algebra.GroupWithZero.Nat
import Patchbay.Proofs.Output.FrameQueue
import Patchbay.Proofs.Run
/-!
# The frame queue as a list that plays

What the two sides of a `FrameQueue` see of it: frames that wait in order, and a switch. A
`FrameFifo` has these and keeps a book of the frames that came in and of those that left; it knows
of no ring, no batches and no indices. `FrameQueue.performAll_eq_frameFifo` says that a queue
answers every sequence of calls as the list does, and that no frame is lost on the way.
-/

namespace Patchbay

/-- One call on a frame queue, from either side. -/
inductive FrameCall where
  | enqueue (samples : List Int16)
  | pop
  | popMany (count : Nat)
  | start
  | stop
deriving DecidableEq, Repr

/-- What a call on a frame queue answers. -/
inductive FrameReply where
  /-- So many leading frames were taken. -/
  | accepted (count : Nat)
  | popped (frames : List Frame)
  | started (result : Except FrameQueue.Fault Unit)
  | stopped
deriving Repr

/-- The frames that an answer says were taken. -/
def FrameReply.taken : FrameReply → Nat
  | .accepted count => count
  | _ => 0

structure FrameFifo where
  /-- The frames that wait, oldest first. -/
  waiting : List Frame := []
  playing : Bool := false
  /-- How often a frame was asked for while it played and none waited. -/
  missed : Nat := 0
  /-- All frames that came in. -/
  accepted : List Frame := []
  /-- All frames that left. -/
  played : List Frame := []
deriving DecidableEq, Repr

namespace FrameFifo

def pop (s : FrameFifo) : Frame × FrameFifo :=
  match s.playing, s.waiting with
  | false, _ => (.silent, s)
  | true, [] => (.silent, { s with missed := s.missed + 1 })
  | true, frame :: rest => (frame, { s with waiting := rest, played := s.played ++ [frame] })

def popMany : Nat → FrameFifo → List Frame × FrameFifo
  | 0, s => ([], s)
  | count + 1, s =>
    let rest := popMany count s.pop.2
    (s.pop.1 :: rest.1, rest.2)

/-- One call on a list with room for `capacity` frames. -/
def perform (capacity : Nat) (s : FrameFifo) : FrameCall → FrameReply × FrameFifo
  | .enqueue samples =>
    let count := min (samples.length / 2) (capacity - s.waiting.length)
    let frames := (Frame.ofSamples samples).take count
    (.accepted count,
      { s with waiting := s.waiting ++ frames, accepted := s.accepted ++ frames })
  | .pop => (.popped [s.pop.1], s.pop.2)
  | .popMany count => (.popped (s.popMany count).1, (s.popMany count).2)
  | .start =>
    if s.waiting = [] then (.started (.error .empty), s)
    else (.started (.ok ()), { s with playing := true })
  | .stop => (.stopped, { s with playing := false })

/-- Calls one after another. -/
def performAll (capacity : Nat) (s : FrameFifo) (calls : List FrameCall) :
    List FrameReply × FrameFifo :=
  runAll (perform capacity) s calls

theorem pop_accepted (s : FrameFifo) : s.pop.2.accepted = s.accepted := by
  unfold pop
  split <;> rfl

theorem popMany_accepted (count : Nat) (s : FrameFifo) :
    (s.popMany count).2.accepted = s.accepted := by
  induction count generalizing s with
  | zero => rfl
  | succ count ih => exact (ih s.pop.2).trans s.pop_accepted

/-- What came in is what the answers say. -/
theorem perform_accepted (capacity : Nat) (s : FrameFifo) (call : FrameCall) :
    (s.perform capacity call).2.accepted.length =
      s.accepted.length + (s.perform capacity call).1.taken := by
  cases call with
  | enqueue samples =>
    unfold perform
    simp only [FrameReply.taken, List.length_append, List.length_take, Frame.length_ofSamples]
    omega
  | pop => exact congrArg List.length s.pop_accepted
  | popMany count => exact congrArg List.length (s.popMany_accepted count)
  | start =>
    unfold perform
    simp only
    split <;> rfl
  | stop => rfl

theorem performAll_accepted (capacity : Nat) (s : FrameFifo) (calls : List FrameCall) :
    (s.performAll capacity calls).2.accepted.length =
      s.accepted.length + ((s.performAll capacity calls).1.map FrameReply.taken).sum := by
  unfold performAll
  induction calls generalizing s with
  | nil => rfl
  | cons call calls ih =>
    simp only [runAll, List.map_cons, List.sum_cons]
    rw [ih, perform_accepted, Nat.add_assoc]

end FrameFifo

namespace FrameQueue

variable {n : Nat}

/-- One call on a frame queue. -/
def perform (q : FrameQueue n) : FrameCall → FrameReply × FrameQueue n
  | .enqueue samples => let r := q.enqueue samples; (.accepted r.1, r.2)
  | .pop => let r := q.pop; (.popped [r.1], r.2)
  | .popMany count => let r := q.popMany count; (.popped r.1, r.2)
  | .start => let r := q.start.value; (.started r.1, r.2)
  | .stop => (.stopped, q.stop)

/-- Calls one after another. -/
def performAll (q : FrameQueue n) (calls : List FrameCall) : List FrameReply × FrameQueue n :=
  runAll perform q calls

/-- A queue that is in the state of a list. `output` is what the queue says about itself. -/
structure Shows (output : OutputSpec) (q : FrameQueue n) (s : FrameFifo) : Prop where
  holds : q.ring.Holds s.waiting
  active : q.active = s.playing
  underruns : q.underruns = UInt32.ofNat s.missed
  spec : q.spec = output
  balanced : s.accepted = s.played ++ s.waiting

namespace Shows

variable {output : OutputSpec} {q : FrameQueue n} {s : FrameFifo}

theorem enqueue (h : q.Shows output s) (samples : List Int16) :
    (q.perform (.enqueue samples)).1 = (s.perform (n - 1) (.enqueue samples)).1 ∧
      (q.perform (.enqueue samples)).2.Shows output (s.perform (n - 1) (.enqueue samples)).2 := by
  obtain ⟨hcount, hq, hring⟩ := enqueue_holds h.holds samples
  rw [List.take_eq_take_min, Frame.length_ofSamples, Nat.min_comm] at hring
  refine ⟨congrArg FrameReply.accepted hcount, ?_⟩
  unfold perform FrameFifo.perform
  simp only
  rw [hq]
  refine ⟨hring, h.active, h.underruns, h.spec, ?_⟩
  change s.accepted ++ _ = s.played ++ (s.waiting ++ _)
  rw [h.balanced, List.append_assoc]

theorem pop (h : q.Shows output s) : q.pop.1 = s.pop.1 ∧ q.pop.2.Shows output s.pop.2 := by
  obtain ⟨waiting, playing, missed, accepted, played⟩ := s
  have hactive : q.active = playing := h.active
  cases playing with
  | false =>
    rw [pop_stopped hactive]
    exact ⟨rfl, h⟩
  | true =>
    cases waiting with
    | nil =>
      rw [pop_nil h.holds hactive]
      refine ⟨rfl, h.holds, h.active, ?_, h.spec, h.balanced⟩
      change q.underruns + 1 = UInt32.ofNat (missed + 1)
      rw [h.underruns, UInt32.ofNat_add]
      rfl
    | cons frame waiting =>
      obtain ⟨ring, hpop, hring⟩ := pop_cons h.holds hactive
      rw [hpop]
      refine ⟨rfl, hring, h.active, h.underruns, h.spec, ?_⟩
      change accepted = (played ++ [frame]) ++ waiting
      rw [List.append_assoc]
      exact h.balanced

theorem popMany (h : q.Shows output s) (count : Nat) :
    (q.popMany count).1 = (s.popMany count).1 ∧
      (q.popMany count).2.Shows output (s.popMany count).2 := by
  induction count generalizing q s with
  | zero => exact ⟨rfl, h⟩
  | succ count ih =>
    obtain ⟨hframe, hpop⟩ := h.pop
    obtain ⟨hframes, hrest⟩ := ih hpop
    exact ⟨List.cons_eq_cons.2 ⟨hframe, hframes⟩, hrest⟩

theorem start (h : q.Shows output s) :
    (q.perform .start).1 = (s.perform (n - 1) .start).1 ∧
      (q.perform .start).2.Shows output (s.perform (n - 1) .start).2 := by
  unfold perform FrameFifo.perform
  simp only [FrameQueue.start, h.holds.isEmpty_eq, List.isEmpty_iff]
  by_cases hempty : s.waiting = []
  · rw [if_pos hempty, if_pos hempty]
    exact ⟨rfl, h⟩
  · rw [if_neg hempty, if_neg hempty]
    exact ⟨rfl, h.holds, rfl, h.underruns, h.spec, h.balanced⟩

/-- Each call answers as the list does and leaves what the list leaves. -/
theorem perform (h : q.Shows output s) (call : FrameCall) :
    (q.perform call).1 = (s.perform (n - 1) call).1 ∧
      (q.perform call).2.Shows output (s.perform (n - 1) call).2 := by
  cases call with
  | enqueue samples => exact h.enqueue samples
  | pop =>
    obtain ⟨hframe, hpop⟩ := h.pop
    exact ⟨congrArg (fun frame => FrameReply.popped [frame]) hframe, hpop⟩
  | popMany count =>
    obtain ⟨hframes, hpop⟩ := h.popMany count
    exact ⟨congrArg FrameReply.popped hframes, hpop⟩
  | start => exact h.start
  | stop => exact ⟨rfl, h.holds, rfl, h.underruns, h.spec, h.balanced⟩

theorem performAll (h : q.Shows output s) (calls : List FrameCall) :
    (q.performAll calls).1 = (s.performAll (n - 1) calls).1 ∧
      (q.performAll calls).2.Shows output (s.performAll (n - 1) calls).2 := by
  have hrun := runAll_alike (Shows output) id (fun call (_ : call ∈ calls) _ _ h => h.perform call) h
  rw [List.map_id] at hrun
  exact hrun

end Shows

/-- A new queue of at least two slots answers any sequence of calls as the list with room for one
frame less does, and afterwards is in its state. What came in is what left and what waits, in this
order. -/
theorem performAll_eq_frameFifo {n : Nat} (hn : 2 ≤ n) (chunkFrames depthMs : Nat)
    (calls : List FrameCall) :
    ∃ new : FrameQueue n, create? n chunkFrames depthMs = some new ∧
      let q := new.performAll calls
      let s := FrameFifo.performAll (n - 1) {} calls
      q.1 = s.1 ∧ q.2.ring.contents = s.2.waiting ∧ q.2.ring.size = s.2.waiting.length ∧
        q.2.ring.free = n - 1 - s.2.waiting.length ∧ s.2.waiting.length ≤ n - 1 ∧
        q.2.active = s.2.playing ∧ q.2.underruns = UInt32.ofNat s.2.missed ∧
        q.2.spec = new.spec ∧ s.2.accepted = s.2.played ++ q.2.ring.contents ∧
        (q.1.map FrameReply.taken).sum = s.2.played.length + q.2.ring.size := by
  obtain ⟨ring, hempty⟩ : ∃ ring, Ring.empty? Frame n = some ring := ⟨_, dif_pos hn⟩
  have hnew : create? n chunkFrames depthMs = some { ring, chunkFrames, depthMs } := by
    unfold create?
    rw [hempty]
    rfl
  obtain ⟨hring, hactive, hcounter⟩ := create_holds hnew
  have hstart : Shows (spec { ring, chunkFrames, depthMs }) { ring, chunkFrames, depthMs } {} :=
    ⟨hring, hactive, hcounter, rfl, rfl⟩
  obtain ⟨hreplies, hshows⟩ := hstart.performAll calls
  have hcontents := hshows.holds.contents_eq
  have hsize := hshows.holds.size_eq
  have hlength := hshows.holds.length_lt
  refine ⟨_, hnew, hreplies, hcontents, hsize, hshows.holds.free_eq, by omega, hshows.active,
    hshows.underruns, hshows.spec, ?_, ?_⟩
  · rw [hcontents]
    exact hshows.balanced
  · have haccepted := FrameFifo.performAll_accepted (n - 1) {} calls
    rw [hshows.balanced, List.length_append] at haccepted
    rw [hreplies, hsize, haccepted]
    exact (Nat.zero_add _).symm

/-- Room for three frames: samples without a partner, a refused start, frames that wait out a stop,
one that comes too late, and indices that go around. -/
theorem performAll_eq_frameFifo_around :
    let calls : List FrameCall :=
      [.start, .enqueue [1, 2, 3], .pop, .start, .enqueue [4, 5, 6, 7, 8, 9, 10], .stop, .pop,
        .start, .popMany 5, .enqueue [11, 12]]
    let early : List Frame := [⟨1, 2⟩, ⟨4, 5⟩, ⟨6, 7⟩]
    2 ≤ 4 ∧ ∃ new : FrameQueue 4, create? 4 3 20 = some new ∧
      let q := new.performAll calls
      q.1 = [.started (.error .empty), .accepted 1, .popped [.silent], .started (.ok ()),
          .accepted 2, .stopped, .popped [.silent], .started (.ok ()),
          .popped (early ++ [.silent, .silent]), .accepted 1] ∧
        q.2.ring.contents = [⟨11, 12⟩] ∧ q.2.ring.size = 1 ∧ q.2.ring.free = 2 ∧
        q.2.active = true ∧ q.2.underruns = 2 ∧ q.2.spec = new.spec ∧
        (FrameFifo.performAll 3 {} calls).2.accepted = early ++ q.2.ring.contents ∧
        (q.1.map FrameReply.taken).sum = 3 + q.2.ring.size := by
  intro calls early
  have hslots : 2 ≤ 4 := by decide
  obtain ⟨new, hnew, hreplies, hcontents, hsize, hfree, -, hactive, hunderruns, hspec, haccepted,
    htaken⟩ := performAll_eq_frameFifo hslots 3 20 calls
  exact ⟨hslots, new, hnew, hreplies, hcontents, hsize, hfree, hactive, hunderruns, hspec,
    haccepted, htaken⟩

end FrameQueue

end Patchbay
