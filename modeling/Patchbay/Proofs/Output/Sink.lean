import Mathlib.Algebra.GroupWithZero.Nat
import Patchbay.Proofs.Output.FrameQueue
import Patchbay.Proofs.Render.Rounds
/-!
# Sinks under observation

What a producer may rely on when it offers samples to any sink (`PushSink.Honest`), and a sink with
a record of what happens to it (`Observed`): what was offered and taken, what other work removed
meanwhile, when the device was started, and each time how much waited then. A frame queue is honest,
and takes all that fits.
-/

namespace Patchbay

namespace PushSink

/-- A sink of constant capacity that takes some leading frames of an offer, none beyond its
capacity, and keeps all it took. -/
structure Honest (κ : Type) {α : Type} [PushSink κ α] (channels : Nat) : Prop where
  capacity_eq : ∀ (samples : List α) (sink : κ),
    capacity (enqueue samples sink).2 = capacity sink
  taken_le : ∀ (samples : List α) (sink : κ),
    (enqueue samples sink).1 ≤ min (samples.length / channels) (capacity sink - queued sink)
  queued_eq : ∀ (samples : List α) (sink : κ),
    queued (enqueue samples sink).2 = queued sink + (enqueue samples sink).1

theorem Honest.taken_le_frames {κ α : Type} [PushSink κ α] {channels : Nat}
    (h : Honest κ channels) (samples : List α) (sink : κ) :
    (enqueue samples sink).1 ≤ samples.length / channels :=
  Nat.le_trans (h.taken_le samples sink) (Nat.min_le_left _ _)

/-- A sink that takes all that fits. -/
def Eager (κ : Type) {α : Type} [PushSink κ α] (channels : Nat) : Prop :=
  ∀ (samples : List α) (sink : κ), (enqueue samples sink).1 =
    min (samples.length / channels) (capacity sink - queued sink)

theorem Eager.taken_eq {κ α : Type} [PushSink κ α] {channels : Nat} (h : Eager κ channels)
    {samples : List α} {sink : κ}
    (hroom : queued sink + samples.length / channels ≤ capacity sink) :
    (enqueue samples sink).1 = samples.length / channels :=
  (h samples sink).trans (Nat.min_eq_left (Nat.le_sub_of_add_le' hroom))

/-- Work that at most removes frames from a sink. -/
structure Drains {κ α γ : Type} [PushSink κ α] (work : κ → γ → κ × γ) : Prop where
  capacity_eq : ∀ sink s, capacity (work sink s).1 = capacity sink
  queued_le : ∀ sink s, queued (work sink s).1 ≤ queued sink

theorem Drains.idle {κ α γ : Type} [PushSink κ α] :
    Drains (fun (sink : κ) (s : γ) => (sink, s)) :=
  ⟨fun _ _ => rfl, fun _ _ => Nat.le_refl _⟩

end PushSink

namespace FrameQueue

theorem honest (n : Nat) : PushSink.Honest (FrameQueue n) 2 where
  capacity_eq _ _ := rfl
  taken_le samples q := Nat.le_of_eq (q.enqueue_count samples).1
  queued_eq samples q := (q.enqueue_count samples).2

theorem eager (n : Nat) : PushSink.Eager (FrameQueue n) 2 :=
  fun samples q => (q.enqueue_count samples).1

end FrameQueue

/-! ## Records -/

/-- Something that happened to a sink. The last number says how many frames waited then. -/
inductive SinkEvent (α : Type) where
  /-- Samples were offered, and so many frames of them were taken. -/
  | offered (samples : List α) (taken waiting : Nat)
  /-- Other work had its turn. -/
  | polled (before waiting : Nat)
  /-- The device was told to start. -/
  | started (waiting : Nat)
deriving DecidableEq, Repr

namespace SinkEvent

variable {α : Type}

def samples : SinkEvent α → List α
  | .offered samples _ _ => samples
  | _ => []

def taken : SinkEvent α → Nat
  | .offered _ taken _ => taken
  | _ => 0

/-- The frames that other work removed. -/
def removed : SinkEvent α → Nat
  | .polled before waiting => before - waiting
  | _ => 0

def waiting : SinkEvent α → Nat
  | .offered _ _ waiting => waiting
  | .polled _ waiting => waiting
  | .started waiting => waiting

end SinkEvent

structure Observed (κ α : Type) where
  sink : κ
  events : List (SinkEvent α) := []
deriving DecidableEq, Repr

namespace Observed

variable {κ α φ γ : Type} [PushSink κ α]

instance : PushSink (Observed κ α) α where
  capacity o := PushSink.capacity o.sink
  queued o := PushSink.queued o.sink
  free o := PushSink.free o.sink
  enqueue samples o :=
    let r := PushSink.enqueue samples o.sink
    (r.1,
      { sink := r.2, events := o.events ++ [.offered samples r.1 (PushSink.queued r.2)] })

instance [Startable κ φ] : Startable (Observed κ α) φ where
  start o := do
    let (result, sink) ← Startable.start o.sink
    pure (result, { sink, events := o.events ++ [.started (PushSink.queued o.sink)] })
  faultName := Startable.faultName κ

/-- Other work, with a record of each turn. -/
def poll (work : κ → γ → κ × γ) (o : Observed κ α) (s : γ) : Observed κ α × γ :=
  let r := work o.sink s
  ({ sink := r.1
     events := o.events ++ [.polled (PushSink.queued o.sink) (PushSink.queued r.1)] }, r.2)

theorem image : PushSink.Image (Observed.sink : Observed κ α → κ) :=
  ⟨fun _ => rfl, fun _ => rfl, fun _ _ => rfl⟩

/-- The frames that were taken so far. -/
def taken (o : Observed κ α) : Nat := (o.events.map SinkEvent.taken).sum

/-- The frames that other work has removed so far. -/
def removed (o : Observed κ α) : Nat := (o.events.map SinkEvent.removed).sum

@[simp] theorem taken_enqueue (samples : List α) (o : Observed κ α) :
    (PushSink.enqueue samples o).2.taken = o.taken + (PushSink.enqueue samples o).1 := by
  simp [taken, PushSink.enqueue, SinkEvent.taken]

@[simp] theorem removed_enqueue (samples : List α) (o : Observed κ α) :
    (PushSink.enqueue samples o).2.removed = o.removed := by
  simp [removed, PushSink.enqueue, SinkEvent.removed]

@[simp] theorem taken_poll (work : κ → γ → κ × γ) (o : Observed κ α) (s : γ) :
    (o.poll work s).1.taken = o.taken := by
  simp [taken, poll, SinkEvent.taken]

@[simp] theorem removed_poll (work : κ → γ → κ × γ) (o : Observed κ α) (s : γ) :
    (o.poll work s).1.removed =
      o.removed + (PushSink.queued o.sink - PushSink.queued (work o.sink s).1) := by
  simp [removed, poll, SinkEvent.removed]

end Observed

theorem PushSink.Honest.observed {κ α : Type} [PushSink κ α] {channels : Nat}
    (h : PushSink.Honest κ channels) : PushSink.Honest (Observed κ α) channels :=
  ⟨fun samples o => h.capacity_eq samples o.sink, fun samples o => h.taken_le samples o.sink,
    fun samples o => h.queued_eq samples o.sink⟩

/-! ## A sink that sips -/

/-- A sink for one channel that counts what it holds. Of each offer it takes so many frames at
most as its list says next, and none when the list is used up. -/
structure Sipping where
  capacity : Nat
  queued : Nat := 0
  sips : List Nat
deriving DecidableEq, Repr

namespace Sipping

instance : PushSink Sipping Int16 where
  capacity := capacity
  queued := queued
  enqueue samples sink :=
    let taken := min (min samples.length (sink.capacity - sink.queued)) (sink.sips.headD 0)
    (taken, { sink with queued := sink.queued + taken, sips := sink.sips.tail })

theorem honest : PushSink.Honest Sipping 1 := by
  refine ⟨fun _ _ => rfl, ?_, fun _ _ => rfl⟩
  intro samples sink
  rw [Nat.div_one]
  exact Nat.min_le_left _ _

/-- Removes so many frames at each turn as a list says. -/
def drain (sink : Sipping) : List Nat → Sipping × List Nat
  | [] => (sink, [])
  | count :: rest => ({ sink with queued := sink.queued - count }, rest)

theorem drains : PushSink.Drains drain := by
  refine ⟨?_, ?_⟩
  · intro sink s
    cases s <;> rfl
  · intro sink s
    cases s with
    | nil => exact Nat.le_refl _
    | cons count rest => exact Nat.sub_le _ _

/-- The list pays for what it removes. -/
theorem drain_pays (sink : Sipping) (s : List Nat) :
    PushSink.queued sink + (drain sink s).2.sum ≤ PushSink.queued (drain sink s).1 + s.sum := by
  cases s with
  | nil => exact Nat.le_refl _
  | cons count rest =>
    change sink.queued + rest.sum ≤ sink.queued - count + (count :: rest).sum
    rw [List.sum_cons]
    omega

end Sipping

end Patchbay
