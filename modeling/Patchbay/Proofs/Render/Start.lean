import Patchbay.Proofs.Output.Sink
import Patchbay.Proofs.Render.TopOff
/-!
# Starting on a full queue

A start primes the queue and tells the device to start only if something waits then
(`start_of_empty`, `start_of_queued`). Priming is a top-off that nobody drains, so all that it adds
waits (`prime_of_honest`). A feeder that was created for a sink has room for a block wherever it
looks for it, and a sink that takes all that fits has some of it after priming (`prime_of_eager`):
a frame queue always starts.
-/

namespace Patchbay

/-- A device that keeps what waits when it fails to start. -/
def Startable.Keeps (κ : Type) {α φ : Type} [PushSink κ α] [Startable κ φ] : Prop :=
  ∀ (sink : κ) (fault : φ), (Startable.start sink).value.1 = .error fault →
    PushSink.queued (Startable.start sink).value.2 = PushSink.queued sink

/-- How many frames waited when the device was started. -/
def SinkEvent.startedWith {α : Type} : SinkEvent α → Option Nat
  | .started waiting => some waiting
  | _ => none

namespace Observed

variable {κ α φ : Type} [PushSink κ α]

/-- How many frames waited each time the device was started. -/
def starts (o : Observed κ α) : List Nat := o.events.filterMap SinkEvent.startedWith

@[simp] theorem starts_enqueue (samples : List α) (o : Observed κ α) :
    (PushSink.enqueue samples o).2.starts = o.starts := by
  simp [starts, PushSink.enqueue, SinkEvent.startedWith]

@[simp] theorem starts_start [Startable κ φ] (o : Observed κ α) :
    (Startable.start o).value.2.starts = o.starts ++ [PushSink.queued o.sink] := by
  simp [starts, Startable.start, SinkEvent.startedWith]

end Observed

theorem Bridge.create_ok {capacity block : Nat} {layout : BridgeLayout} {b : Bridge}
    (h : (Bridge.create capacity block layout).value = .ok b) :
    b.block = block ∧ b.outputs = layout.outputs :=
  have hcreated := createdFor_of_create h
  ⟨hcreated.block_eq, hcreated.outputs_eq⟩

namespace Feeder

variable {κ α φ ε : Type} [PushSink κ α] {f : Feeder} {sink : κ}

/-! ## Whole renders -/

theorem enqueueAll_of_eager (hsink : PushSink.Honest κ f.bridge.outputs)
    (heager : PushSink.Eager κ f.bridge.outputs) {pieces : List (List α)}
    (hwhole : ∀ piece ∈ pieces, f.bridge.outputs ∣ piece.length)
    (hroom : PushSink.queued sink + pieces.flatten.length / f.bridge.outputs ≤
      PushSink.capacity sink) :
    (enqueueAll pieces sink).1 = pieces.flatten.length / f.bridge.outputs := by
  induction pieces generalizing sink with
  | nil => exact (Nat.zero_div _).symm
  | cons piece pieces ih =>
    obtain ⟨hdvd, hwhole⟩ := List.forall_mem_cons.1 hwhole
    rw [List.flatten_cons, List.length_append, Nat.add_div_of_dvd_right hdvd] at hroom ⊢
    have htaken : (PushSink.enqueue piece sink).1 = piece.length / f.bridge.outputs :=
      heager.taken_eq (Nat.le_trans (Nat.add_le_add_left (Nat.le_add_right _ _) _) hroom)
    have hqueued := hsink.queued_eq piece sink
    have hrest : (enqueueAll pieces (PushSink.enqueue piece sink).2).1 =
        pieces.flatten.length / f.bridge.outputs := by
      apply ih hwhole
      rw [hsink.capacity_eq]
      omega
    calc (enqueueAll (piece :: pieces) sink).1
        = (PushSink.enqueue piece sink).1 + (enqueueAll pieces (PushSink.enqueue piece sink).2).1 :=
          rfl
      _ = piece.length / f.bridge.outputs + pieces.flatten.length / f.bridge.outputs := by
          rw [htaken, hrest]

variable [StoredSample α] [Engine ε]

theorem renderInto_of_eager (hsink : PushSink.Honest κ f.bridge.outputs)
    (heager : PushSink.Eager κ f.bridge.outputs) {ticks : Nat} (hpos : 0 < ticks)
    (hmax : ticks ≤ f.bridge.maxTicks)
    (hroom : PushSink.queued sink + ticks * f.bridge.block ≤ PushSink.capacity sink) (engine : ε) :
    (f.renderInto ticks sink engine).1 = ticks * f.bridge.block := by
  obtain ⟨hdvd, hframes⟩ : f.bridge.outputs ∣ (f.stored ticks engine : List α).length ∧
      (f.stored ticks engine : List α).length / f.bridge.outputs = ticks * f.bridge.block :=
    frames_stored hpos hmax engine
  have hall := f.flatten_pieces_pieceSize (f.stored ticks engine : List α)
  rw [renderInto_eq, ← hframes]
  refine (enqueueAll_of_eager hsink heager
    (dvd_length_of_mem_pieces f.dvd_pieceSize hdvd) ?_).trans ?_
  · rw [hall, hframes]
    exact hroom
  · rw [hall]

/-! ## Priming -/

/-- The top-off of a start, during which nobody drains. -/
def prime (f : Feeder) (sink : κ) (engine : ε) : TopOff κ ε Unit :=
  f.topOff (fun sink () => (sink, ())) sink engine ()

theorem prime_of_honest (hsink : PushSink.Honest κ f.bridge.outputs) (sink : κ) (engine : ε) :
    let primed := f.prime sink engine
    primed.finished = true ∧
      PushSink.queued primed.sink = PushSink.queued sink + primed.frames := by
  intro primed
  obtain ⟨hqueued, hle⟩ :
      PushSink.queued primed.sink = PushSink.queued sink + primed.frames ∧
        PushSink.queued primed.sink ≤ max (PushSink.queued sink) f.target := by
    refine topOffWithin_keeps_offers
      (P := fun frames (s : κ) => PushSink.queued s = PushSink.queued sink + frames ∧
        PushSink.queued s ≤ max (PushSink.queued sink) f.target)
      hsink ?_ (fun _ _ => Nat.le_refl _) (fun h => h) ⟨rfl, Nat.le_max_left _ _⟩ _ engine ()
    rintro piece frames s ⟨hqueued, hle⟩ hpiece
    have htaken := hsink.taken_le_frames piece s
    have hroom := hpiece.room
    have hgrown := hsink.queued_eq piece s
    omega
  refine ⟨?_, hqueued⟩
  by_contra hopen
  rw [Bool.not_eq_true] at hopen
  -- an open run has added more frames than the target
  have hrounds : 0 + (f.target + 1) ≤ primed.frames := rounds_le_frames _ hopen
  omega

theorem prime_of_eager {b : Bridge} {output : OutputSpec} {rate : Nat} {built : κ}
    (hfeeder : (create b output rate built).value = .ok f)
    (hcapacity : PushSink.capacity sink = PushSink.capacity built)
    (hsink : PushSink.Honest κ b.outputs) (heager : PushSink.Eager κ b.outputs)
    (hfree : PushSink.free sink = PushSink.capacity sink - PushSink.queued sink) (engine : ε) :
    0 < PushSink.queued (f.prime sink engine).sink := by
  obtain ⟨rfl, -, -, htarget⟩ := create_ok hfeeder
  obtain ⟨hblock, hmissing, hchunk⟩ := block_le_of_create hfeeder
  obtain ⟨-, hqueued⟩ := prime_of_honest hsink sink engine
  rw [hqueued]
  rcases Nat.eq_zero_or_pos (PushSink.queued sink) with hnone | hsome
  · -- the first round finds a block due, and the sink takes what it renders
    have hdue : 0 < f.dueTicks sink := dueTicks_pos (by omega) (by omega) hchunk
    obtain ⟨hmax, hfits⟩ := dueTicks_fits (Nat.ne_of_gt hdue)
    have htaken : (f.renderInto (f.dueTicks sink) sink engine).1 =
        f.dueTicks sink * f.bridge.block :=
      renderInto_of_eager hsink heager hdue hmax (by omega) engine
    have hpos : 0 < (f.renderInto (f.dueTicks sink) sink engine).1 := by
      rw [htaken]
      exact Nat.mul_pos hdue f.bridge.block_pos
    have hfirst : (f.renderInto (f.dueTicks sink) sink engine).1 ≤
        (f.prime sink engine).frames := by
      unfold prime topOff
      rw [topOffWithin_succ (Nat.ne_of_gt hdue)]
      simp only [polled, Nat.lt_irrefl, if_false, Nat.ne_of_gt hpos, Nat.zero_add]
      exact le_topOffWithin_frames (fun _ _ => Nat.le_refl _) _
    omega
  · omega

theorem prime_starts (hsink : PushSink.Honest κ f.bridge.outputs) (engine : ε) :
    (f.prime ({ sink } : Observed κ α) engine).sink.starts = [] := by
  refine topOffWithin_keeps_offers (P := fun _ (o : Observed κ α) => o.starts = [])
    hsink.observed ?_ (fun _ _ => Nat.le_refl _) (fun h => h) rfl _ engine ()
  intro piece frames o h _
  rw [Observed.starts_enqueue]
  exact h

theorem prime_observed (f : Feeder) (sink : κ) (engine : ε) :
    f.prime sink engine = (f.prime ({ sink } : Observed κ α) engine).map Observed.sink id :=
  topOffWithin_image Observed.image (fun _ _ _ _ => rfl) (fun _ _ => rfl) f _ 0
    ({ sink } : Observed κ α) engine ()

/-! ## Starting -/

variable [Startable κ φ]

theorem start_of_empty {engine : ε} (h : PushSink.queued (f.prime sink engine).sink = 0) :
    (f.start sink engine).value =
      (.error .emptyQueue, (f.prime sink engine).sink, (f.prime sink engine).engine) := by
  unfold start
  exact congrArg Logged.value (if_pos h)

theorem start_of_queued {engine : ε} (h : PushSink.queued (f.prime sink engine).sink ≠ 0) :
    let primed := f.prime sink engine
    let started := (Startable.start primed.sink).value
    (f.start sink engine).value =
      ((started.1.map fun _ => primed.frames).mapError .device, started.2, primed.engine) := by
  unfold prime at h ⊢
  unfold start
  generalize f.topOff (fun sink () => (sink, ())) sink engine () = primed at h ⊢
  rcases hresult : (Startable.start primed.sink).value with ⟨_ | _, left⟩
  · simp only [if_neg h, Logged.value_bind, hresult]
    rfl
  · simp only [if_neg h, Logged.value_bind, hresult]
    rfl

theorem start_observed (hsink : PushSink.Honest κ f.bridge.outputs) (sink : κ) (engine : ε) :
    let waiting := PushSink.queued (f.prime sink engine).sink
    let seen := (f.start ({ sink } : Observed κ α) engine).value
    (f.start sink engine).value = (seen.1, seen.2.1.sink, seen.2.2) ∧
      seen.2.1.starts = if waiting = 0 then [] else [waiting] := by
  have hprime := prime_observed f sink engine
  have hnone : (f.prime ({ sink } : Observed κ α) engine).sink.starts = [] :=
    prime_starts hsink engine
  intro waiting seen
  have hwaiting : PushSink.queued (f.prime ({ sink } : Observed κ α) engine).sink = waiting := by
    change _ = PushSink.queued (f.prime sink engine).sink
    rw [hprime]
    rfl
  by_cases hempty : waiting = 0
  · have hseen : seen = _ := start_of_empty (hwaiting.trans hempty)
    rw [start_of_empty hempty, hseen, if_pos hempty, hprime]
    exact ⟨rfl, hnone⟩
  · have hseen : seen = _ := start_of_queued (by rwa [hwaiting])
    rw [start_of_queued hempty, hseen, if_neg hempty]
    refine ⟨?_, ?_⟩
    · rw [hprime]
      rfl
    · rw [Observed.starts_start, hnone, ← hwaiting]
      rfl

end Feeder

/-- Playback never starts on an empty queue, whatever the sink and the device, and what a start has
added is kept when the device refuses. A frame queue with the bridge and the feeder that were
created for it always starts, whatever it holds. -/
theorem Feeder.start_never_empty :
    (∀ {κ α φ ε : Type} [PushSink κ α] [StoredSample α] [Startable κ φ] [Engine ε] {f : Feeder},
      PushSink.Honest κ f.bridge.outputs → Startable.Keeps κ → ∀ (sink : κ) (engine : ε),
      let primed := f.prime sink engine
      let started := (Startable.start primed.sink).value
      let result := (f.start sink engine).value
      let seen := (f.start ({ sink } : Observed κ α) engine).value
      primed.finished = true ∧
        PushSink.queued primed.sink = PushSink.queued sink + primed.frames ∧
        result = (seen.1, seen.2.1.sink, seen.2.2) ∧
        (∀ waiting ∈ seen.2.1.starts, 0 < waiting) ∧
        (PushSink.queued primed.sink = 0 → seen.2.1.starts = [] ∧
          result = (.error .emptyQueue, primed.sink, primed.engine)) ∧
        (0 < PushSink.queued primed.sink →
          seen.2.1.starts = [PushSink.queued primed.sink] ∧
          result.2 = (started.2, primed.engine) ∧
          (started.1 = .ok () → result.1 = .ok primed.frames) ∧
          ∀ fault, started.1 = .error fault → result.1 = .error (.device fault) ∧
            PushSink.queued result.2.1 = PushSink.queued sink + primed.frames)) ∧
    ∀ {n capacity block rate : Nat} {made : FrameQueue n} {b : Bridge} {f : Feeder} {ε : Type}
      [Engine ε], (Bridge.create capacity block (.ofSpec made.spec)).value = .ok b →
      (create b made.spec rate made).value = .ok f → ∀ (q : FrameQueue n) (engine : ε),
      let primed := f.prime q engine
      block ≤ f.target ∧ f.target ≤ n - 1 ∧ 0 < primed.sink.ring.size ∧
        (f.start q engine).value =
          (.ok primed.frames, { primed.sink with active := true }, primed.engine) := by
  refine ⟨?_, ?_⟩
  · intro κ α φ ε _ _ _ _ f hsink hdevice sink engine primed started result seen
    obtain ⟨hfinished, hqueued⟩ := prime_of_honest hsink sink engine
    obtain ⟨hresult, hstarts⟩ := start_observed hsink sink engine
    refine ⟨hfinished, hqueued, hresult, ?_, ?_, ?_⟩
    · intro waiting hmem
      rw [hstarts] at hmem
      split at hmem
      · cases hmem
      · next hsome =>
        rw [List.mem_singleton.1 hmem]
        exact Nat.pos_of_ne_zero hsome
    · intro hempty
      exact ⟨hstarts.trans (if_pos hempty), start_of_empty hempty⟩
    · intro hsome
      have hsome := Nat.ne_of_gt hsome
      have hvalue : result = _ := start_of_queued hsome
      refine ⟨hstarts.trans (if_neg hsome), ?_, ?_, ?_⟩
      · rw [hvalue]
      · intro hok
        rw [hvalue, hok]
        rfl
      · intro fault hfault
        rw [hvalue, hfault]
        exact ⟨rfl, (hdevice _ fault hfault).trans hqueued⟩
  · intro n capacity block rate made b f ε _ hbridge hfeeder q engine primed
    obtain ⟨rfl, houtputs⟩ := Bridge.create_ok hbridge
    obtain ⟨-, -, -, htarget⟩ := create_ok hfeeder
    obtain ⟨-, hblock, -⟩ := block_le_of_create hfeeder
    have hstereo : b.outputs = 2 := houtputs
    have hcapacity : PushSink.capacity q = PushSink.capacity made := rfl
    have hsome : 0 < primed.sink.ring.size :=
      prime_of_eager hfeeder hcapacity (hstereo ▸ FrameQueue.honest n)
        (hstereo ▸ FrameQueue.eager n) rfl engine
    have hstarted : (Startable.start primed.sink).value = _ :=
      FrameQueue.start_of_size_pos hsome
    refine ⟨hblock, htarget, hsome, ?_⟩
    rw [start_of_queued (Nat.ne_of_gt hsome), hstarted]
    rfl

/-! ## Starts that fail and one that does not -/

inductive Sipping.Fault where
  | spent
deriving DecidableEq, Repr

/-- A sink that will take no more refuses to start. -/
instance : Startable Sipping Sipping.Fault where
  start sink := pure (if sink.sips.isEmpty then .error .spent else .ok (), sink)
  faultName _ := "Spent"

theorem Sipping.keeps : Startable.Keeps Sipping :=
  fun _ _ _ => rfl

/-- Its depth and its chunk are zero. -/
def shallowQueue : FrameQueue 4 where
  ring := { slots := Vector.replicate 4 none, head := 0, tail := 0 }
  chunkFrames := 0
  depthMs := 0

def stereoBridge : Bridge where
  inputs := 0
  outputs := 2
  range := .signed16
  block := 2
  capacity := 4
  outputs_pos := Nat.two_pos
  block_pos := Nat.two_pos
  range_valid := Feeder.signed16_valid
  tick_fits := by decide

def shallowFeeder : Feeder where
  bridge := stereoBridge
  target := 2
  chunk := 2
  outputs_le := by decide

theorem Feeder.start_never_empty_sipping :
    let sink : Sipping := { capacity := 9, sips := [4, 1] }
    let refused := (monoFeeder.start sink UpDown.mk).value
    let seen := (monoFeeder.start ({ sink } : Observed Sipping Int16) UpDown.mk).value
    let dry : Sipping := { capacity := 9, sips := [] }
    let started := (shallowFeeder.start shallowQueue UpDown.mk).value
    refused.1 = .error (.device .spent) ∧ PushSink.queued refused.2.1 = 5 ∧
      seen.2.1.starts = [5] ∧
      (monoFeeder.start dry UpDown.mk).value.1 = .error .emptyQueue ∧
      started.1 = .ok 2 ∧ started.2.1.active = true := by
  intro sink refused seen dry started
  obtain ⟨hsinks, hqueues⟩ := start_never_empty
  have hmono : PushSink.Honest Sipping monoFeeder.bridge.outputs := Sipping.honest
  have hfive : PushSink.queued (monoFeeder.prime sink UpDown.mk).sink = 5 := by decide +kernel
  have hnone : PushSink.queued (monoFeeder.prime dry UpDown.mk).sink = 0 := by decide +kernel
  obtain ⟨-, hadded, -, -, -, hsome⟩ := hsinks hmono Sipping.keeps sink UpDown.mk
  obtain ⟨-, -, -, -, hempty, -⟩ := hsinks hmono Sipping.keeps dry UpDown.mk
  obtain ⟨hstarts, -, -, hfault⟩ := hsome (hfive ▸ by decide)
  obtain ⟨hrefused, hkept⟩ := hfault .spent (by decide +kernel)
  have hbridge : (Bridge.create 4 2 (.ofSpec shallowQueue.spec)).value = .ok stereoBridge := rfl
  have hfeeder : (create stereoBridge shallowQueue.spec 0 shallowQueue).value = .ok shallowFeeder :=
    rfl
  obtain ⟨-, -, -, hstarted⟩ := hqueues hbridge hfeeder shallowQueue UpDown.mk
  rw [← hadded, hfive] at hkept
  rw [hfive] at hstarts
  refine ⟨hrefused, hkept, hstarts, congrArg Prod.fst (hempty hnone).2, ?_, ?_⟩
  · rw [show started = _ from hstarted]
    decide +kernel
  · rw [show started = _ from hstarted]

end Patchbay
