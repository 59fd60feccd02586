import Patchbay.Output.Pwm
import Patchbay.Proofs.Run
import Patchbay.Proofs.Sample.Stored
/-!
# What a PWM output does

Calls on a PWM output with a record of what comes of each: the chunk that was fetched, if any, and
the duties that both channels were told. Channels may fail at any write. `perform_effect` says
everything that a call can do, and `run_recorded` that the records do not change what it does.
-/

namespace Patchbay

/-- A duty that a channel was told. -/
structure DutyWrite where
  duty : UInt16
  /-- Whether the channel took it. -/
  done : Bool
deriving DecidableEq, Repr

/-- A channel with a record of what it was told. -/
structure Overseen (δ : Type) where
  channel : δ
  writes : List DutyWrite := []
deriving DecidableEq, Repr

instance {δ φ : Type} [DutyChannel δ φ] : DutyChannel (Overseen δ) φ where
  maxDuty c := DutyChannel.maxDuty c.channel
  setDuty duty c :=
    let r := DutyChannel.setDuty duty c.channel
    (r.1, { channel := r.2, writes := c.writes ++ [⟨duty, r.1.isOk⟩] })
  faultName := DutyChannel.faultName δ

/-- Both channels were told their duties, the left one first, and the right one only if the left one
took its own. This succeeded if both did. -/
def Told (left right : UInt16) (ok : Bool) (leftWrites rightWrites : List DutyWrite) : Prop :=
  ∃ taken taken', leftWrites = [⟨left, taken⟩] ∧
    rightWrites = (if taken then [⟨right, taken'⟩] else []) ∧ ok = (taken && taken')

/-- A chunk that was fetched: how many samples were reported, and the chunk as it was left. -/
structure Fetch (frames : Nat) where
  reported : Nat
  written : Vector UInt16 (2 * frames)
deriving DecidableEq, Repr

/-- The samples to play from a fetched chunk: those that were reported, then silence. -/
def Fetch.samples {frames : Nat} (silence : UInt16) (f : Fetch frames) : List UInt16 :=
  f.written.toList.take f.reported ++ List.replicate (2 * frames - f.reported) silence

/-- A fill with a record of what it did. -/
def Fill.recorded {frames : Nat} {γ : Type} (fill : Fill UInt16 (2 * frames) γ) :
    Fill UInt16 (2 * frames) (γ × List (Fetch frames)) := fun chunk s =>
  let r := fill chunk s.1
  (r.1, r.2.1, r.2.2, s.2 ++ [⟨r.1, r.2.1⟩])

/-! ## Calls -/

inductive PwmAct where
  | start
  | stop
  | interrupt
deriving DecidableEq, Repr

inductive PwmCall (frames : Nat) (γ : Type) where
  | start
  | stop
  | interrupt (fill : Fill UInt16 (2 * frames) γ)

namespace PwmCall

variable {κ ρ φ γ : Type} {frames : Nat}

def act : PwmCall frames γ → PwmAct
  | start => .start
  | stop => .stop
  | interrupt _ => .interrupt

def recorded : PwmCall frames γ → PwmCall frames (γ × List (Fetch frames))
  | start => .start
  | stop => .stop
  | interrupt fill => .interrupt fill.recorded

variable [DutyChannel κ φ] [DutyChannel ρ φ]

/-- Whether a call succeeds, and the output and the state of the fill afterwards. -/
def run (o : PwmOutput κ ρ frames) (g : γ) : PwmCall frames γ → Bool × PwmOutput κ ρ frames × γ
  | start => (o.start.value.1.isOk, o.start.value.2, g)
  | stop => (true, o.stop.value, g)
  | interrupt fill => ((o.interrupt fill g).1.isOk, (o.interrupt fill g).2)

end PwmCall

/-- What came of a call. -/
structure Moment (frames : Nat) where
  act : PwmAct
  ok : Bool
  fetched : List (Fetch frames)
  /-- What the left channel was told. -/
  left : List DutyWrite
  /-- What the right channel was told. -/
  right : List DutyWrite
deriving DecidableEq, Repr

namespace PwmOutput

variable {κ ρ φ γ : Type} {frames : Nat}

/-- The same output on channels that keep records, with what they were told so far. -/
def withWrites (left right : List DutyWrite) (o : PwmOutput κ ρ frames) :
    PwmOutput (Overseen κ) (Overseen ρ) frames where
  left := ⟨o.left, left⟩
  right := ⟨o.right, right⟩
  maxDuty := o.maxDuty
  chunk := o.chunk
  next := o.next
  active := o.active
  frames_pos := o.frames_pos

variable [DutyChannel κ φ] [DutyChannel ρ φ]

/-- Does what is called for. What came of it is read off the records of the same call on channels
and a fill that keep them (`run_recorded`). -/
def perform (s : PwmOutput κ ρ frames × γ) (call : PwmCall frames γ) :
    Moment frames × (PwmOutput κ ρ frames × γ) :=
  let r := call.run s.1 s.2
  let seen := call.recorded.run (s.1.withWrites [] []) (s.2, [])
  ({ act := call.act, ok := r.1, fetched := seen.2.2.2, left := seen.2.1.left.writes
     right := seen.2.1.right.writes }, r.2)

def performAll (s : PwmOutput κ ρ frames × γ) (calls : List (PwmCall frames γ)) :
    List (Moment frames) × (PwmOutput κ ρ frames × γ) :=
  runAll perform s calls

/-! ## What a call can do -/

/-- What a call can come to: a moment, and the state after it. Whatever the channels do, a call
changes nothing of the output but what stands here. -/
inductive Effect (s : PwmOutput κ ρ frames × γ) :
    PwmCall frames γ → Moment frames × (PwmOutput κ ρ frames × γ) → Prop where
  | started (c : κ) (c' : ρ) {left right : List DutyWrite}
      (told : Told s.1.silence s.1.silence true left right) :
      Effect s .start (⟨.start, true, [], left, right⟩,
        { s.1 with left := c, right := c', next := none, active := true }, s.2)
  | refused (c : κ) (c' : ρ) {left right : List DutyWrite}
      (told : Told s.1.silence s.1.silence false left right) :
      Effect s .start
        (⟨.start, false, [], left, right⟩, { s.1 with left := c, right := c' }, s.2)
  | stopped (c : κ) (c' : ρ) {parked : Bool} {left right : List DutyWrite}
      (told : Told s.1.silence s.1.silence parked left right) :
      Effect s .stop
        (⟨.stop, true, [], left, right⟩, { s.1 with left := c, right := c', active := false }, s.2)
  | ignored {fill : Fill UInt16 (2 * frames) γ} (stopped : s.1.active = false) :
      Effect s (.interrupt fill) (⟨.interrupt, true, [], [], []⟩, s)
  | continued {fill : Fill UInt16 (2 * frames) γ} (ok : Bool) (c : κ) (c' : ρ)
      {left right : List DutyWrite} {i : Fin frames} (active : s.1.active = true)
      (next : s.1.next = some i)
      (told : Told (s.1.frameAt i).1 (s.1.frameAt i).2 ok left right) :
      Effect s (.interrupt fill) (⟨.interrupt, ok, [], left, right⟩,
        { s.1 with left := c, right := c', next := after i }, s.2)
  | refilled {fill : Fill UInt16 (2 * frames) γ} (ok : Bool) (c : κ) (c' : ρ) {g : γ}
      {left right : List DutyWrite} {fetch : Fetch frames} {chunk : Vector UInt16 (2 * frames)}
      {first : Fin frames} (active : s.1.active = true) (next : s.1.next = none)
      (fetched : fill s.1.chunk s.2 = (fetch.reported, fetch.written, g))
      (filled : chunk.toList = fetch.samples s.1.silence) (begins : first.val = 0)
      (told : Told (frameAt { s.1 with chunk } first).1 (frameAt { s.1 with chunk } first).2
        ok left right) :
      Effect s (.interrupt fill) (⟨.interrupt, ok, [fetch], left, right⟩,
        { s.1 with left := c, right := c', chunk, next := after first }, g)

theorem create?_of_even {samples : Nat} (hsome : 2 ≤ samples) (heven : samples % 2 = 0) (left : κ)
    (right : ρ) :
    ∃ o, create? samples left right = some o ∧ o.active = false ∧
      o.maxDuty = min (DutyChannel.maxDuty left) (DutyChannel.maxDuty right) ∧
      ∀ duty ∈ o.chunk.toList, duty = o.silence := by
  refine ⟨_, dif_pos ⟨hsome, heven⟩, rfl, rfl, ?_⟩
  intro duty hduty
  rw [Vector.toList_replicate] at hduty
  exact List.eq_of_mem_replicate hduty

theorem setDuties_told (left right : UInt16) (o : PwmOutput κ ρ frames) :
    ∃ result c c' leftWrites rightWrites,
      setDuties left right o = (result, { o with left := c, right := c' }) ∧
        setDuties left right (o.withWrites [] []) =
          (result, withWrites leftWrites rightWrites { o with left := c, right := c' }) ∧
        Told left right result.isOk leftWrites rightWrites := by
  have hleft : DutyChannel.setDuty left (o.withWrites [] []).left =
      ((DutyChannel.setDuty left o.left).1,
        ⟨(DutyChannel.setDuty left o.left).2,
          [⟨left, (DutyChannel.setDuty left o.left).1.isOk⟩]⟩) := rfl
  unfold setDuties
  rw [hleft]
  rcases DutyChannel.setDuty left o.left with ⟨_ | _, channel⟩
  · exact ⟨_, _, _, _, _, rfl, rfl, false, false, rfl, rfl, rfl⟩
  · exact ⟨_, _, _, _, _, rfl, rfl, true, _, rfl, rfl, rfl⟩

/-- A new chunk is what was reported of the fetch, with silence behind it. -/
theorem refill_recorded (fill : Fill UInt16 (2 * frames) γ) (o : PwmOutput κ ρ frames) (g : γ) :
    ∃ fetch chunk g', fill o.chunk g = (fetch.reported, fetch.written, g') ∧
      chunk.toList = fetch.samples o.silence ∧ o.refill fill g = ({ o with chunk }, g') ∧
      (o.withWrites [] []).refill fill.recorded (g, []) =
        (withWrites [] [] { o with chunk }, (g', [fetch])) := by
  refine ⟨⟨(fill o.chunk g).1, (fill o.chunk g).2.1⟩, (o.refill fill g).1.chunk,
    (fill o.chunk g).2.2, rfl, ?_, rfl, rfl⟩
  exact toList_front (fill o.chunk g).2.1 (fill o.chunk g).1 o.silence

theorem park_told (o : PwmOutput κ ρ frames) :
    ∃ result c c' left right,
      o.park = (result, { o with left := c, right := c' }) ∧
        (o.withWrites [] []).park =
          (result, withWrites left right { o with left := c, right := c' }) ∧
        Told o.silence o.silence result.isOk left right :=
  setDuties_told o.silence o.silence o

theorem play_told (i : Fin frames) (o : PwmOutput κ ρ frames) :
    ∃ result c c' left right,
      o.play i = (result, { o with left := c, right := c', next := after i }) ∧
        (o.withWrites [] []).play i =
          (result, withWrites left right { o with left := c, right := c', next := after i }) ∧
        Told (o.frameAt i).1 (o.frameAt i).2 result.isOk left right :=
  setDuties_told (o.frameAt i).1 (o.frameAt i).2 { o with next := after i }

/-- The outcome of a call: an effect, with and without records. -/
structure Outcome (s : PwmOutput κ ρ frames × γ) (call : PwmCall frames γ)
    (r : Moment frames × (PwmOutput κ ρ frames × γ)) : Prop where
  effect : Effect s call r
  run_eq : call.run s.1 s.2 = (r.1.ok, r.2)
  recorded_eq : call.recorded.run (s.1.withWrites [] []) (s.2, []) =
    (r.1.ok, r.2.1.withWrites r.1.left r.1.right, (r.2.2, r.1.fetched))

section Parked

variable {o o' : PwmOutput κ ρ frames}

theorem start_of_ok (h : o.park = (.ok (), o')) :
    o.start.value = (.ok (), { o' with next := none, active := true }) := by
  unfold start
  rw [h]
  rfl

theorem start_of_error {fault : φ} (h : o.park = (.error fault, o')) :
    o.start.value = (.error fault, o') := by
  unfold start
  rw [h]
  rfl

theorem stop_of_parked {result : Except φ Unit}
    (h : park { o with active := false } = (result, o')) : o.stop.value = o' := by
  unfold stop
  rw [h]
  cases result <;> rfl

end Parked

theorem start_outcome (s : PwmOutput κ ρ frames × γ) : ∃ r, Outcome s .start r := by
  obtain ⟨o, g⟩ := s
  obtain ⟨result, c, c', left, right, hpark, hkept, htold⟩ := park_told o
  cases result with
  | error fault =>
    refine ⟨_, .refused c c' htold, ?_, ?_⟩
    · simp only [PwmCall.run, start_of_error hpark]
      rfl
    · simp only [PwmCall.run, PwmCall.recorded, start_of_error hkept]
      rfl
  | ok _ =>
    refine ⟨_, .started c c' htold, ?_, ?_⟩
    · simp only [PwmCall.run, start_of_ok hpark]
      rfl
    · simp only [PwmCall.run, PwmCall.recorded, start_of_ok hkept]
      rfl

theorem stop_outcome (s : PwmOutput κ ρ frames × γ) : ∃ r, Outcome s .stop r := by
  obtain ⟨o, g⟩ := s
  obtain ⟨result, c, c', left, right, hpark, hkept, htold⟩ := park_told { o with active := false }
  have hkept' : (o.withWrites [] []).stop.value = _ := stop_of_parked hkept
  refine ⟨_, .stopped c c' htold, ?_, ?_⟩
  · simp only [PwmCall.run, stop_of_parked hpark]
  · simp only [PwmCall.run, PwmCall.recorded, hkept']

section Interrupt

variable (o : PwmOutput κ ρ frames) (fill : Fill UInt16 (2 * frames) γ) (g : γ)

theorem interrupt_of_stopped (h : o.active = false) : o.interrupt fill g = (.ok (), o, g) := by
  unfold interrupt
  rw [h]
  rfl

theorem interrupt_of_next (h : o.active = true) {i : Fin frames} (hnext : o.next = some i) :
    o.interrupt fill g = ((o.play i).1, (o.play i).2, g) := by
  unfold interrupt
  rw [if_pos h, hnext]

theorem interrupt_of_end (h : o.active = true) (hnext : o.next = none) :
    o.interrupt fill g = (((o.refill fill g).1.play ⟨0, o.frames_pos⟩).1,
      ((o.refill fill g).1.play ⟨0, o.frames_pos⟩).2, (o.refill fill g).2) := by
  unfold interrupt
  rw [if_pos h, hnext]

end Interrupt

theorem interrupt_outcome (s : PwmOutput κ ρ frames × γ) (fill : Fill UInt16 (2 * frames) γ) :
    ∃ r, Outcome s (.interrupt fill) r := by
  obtain ⟨o, g⟩ := s
  cases hactive : o.active with
  | false =>
    refine ⟨_, .ignored hactive, ?_, ?_⟩
    · simp only [PwmCall.run, interrupt_of_stopped o fill g hactive]
      rfl
    · simp only [PwmCall.run, PwmCall.recorded,
        interrupt_of_stopped (o.withWrites [] []) fill.recorded (g, []) hactive]
      rfl
  | true =>
    cases hnext : o.next with
    | some i =>
      obtain ⟨result, c, c', left, right, hplay, hkept, htold⟩ := play_told i o
      refine ⟨_, .continued result.isOk c c' hactive hnext htold, ?_, ?_⟩
      · simp only [PwmCall.run, interrupt_of_next o fill g hactive hnext, hplay]
      · simp only [PwmCall.run, PwmCall.recorded,
          interrupt_of_next (o.withWrites [] []) fill.recorded (g, []) hactive hnext, hkept]
    | none =>
      obtain ⟨fetch, chunk, g', hfetch, hchunk, hrefill, hrefill'⟩ := refill_recorded fill o g
      obtain ⟨result, c, c', left, right, hplay, hkept, htold⟩ :=
        play_told ⟨0, o.frames_pos⟩ { o with chunk }
      refine ⟨_, .refilled result.isOk c c' hactive hnext hfetch hchunk rfl htold, ?_, ?_⟩
      · simp only [PwmCall.run, interrupt_of_end o fill g hactive hnext, hrefill, hplay]
      · simp only [PwmCall.run, PwmCall.recorded,
          interrupt_of_end (o.withWrites [] []) fill.recorded (g, []) hactive hnext, hrefill',
          hkept]

theorem perform_outcome (s : PwmOutput κ ρ frames × γ) (call : PwmCall frames γ) :
    Outcome s call (perform s call) := by
  obtain ⟨r, h⟩ : ∃ r, Outcome s call r := by
    cases call with
    | start => exact start_outcome s
    | stop => exact stop_outcome s
    | interrupt fill => exact interrupt_outcome s fill
  have hact : r.1.act = call.act := by
    cases h.effect <;> rfl
  have hperform : perform s call = r := by
    unfold perform
    rw [h.run_eq, h.recorded_eq, ← hact]
    rfl
  rw [hperform]
  exact h

theorem perform_effect (s : PwmOutput κ ρ frames × γ) (call : PwmCall frames γ) :
    Effect s call (perform s call) :=
  (perform_outcome s call).effect

/-- Keeping records changes nothing but the records. -/
theorem run_recorded (s : PwmOutput κ ρ frames × γ) (call : PwmCall frames γ) :
    let r := perform s call
    call.recorded.run (s.1.withWrites [] []) (s.2, []) =
      (r.1.ok, r.2.1.withWrites r.1.left r.1.right, (r.2.2, r.1.fetched)) :=
  (perform_outcome s call).recorded_eq

end PwmOutput

/-! ## Channels that fail -/

/-- A channel with a greatest duty whose writes fail as planned, and then no more. -/
structure Flaky where
  maxDuty : UInt16
  fails : List Bool
deriving DecidableEq, Repr

instance : DutyChannel Flaky Unit where
  maxDuty c := c.maxDuty
  setDuty _ c :=
    (if c.fails.headD false then .error () else .ok (), { c with fails := c.fails.tail })
  faultName _ := "fault"

/-- Two frames a chunk; the right channel reaches more than the left one. -/
def flakyOutput : PwmOutput Flaky Flaky 2 where
  left := ⟨255, [false, false, true, true]⟩
  right := ⟨2000, [false, true]⟩
  maxDuty := 255
  chunk := Vector.replicate 4 127
  frames_pos := Nat.two_pos

end Patchbay
