import Mathlib.Data.Nat.ModEq
import Patchbay.Proofs.Output.Sink
import Patchbay.Proofs.Render.Rounds
/-!
# Topping off any honest sink

An honest sink may take less than it is offered, and other work may remove frames between two
renders. To such a sink a top-off makes only offers that fit the target (`Offer`), so what each poll
and each such offer keeps a top-off keeps (`topOffWithin_keeps_offers`). An `Account` of the sink
under observation is kept: every frame is accounted for, and the target bounds what waits. A top-off
ends because each of its rounds adds a frame, and only so many are removed.
-/

namespace Patchbay.Feeder

variable {κ α ε γ : Type} [PushSink κ α]

/-! ## Offers -/

/-- What a feeder offers at a time: some whole frames, of which no more than the target lacks. -/
structure Offer (f : Feeder) (sink : κ) (piece : List α) : Prop where
  pos : 0 < piece.length
  le : piece.length ≤ pieceLimit
  dvd : f.bridge.outputs ∣ piece.length
  room : PushSink.queued sink + piece.length / f.bridge.outputs ≤ f.target

section Offers

variable {f : Feeder} (hsink : PushSink.Honest κ f.bridge.outputs) {P : Nat → κ → Prop}
  (offers : ∀ {piece frames sink}, P frames sink → f.Offer sink piece →
    P (frames + (PushSink.enqueue piece sink).1) (PushSink.enqueue piece sink).2)
  {frames : Nat} {sink : κ}

include hsink offers

theorem enqueueAll_keeps {pieces : List (List α)} (h : P frames sink)
    (hpieces : ∀ piece ∈ pieces, 0 < piece.length ∧ piece.length ≤ pieceLimit)
    (hwhole : ∀ piece ∈ pieces, f.bridge.outputs ∣ piece.length)
    (hroom : PushSink.queued sink + pieces.flatten.length / f.bridge.outputs ≤ f.target) :
    P (frames + (enqueueAll pieces sink).1) (enqueueAll pieces sink).2 := by
  induction pieces generalizing frames sink with
  | nil => exact h
  | cons piece pieces ih =>
    obtain ⟨⟨hpos, hle⟩, hrest⟩ := List.forall_mem_cons.1 hpieces
    obtain ⟨hdvd, hothers⟩ := List.forall_mem_cons.1 hwhole
    rw [List.flatten_cons, List.length_append, Nat.add_div_of_dvd_right hdvd] at hroom
    have htaken := hsink.taken_le_frames piece sink
    have hqueued := hsink.queued_eq piece sink
    have hfirst := offers h
      ⟨hpos, hle, hdvd, Nat.le_trans (Nat.add_le_add_left (Nat.le_add_right _ _) _) hroom⟩
    have hall := ih hfirst hrest hothers (by omega)
    rw [Nat.add_assoc] at hall
    exact hall

variable [StoredSample α] [Engine ε]

theorem renderInto_keeps (h : P frames sink) {ticks : Nat} (hpos : 0 < ticks)
    (hmax : ticks ≤ f.bridge.maxTicks)
    (hroom : PushSink.queued sink + ticks * f.bridge.block ≤ f.target) (engine : ε) :
    P (frames + (f.renderInto ticks sink engine).1) (f.renderInto ticks sink engine).2.1 := by
  let samples : List α := f.stored ticks engine
  obtain ⟨hdvd, hframes⟩ : f.bridge.outputs ∣ samples.length ∧
      samples.length / f.bridge.outputs = ticks * f.bridge.block := frames_stored hpos hmax engine
  rw [renderInto_eq]
  refine enqueueAll_keeps hsink offers h ?_ (dvd_length_of_mem_pieces f.dvd_pieceSize hdvd) ?_
  · intro piece hpiece
    obtain ⟨hsome, hsize⟩ := length_of_mem_pieces piece hpiece
    exact ⟨hsome, Nat.le_trans hsize f.pieceSize_le⟩
  · rw [flatten_pieces_pieceSize, hframes]
    exact hroom

/-- What each poll and each offer keeps a top-off keeps. -/
theorem topOffWithin_keeps_offers {work : κ → γ → κ × γ}
    (hwork : ∀ sink s, PushSink.queued (work sink s).1 ≤ PushSink.queued sink)
    (polls : ∀ {frames sink s}, P frames sink → P frames (work sink s).1) (h : P frames sink)
    (rounds : Nat) (engine : ε) (s : γ) :
    let r := f.topOffWithin rounds work frames sink engine s
    P r.frames r.sink := by
  refine topOffWithin_keeps (P := fun frames sink _ _ => P frames sink) hwork polls ?_ rounds h
  intro ticks frames sink engine s h hpos hmax hroom
  exact renderInto_keeps hsink offers h hpos hmax hroom engine

end Offers

/-! ## Accounts -/

/-- The state of an observed sink, of which `first` was the state before. `frames` have been added
since. -/
structure Account (f : Feeder) (first : κ) (frames : Nat) (o : Observed κ α) : Prop where
  capacity_eq : PushSink.capacity o.sink = PushSink.capacity first
  taken_eq : o.taken = frames
  balance : frames + PushSink.queued first = PushSink.queued o.sink + o.removed
  queued_le : PushSink.queued o.sink ≤ max (PushSink.queued first) f.target
  waiting_le : ∀ e ∈ o.events, e.waiting ≤ max (PushSink.queued first) f.target
  whole : ∀ {samples taken waiting}, .offered samples taken waiting ∈ o.events →
    0 < samples.length ∧ samples.length ≤ pieceLimit ∧ f.bridge.outputs ∣ samples.length

namespace Account

variable {f : Feeder} {first : κ} {frames : Nat} {o : Observed κ α}

theorem begin (f : Feeder) (sink : κ) : f.Account sink 0 ({ sink } : Observed κ α) := by
  refine ⟨rfl, rfl, Nat.add_comm _ _, Nat.le_max_left _ _, ?_, ?_⟩
  · intro e he
    cases he
  · intro samples taken waiting he
    cases he

theorem poll {work : κ → γ → κ × γ} (hwork : PushSink.Drains work) (h : f.Account first frames o)
    (s : γ) : f.Account first frames (o.poll work s).1 := by
  have hle := hwork.queued_le o.sink s
  have hqueued := h.queued_le
  refine ⟨(hwork.capacity_eq o.sink s).trans h.capacity_eq, ?_, ?_, Nat.le_trans hle hqueued, ?_, ?_⟩
  · rw [Observed.taken_poll, h.taken_eq]
  · have hbalance := h.balance
    rw [Observed.removed_poll]
    change frames + PushSink.queued first = PushSink.queued (work o.sink s).1 + _
    omega
  · intro e he
    rcases List.mem_append.1 he with hold | hnew
    · exact h.waiting_le e hold
    · obtain rfl := List.mem_singleton.1 hnew
      exact Nat.le_trans hle hqueued
  · intro samples taken waiting he
    rcases List.mem_append.1 he with hold | hnew
    · exact h.whole hold
    · cases List.mem_singleton.1 hnew

theorem offer (hsink : PushSink.Honest κ f.bridge.outputs) (h : f.Account first frames o)
    {piece : List α} (hpiece : f.Offer o piece) :
    f.Account first (frames + (PushSink.enqueue piece o).1) (PushSink.enqueue piece o).2 := by
  let taken := (PushSink.enqueue piece o.sink).1
  let sink := (PushSink.enqueue piece o.sink).2
  have htaken : taken ≤ piece.length / f.bridge.outputs := hsink.taken_le_frames piece o.sink
  have hqueued : PushSink.queued sink = PushSink.queued o.sink + taken :=
    hsink.queued_eq piece o.sink
  have hroom : PushSink.queued o.sink + piece.length / f.bridge.outputs ≤ f.target := hpiece.room
  have hle : PushSink.queued sink ≤ max (PushSink.queued first) f.target := by omega
  refine ⟨(hsink.capacity_eq piece o.sink).trans h.capacity_eq, ?_, ?_, hle, ?_, ?_⟩
  · rw [Observed.taken_enqueue, h.taken_eq]
  · have hbalance := h.balance
    rw [Observed.removed_enqueue]
    change frames + taken + PushSink.queued first = PushSink.queued sink + o.removed
    omega
  · intro e he
    rcases List.mem_append.1 he with hold | hnew
    · exact h.waiting_le e hold
    · obtain rfl := List.mem_singleton.1 hnew
      exact hle
  · intro samples taken' waiting he
    rcases List.mem_append.1 he with hold | hnew
    · exact h.whole hold
    · cases List.mem_singleton.1 hnew
      exact ⟨hpiece.pos, hpiece.le, hpiece.dvd⟩

theorem topOffWithin [StoredSample α] [Engine ε] (hsink : PushSink.Honest κ f.bridge.outputs)
    {work : κ → γ → κ × γ} (hwork : PushSink.Drains work) (h : f.Account first frames o)
    (rounds : Nat) (engine : ε) (s : γ) :
    let r := f.topOffWithin rounds (Observed.poll work) frames o engine s
    f.Account first r.frames r.sink :=
  topOffWithin_keeps_offers hsink.observed (fun h hpiece => h.offer hsink hpiece)
    (fun o s => hwork.queued_le o.sink s) (fun h => h.poll hwork _) h rounds engine s

end Account

/-! ## A top-off ends -/

section Ends

variable [StoredSample α] [Engine ε] {f : Feeder} {work : κ → γ → κ × γ}

omit [StoredSample α] in
theorem enqueueAll_removed (pieces : List (List α)) (o : Observed κ α) :
    (enqueueAll pieces o).2.removed = o.removed := by
  induction pieces generalizing o with
  | nil => rfl
  | cons piece pieces ih => exact (ih _).trans (Observed.removed_enqueue piece o)

/-- Work that pays for every frame it removes removes no more than it can pay for. -/
theorem removed_le_of_budget (hwork : PushSink.Drains work) {budget : γ → Nat}
    (hpays : ∀ sink s, PushSink.queued sink + budget (work sink s).2 ≤
      PushSink.queued (work sink s).1 + budget s) (f : Feeder) (rounds frames : Nat)
    (o : Observed κ α) (engine : ε) (s : γ) :
    let r := f.topOffWithin rounds (Observed.poll work) frames o engine s
    r.sink.removed + budget r.polling ≤ o.removed + budget s := by
  refine topOffWithin_keeps
    (P := fun _ (o' : Observed κ α) _ s' => o'.removed + budget s' ≤ o.removed + budget s)
    (fun o s => hwork.queued_le o.sink s) ?_ ?_ rounds (Nat.le_refl _)
  · intro frames o' engine s' h
    have hpaid := hpays o'.sink s'
    have hle := hwork.queued_le o'.sink s'
    change (o'.poll work s').1.removed + budget (work o'.sink s').2 ≤ _
    rw [Observed.removed_poll]
    omega
  · intro ticks frames o' engine s' h _ _ _
    rw [renderInto_eq]
    simp only [enqueueAll_removed]
    exact h

theorem finished_of_removed_le (hsink : PushSink.Honest κ f.bridge.outputs)
    (hwork : PushSink.Drains work) {sink : κ} {engine : ε} {s : γ} {most : Nat}
    (hfinite : (f.topOffWithin (f.target + most + 1) (Observed.poll work) 0
      ({ sink } : Observed κ α) engine s).sink.removed ≤ most) :
    (f.topOffWithin (f.target + most + 1) (Observed.poll work) 0 ({ sink } : Observed κ α)
      engine s).finished = true := by
  by_contra hopen
  rw [Bool.not_eq_true] at hopen
  -- an open run has added a frame in each round, and these wait or were removed
  have haccount :=
    (Account.begin f sink).topOffWithin hsink hwork (f.target + most + 1) engine s
  have hrounds := rounds_le_frames _ hopen
  have hbalance := haccount.balance
  have hqueued := haccount.queued_le
  omega

end Ends

/-- A top-off into any honest sink comes to its end, also while other work removes frames, as long
as that removes finitely many. What it offers are whole frames, at most 128 samples at a time; at no
moment does more wait than waited at first or than the target, nor more than the sink has room for;
and it answers how many frames were taken, each of which waits now or was removed. -/
theorem topOff_of_honest [StoredSample α] [Engine ε] {b : Bridge} {output : OutputSpec}
    {rate : Nat} {built sink : κ} {f : Feeder}
    (hfeeder : (create b output rate built).value = .ok f)
    (hcapacity : PushSink.capacity sink = PushSink.capacity built)
    (hsink : PushSink.Honest κ b.outputs) {work : κ → γ → κ × γ} (hwork : PushSink.Drains work)
    (engine : ε) (s : γ) {most : Nat}
    (hfinite : ∀ rounds, (f.topOffWithin rounds (Observed.poll work) 0 ({ sink } : Observed κ α)
      engine s).sink.removed ≤ most) :
    let run := fun rounds => f.topOffWithin rounds work 0 sink engine s
    let result := run (f.target + most + 1)
    let seen := f.topOffWithin (f.target + most + 1) (Observed.poll work) 0
      ({ sink } : Observed κ α) engine s
    result.finished = true ∧ (∀ rounds, f.target + most + 1 ≤ rounds → run rounds = result) ∧
      result = seen.map Observed.sink id ∧
      (∀ samples taken waiting, .offered samples taken waiting ∈ seen.sink.events →
        1 ≤ samples.length ∧ samples.length ≤ 128 ∧ b.outputs ∣ samples.length) ∧
      (∀ e ∈ seen.sink.events, e.waiting ≤ max (PushSink.queued sink) f.target ∧
        (PushSink.queued sink ≤ PushSink.capacity sink → e.waiting ≤ PushSink.capacity sink)) ∧
      PushSink.capacity result.sink = PushSink.capacity sink ∧
      result.frames = seen.sink.taken ∧
      result.frames + PushSink.queued sink = PushSink.queued result.sink + seen.sink.removed := by
  obtain ⟨rfl, -, -, htarget⟩ := create_ok hfeeder
  intro run result seen
  have himage : result = seen.map Observed.sink id :=
    topOffWithin_image Observed.image (fun _ _ _ _ => rfl) (fun _ _ => rfl) f _ 0 { sink } engine s
  have haccount := (Account.begin f sink).topOffWithin hsink hwork (f.target + most + 1) engine s
  have hfinished : result.finished = true := by
    rw [himage]
    exact finished_of_removed_le hsink hwork (hfinite _)
  refine ⟨hfinished, ?_, himage, ?_, ?_, ?_, ?_, ?_⟩
  · intro rounds hrounds
    obtain ⟨more, rfl⟩ := Nat.exists_eq_add_of_le hrounds
    exact topOffWithin_add more hfinished
  · intro samples taken waiting he
    exact haccount.whole he
  · intro e he
    have hwaiting := haccount.waiting_le e he
    refine ⟨hwaiting, fun hroom => ?_⟩
    omega
  · rw [himage]
    exact haccount.capacity_eq
  · rw [himage]
    exact haccount.taken_eq.symm
  · rw [himage]
    exact haccount.balance

/-! ## Small sips -/

/-- An engine that goes up and down with every sample. -/
structure UpDown where
deriving DecidableEq, Repr

instance : Engine UpDown where
  process _ _ count engine :=
    (Vector.ofFn fun i : Fin count => if i.val % 2 = 0 then Single.one else Single.minusOne, engine)

theorem signed16_valid : SampleRange.signed16.Valid := by
  decide

def monoBridge : Bridge where
  inputs := 0
  outputs := 1
  range := .signed16
  block := 2
  capacity := 4
  outputs_pos := Nat.one_pos
  block_pos := Nat.two_pos
  range_valid := signed16_valid
  tick_fits := by decide

def monoOutput : OutputSpec where
  chunkFrames := 4
  channels := 1
  range := .signed16
  delivery := .push 1

def monoFeeder : Feeder where
  bridge := monoBridge
  target := 7
  chunk := 4
  outputs_le := by decide

/-- The sink takes two frames, then one, then what it is offered, while others take frames away. -/
theorem topOff_of_honest_sipping :
    let sink : Sipping := { capacity := 9, sips := [2, 1, 4, 4, 4, 4, 4, 4] }
    let run := fun rounds => monoFeeder.topOffWithin rounds Sipping.drain 0 sink UpDown.mk [1, 3]
    let result := run (7 + 4 + 1)
    let seen := monoFeeder.topOffWithin (7 + 4 + 1) (Observed.poll Sipping.drain) 0
      ({ sink } : Observed Sipping Int16) UpDown.mk [1, 3]
    let block : List Int16 := [32767, -32767]
    let events : List (SinkEvent Int16) :=
      [.offered (block ++ block) 2 2, .polled 2 1, .offered (block ++ block) 1 2, .polled 2 0,
        .offered (block ++ block) 4 4, .polled 4 4, .offered block 2 6]
    result.finished = true ∧ (∀ rounds, 7 + 4 + 1 ≤ rounds → run rounds = result) ∧
      result = seen.map Observed.sink id ∧ seen.sink.events = events ∧
      (∀ samples taken waiting, .offered samples taken waiting ∈ seen.sink.events →
        1 ≤ samples.length ∧ samples.length ≤ 128 ∧ 1 ∣ samples.length) ∧
      (∀ e ∈ seen.sink.events, e.waiting ≤ 7) ∧ PushSink.capacity result.sink = 9 ∧
      result.frames = 9 ∧ seen.sink.taken = 9 ∧ seen.sink.removed = 3 ∧
      PushSink.queued result.sink = 6 := by
  intro sink run result seen block events
  have hfeeder : (create monoBridge monoOutput 7000 sink).value = .ok monoFeeder := rfl
  have hfinite : ∀ rounds, (monoFeeder.topOffWithin rounds (Observed.poll Sipping.drain) 0
      ({ sink } : Observed Sipping Int16) UpDown.mk [1, 3]).sink.removed ≤ 4 := by
    intro rounds
    have hbudget := removed_le_of_budget Sipping.drains Sipping.drain_pays monoFeeder rounds 0
      { sink } UpDown.mk [1, 3]
    exact Nat.le_of_add_right_le hbudget
  obtain ⟨hfinished, hstable, himage, hwhole, hwaiting, hcapacity, hframes, hbalance⟩ :=
    topOff_of_honest hfeeder rfl Sipping.honest Sipping.drains UpDown.mk [1, 3] hfinite
  have hevents : seen.sink.events = events := by decide +kernel
  have htaken : seen.sink.taken = 9 := by rw [Observed.taken, hevents]; rfl
  have hremoved : seen.sink.removed = 3 := by rw [Observed.removed, hevents]; rfl
  have hnine : result.frames = 9 := hframes.trans htaken
  have hqueued : result.frames + 0 = PushSink.queued result.sink + seen.sink.removed := hbalance
  refine ⟨hfinished, hstable, himage, hevents, hwhole, fun e he => (hwaiting e he).1, hcapacity,
    hnine, htaken, hremoved, ?_⟩
  omega

end Patchbay.Feeder
