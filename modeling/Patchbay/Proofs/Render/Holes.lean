import Patchbay.Proofs.Render.TopOff
/-!
# Holes in what a sink takes

The offers of a top-off are, one after another, what the engine renders (`topOffWithin_offered`).
When a sink takes an offer in part, the feeder offers the next piece all the same, and if some of
that is taken there is a hole in what will be played. Without such a hole what was taken is a
beginning of what was rendered, and the other way round if no two samples of that are equal
(`SinkEvent.prefix_of_unbroken`, `SinkEvent.unbroken_of_prefix`). A sink that takes all that fits
takes everything (`topOffWithin_accepted_of_eager`).
-/

namespace Patchbay

/-- An engine with a record of the samples it produced. -/
structure Heard (ε : Type) where
  engine : ε
  heard : List Single := []
deriving DecidableEq, Repr

instance {ε : Type} [Engine ε] : Engine (Heard ε) where
  process ticks input count h :=
    let r := Engine.process ticks input count h.engine
    (r.1, { engine := r.2, heard := h.heard ++ r.1.toList })

theorem Heard.image {ε : Type} [Engine ε] : Engine.Image (Heard.engine : Heard ε → ε) :=
  fun _ _ _ _ => rfl

/-! ## Offers and what was taken of them -/

namespace SinkEvent

variable {α : Type} {channels : Nat}

/-- The samples that were taken of an offer. -/
def accepted (channels : Nat) (e : SinkEvent α) : List α := e.samples.take (e.taken * channels)

/-- Part of an offer was not taken. -/
def Short (channels : Nat) (e : SinkEvent α) : Prop := e.taken * channels < e.samples.length

/-- After an offer that was taken in part, nothing was taken. -/
def Unbroken (channels : Nat) (events : List (SinkEvent α)) : Prop :=
  events.Pairwise fun e later => e.Short channels → later.taken = 0

instance (e : SinkEvent α) : Decidable (e.Short channels) :=
  inferInstanceAs (Decidable (_ < _))

instance (events : List (SinkEvent α)) : Decidable (Unbroken channels events) :=
  inferInstanceAs (Decidable (List.Pairwise _ events))

theorem accepted_of_not_short {e : SinkEvent α} (h : ¬e.Short channels) :
    e.accepted channels = e.samples :=
  List.take_of_length_le (Nat.le_of_not_lt h)

theorem flatMap_accepted_nil {events : List (SinkEvent α)} (h : ∀ e ∈ events, e.taken = 0) :
    events.flatMap (accepted channels) = [] := by
  rw [List.flatMap_eq_nil_iff]
  intro e he
  rw [accepted, h e he, Nat.zero_mul, List.take_zero]

theorem flatMap_accepted_sublist (events : List (SinkEvent α)) :
    (events.flatMap (accepted channels)).Sublist (events.flatMap samples) := by
  induction events with
  | nil => exact List.Sublist.refl _
  | cons e events ih =>
    rw [List.flatMap_cons, List.flatMap_cons]
    exact (List.take_sublist _ _).append ih

theorem prefix_of_unbroken {events : List (SinkEvent α)} (h : Unbroken channels events) :
    events.flatMap (accepted channels) <+: events.flatMap samples := by
  induction h with
  | nil => exact List.prefix_refl _
  | @cons e events hlater _ ih =>
    rw [List.flatMap_cons, List.flatMap_cons]
    by_cases hshort : e.Short channels
    · rw [flatMap_accepted_nil fun later hmem => hlater later hmem hshort, List.append_nil]
      exact (List.take_prefix _ _).trans (List.prefix_append _ _)
    · rw [accepted_of_not_short hshort]
      exact (List.prefix_append_right_inj _).2 ih

theorem eq_nil_of_prefix_of_short {samples rest later : List α} {count : Nat}
    (hshort : count < samples.length) (hdistinct : ∀ a ∈ samples, ∀ b ∈ later, a ≠ b)
    (hrest : rest ⊆ later) (h : samples.take count ++ rest <+: samples ++ later) : rest = [] := by
  have hsplit : samples ++ later =
      samples.take count ++ (samples[count] :: samples.drop (count + 1) ++ later) := by
    rw [← List.drop_eq_getElem_cons hshort, ← List.append_assoc, List.take_append_drop]
  rw [hsplit, List.prefix_append_right_inj] at h
  cases rest with
  | nil => rfl
  | cons first rest =>
    -- what is taken next stands where a sample of the short offer is
    obtain ⟨hfirst, -⟩ := List.cons_prefix_cons.1 h
    have hlater : first ∈ later := hrest List.mem_cons_self
    exact absurd hfirst.symm (hdistinct _ (List.getElem_mem hshort) first hlater)

theorem unbroken_of_prefix {events : List (SinkEvent α)}
    (hsome : ∀ e ∈ events, e.accepted channels = [] → e.taken = 0)
    (hnodup : (events.flatMap samples).Nodup)
    (h : events.flatMap (accepted channels) <+: events.flatMap samples) :
    Unbroken channels events := by
  induction events with
  | nil => exact List.Pairwise.nil
  | cons e events ih =>
    obtain ⟨-, hsome⟩ := List.forall_mem_cons.1 hsome
    rw [List.flatMap_cons, List.nodup_append] at hnodup
    obtain ⟨-, hnodup, hdistinct⟩ := hnodup
    rw [List.flatMap_cons, List.flatMap_cons] at h
    by_cases hshort : e.Short channels
    · have hnil := eq_nil_of_prefix_of_short hshort hdistinct
        (flatMap_accepted_sublist events).subset h
      have hnone : ∀ later ∈ events, later.taken = 0 := by
        intro later hmem
        exact hsome later hmem (List.flatMap_eq_nil_iff.1 hnil later hmem)
      refine List.pairwise_cons.2 ⟨fun later hmem _ => hnone later hmem, ih hsome hnodup ?_⟩
      rw [hnil]
      exact List.nil_prefix
    · rw [accepted_of_not_short hshort, List.prefix_append_right_inj] at h
      exact List.pairwise_cons.2 ⟨fun _ _ hs => absurd hs hshort, ih hsome hnodup h⟩

end SinkEvent

namespace Observed

variable {κ α γ : Type} [PushSink κ α] {channels : Nat}

/-- The samples that were offered, in order. -/
def offered (o : Observed κ α) : List α := o.events.flatMap SinkEvent.samples

/-- The samples that were taken, in order. -/
def accepted (channels : Nat) (o : Observed κ α) : List α :=
  o.events.flatMap (SinkEvent.accepted channels)

@[simp] theorem offered_enqueue (samples : List α) (o : Observed κ α) :
    (PushSink.enqueue samples o).2.offered = o.offered ++ samples := by
  simp [offered, PushSink.enqueue, SinkEvent.samples]

@[simp] theorem accepted_enqueue (samples : List α) (o : Observed κ α) :
    (PushSink.enqueue samples o).2.accepted channels =
      o.accepted channels ++ samples.take ((PushSink.enqueue samples o).1 * channels) := by
  simp [accepted, PushSink.enqueue, SinkEvent.accepted, SinkEvent.samples, SinkEvent.taken]

@[simp] theorem offered_poll (work : κ → γ → κ × γ) (o : Observed κ α) (s : γ) :
    (o.poll work s).1.offered = o.offered := by
  simp [offered, poll, SinkEvent.samples]

@[simp] theorem accepted_poll (work : κ → γ → κ × γ) (o : Observed κ α) (s : γ) :
    (o.poll work s).1.accepted channels = o.accepted channels := by
  simp [accepted, poll, SinkEvent.accepted, SinkEvent.samples]

end Observed

/-! ## Top-offs -/

namespace Feeder

variable {κ α ε γ : Type} [PushSink κ α] {f : Feeder} {work : κ → γ → κ × γ} {frames : Nat}
  {first : κ} {o : Observed κ α}

theorem enqueueAll_offered (pieces : List (List α)) (o : Observed κ α) :
    (enqueueAll pieces o).2.offered = o.offered ++ pieces.flatten := by
  induction pieces generalizing o with
  | nil => exact (List.append_nil _).symm
  | cons piece pieces ih =>
    have hrest : (enqueueAll (piece :: pieces) o).2.offered = _ := ih (PushSink.enqueue piece o).2
    rw [hrest, Observed.offered_enqueue, List.flatten_cons, List.append_assoc]

theorem Account.taken_eq_zero_of_accepted (h : f.Account first frames o) :
    ∀ e ∈ o.events, e.accepted f.bridge.outputs = [] → e.taken = 0 := by
  intro e he hnil
  cases e with
  | offered samples taken waiting =>
    obtain ⟨hpos, -, -⟩ := h.whole he
    rcases List.take_eq_nil_iff.1 hnil with hzero | hnone
    · exact (Nat.mul_eq_zero.1 hzero).resolve_right (Nat.ne_of_gt f.bridge.outputs_pos)
    · rw [show samples = [] from hnone] at hpos
      cases hpos
  | polled before waiting => rfl
  | started waiting => rfl

variable [StoredSample α] [Engine ε]

theorem topOffWithin_offered (hwork : PushSink.Drains work) (rounds : Nat) (sink : κ) (engine : ε)
    (s : γ) :
    let r := f.topOffWithin rounds (Observed.poll work) 0 ({ sink } : Observed κ α)
      ({ engine } : Heard ε) s
    r.sink.offered = r.engine.heard.map f.bridge.range.store := by
  refine topOffWithin_keeps
    (P := fun _ (o : Observed κ α) (h : Heard ε) _ =>
      o.offered = h.heard.map f.bridge.range.store)
    (fun o s => hwork.queued_le o.sink s) ?_ ?_ rounds rfl
  · intro frames o h s hkept
    rw [Observed.offered_poll]
    exact hkept
  · intro ticks frames o h s hkept _ _ _
    have hstored : (f.stored ticks h : List α) =
        (f.bridge.render ticks h.engine).1.toList.map f.bridge.range.store := rfl
    have hheard : (f.bridge.render ticks h).2.heard =
        h.heard ++ (f.bridge.render ticks h.engine).1.toList := rfl
    rw [renderInto_eq]
    simp only [enqueueAll_offered, flatten_pieces_pieceSize]
    rw [hkept, hstored, hheard, List.map_append]

theorem topOffWithin_length_accepted (hsink : PushSink.Honest κ f.bridge.outputs)
    (hwork : PushSink.Drains work) (rounds : Nat) (sink : κ) (engine : ε) (s : γ) :
    let r := f.topOffWithin rounds (Observed.poll work) 0 ({ sink } : Observed κ α) engine s
    (r.sink.accepted f.bridge.outputs).length = r.frames * f.bridge.outputs := by
  refine topOffWithin_keeps_offers
    (P := fun frames (o : Observed κ α) =>
      (o.accepted f.bridge.outputs).length = frames * f.bridge.outputs)
    hsink.observed ?_ (fun o s => hwork.queued_le o.sink s) ?_ ?_ rounds engine s
  · intro piece frames o hkept hpiece
    have hfits : (PushSink.enqueue piece o).1 * f.bridge.outputs ≤ piece.length :=
      (Nat.le_div_iff_mul_le f.bridge.outputs_pos).1 (hsink.taken_le_frames piece o.sink)
    rw [Observed.accepted_enqueue, List.length_append, List.length_take_of_le hfits, hkept,
      Nat.add_mul]
  · intro frames o s hkept
    rw [Observed.accepted_poll]
    exact hkept
  · exact (Nat.zero_mul _).symm

theorem topOffWithin_accepted_of_eager (hsink : PushSink.Honest κ f.bridge.outputs)
    (heager : PushSink.Eager κ f.bridge.outputs) (hwork : PushSink.Drains work) {sink : κ}
    (htarget : f.target ≤ PushSink.capacity sink) (rounds : Nat) (engine : ε) (s : γ) :
    let r := f.topOffWithin rounds (Observed.poll work) 0 ({ sink } : Observed κ α) engine s
    r.sink.accepted f.bridge.outputs = r.sink.offered := by
  refine And.right (topOffWithin_keeps_offers
    (P := fun _ (o : Observed κ α) => PushSink.capacity o.sink = PushSink.capacity sink ∧
      o.accepted f.bridge.outputs = o.offered)
    hsink.observed ?_ (fun o s => hwork.queued_le o.sink s) ?_ ⟨rfl, rfl⟩ rounds engine s)
  · rintro piece frames o ⟨hcapacity, hall⟩ hpiece
    -- an offer fits the target, so it fits the sink
    have hroom := Nat.le_trans hpiece.room (htarget.trans_eq hcapacity.symm)
    have htaken : (PushSink.enqueue piece o).1 = piece.length / f.bridge.outputs :=
      heager.taken_eq hroom
    refine ⟨(hsink.capacity_eq piece o.sink).trans hcapacity, ?_⟩
    rw [Observed.accepted_enqueue, Observed.offered_enqueue, hall, htaken,
      Nat.div_mul_cancel hpiece.dvd, List.take_length]
  · rintro frames o s ⟨hcapacity, hall⟩
    refine ⟨(hwork.capacity_eq o.sink s).trans hcapacity, ?_⟩
    rw [Observed.accepted_poll, Observed.offered_poll]
    exact hall

/-- What an honest sink takes during a top-off is some of what the engine renders meanwhile, in
order. It is a beginning of that where no frame is taken after an offer that was taken in part, and
where the samples all differ only there. A sink that takes all that fits takes everything. -/
theorem topOff_without_hole {b : Bridge} {output : OutputSpec} {rate : Nat} {built sink : κ}
    (hfeeder : (create b output rate built).value = .ok f)
    (hcapacity : PushSink.capacity sink = PushSink.capacity built)
    (hsink : PushSink.Honest κ b.outputs) (hwork : PushSink.Drains work) (rounds : Nat)
    (engine : ε) (s : γ) :
    let seen := f.topOffWithin rounds (Observed.poll work) 0 ({ sink } : Observed κ α)
      ({ engine } : Heard ε) s
    let rendered := seen.engine.heard.map b.range.store
    let accepted := seen.sink.accepted b.outputs
    f.topOffWithin rounds work 0 sink engine s = seen.map Observed.sink Heard.engine ∧
      seen.sink.offered = rendered ∧ accepted.length = seen.frames * b.outputs ∧
      accepted.Sublist rendered ∧
      (SinkEvent.Unbroken b.outputs seen.sink.events → accepted <+: rendered) ∧
      (rendered.Nodup → accepted <+: rendered → SinkEvent.Unbroken b.outputs seen.sink.events) ∧
      (PushSink.Eager κ b.outputs → accepted = rendered) := by
  obtain ⟨rfl, -, -, htarget⟩ := create_ok hfeeder
  rw [← hcapacity] at htarget
  intro seen rendered accepted
  have hoffered : seen.sink.offered = rendered := topOffWithin_offered hwork rounds sink engine s
  have haccount :=
    (Account.begin f sink).topOffWithin hsink hwork rounds ({ engine } : Heard ε) s
  refine ⟨?_, hoffered, topOffWithin_length_accepted hsink hwork rounds sink _ s, ?_, ?_, ?_, ?_⟩
  · exact topOffWithin_image Observed.image Heard.image (fun _ _ => rfl) f rounds 0
      ({ sink } : Observed κ α) ({ engine } : Heard ε) s
  · rw [← hoffered]
    exact SinkEvent.flatMap_accepted_sublist seen.sink.events
  · intro hunbroken
    rw [← hoffered]
    exact SinkEvent.prefix_of_unbroken hunbroken
  · intro hnodup hprefix
    rw [← hoffered] at hnodup hprefix
    exact SinkEvent.unbroken_of_prefix haccount.taken_eq_zero_of_accepted hnodup hprefix
  · intro heager
    rw [← hoffered]
    exact topOffWithin_accepted_of_eager hsink heager hwork htarget rounds
      ({ engine } : Heard ε) s

/-! ## With a hole and without -/

/-- The sink takes an offer, one frame of the next and nothing more. -/
theorem topOff_without_hole_sipping :
    let sink : Sipping := { capacity := 9, sips := [4, 1] }
    let seen := monoFeeder.topOffWithin (7 + 1) (Observed.poll Sipping.drain) 0
      ({ sink } : Observed Sipping Int16) ({ engine := UpDown.mk } : Heard UpDown) []
    let rendered := seen.engine.heard.map monoBridge.range.store
    let accepted := seen.sink.accepted 1
    monoFeeder.topOffWithin (7 + 1) Sipping.drain 0 sink UpDown.mk [] =
        seen.map Observed.sink Heard.engine ∧
      seen.sink.offered = rendered ∧ accepted.length = seen.frames * 1 ∧
      (seen.frames = 5 ∧ rendered.length = 8) ∧ accepted <+: rendered := by
  intro sink seen rendered accepted
  have hfeeder : (create monoBridge monoOutput 7000 sink).value = .ok monoFeeder := rfl
  obtain ⟨hplain, hoffered, hlength, -, hprefix, -, -⟩ :=
    topOff_without_hole hfeeder rfl Sipping.honest Sipping.drains (7 + 1) UpDown.mk []
  have hunbroken : SinkEvent.Unbroken 1 seen.sink.events := by decide +kernel
  refine ⟨hplain, hoffered, hlength, ?_, hprefix hunbroken⟩
  decide +kernel

/-- Of each offer the sink takes one frame. -/
theorem topOff_hole :
    let sink : Sipping := { capacity := 9, sips := List.replicate 6 1 }
    let seen := monoFeeder.topOffWithin (7 + 1) (Observed.poll Sipping.drain) 0
      ({ sink } : Observed Sipping Int16) ({ engine := UpDown.mk } : Heard UpDown) []
    PushSink.Honest Sipping 1 ∧ (create monoBridge monoOutput 7000 sink).value = .ok monoFeeder ∧
      seen.finished = true ∧ seen.frames = 6 ∧
      ¬seen.sink.accepted 1 <+: seen.engine.heard.map monoBridge.range.store := by
  intro sink seen
  refine ⟨Sipping.honest, rfl, ?_⟩
  decide +kernel

end Feeder

end Patchbay
