import Patchbay.Proofs.Render.Bridge
import Patchbay.Render.Feeder
/-!
# The rounds of a top-off

What holds of a top-off into any sink. A render is cut into pieces of whole frames
(`pieces_flatten`, `length_of_mem_pieces`, `dvd_length_of_mem_pieces`); what is due fits one run of
the bridge and the target (`dueTicks_fits`); what every round keeps a top-off keeps
(`topOffWithin_keeps`). Each round but the last adds a frame (`rounds_le_frames`), and a top-off
that has come to its own end needs no more rounds (`topOffWithin_add`).
-/

namespace Patchbay

namespace Feeder

section Create

variable {κ α : Type} [PushSink κ α] {b : Bridge} {spec : OutputSpec} {rate : Nat} {sink : κ}
  {f : Feeder}

/-- What a feeder that was created has to do with its bridge and its sink. -/
theorem create_ok (h : (create b spec rate sink).value = .ok f) :
    f.bridge = b ∧ b.outputs = spec.channels ∧ b.range = spec.range ∧
      f.target ≤ PushSink.capacity sink := by
  simp only [create] at h
  split at h
  · cases h
  · next hlayout =>
    rw [not_or, not_not, not_not] at hlayout
    split at h
    · cases h
    · split at h
      · cases h
      · obtain rfl := Except.ok.inj h
        exact ⟨rfl, hlayout.1, hlayout.2, Nat.min_le_right _ _⟩

/-- There is room for a block wherever a created feeder looks for it. -/
theorem block_le_of_create (h : (create b spec rate sink).value = .ok f) :
    b.block ≤ PushSink.capacity sink ∧ b.block ≤ f.target ∧ b.block ≤ f.chunk := by
  simp only [create] at h
  split at h
  · cases h
  · split at h
    · cases h
    · next hcapacity =>
      split at h
      · cases h
      · obtain rfl := Except.ok.inj h
        have hroom := Nat.le_of_not_lt hcapacity
        refine ⟨hroom, ?_, Nat.le_max_left _ _⟩
        exact Nat.le_min.2 ⟨Nat.le_max_left _ _, hroom⟩

end Create

/-! ## Pieces -/

section Pieces

variable {β : Type} {size : Nat}

theorem pieces_flatten (hsize : size ≠ 0) (l : List β) : (pieces size l).flatten = l := by
  fun_induction pieces size l with
  | case1 l hdone =>
    obtain hempty : l.length = 0 := hdone.resolve_left hsize
    rw [List.length_eq_zero_iff.1 hempty]
    rfl
  | case2 l hmore ih => rw [List.flatten_cons, ih, List.take_append_drop]

theorem length_of_mem_pieces {l : List β} :
    ∀ piece ∈ pieces size l, 0 < piece.length ∧ piece.length ≤ size := by
  fun_induction pieces size l with
  | case1 l hdone =>
    intro piece hpiece
    cases hpiece
  | case2 l hmore ih =>
    intro piece hpiece
    rcases List.mem_cons.1 hpiece with rfl | hrest
    · rw [List.length_take]
      omega
    · exact ih piece hrest

theorem dvd_length_of_mem_pieces {k : Nat} (hsize : k ∣ size) {l : List β} (hl : k ∣ l.length) :
    ∀ piece ∈ pieces size l, k ∣ piece.length := by
  fun_induction pieces size l with
  | case1 l hdone =>
    intro piece hpiece
    cases hpiece
  | case2 l hmore ih =>
    intro piece hpiece
    rcases List.mem_cons.1 hpiece with rfl | hrest
    · rw [List.length_take]
      rcases Nat.le_total size l.length with hle | hle
      · rwa [Nat.min_eq_left hle]
      · rwa [Nat.min_eq_right hle]
    · refine ih ?_ piece hrest
      rw [List.length_drop]
      exact Nat.dvd_sub hl hsize

variable (f : Feeder)

theorem pieceSize_pos : 0 < f.pieceSize :=
  Nat.mul_pos (Nat.div_pos f.outputs_le f.bridge.outputs_pos) f.bridge.outputs_pos

theorem pieceSize_le : f.pieceSize ≤ pieceLimit :=
  Nat.div_mul_le_self pieceLimit f.bridge.outputs

theorem dvd_pieceSize : f.bridge.outputs ∣ f.pieceSize :=
  Nat.dvd_mul_left _ _

theorem flatten_pieces_pieceSize (l : List β) : (pieces f.pieceSize l).flatten = l :=
  pieces_flatten (Nat.ne_of_gt f.pieceSize_pos) l

end Pieces

/-! ## One round -/

section Due

variable {κ α : Type} [PushSink κ α] {f : Feeder} {sink : κ}

theorem dueTicks_fits (hdue : f.dueTicks sink ≠ 0) :
    f.dueTicks sink ≤ f.bridge.maxTicks ∧
      PushSink.queued sink + f.dueTicks sink * f.bridge.block ≤ f.target := by
  let wanted := min (min (f.target - PushSink.queued sink) (PushSink.free sink)) f.chunk
  have hticks : f.dueTicks sink = min (wanted / f.bridge.block) f.bridge.maxTicks := rfl
  have hframes : f.dueTicks sink * f.bridge.block ≤ wanted := by
    refine Nat.le_trans (Nat.mul_le_mul_right _ ?_) (Nat.div_mul_le_self wanted f.bridge.block)
    omega
  have hpos : 0 < f.dueTicks sink * f.bridge.block :=
    Nat.mul_pos (Nat.pos_of_ne_zero hdue) f.bridge.block_pos
  omega

theorem dueTicks_pos (hmissing : PushSink.queued sink + f.bridge.block ≤ f.target)
    (hroom : f.bridge.block ≤ PushSink.free sink) (hchunk : f.bridge.block ≤ f.chunk) :
    0 < f.dueTicks sink := by
  unfold dueTicks
  refine Nat.lt_min.2 ⟨Nat.div_pos ?_ f.bridge.block_pos, f.bridge.maxTicks_pos⟩
  omega

end Due

variable {κ α ε γ : Type} [PushSink κ α] [StoredSample α] [Engine ε] {f : Feeder} {sink : κ}
  {work : κ → γ → κ × γ} {ticks rounds frames : Nat} {engine : ε} {s : γ}

/-- The samples of a render, as they are stored. -/
def stored (f : Feeder) (ticks : Nat) (engine : ε) : List α :=
  (f.bridge.render ticks engine).1.toList.map f.bridge.range.store

theorem renderInto_eq (f : Feeder) (ticks : Nat) (sink : κ) (engine : ε) :
    f.renderInto ticks sink engine =
      ((enqueueAll (pieces f.pieceSize (f.stored ticks engine)) sink).1,
        (enqueueAll (pieces f.pieceSize (f.stored ticks engine)) sink).2,
        (f.bridge.render ticks engine).2) :=
  rfl

theorem length_stored (hpos : 0 < ticks) (hmax : ticks ≤ f.bridge.maxTicks) (engine : ε) :
    (f.stored ticks engine : List α).length = ticks * f.bridge.block * f.bridge.outputs := by
  unfold stored
  rw [List.length_map, Vector.length_toList, Bridge.ticksFor_eq hpos hmax]

/-- A render has whole frames. -/
theorem frames_stored (hpos : 0 < ticks) (hmax : ticks ≤ f.bridge.maxTicks) (engine : ε) :
    f.bridge.outputs ∣ (f.stored ticks engine : List α).length ∧
      (f.stored ticks engine : List α).length / f.bridge.outputs = ticks * f.bridge.block := by
  rw [length_stored hpos hmax engine]
  exact ⟨Nat.dvd_mul_left _ _, Nat.mul_div_cancel _ f.bridge.outputs_pos⟩

theorem topOffWithin_succ_of_done (hdue : f.dueTicks sink = 0) :
    f.topOffWithin (rounds + 1) work frames sink engine s =
      { frames, sink, engine, polling := s, finished := true } :=
  if_pos hdue

/-- Where a round renders from. Only the first does not poll. -/
def polled (work : κ → γ → κ × γ) (frames : Nat) (sink : κ) (s : γ) : κ × γ :=
  if 0 < frames then work sink s else (sink, s)

/-- A round that renders. -/
theorem topOffWithin_succ (hdue : f.dueTicks sink ≠ 0) :
    let polled := polled work frames sink s
    let r := f.renderInto (f.dueTicks sink) polled.1 engine
    f.topOffWithin (rounds + 1) work frames sink engine s =
      if r.1 = 0 then
        { frames, sink := r.2.1, engine := r.2.2, polling := polled.2, finished := true }
      else f.topOffWithin rounds work (frames + r.1) r.2.1 r.2.2 polled.2 :=
  if_neg hdue

/-! ## Whole runs -/

/-- What polling and rendering keep a top-off keeps. A render starts with room for what it makes,
since polling adds no frames. -/
theorem topOffWithin_keeps {P : Nat → κ → ε → γ → Prop}
    (hwork : ∀ sink s, PushSink.queued (work sink s).1 ≤ PushSink.queued sink)
    (polls : ∀ {frames sink engine s}, P frames sink engine s →
      P frames (work sink s).1 engine (work sink s).2)
    (renders : ∀ {ticks frames sink engine s}, P frames sink engine s → 0 < ticks →
      ticks ≤ f.bridge.maxTicks → PushSink.queued sink + ticks * f.bridge.block ≤ f.target →
      let r := f.renderInto ticks sink engine
      P (frames + r.1) r.2.1 r.2.2 s)
    (rounds : Nat) (h : P frames sink engine s) :
    let r := f.topOffWithin rounds work frames sink engine s
    P r.frames r.sink r.engine r.polling := by
  induction rounds generalizing frames sink engine s with
  | zero => exact h
  | succ rounds ih =>
    by_cases hdue : f.dueTicks sink = 0
    · rw [topOffWithin_succ_of_done hdue]
      exact h
    · obtain ⟨hmax, hfits⟩ := dueTicks_fits hdue
      obtain ⟨hkept, hle⟩ : P frames (polled work frames sink s).1 engine
          (polled work frames sink s).2 ∧
            PushSink.queued (polled work frames sink s).1 ≤ PushSink.queued sink := by
        unfold polled
        split
        · exact ⟨polls h, hwork sink s⟩
        · exact ⟨h, Nat.le_refl _⟩
      have hrendered := renders hkept (Nat.pos_of_ne_zero hdue) hmax (by omega)
      rw [topOffWithin_succ hdue]
      split
      · next htaken =>
        simp only [htaken, Nat.add_zero] at hrendered
        exact hrendered
      · exact ih hrendered

/-- What every poll keeps of the state of the polling work a top-off keeps. -/
theorem topOffWithin_polling {P : γ → Prop} (polls : ∀ {sink s}, P s → P (work sink s).2)
    (rounds : Nat) (h : P s) : P (f.topOffWithin rounds work frames sink engine s).polling := by
  induction rounds generalizing frames sink engine s with
  | zero => exact h
  | succ rounds ih =>
    by_cases hdue : f.dueTicks sink = 0
    · rw [topOffWithin_succ_of_done hdue]
      exact h
    · have hpolled : P (polled work frames sink s).2 := by
        unfold polled
        split
        · exact polls h
        · exact h
      rw [topOffWithin_succ hdue]
      split
      · exact hpolled
      · exact ih hpolled

theorem le_topOffWithin_frames
    (hwork : ∀ sink s, PushSink.queued (work sink s).1 ≤ PushSink.queued sink) (rounds : Nat) :
    frames ≤ (f.topOffWithin rounds work frames sink engine s).frames :=
  topOffWithin_keeps (P := fun frames' _ _ _ => frames ≤ frames') hwork (fun h => h)
    (fun h _ _ _ => Nat.le_add_right_of_le h) rounds (Nat.le_refl _)

theorem rounds_le_frames (rounds : Nat)
    (h : (f.topOffWithin rounds work frames sink engine s).finished = false) :
    frames + rounds ≤ (f.topOffWithin rounds work frames sink engine s).frames := by
  induction rounds generalizing frames sink engine s with
  | zero => exact Nat.le_refl _
  | succ rounds ih =>
    by_cases hdue : f.dueTicks sink = 0
    · rw [topOffWithin_succ_of_done hdue] at h
      cases h
    · rw [topOffWithin_succ hdue] at h ⊢
      split at h
      · cases h
      · next htaken =>
        rw [if_neg htaken]
        -- a round that goes on has added a frame
        have hrest := ih h
        omega

theorem topOffWithin_add (more : Nat)
    (h : (f.topOffWithin rounds work frames sink engine s).finished = true) :
    f.topOffWithin (rounds + more) work frames sink engine s =
      f.topOffWithin rounds work frames sink engine s := by
  induction rounds generalizing frames sink engine s with
  | zero => cases h
  | succ rounds ih =>
    rw [Nat.succ_add]
    by_cases hdue : f.dueTicks sink = 0
    · rw [topOffWithin_succ_of_done hdue, topOffWithin_succ_of_done hdue]
    · rw [topOffWithin_succ hdue] at h
      rw [topOffWithin_succ hdue, topOffWithin_succ hdue]
      split at h
      · next htaken => rw [if_pos htaken, if_pos htaken]
      · next htaken =>
        rw [if_neg htaken, if_neg htaken]
        exact ih h

end Feeder

/-! ## Images

A sink or an engine that keeps a record runs like the one that it records. -/

/-- A map between sinks that see and take the same. -/
structure PushSink.Image {κ κ' α : Type} [PushSink κ α] [PushSink κ' α] (view : κ → κ') : Prop where
  queued_eq : ∀ sink, PushSink.queued (view sink) = PushSink.queued sink
  free_eq : ∀ sink, PushSink.free (view sink) = PushSink.free sink
  enqueue_eq : ∀ (samples : List α) (sink : κ), PushSink.enqueue samples (view sink) =
    ((PushSink.enqueue samples sink).1, view (PushSink.enqueue samples sink).2)

/-- A map between engines that produce the same. -/
def Engine.Image {ε ε' : Type} [Engine ε] [Engine ε'] (hear : ε → ε') : Prop :=
  ∀ ticks input count engine, Engine.process ticks input count (hear engine) =
    ((Engine.process ticks input count engine).1, hear (Engine.process ticks input count engine).2)

namespace Feeder

variable {κ κ' α ε ε' γ : Type} {view : κ → κ'} {hear : ε → ε'}

def TopOff.map (view : κ → κ') (hear : ε → ε') (r : TopOff κ ε γ) : TopOff κ' ε' γ where
  frames := r.frames
  sink := view r.sink
  engine := hear r.engine
  polling := r.polling
  finished := r.finished

variable [PushSink κ α] [PushSink κ' α]

theorem enqueueAll_image (hsink : PushSink.Image view) (pieces : List (List α)) (sink : κ) :
    enqueueAll pieces (view sink) = ((enqueueAll pieces sink).1, view (enqueueAll pieces sink).2) := by
  induction pieces generalizing sink with
  | nil => rfl
  | cons piece pieces ih =>
    unfold enqueueAll
    simp only [hsink.enqueue_eq, ih]

variable [StoredSample α] [Engine ε] [Engine ε']

theorem renderInto_image (hsink : PushSink.Image view) (hengine : Engine.Image hear) (f : Feeder)
    (ticks : Nat) (sink : κ) (engine : ε) :
    f.renderInto ticks (view sink) (hear engine) =
      ((f.renderInto ticks sink engine).1, view (f.renderInto ticks sink engine).2.1,
        hear (f.renderInto ticks sink engine).2.2) := by
  have hrender : f.bridge.render ticks (hear engine) =
      ((f.bridge.render ticks engine).1, hear (f.bridge.render ticks engine).2) :=
    hengine _ _ _ engine
  unfold renderInto
  simp only [hrender, enqueueAll_image hsink]

theorem topOffWithin_image (hsink : PushSink.Image view) (hengine : Engine.Image hear)
    {work : κ → γ → κ × γ} {work' : κ' → γ → κ' × γ}
    (hwork : ∀ sink s, work' (view sink) s = (view (work sink s).1, (work sink s).2)) (f : Feeder)
    (rounds frames : Nat) (sink : κ) (engine : ε) (s : γ) :
    f.topOffWithin rounds work' frames (view sink) (hear engine) s =
      (f.topOffWithin rounds work frames sink engine s).map view hear := by
  have hticks : ∀ sink, f.dueTicks (view sink) = f.dueTicks sink := by
    intro sink
    unfold dueTicks
    rw [hsink.queued_eq, hsink.free_eq]
  have hpolled : ∀ frames sink s, polled work' frames (view sink) s =
      (view (polled work frames sink s).1, (polled work frames sink s).2) := by
    intro frames sink s
    unfold polled
    split
    · exact hwork sink s
    · rfl
  induction rounds generalizing frames sink engine s with
  | zero => rfl
  | succ rounds ih =>
    by_cases hdue : f.dueTicks sink = 0
    · rw [topOffWithin_succ_of_done hdue, topOffWithin_succ_of_done ((hticks sink).trans hdue)]
      rfl
    · rw [topOffWithin_succ hdue, topOffWithin_succ (by rwa [hticks])]
      simp only [hticks, hpolled, renderInto_image hsink hengine]
      split
      · rfl
      · exact ih _ _ _ _

end Feeder

end Patchbay
