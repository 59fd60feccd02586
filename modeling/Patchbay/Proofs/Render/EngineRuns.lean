import Patchbay.Proofs.Render.Rounds
/-!
# The runs of an engine

A `Traced` engine keeps a record of its runs. Every run that a bridge lets it do stays within the
buffers of the bridge (`EngineRun.Fits`), on silent input; a render is one run, and so is a fill
unless its destination is empty (`perform_runs`). Whatever is called on a bridge that was created,
this holds of all its runs (`performAll_runs_fit`).
-/

namespace Patchbay

/-- One run of an engine: its ticks, what the engine was given and what it produced. -/
structure EngineRun where
  ticks : Nat
  input : List Single
  output : List Single
deriving DecidableEq, Repr

/-- A run that a bridge can make room for. -/
structure EngineRun.Fits (b : Bridge) (run : EngineRun) : Prop where
  ticks_pos : 1 ≤ run.ticks
  ticks_le : run.ticks ≤ b.maxTicks
  input_eq : run.input = List.replicate (run.ticks * b.block * b.inputs) (Single.zero false)
  output_length : run.output.length = run.ticks * b.block * b.outputs
  input_le : run.input.length ≤ b.capacity
  output_le : run.output.length ≤ b.capacity

/-- An engine with a record of its runs. -/
structure Traced (ε : Type) where
  engine : ε
  runs : List EngineRun := []
deriving DecidableEq, Repr

instance {ε : Type} [Engine ε] : Engine (Traced ε) where
  process ticks input count t :=
    let r := Engine.process ticks input count t.engine
    (r.1, { engine := r.2, runs := t.runs ++ [⟨ticks, input, r.1.toList⟩] })

/-! ## Calls -/

/-- What can be asked of a bridge. -/
inductive BridgeCall : Type 1 where
  | render (asked : Nat)
  /-- To fill a destination, in samples of some type. -/
  | fill {α : Type} [StoredSample α] {count : Nat} (dest : Vector α count)

variable {ε : Type} [Engine ε]

def BridgeCall.perform (b : Bridge) (engine : ε) : BridgeCall → ε
  | .render asked => (b.render asked engine).2
  | @BridgeCall.fill _ _ _ dest => (b.fill dest engine).2.2

/-- The ticks that the engine runs for a call, or `none` if it does not run. -/
def BridgeCall.ticks? (b : Bridge) : BridgeCall → Option Nat
  | .render asked => some (max 1 (min asked b.maxTicks))
  | @BridgeCall.fill _ _ count _ =>
    if count = 0 then none
    else some (min (max 1 (count / b.outputs / b.block)) b.maxTicks)

namespace Bridge

def performAll (b : Bridge) (calls : List BridgeCall) (engine : ε) : ε :=
  calls.foldl (BridgeCall.perform b) engine

/-! ## One call -/

/-- The run for a render. -/
def runFor (asked : Nat) (b : Bridge) (engine : ε) : EngineRun where
  ticks := b.ticksFor asked
  input := List.replicate (b.ticksFor asked * b.block * b.inputs) (Single.zero false)
  output := (b.render asked engine).1.toList

theorem runFor_fits (asked : Nat) (b : Bridge) (engine : ε) : (b.runFor asked engine).Fits b := by
  have hle := b.ticksFor_le asked
  have hinput : (b.runFor asked engine).input.length = b.ticksFor asked * b.block * b.inputs :=
    List.length_replicate
  have houtput : (b.runFor asked engine).output.length = b.ticksFor asked * b.block * b.outputs :=
    Vector.length_toList
  refine ⟨b.ticksFor_pos asked, hle, rfl, houtput, ?_, ?_⟩
  · rw [hinput]
    exact run_fits hle (Nat.le_max_left _ _)
  · rw [houtput]
    exact run_fits hle (Nat.le_max_right _ _)

theorem render_traced (asked : Nat) (b : Bridge) (t : Traced ε) :
    b.render asked t = ((b.render asked t.engine).1,
      { engine := (b.render asked t.engine).2, runs := t.runs ++ [b.runFor asked t.engine] }) :=
  rfl

section Fill

variable {α : Type} [StoredSample α] {count : Nat}

/-- The ticks that a fill asks for. -/
def fillTicks (b : Bridge) (count : Nat) : Nat := max 1 (count / b.outputs / b.block)

theorem ticksFor_fillTicks (b : Bridge) (count : Nat) :
    b.ticksFor (b.fillTicks count) = min (b.fillTicks count) b.maxTicks := by
  have hasked : 1 ≤ b.fillTicks count := Nat.le_max_left _ _
  unfold ticksFor
  rw [Nat.min_comm, Nat.max_eq_right (Nat.le_min.2 ⟨hasked, b.maxTicks_pos⟩)]

theorem fill_of_empty (b : Bridge) (dest : Vector α count) (h : count = 0) (engine : ε) :
    b.fill dest engine = (0, Vector.replicate count b.range.storedSilence, engine) := by
  unfold fill chunk
  rw [if_pos h, h]

theorem fill_traced (b : Bridge) (dest : Vector α count) (t : Traced ε) :
    b.fill dest t = ((b.fill dest t.engine).1, (b.fill dest t.engine).2.1,
      { engine := (b.fill dest t.engine).2.2
        runs := t.runs ++ if count = 0 then [] else [b.runFor (b.fillTicks count) t.engine] }) := by
  by_cases h : count = 0
  · simp only [fill_of_empty _ _ h, if_pos h, List.append_nil]
  · unfold fill chunk
    simp only [if_neg h, render_traced]
    rfl

end Fill

theorem perform_runs (b : Bridge) (t : Traced ε) (call : BridgeCall) :
    ∃ runs, (call.perform b t).runs = t.runs ++ runs ∧
      runs.map EngineRun.ticks = (call.ticks? b).toList ∧ ∀ run ∈ runs, run.Fits b := by
  cases call with
  | render asked =>
    refine ⟨[b.runFor asked t.engine], rfl, ?_, ?_⟩
    · change [b.ticksFor asked] = [max 1 (min asked b.maxTicks)]
      rw [ticksFor, Nat.min_comm]
    · exact List.forall_mem_singleton.2 (b.runFor_fits asked t.engine)
  | @fill α _ count dest =>
    have hasked : (BridgeCall.fill dest).ticks? b =
        if count = 0 then none else some (min (b.fillTicks count) b.maxTicks) := rfl
    have hruns : ((BridgeCall.fill dest).perform b t).runs =
        t.runs ++ if count = 0 then [] else [b.runFor (b.fillTicks count) t.engine] := by
      change (b.fill dest t).2.2.runs = _
      rw [fill_traced]
    rw [hasked]
    by_cases hcount : count = 0
    · rw [if_pos hcount] at hruns ⊢
      exact ⟨[], hruns, rfl, fun _ hrun => absurd hrun List.not_mem_nil⟩
    · rw [if_neg hcount] at hruns ⊢
      refine ⟨_, hruns, ?_, List.forall_mem_singleton.2 (b.runFor_fits _ _)⟩
      exact congrArg (fun ticks => [ticks]) (b.ticksFor_fillTicks count)

theorem perform_engine (b : Bridge) (t : Traced ε) (call : BridgeCall) :
    (call.perform b t).engine = call.perform b t.engine := by
  cases call with
  | render asked => rfl
  | fill dest =>
    change (b.fill dest t).2.2.engine = (b.fill dest t.engine).2.2
    rw [fill_traced]

/-! ## Whole runs -/

theorem performAll_runs (b : Bridge) (calls : List BridgeCall) (t : Traced ε) :
    ∃ runs, (b.performAll calls t).runs = t.runs ++ runs ∧
      runs.map EngineRun.ticks = calls.filterMap (BridgeCall.ticks? b) ∧
      ∀ run ∈ runs, run.Fits b := by
  induction calls generalizing t with
  | nil =>
    refine ⟨[], (List.append_nil _).symm, rfl, ?_⟩
    intro run hrun
    cases hrun
  | cons call calls ih =>
    obtain ⟨first, hfirst, hticks, hfits⟩ := b.perform_runs t call
    obtain ⟨rest, hrest, hticks', hfits'⟩ := ih (call.perform b t)
    refine ⟨first ++ rest, ?_, ?_, List.forall_mem_append.2 ⟨hfits, hfits'⟩⟩
    · rw [← List.append_assoc, ← hfirst]
      exact hrest
    · rw [List.map_append, hticks, hticks', List.filterMap_cons]
      cases call.ticks? b <;> rfl

theorem performAll_engine (b : Bridge) (calls : List BridgeCall) (t : Traced ε) :
    (b.performAll calls t).engine = b.performAll calls t.engine := by
  induction calls generalizing t with
  | nil => rfl
  | cons call calls ih =>
    have hrest := ih (call.perform b t)
    rw [perform_engine] at hrest
    exact hrest

/-- A bridge that was created is never driven out of its buffers. No divisor is zero, and the bounds
of a run's ticks are in order; whatever is called, the engine runs once for each call that wants
samples, in time with the ticks that fit, on silence, and both its input and its output are within
the capacity. A request of at most a chunk of the layout gets all its ticks. -/
theorem performAll_runs_fit {capacity block : Nat} {layout : BridgeLayout} {b : Bridge}
    (hb : (create capacity block layout).value = .ok b) (engine : ε) (calls : List BridgeCall) :
    let seen := b.performAll calls ({ engine } : Traced ε)
    (0 < layout.outputs ∧ 0 < block ∧ 0 < block * max layout.inputs layout.outputs) ∧
      1 ≤ b.maxTicks ∧ max 1 (layout.chunkFrames / block) ≤ b.maxTicks ∧
      seen.engine = b.performAll calls engine ∧
      seen.runs.map EngineRun.ticks = calls.filterMap (BridgeCall.ticks? b) ∧
      (∀ run ∈ seen.runs, 1 ≤ run.ticks ∧ run.ticks ≤ b.maxTicks ∧
        run.input = List.replicate (run.ticks * block * layout.inputs) (Single.zero false) ∧
        run.output.length = run.ticks * block * layout.outputs ∧
        run.input.length ≤ capacity ∧ run.output.length ≤ capacity) ∧
      ∀ {α : Type} [StoredSample α] {count : Nat} (dest : Vector α count), 0 < count →
        count / layout.outputs ≤ layout.chunkFrames →
        (BridgeCall.fill dest).ticks? b = some (max 1 (count / layout.outputs / block)) := by
  have hcreated := createdFor_of_create hb
  obtain ⟨runs, hruns, hticks, hfits⟩ := b.performAll_runs calls ({ engine } : Traced ε)
  rw [List.nil_append] at hruns
  intro seen
  refine ⟨⟨?_, ?_, ?_⟩, b.maxTicks_pos, hcreated.le_maxTicks, b.performAll_engine calls _,
    ?_, ?_, ?_⟩
  · rw [← hcreated.outputs_eq]
    exact b.outputs_pos
  · rw [← hcreated.block_eq]
    exact b.block_pos
  · rw [← hcreated.block_eq, ← hcreated.inputs_eq, ← hcreated.outputs_eq]
    exact Nat.mul_pos b.block_pos b.widest_pos
  · rw [hruns]
    exact hticks
  · intro run hrun
    rw [hruns] at hrun
    have hfit := hfits run hrun
    rw [← hcreated.block_eq, ← hcreated.inputs_eq, ← hcreated.outputs_eq, ← hcreated.capacity_eq]
    exact ⟨hfit.ticks_pos, hfit.ticks_le, hfit.input_eq, hfit.output_length, hfit.input_le,
      hfit.output_le⟩
  · intro α _ count dest hcount hframes
    have hmax := hcreated.ticks_le_maxTicks hframes
    rw [← hcreated.block_eq, ← hcreated.outputs_eq] at hmax ⊢
    change (if count = 0 then none else some (min _ b.maxTicks)) = _
    rw [if_neg (Nat.ne_of_gt hcount), Nat.min_eq_left hmax]

end Bridge

/-! ## A bridge that is wider on its way in -/

/-- An engine beyond all bounds. It produces NaNs, infinities and numbers above full scale in turn,
and counts what it produced. -/
structure Screech where
  produced : Nat := 0
deriving DecidableEq, Repr

def Screech.sample (i : Nat) : Single :=
  match i % 5 with
  | 0 => .nan
  | 1 => .infinity true
  | 2 => .infinity false
  | 3 => .ofMagnitude false 0x40000000
  | _ => .zero true

instance : Engine Screech where
  process _ _ count engine :=
    (Vector.ofFn fun i : Fin count => Screech.sample (engine.produced + i),
      { produced := engine.produced + count })

def wideLayout : BridgeLayout where
  inputs := 3
  outputs := 2
  chunkFrames := 5
  range := .pwm 1000

def wideBridge : Bridge where
  inputs := 3
  outputs := 2
  range := .pwm 1000
  block := 2
  capacity := 14
  outputs_pos := Nat.two_pos
  block_pos := Nat.two_pos
  range_valid := by decide
  tick_fits := by decide

/-- Two ticks fit, and a chunk has two whole blocks and a frame left over. -/
theorem Bridge.performAll_runs_fit_wide :
    let calls : List BridgeCall := [.render 0, .fill (#v[] : Vector UInt16 0),
      .fill (#v[7, 7, 7] : Vector Int16 3), .render 9, .fill (Vector.replicate 100 (1 : UInt16))]
    let seen := wideBridge.performAll calls ({ engine := {} } : Traced Screech)
    max 1 (5 / 2) ≤ wideBridge.maxTicks ∧ seen.runs.map EngineRun.ticks = [1, 1, 2, 2] ∧
      (∀ run ∈ seen.runs, 1 ≤ run.ticks ∧ run.ticks ≤ wideBridge.maxTicks ∧
        run.input = List.replicate (run.ticks * 2 * 3) (Single.zero false) ∧
        run.output.length = run.ticks * 2 * 2 ∧ run.input.length ≤ 14 ∧ run.output.length ≤ 14) ∧
      (BridgeCall.fill (Vector.replicate 10 (1 : UInt16))).ticks? wideBridge = some 2 := by
  intro calls seen
  have hb : (create 14 2 wideLayout).value = .ok wideBridge := rfl
  obtain ⟨-, -, hmax, -, hticks, hfits, hchunk⟩ :=
    performAll_runs_fit hb ({} : Screech) calls
  exact ⟨hmax, hticks, hfits, hchunk _ (by decide) (by decide)⟩

end Patchbay
