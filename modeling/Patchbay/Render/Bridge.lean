import Patchbay.Log
import Patchbay.Output.Spec
import Patchbay.Render.Engine
/-!
# From engine ticks to chunks of samples

A `Bridge` runs an engine for whole ticks and turns what it produces into the samples of an output.
It owns buffers of a fixed capacity for the input and the output of one run, so a run has a greatest
number of ticks. `Bridge.create` accepts a layout only if the largest chunk that the output will ask
for fits; the fields that hold proofs are what every later run relies on.
-/

namespace Patchbay

/-- The channels and the chunk that a bridge is made for. -/
structure BridgeLayout where
  /-- Input channels of the engine; there may be none. -/
  inputs : Nat := 0
  /-- Output channels of the engine. -/
  outputs : Nat
  /-- Frames of the largest chunk that will be asked for. -/
  chunkFrames : Nat
  range : SampleRange
deriving DecidableEq, Repr

/-- The layout for an output, without engine input. -/
def BridgeLayout.ofSpec (spec : OutputSpec) : BridgeLayout where
  outputs := spec.channels
  chunkFrames := spec.chunkFrames
  range := spec.range

/-- Why an audio path cannot be set up. -/
inductive BridgeError where
  | noOutputChannels
  | zeroBlockSize
  /-- The sample range has no two members. -/
  | invalidRange (range : SampleRange)
  /-- The bridge and the output differ in their channels or their range. -/
  | layoutMismatch
  /-- A buffer is too small for one run. -/
  | bufferTooSmall (required capacity : Nat)
  /-- A queue cannot hold one block of the engine. -/
  | queueTooSmall (required capacity : Nat)
deriving DecidableEq, Repr

def BridgeError.message : BridgeError → String
  | .noOutputChannels => "no output channels"
  | .zeroBlockSize => "engine block size is zero"
  | .invalidRange range => s!"sample range {range.low}..={range.high} is empty"
  | .layoutMismatch => "bridge channels or sample range differ from the output"
  | .bufferTooSmall required capacity =>
    s!"audio buffer holds {capacity} samples, {required} required"
  | .queueTooSmall required capacity =>
    s!"output queue holds {capacity} frames, {required} required"

/-- An accepted layout with the capacity of the buffers and the block of the engine. -/
structure Bridge where
  inputs : Nat
  outputs : Nat
  range : SampleRange
  /-- Frames of one engine tick. -/
  block : Nat
  /-- Samples that either buffer holds. -/
  capacity : Nat
  outputs_pos : 0 < outputs
  block_pos : 0 < block
  range_valid : range.Valid
  /-- One tick fits into either buffer. -/
  tick_fits : block * max inputs outputs ≤ capacity
deriving DecidableEq, Repr

namespace Bridge

/-- The frames of the largest run that a chunk can ask for: as many whole blocks as fit into the
chunk, and one block at least. -/
def framesPerCall (block chunkFrames : Nat) : Nat :=
  block * max 1 (chunkFrames / block)

/-- The bridge for a layout, the capacity of the buffers and the block of the engine. The products
are those of whole numbers. Where sizes have 64 bits they are exact below 2^64, and what is said of
bridges that were created is about such products. -/
def create (capacity block : Nat) (layout : BridgeLayout) : Logged (Except BridgeError Bridge) :=
  let widest := max layout.inputs layout.outputs
  let frames := framesPerCall block layout.chunkFrames
  if outputs_pos : layout.outputs = 0 then pure (.error .noOutputChannels)
  else if block_pos : block = 0 then pure (.error .zeroBlockSize)
  else if range_valid : ¬layout.range.Valid then pure (.error (.invalidRange layout.range))
  else if fits : capacity < frames * widest then
    pure (.error (.bufferTooSmall (frames * widest) capacity))
  else do
    Log.info <|
      s!"audio bridge: {layout.inputs} in / {layout.outputs} out channels, "
        ++ s!"{frames} frames per call"
    pure <| .ok
      { inputs := layout.inputs
        outputs := layout.outputs
        range := layout.range
        block
        capacity
        outputs_pos := Nat.pos_of_ne_zero outputs_pos
        block_pos := Nat.pos_of_ne_zero block_pos
        range_valid := Decidable.of_not_not range_valid
        tick_fits := by
          have one_block : block ≤ frames := Nat.le_mul_of_pos_right block (by omega)
          exact Nat.le_trans (Nat.mul_le_mul_right widest one_block) (Nat.le_of_not_lt fits) }

/-- The most ticks of one run: both buffers hold what they need. -/
def maxTicks (b : Bridge) : Nat :=
  b.capacity / (b.block * max b.inputs b.outputs)

/-- The ticks that a run has when some are asked for: one at least, and no more than fit. -/
def ticksFor (b : Bridge) (asked : Nat) : Nat :=
  max 1 (min b.maxTicks asked)

variable {ε α : Type} [Engine ε] [StoredSample α]

/-- Runs the engine for some ticks on silent input. -/
def render (asked : Nat) (b : Bridge) (engine : ε) :
    Vector Single (b.ticksFor asked * b.block * b.outputs) × ε :=
  let ticks := b.ticksFor asked
  Engine.process ticks (List.replicate (ticks * b.block * b.inputs) (Single.zero false))
    (ticks * b.block * b.outputs) engine

/-- A chunk of samples. The engine runs for the whole blocks in it, and once at least; what it
produces comes first, and silence fills the rest. An empty chunk needs no run. -/
def chunk (count : Nat) (b : Bridge) (engine : ε) : Vector α count × ε :=
  if count = 0 then (Vector.replicate count b.range.storedSilence, engine)
  else
    let (rendered, engine) := b.render (max 1 (count / b.outputs / b.block)) engine
    let samples := Vector.ofFn fun i : Fin count =>
      match rendered[i.val]? with
      | some sample => b.range.store sample
      | none => b.range.storedSilence
    (samples, engine)

/-- Overwrites all samples that an output asks for. -/
def fill {count : Nat} (b : Bridge) : Fill α count ε := fun _ engine =>
  let (samples, engine) := b.chunk count engine
  (count, samples, engine)

end Bridge

end Patchbay
