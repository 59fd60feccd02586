import Patchbay.Log
import Patchbay.Sample.Stored
/-!
# Outputs

What an output says about itself, and how it is driven. An output takes audio in one of two ways: it
pulls a chunk when it needs one, or it drains a queue that is kept filled to a depth. Its hardware
may refuse to start, with a fault of a kind of its own.
-/

namespace Patchbay

/-- How an output takes audio. -/
inductive Delivery where
  /-- It demands a chunk when it needs one. -/
  | pull
  /-- It drains a queue that is kept at a depth in milliseconds of audio. -/
  | push (depthMs : Nat)
deriving DecidableEq, Repr

/-- What an output expects. -/
structure OutputSpec where
  /-- Frames of one delivery. -/
  chunkFrames : Nat
  /-- Interleaved channels. -/
  channels : Nat
  range : SampleRange
  delivery : Delivery
deriving DecidableEq, Repr

/-- Samples of one delivery. -/
def OutputSpec.chunkSamples (spec : OutputSpec) : Nat :=
  spec.chunkFrames * spec.channels

/-- A queue of whole frames between a producer and a device. -/
class PushSink (κ : Type) (α : outParam Type) where
  /-- The frames that fit. -/
  capacity : κ → Nat
  /-- The frames that wait. -/
  queued : κ → Nat
  /-- The frames that can still be added. -/
  free : κ → Nat := fun sink => capacity sink - queued sink
  /-- Offers interleaved samples. It answers how many leading frames were taken. -/
  enqueue : List α → κ → Nat × κ

/-- Fills samples in place, on a state of its own. It answers how many leading samples it wrote. -/
abbrev Fill (α : Type) (count : Nat) (γ : Type) : Type :=
  Vector α count → γ → Nat × Vector α count × γ

/-- A device that is started and stopped. -/
class Startable (κ : Type) (ε : outParam Type) where
  /-- Starts the device; a fault leaves it as it was. -/
  start : κ → Logged (Except ε Unit × κ)
  /-- The name of a fault, as log records show it. -/
  faultName : ε → String

end Patchbay
