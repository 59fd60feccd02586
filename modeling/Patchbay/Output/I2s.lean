import Patchbay.Output.Spec
import Patchbay.Sample.Frame
/-!
# The serial stereo output

An `I2sOutput` answers each transfer interrupt with one word for every frame. While it is active it
has the samples filled in first and puts zeros behind what was filled; while it is not, all words
are zero. The samples of one interrupt stay in place for the next, so that a fill may read them.
-/

namespace Patchbay

/-- The transmitter behind the words. -/
class Transmitter (τ : Type) (φ : outParam Type) where
  enable : τ → Except φ Unit × τ
  disable : τ → τ
  /-- The name of a fault, as log records show it. -/
  faultName : φ → String

/-- The output with a chunk of some frames. -/
structure I2sOutput (τ : Type) (frames : Nat) where
  transmitter : τ
  /-- The interleaved samples of a chunk. -/
  samples : Vector Int16 (2 * frames)
  active : Bool := false
deriving DecidableEq, Repr

namespace I2sOutput

variable {τ φ γ : Type} {frames : Nat}

/-- An inactive output for a chunk of some samples. A chunk holds whole frames, and one at least. -/
def create? (samples : Nat) (transmitter : τ) : Option (I2sOutput τ (samples / 2)) :=
  if 2 ≤ samples ∧ samples % 2 = 0 then some { transmitter, samples := Vector.replicate _ 0 }
  else none

def spec (_ : I2sOutput τ frames) : OutputSpec where
  chunkFrames := frames
  channels := 2
  range := .signed16
  delivery := .pull

/-- Answers an interrupt that asks for some words, at most a chunk. It says how many frames were
filled. -/
def interrupt {words : Nat} (fits : words ≤ frames) (fill : Fill Int16 (2 * words) γ)
    (o : I2sOutput τ frames) (g : γ) : Nat × Vector UInt32 words × I2sOutput τ frames × γ :=
  if o.active then
    let front := Vector.ofFn fun i : Fin (2 * words) => o.samples[i.val]
    let (reported, written, g) := fill front g
    let filled := min reported (2 * words)
    let front := Vector.ofFn fun i : Fin (2 * words) => if i.val < filled then written[i] else 0
    let samples := Vector.ofFn fun i : Fin (2 * frames) =>
      if h : i.val < 2 * words then front[i.val] else o.samples[i]
    let sent := Vector.ofFn fun i : Fin words =>
      Frame.toWord ⟨front[2 * i.val], front[2 * i.val + 1]⟩
    (filled / 2, sent, { o with samples }, g)
  else (0, Vector.replicate words 0, o, g)

variable [Transmitter τ φ]

/-- Enables the transmitter, unless the output is active. -/
def start (o : I2sOutput τ frames) : Logged (Except φ Unit × I2sOutput τ frames) :=
  if o.active then pure (.ok (), o)
  else
    match Transmitter.enable o.transmitter with
    | (.error fault, transmitter) => do
      Log.error s!"I2S output failed to start: {Transmitter.faultName τ fault}"
      pure (.error fault, { o with transmitter })
    | (.ok (), transmitter) => do
      Log.info s!"I2S output started ({frames} frames per chunk)"
      pure (.ok (), { o with transmitter, active := true })

/-- Disables the transmitter if the output is active. -/
def stop (o : I2sOutput τ frames) : I2sOutput τ frames :=
  if o.active then { o with transmitter := Transmitter.disable o.transmitter, active := false }
  else o

instance : Startable (I2sOutput τ frames) φ where
  start := start
  faultName := Transmitter.faultName τ

end I2sOutput

end Patchbay
