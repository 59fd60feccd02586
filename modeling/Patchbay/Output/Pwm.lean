import Patchbay.Output.Spec
/-!
# The PWM output

A `PwmOutput` plays stereo through the duty cycles of two channels, one frame at each interrupt. It
has a new chunk filled in when the last one is used up, and puts silence, the middle of the duty
range, behind what was filled. Both channels are parked at the middle when the output starts or
stops.
-/

namespace Patchbay

/-- A PWM channel. -/
class DutyChannel (δ : Type) (φ : outParam Type) where
  /-- The greatest duty of the channel. -/
  maxDuty : δ → UInt16
  setDuty : UInt16 → δ → Except φ Unit × δ
  /-- The name of a fault, as log records show it. -/
  faultName : φ → String

/-- The output with a chunk of some frames. -/
structure PwmOutput (κ ρ : Type) (frames : Nat) where
  left : κ
  right : ρ
  /-- The greatest duty that both channels reach. -/
  maxDuty : UInt16
  /-- The interleaved samples of a chunk. -/
  chunk : Vector UInt16 (2 * frames)
  /-- The frame to play next, or `none` when the chunk is used up. Its left sample has twice its
  index in the chunk; a chunk that is used up is read on at its end. -/
  next : Option (Fin frames) := none
  active : Bool := false
  frames_pos : 0 < frames
deriving Repr

namespace PwmOutput

variable {κ ρ φ γ : Type} {frames : Nat}

def range (o : PwmOutput κ ρ frames) : SampleRange := .pwm o.maxDuty

/-- The duty of a silent channel. -/
def silence (o : PwmOutput κ ρ frames) : UInt16 := o.range.storedSilence

def spec (o : PwmOutput κ ρ frames) : OutputSpec where
  chunkFrames := frames
  channels := 2
  range := o.range
  delivery := .pull

/-- A frame of the chunk: its left and its right duty. -/
def frameAt (o : PwmOutput κ ρ frames) (i : Fin frames) : UInt16 × UInt16 :=
  (o.chunk[2 * i.val], o.chunk[2 * i.val + 1])

/-- The frame after another, or `none` at the end of the chunk. -/
def after (i : Fin frames) : Option (Fin frames) :=
  if h : i.val + 1 < frames then some ⟨i.val + 1, h⟩ else none

/-- Has a new chunk filled in. -/
def refill (fill : Fill UInt16 (2 * frames) γ) (o : PwmOutput κ ρ frames) (g : γ) :
    PwmOutput κ ρ frames × γ :=
  let (filled, written, g) := fill o.chunk g
  let chunk := Vector.ofFn fun i : Fin (2 * frames) =>
    if i.val < filled then written[i] else o.silence
  ({ o with chunk }, g)

variable [DutyChannel κ φ] [DutyChannel ρ φ]

/-- An inactive output for a chunk of some samples. A chunk holds whole frames, and one at least. -/
def create? (samples : Nat) (left : κ) (right : ρ) : Option (PwmOutput κ ρ (samples / 2)) :=
  let maxDuty := min (DutyChannel.maxDuty left) (DutyChannel.maxDuty right)
  if h : 2 ≤ samples ∧ samples % 2 = 0 then
    some
      { left, right, maxDuty
        chunk := Vector.replicate _ (SampleRange.pwm maxDuty).storedSilence
        frames_pos := by omega }
  else none

/-- Sets both channels, the left one first. If that fails, the right one is left alone. -/
def setDuties (left right : UInt16) (o : PwmOutput κ ρ frames) :
    Except φ Unit × PwmOutput κ ρ frames :=
  match DutyChannel.setDuty left o.left with
  | (.error fault, channel) => (.error fault, { o with left := channel })
  | (.ok (), channel) =>
    let (result, other) := DutyChannel.setDuty right o.right
    (result, { o with left := channel, right := other })

/-- Plays a frame of the chunk and goes on to the next, also when a channel fails. -/
def play (i : Fin frames) (o : PwmOutput κ ρ frames) : Except φ Unit × PwmOutput κ ρ frames :=
  let (left, right) := o.frameAt i
  setDuties left right { o with next := after i }

/-- Answers an interrupt: plays one frame, after a refill if the chunk is used up. An inactive
output does nothing. -/
def interrupt (fill : Fill UInt16 (2 * frames) γ) (o : PwmOutput κ ρ frames) (g : γ) :
    Except φ Unit × PwmOutput κ ρ frames × γ :=
  if o.active then
    match o.next with
    | some i =>
      let (result, o) := o.play i
      (result, o, g)
    | none =>
      let (o, g) := o.refill fill g
      let (result, o) := o.play ⟨0, o.frames_pos⟩
      (result, o, g)
  else (.ok (), o, g)

/-- Sets both channels to the middle. -/
def park (o : PwmOutput κ ρ frames) : Except φ Unit × PwmOutput κ ρ frames :=
  o.setDuties o.silence o.silence

/-- Parks both channels and starts with a new chunk. If parking fails, the output is as active as
before. -/
def start (o : PwmOutput κ ρ frames) : Logged (Except φ Unit × PwmOutput κ ρ frames) :=
  match o.park with
  | (.error fault, o) => do
    Log.error s!"PWM output failed to start: {DutyChannel.faultName κ fault}"
    pure (.error fault, o)
  | (.ok (), o) => do
    Log.info s!"PWM output started (duty 0..={o.maxDuty}, {frames} frames per chunk)"
    pure (.ok (), { o with next := none, active := true })

/-- Stops and parks both channels. A channel that fails is only logged. -/
def stop (o : PwmOutput κ ρ frames) : Logged (PwmOutput κ ρ frames) :=
  match park { o with active := false } with
  | (.error fault, o) => do
    Log.warn s!"PWM output failed to park: {DutyChannel.faultName κ fault}"
    pure o
  | (.ok (), o) => pure o

instance : Startable (PwmOutput κ ρ frames) φ where
  start := start
  faultName := DutyChannel.faultName κ

end PwmOutput

end Patchbay
