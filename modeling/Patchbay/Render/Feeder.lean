import Patchbay.Limits
import Patchbay.Render.Bridge
/-!
# Keeping a queue filled

A `Feeder` renders whole engine blocks into a queue until less than a block is missing from its
target, at most one chunk at a time. Between two renders it lets other work poll; polling may drain
the queue. The samples of one render are converted and enqueued in pieces of whole frames.

`topOffWithin` runs at most the given number of rounds. A queue that nobody drains, and that grows
by what it takes, needs no more rounds than its target has frames, and one more to see that nothing
is left to do; `topOff` allows that many.
-/

namespace Patchbay

/-- Samples that are converted at a time. -/
def Feeder.pieceLimit : Nat := 128

/-- A fill level, and how to reach it. -/
structure Feeder where
  /-- What renders. -/
  bridge : Bridge
  /-- The frames to keep queued. -/
  target : Nat
  /-- The most frames of one render. -/
  chunk : Nat
  /-- A piece holds one frame at least. -/
  outputs_le : bridge.outputs ≤ Feeder.pieceLimit
deriving DecidableEq, Repr

/-- Why playback does not start. -/
inductive StartError (φ : Type) where
  /-- Nothing was queued. -/
  | emptyQueue
  /-- The hardware refused. -/
  | device (fault : φ)
deriving DecidableEq, Repr

/-- The message of a failed start, given the names of the faults. -/
def StartError.message {φ : Type} (faultName : φ → String) : StartError φ → String
  | .emptyQueue => "output queue is empty"
  | .device fault => s!"output device failed to start: {faultName fault}"

namespace Feeder

variable {κ α φ ε γ : Type} [PushSink κ α]

/-- The depth that an output wants, in milliseconds; one that pulls gets the default. -/
def depthMs (spec : OutputSpec) : Nat :=
  match spec.delivery with
  | .push depthMs => depthMs
  | .pull => Limits.defaultQueueDepthMs

/-- The feeder from a bridge to the queue of an output. Its target is one block at least and fits
the queue. -/
def create (b : Bridge) (spec : OutputSpec) (rate : Nat) (sink : κ) :
    Logged (Except BridgeError Feeder) :=
  let capacity := PushSink.capacity sink
  if b.outputs ≠ spec.channels ∨ b.range ≠ spec.range then do
    Log.error <|
      s!"push feeder: bridge renders {b.outputs} ch {b.range.describe}, "
        ++ s!"output expects {spec.channels} ch {spec.range.describe}"
    pure (.error .layoutMismatch)
  else if capacity < b.block then pure (.error (.queueTooSmall b.block capacity))
  else if h : pieceLimit < b.outputs then
    pure (.error (.bufferTooSmall b.outputs pieceLimit))
  else do
    let depth := depthMs spec
    let target := min (max b.block (depth * rate / 1000)) capacity
    Log.info s!"push feeder: target {target} of {capacity} frames ({depth} ms at {rate} Hz)"
    pure <| .ok
      { bridge := b
        target
        chunk := max b.block spec.chunkFrames
        outputs_le := Nat.le_of_not_lt h }

/-- The ticks to render next: what is missing from the target, as far as it fits the queue and one
chunk, in whole blocks. -/
def dueTicks (f : Feeder) (sink : κ) : Nat :=
  let wanted := min (min (f.target - PushSink.queued sink) (PushSink.free sink)) f.chunk
  min (wanted / f.bridge.block) f.bridge.maxTicks

/-- The samples of one piece: as many whole frames as the limit holds. -/
def pieceSize (f : Feeder) : Nat :=
  pieceLimit / f.bridge.outputs * f.bridge.outputs

/-- A list cut into pieces of a size; the last one may be shorter. -/
def pieces {β : Type} (size : Nat) (l : List β) : List (List β) :=
  if size = 0 ∨ l.length = 0 then []
  else l.take size :: pieces size (l.drop size)
termination_by l.length
decreasing_by simp only [List.length_drop]; omega

/-- Offers pieces one after another and answers how many frames were taken of all of them. A piece
that is taken in part does not keep the next from being offered. -/
def enqueueAll (pieces : List (List α)) (sink : κ) : Nat × κ :=
  match pieces with
  | [] => (0, sink)
  | piece :: rest =>
    let (taken, sink) := PushSink.enqueue piece sink
    let (more, sink) := enqueueAll rest sink
    (taken + more, sink)

/-- What came of topping a queue off. -/
structure TopOff (κ ε γ : Type) where
  /-- Frames that the queue took. -/
  frames : Nat
  sink : κ
  engine : ε
  /-- The state of the work that polls between renders. -/
  polling : γ
  /-- Whether nothing was left to do. -/
  finished : Bool
deriving DecidableEq, Repr

variable [StoredSample α] [Engine ε]

/-- Renders some ticks into the queue and answers how many frames it took. -/
def renderInto (f : Feeder) (ticks : Nat) (sink : κ) (engine : ε) : Nat × κ × ε :=
  let (rendered, engine) := f.bridge.render ticks engine
  let stored : List α := rendered.toList.map f.bridge.range.store
  let (taken, sink) := enqueueAll (pieces f.pieceSize stored) sink
  (taken, sink, engine)

/-- Tops the queue off in some rounds, of which each but the first polls before it renders. It ends
early when no block is due or when the queue takes nothing. -/
def topOffWithin (rounds : Nat) (f : Feeder) (poll : κ → γ → κ × γ) (frames : Nat) (sink : κ)
    (engine : ε) (polling : γ) : TopOff κ ε γ :=
  match rounds with
  | 0 => { frames, sink, engine, polling, finished := false }
  | rounds + 1 =>
    let ticks := f.dueTicks sink
    if ticks = 0 then { frames, sink, engine, polling, finished := true }
    else
      let (sink, polling) := if 0 < frames then poll sink polling else (sink, polling)
      let (taken, sink, engine) := f.renderInto ticks sink engine
      if taken = 0 then { frames, sink, engine, polling, finished := true }
      else topOffWithin rounds f poll (frames + taken) sink engine polling

/-- Tops off a queue that nobody drains meanwhile. -/
def topOff (f : Feeder) (poll : κ → γ → κ × γ) (sink : κ) (engine : ε) (polling : γ) :
    TopOff κ ε γ :=
  f.topOffWithin (f.target + 1) poll 0 sink engine polling

variable [Startable κ φ]

/-- Fills the queue and starts the device; it answers how many frames were added. Playback never
starts on an empty queue. -/
def start (f : Feeder) (sink : κ) (engine : ε) :
    Logged (Except (StartError φ) Nat × κ × ε) := do
  let primed := f.topOff (fun sink () => (sink, ())) sink engine ()
  if PushSink.queued primed.sink = 0 then
    Log.error "output queue still empty after priming"
    pure (.error .emptyQueue, primed.sink, primed.engine)
  else
    let (started, sink) ← Startable.start primed.sink
    match started with
    | .ok () => pure (.ok primed.frames, sink, primed.engine)
    | .error fault => do
      Log.error s!"output device failed to start: {Startable.faultName κ fault}"
      pure (.error (.device fault), sink, primed.engine)

end Feeder

end Patchbay
