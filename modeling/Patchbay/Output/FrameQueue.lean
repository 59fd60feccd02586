import Patchbay.Output.Spec
import Patchbay.Ring
import Patchbay.Sample.Frame
/-!
# The frame queue

A stereo output whose hardware takes frames on a schedule of its own. A producer keeps the queue
filled. While the output is stopped the hardware gets silence and the frames wait; while it plays,
an empty queue also gives silence and counts as an underrun.
-/

namespace Patchbay

/-- A queue of at most `n - 1` frames. -/
structure FrameQueue (n : Nat) where
  ring : Ring Frame n
  chunkFrames : Nat
  /-- The depth to keep, in milliseconds of audio. -/
  depthMs : Nat
  /-- Whether it plays. -/
  active : Bool := false
  /-- Frames asked of an empty queue while it played, modulo `2 ^ 32`. -/
  underruns : UInt32 := 0
deriving DecidableEq, Repr

namespace FrameQueue

variable {n : Nat}

/-- Why a queue does not start: nothing is queued. -/
inductive Fault where
  | empty
deriving DecidableEq, Repr

namespace Fault

def name : Fault → String
  | .empty => "QueueEmpty"

def message : Fault → String
  | .empty => "refusing to start with an empty queue"

end Fault

/-- A stopped queue without frames. -/
def create? (n chunkFrames depthMs : Nat) : Option (FrameQueue n) :=
  (Ring.empty? Frame n).map fun ring => { ring, chunkFrames, depthMs }

def spec (q : FrameQueue n) : OutputSpec where
  chunkFrames := q.chunkFrames
  channels := 2
  range := .signed16
  delivery := .push q.depthMs

/-- The next frame for the hardware. -/
def pop (q : FrameQueue n) : Frame × FrameQueue n :=
  if q.active then
    match q.ring.pop with
    | (some frame, ring) => (frame, { q with ring })
    | (none, _) => (.silent, { q with underruns := q.underruns + 1 })
  else (.silent, q)

/-- The next frames for the hardware, in order. -/
def popMany (count : Nat) (q : FrameQueue n) : List Frame × FrameQueue n :=
  match count with
  | 0 => ([], q)
  | count + 1 =>
    let (frame, q) := q.pop
    let (frames, q) := popMany count q
    (frame :: frames, q)

/-- Frames handed to the ring at a time. -/
def batchFrames : Nat := 64

/-- Adds the frames of interleaved samples, a batch at a time, and answers how many were taken. It
ends with the first batch that does not fit whole. -/
def enqueue (samples : List Int16) (q : FrameQueue n) : Nat × FrameQueue n :=
  if samples.isEmpty then (0, q)
  else
    let batch := Frame.ofSamples (samples.take (2 * batchFrames))
    let (taken, ring) := q.ring.pushMany batch
    let q := { q with ring }
    if taken < batch.length then (taken, q)
    else
      let (more, q) := enqueue (samples.drop (2 * batchFrames)) q
      (taken + more, q)
termination_by samples.length
decreasing_by
  have : 0 < samples.length := by
    cases samples
    · contradiction
    · simp
  simp only [List.length_drop, batchFrames]
  omega

/-- Starts playing, unless nothing is queued. -/
def start (q : FrameQueue n) : Logged (Except Fault Unit × FrameQueue n) :=
  if q.ring.isEmpty then pure (.error .empty, q)
  else do
    Log.info s!"queued output started with {q.ring.size} of {q.ring.capacity} frames"
    pure (.ok (), { q with active := true })

/-- Stops playing. Queued frames stay. -/
def stop (q : FrameQueue n) : FrameQueue n :=
  { q with active := false }

instance : PushSink (FrameQueue n) Int16 where
  capacity q := q.ring.capacity
  queued q := q.ring.size
  free q := q.ring.free
  enqueue := enqueue

instance : Startable (FrameQueue n) Fault where
  start := start
  faultName := Fault.name

end FrameQueue

end Patchbay
