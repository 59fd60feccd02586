import Patchbay.Limits
import Patchbay.Message.Basic
/-!
# Writing lines of control text

A `Sender` writes each message as one line, `receiver payload;` and a line feed, to a serial sink
that may take only a part of what it is offered. A line that is too long, or that the sink stops
taking, is dropped and counted; it is never tried again.
-/

namespace Patchbay

/-- A sink for bytes. -/
class SerialSink (ω : Type) where
  /-- Offers bytes to the sink. It answers how many it took, or `none` for a failure. -/
  write : List UInt8 → ω → Option Nat × ω

namespace Fudi

/-- A writer of control text with its counters, which go around at 2^32. -/
structure Sender (ω : Type) where
  sink : ω
  /-- Lines written in full. -/
  sent : UInt32 := 0
  /-- Lines that were too long or were not written in full. -/
  dropped : UInt32 := 0
deriving DecidableEq, Repr

namespace Sender

variable {ω : Type} [SerialSink ω]

/-- Offers bytes again and again until all are taken, and says whether that came about. A failure
or a write that takes nothing ends it. -/
def drain (bytes : List UInt8) (sink : ω) : Bool × ω :=
  match bytes with
  | [] => (true, sink)
  | byte :: rest =>
    match SerialSink.write (byte :: rest) sink with
    | (none, sink) => (false, sink)
    | (some 0, sink) => (false, sink)
    | (some (taken + 1), sink) => drain (rest.drop taken) sink
termination_by bytes.length
decreasing_by simp only [List.length_drop, List.length_cons]; omega

/-- The line for a receiver and what follows it. -/
def line (receiver payload : String) : String := s!"{receiver} {payload};\n"

/-- Sends a receiver and the text after it, and says whether the line was written in full. -/
def sendText (receiver payload : String) (s : Sender ω) : Bool × Sender ω :=
  let text := line receiver payload
  if Limits.maxLineBytes < text.utf8ByteSize then (false, { s with dropped := s.dropped + 1 })
  else
    match drain text.toUTF8.data.toList s.sink with
    | (true, sink) => (true, { s with sink, sent := s.sent + 1 })
    | (false, sink) => (false, { s with sink, dropped := s.dropped + 1 })

/-- Sends a message. -/
def send (m : Message) (s : Sender ω) : Bool × Sender ω :=
  s.sendText m.receiver m.payload

end Sender

end Fudi

end Patchbay
