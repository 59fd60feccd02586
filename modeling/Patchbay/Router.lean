import Patchbay.Fudi.Intake
import Patchbay.Fudi.Sender
import Patchbay.Midi
/-!
# The router of control messages

A `Router` joins the ways in and out of an engine: MIDI packets and control text come in, messages
of the engine go out as control text, and its console text goes to the log. Input that cannot be
used is counted and never stops the next. The reader of the bytes of a packet is given with it.
-/

namespace Patchbay

/-- A reader and a writer of control text, with the counters of the other inputs. These go around
at 2^32 as well. -/
structure Router (ω : Type) where
  intake : Fudi.Intake := {}
  sender : Fudi.Sender ω
  /-- MIDI packets that gave an event. -/
  midiReceived : UInt32 := 0
  /-- MIDI packets that gave none. -/
  midiIgnored : UInt32 := 0
  /-- Console texts passed on to the log. -/
  printed : UInt32 := 0
deriving DecidableEq, Repr

namespace Router

variable {ω : Type} {τ : Type}

/-- A router that has seen nothing, over a sink. -/
def ofSink (sink : ω) : Router ω :=
  { sender := { sink } }

/-- Plays one MIDI packet and says whether it gave an event. -/
def midi [Midi.Target τ] (read : Midi.Reader) (packet : List UInt8) (r : Router ω) (engine : τ) :
    Bool × Router ω × τ :=
  match Midi.Event.decodeWith read packet with
  | .ok event =>
    (true, { r with midiReceived := r.midiReceived + 1 }, Midi.Target.play event engine)
  | .error _ => (false, { r with midiIgnored := r.midiIgnored + 1 }, engine)

/-- Reads bytes of control text and says of each whether it completed an accepted message. -/
def feed [Message.Target τ] (bytes : List UInt8) (r : Router ω) (engine : τ) :
    Logged (List Bool × Router ω × τ) := do
  let (dones, intake, engine) ← r.intake.feed bytes engine
  pure (dones, { r with intake }, engine)

/-- Reads bytes of control text and counts the accepted messages that they completed. -/
def feedAll [Message.Target τ] (bytes : List UInt8) (r : Router ω) (engine : τ) :
    Logged (Nat × Router ω × τ) := do
  let (count, intake, engine) ← r.intake.feedAll bytes engine
  pure (count, { r with intake }, engine)

/-- Sends a message of the engine, and says whether the line was written in full. -/
def send [SerialSink ω] (m : Message) (r : Router ω) : Bool × Router ω :=
  let (sent, sender) := r.sender.send m
  (sent, { r with sender })

/-- Console text without its line terminator: one line feed at the end is left out. -/
def consoleLine (text : String) : String :=
  match text.toList.reverse with
  | '\n' :: rest => String.ofList rest.reverse
  | _ => text

/-- Passes console text of the engine on to the log. -/
def print (text : String) (r : Router ω) : Logged (Router ω) :=
  { value := { r with printed := r.printed + 1 }
    records := [{ level := .info, target := "pd", text := consoleLine text }] }

end Router

end Patchbay
