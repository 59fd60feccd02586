import Patchbay.Log
import Patchbay.Limits
import Patchbay.Message.Basic
/-!
# Reading lines of control text

An `Intake` takes bytes one at a time. A semicolon or a line feed ends a line, and carriage returns
count for nothing. A line that is too long is dropped up to its end and counts as one error; any
other is typed and delivered as soon as it ends.
-/

namespace Patchbay.Fudi

/-- What has come in since the last terminator. -/
inductive Pending where
  /-- The bytes of a line that still fits. -/
  | line (bytes : List UInt8)
  /-- A line that outgrew the limit. -/
  | overlong
deriving DecidableEq, Repr

/-- The state of a reader of control text. The counters go around at 2^32. -/
structure Intake where
  pending : Pending := .line []
  /-- Messages that were accepted. -/
  received : UInt32 := 0
  /-- Lines that were too long, were not text, or were refused. -/
  errors : UInt32 := 0
deriving DecidableEq, Repr

namespace Intake

variable {τ : Type} [Message.Target τ]

/-- Forgets the unfinished line. -/
def reset (s : Intake) : Intake :=
  { s with pending := .line [] }

/-- Delivers the message made of some words, none of which are left out, and says whether it was
accepted. -/
def deliverWords (words : List String) (s : Intake) (t : τ) : Logged (Bool × Intake × τ) :=
  match Message.ofWords? words with
  | none => pure (false, s, t)
  | some m => do
    let (accepted, t) := Message.Target.deliver m t
    if accepted then
      Log.debug s!"FUDI -> {m.receiver} ({words.length - 1} args)"
      pure (true, { s with received := s.received + 1 }, t)
    else
      Log.warn s!"FUDI no such receiver: {m.receiver}"
      pure (false, { s with errors := s.errors + 1 }, t)

/-- Delivers a finished line. Words beyond the limit are left out. -/
def deliverLine (bytes : List UInt8) (s : Intake) (t : τ) : Logged (Bool × Intake × τ) :=
  match String.fromUTF8? ⟨bytes.toArray⟩ with
  | none => do
    Log.warn "FUDI message is not valid UTF-8"
    pure (false, { s with errors := s.errors + 1 }, t)
  | some text => do
    let words := Text.words text
    if Limits.maxLineWords < words.length then
      Log.debug s!"FUDI message has more than {Limits.maxLineWords} tokens, truncated"
    deliverWords (words.take Limits.maxLineWords) s t

/-- Ends the line that is pending. -/
def endLine (s : Intake) (t : τ) : Logged (Bool × Intake × τ) :=
  match s.pending with
  | .overlong => pure (false, s.reset, t)
  | .line [] => pure (false, s, t)
  | .line bytes => deliverLine bytes s.reset t

/-- Adds a byte to the line that is pending. -/
def append (byte : UInt8) (s : Intake) : Logged Intake :=
  match s.pending with
  | .overlong => pure s
  | .line bytes =>
    if bytes.length < Limits.maxLineBytes then
      pure { s with pending := .line (bytes ++ [byte]) }
    else do
      Log.warn s!"FUDI message longer than {Limits.maxLineBytes} bytes, discarded"
      pure { s with pending := .overlong, errors := s.errors + 1 }

def carriageReturn : UInt8 := 0x0d

/-- Whether a byte ends a line: a semicolon or a line feed. -/
def isTerminator (byte : UInt8) : Bool := byte == 0x3b || byte == 0x0a

/-- Takes one byte and says whether it completed an accepted message. -/
def step (byte : UInt8) (s : Intake) (t : τ) : Logged (Bool × Intake × τ) :=
  if byte = carriageReturn then pure (false, s, t)
  else if isTerminator byte then endLine s t
  else do
    let s ← append byte s
    pure (false, s, t)

/-- Takes bytes in order and says of each whether it completed an accepted message. -/
def feed (bytes : List UInt8) (s : Intake) (t : τ) : Logged (List Bool × Intake × τ) :=
  match bytes with
  | [] => pure ([], s, t)
  | byte :: rest => do
    let (done, s, t) ← step byte s t
    let (dones, s, t) ← feed rest s t
    pure (done :: dones, s, t)

/-- Takes bytes in order and counts the accepted messages that they completed. -/
def feedAll (bytes : List UInt8) (s : Intake) (t : τ) : Logged (Nat × Intake × τ) := do
  let (dones, s, t) ← feed bytes s t
  pure (dones.count true, s, t)

end Intake

end Patchbay.Fudi
