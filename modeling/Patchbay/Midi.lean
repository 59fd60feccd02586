/-!
# MIDI packets

A packet holds one message in its first three bytes: a status byte and two data bytes, of which some
messages use only the first or none. A `Reader` makes a `Message` of the three, and
`Event.decodeWith` keeps the messages that an engine consumes. `Message.ofBytes?` is a reader of
MIDI 1.0: a data byte that a message uses must be below 128, and one that it does not use may be
anything.
-/

namespace Patchbay.Midi

/-- What the three bytes of a packet say. Channels count from 0. -/
inductive Message where
  | noteOff (channel : Fin 16) (pitch velocity : Fin 128)
  | noteOn (channel : Fin 16) (pitch velocity : Fin 128)
  | controlChange (channel : Fin 16) (controller value : Fin 128)
  | programChange (channel : Fin 16) (program : Fin 128)
  /-- A bend of 14 bits, with 8192 in the middle. -/
  | pitchBend (channel : Fin 16) (bend : Fin 16384)
  /-- A message that no engine call stands for. -/
  | other
deriving DecidableEq, Repr

/-- A reader of a status byte and two data bytes. It gives none for what is no message. -/
abbrev Reader := UInt8 → UInt8 → UInt8 → Option Message

/-- The kind of message that a status byte stands for: its high half. -/
def kind (status : UInt8) : Nat := status.toNat / 16

/-- The channel of a status byte: its low half. -/
def channel (status : UInt8) : Fin 16 := Fin.ofNat 16 status.toNat

/-- The number in a data byte that is used. -/
def data? (byte : UInt8) : Option (Fin 128) :=
  if h : byte.toNat < 128 then some ⟨byte.toNat, h⟩ else none

/-- The number whose lower and upper 7 bits are given. -/
def combine (low high : Fin 128) : Fin 16384 := ⟨high * 128 + low, by omega⟩

/-- Whether a system message, given by the low half of its status byte, is well formed. An exclusive
message must end within the packet, before any other status byte. -/
def systemWellFormed (kind first second : Nat) : Bool :=
  match kind with
  | 0x0 => first == 0xf7 || (first < 128 && second == 0xf7)
  | 0x1 => first < 128
  | 0x2 => first < 128 && second < 128
  | 0x3 => first < 128
  | 0x7 => false
  | _ => true

/-- The message of MIDI 1.0 in a status byte and two data bytes. -/
def Message.ofBytes? : Reader := fun status first second =>
  match kind status with
  | 0x8 => do return .noteOff (channel status) (← data? first) (← data? second)
  | 0x9 => do return .noteOn (channel status) (← data? first) (← data? second)
  | 0xa => do
    let _ ← data? first
    let _ ← data? second
    return .other
  | 0xb => do return .controlChange (channel status) (← data? first) (← data? second)
  | 0xc => do return .programChange (channel status) (← data? first)
  | 0xd => do
    let _ ← data? first
    return .other
  | 0xe => do return .pitchBend (channel status) (combine (← data? first) (← data? second))
  | 0xf =>
    if systemWellFormed (channel status) first.toNat second.toNat then some .other else none
  | _ => none

/-- A channel message that an engine consumes. Channels count from 0. -/
inductive Event where
  /-- A note; velocity 0 ends it. -/
  | note (channel pitch velocity : Nat)
  | controlChange (channel controller value : Nat)
  | programChange (channel program : Nat)
  /-- A bend between -8192 and 8191, with 0 in the middle. -/
  | pitchBend (channel : Nat) (value : Int)
deriving DecidableEq, Repr

/-- Why a packet gave no event. -/
inductive Ignored where
  /-- It has fewer than three bytes. -/
  | tooShort
  /-- It is no MIDI message. -/
  | malformed
  /-- It is a message that no engine call stands for. -/
  | unsupported
deriving DecidableEq, Repr

def Ignored.message : Ignored → String
  | .tooShort => "short MIDI packet"
  | .malformed => "malformed MIDI packet"
  | .unsupported => "unsupported MIDI message"

/-- Something that takes events. -/
class Target (τ : Type) where
  play : Event → τ → τ

/-- The middle of the 14-bit range of a bend. -/
def bendCenter : Int16 := 8192

/-- A bend counted from the middle. -/
def centered (bend : Fin 16384) : Int := (Int16.ofNat bend - bendCenter).toInt

namespace Event

/-- The event of a message. -/
def ofMessage? : Message → Option Event
  | .noteOff channel pitch _ => some (.note channel pitch 0)
  | .noteOn channel pitch velocity => some (.note channel pitch velocity)
  | .controlChange channel controller value => some (.controlChange channel controller value)
  | .programChange channel program => some (.programChange channel program)
  | .pitchBend channel bend => some (.pitchBend channel (centered bend))
  | .other => none

/-- The event of a packet, for a reader of its bytes. -/
def decodeWith (read : Reader) : List UInt8 → Except Ignored Event
  | status :: first :: second :: _ =>
    match read status first second with
    | none => .error .malformed
    | some message =>
      match ofMessage? message with
      | none => .error .unsupported
      | some event => .ok event
  | _ => .error .tooShort

end Event

end Patchbay.Midi
