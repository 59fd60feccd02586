import Mathlib.Logic.Basic
import Patchbay.Midi
/-!
# What decoding keeps of a packet

Packets become the same event just if they say the same on the same channel. A note-off says the
same as a note-on without velocity, and bytes that a message does not use say nothing; all else is
kept (`Event.decodeWith_same`). Of a reader no more is used than the rules of MIDI 1.0 for the
messages that become events (`Standard`).
-/

namespace Patchbay.Midi

/-! ## The standard -/

/-- The rules of MIDI 1.0 for the messages that become events. The data bytes that a message uses
are below 128, and a program change uses only the first. No other kind is read as one of these. A
note-on without velocity may be read as the note-off that it amounts to. -/
structure Standard (read : Reader) : Prop where
  noteOff : ∀ {status first second}, kind status = 0x8 → read status first second = do
    return .noteOff (channel status) (← data? first) (← data? second)
  noteOn : ∀ {status first second}, kind status = 0x9 →
    (read status first second = do
      return .noteOn (channel status) (← data? first) (← data? second)) ∨
    second = 0 ∧ read status first second = do
      return .noteOff (channel status) (← data? first) (← data? second)
  controlChange : ∀ {status first second}, kind status = 0xb → read status first second = do
    return .controlChange (channel status) (← data? first) (← data? second)
  programChange : ∀ {status first second}, kind status = 0xc → read status first second = do
    return .programChange (channel status) (← data? first)
  pitchBend : ∀ {status first second}, kind status = 0xe → read status first second = do
    return .pitchBend (channel status) (combine (← data? first) (← data? second))
  other : ∀ {status first second}, kind status ∉ [0x8, 0x9, 0xb, 0xc, 0xe] →
    read status first second = none ∨ read status first second = some .other

theorem Message.ofBytes?_standard : Standard Message.ofBytes? where
  noteOff h := by simp only [ofBytes?, h]
  noteOn h := .inl (by simp only [ofBytes?, h])
  controlChange h := by simp only [ofBytes?, h]
  programChange h := by simp only [ofBytes?, h]
  pitchBend h := by simp only [ofBytes?, h]
  other := by
    intro status first second h
    unfold ofBytes?
    split
    · next hkind => simp [hkind] at h
    · next hkind => simp [hkind] at h
    · next hkind => cases data? first <;> cases data? second <;> simp
    · next hkind => simp [hkind] at h
    · next hkind => simp [hkind] at h
    · next hkind => cases data? first <;> simp
    · next hkind => simp [hkind] at h
    · next hkind => exact (ite_eq_or_eq _ _ _).symm
    · exact .inl rfl

/-! ## Data bytes -/

section Data

variable {α : Type} {first second : UInt8} {result : α}

theorem map_data?_eq_some {f : Fin 128 → α} :
    (do return f (← data? first)) = some result ↔
      ∃ h : first.toNat < 128, f ⟨first.toNat, h⟩ = result := by
  by_cases h : first.toNat < 128
  · simp [data?, h]
  · simp [data?, h]

theorem map_data?_data?_eq_some {f : Fin 128 → Fin 128 → α} :
    (do return f (← data? first) (← data? second)) = some result ↔
      ∃ (h₁ : first.toNat < 128) (h₂ : second.toNat < 128),
        f ⟨first.toNat, h₁⟩ ⟨second.toNat, h₂⟩ = result := by
  by_cases h₁ : first.toNat < 128
  · by_cases h₂ : second.toNat < 128
    · simp [data?, h₁, h₂]
    · simp [data?, h₁, h₂]
  · simp [data?, h₁]

end Data

theorem centered_eq (bend : Fin 16384) : centered bend = bend - 8192 := by
  have hlt := bend.isLt
  have hcenter : bendCenter.toInt = 8192 := rfl
  rw [centered, Int16.toInt_sub, Int16.toInt_ofNat_of_lt (by omega), hcenter]
  exact Int.bmod_eq_of_le (by omega) (by omega)

/-! ## What a packet says -/

/-- The velocity of a note: none, if it is a note-off, whatever the second data byte. -/
def velocity (status second : UInt8) : UInt8 := if kind status = 0x8 then 0 else second

theorem velocity_of_noteOff {status : UInt8} (h : kind status = 0x8) (second : UInt8) :
    velocity status second = 0 :=
  if_pos h

theorem velocity_of_noteOn {status : UInt8} (h : kind status = 0x9) (second : UInt8) :
    velocity status second = second :=
  if_neg (by omega)

/-- A status byte and two data bytes stand for an event. -/
inductive StandsFor (status first second : UInt8) : Event → Prop
  | note (hkind : kind status = 0x8 ∨ kind status = 0x9) (hfirst : first.toNat < 128)
    (hsecond : second.toNat < 128) :
    StandsFor status first second
      (.note (channel status) first.toNat (velocity status second).toNat)
  | controlChange (hkind : kind status = 0xb) (hfirst : first.toNat < 128)
    (hsecond : second.toNat < 128) :
    StandsFor status first second (.controlChange (channel status) first.toNat second.toNat)
  | programChange (hkind : kind status = 0xc) (hfirst : first.toNat < 128) :
    StandsFor status first second (.programChange (channel status) first.toNat)
  | pitchBend (hkind : kind status = 0xe) (hfirst : first.toNat < 128)
    (hsecond : second.toNat < 128) :
    StandsFor status first second
      (.pitchBend (channel status) (second.toNat * 128 + first.toNat - 8192))

section Standard

variable {read : Reader} {status first second : UInt8} {event : Event}

/-- Whichever message a note-on is read as, it is the event of the note. -/
theorem Standard.exists_note (standard : Standard read) (hkind : kind status = 0x9)
    (first second : UInt8) :
    ∃ note : Fin 128 → Fin 128 → Message,
      (read status first second = do return note (← data? first) (← data? second)) ∧
      ∀ (h₁ : first.toNat < 128) (h₂ : second.toNat < 128),
        Event.ofMessage? (note ⟨first.toNat, h₁⟩ ⟨second.toNat, h₂⟩) =
          some (.note (channel status) first.toNat second.toNat) := by
  rcases @Standard.noteOn _ standard status first second hkind with hon | ⟨rfl, hoff⟩
  · exact ⟨.noteOn (channel status), hon, fun _ _ => rfl⟩
  · exact ⟨.noteOff (channel status), hoff, fun _ _ => rfl⟩

theorem Standard.standsFor (standard : Standard read) {message : Message}
    (hread : read status first second = some message)
    (hevent : Event.ofMessage? message = some event) : StandsFor status first second event := by
  by_cases hother : kind status ∉ [0x8, 0x9, 0xb, 0xc, 0xe]
  · rcases standard.other hother with hnone | hsome
    · rw [hnone] at hread
      cases hread
    · rw [hsome] at hread
      cases hread
      cases hevent
  · simp only [not_not, List.mem_cons, List.not_mem_nil, or_false] at hother
    rcases hother with hkind | hkind | hkind | hkind | hkind
    · rw [standard.noteOff hkind, map_data?_data?_eq_some] at hread
      obtain ⟨h₁, h₂, rfl⟩ := hread
      cases hevent
      have hstands := StandsFor.note (.inl hkind) h₁ h₂
      rwa [velocity_of_noteOff hkind] at hstands
    · obtain ⟨note, hnote, hnoteEvent⟩ := standard.exists_note hkind first second
      rw [hnote, map_data?_data?_eq_some] at hread
      obtain ⟨h₁, h₂, rfl⟩ := hread
      rw [hnoteEvent] at hevent
      cases hevent
      have hstands := StandsFor.note (.inr hkind) h₁ h₂
      rwa [velocity_of_noteOn hkind] at hstands
    · rw [standard.controlChange hkind, map_data?_data?_eq_some] at hread
      obtain ⟨h₁, h₂, rfl⟩ := hread
      cases hevent
      exact .controlChange hkind h₁ h₂
    · rw [standard.programChange hkind, map_data?_eq_some] at hread
      obtain ⟨h₁, rfl⟩ := hread
      cases hevent
      exact .programChange hkind h₁
    · rw [standard.pitchBend hkind, map_data?_data?_eq_some] at hread
      obtain ⟨h₁, h₂, rfl⟩ := hread
      cases hevent
      rw [centered_eq]
      exact .pitchBend hkind h₁ h₂

theorem StandsFor.exists_message (h : StandsFor status first second event)
    (standard : Standard read) :
    ∃ message, read status first second = some message ∧
      Event.ofMessage? message = some event := by
  cases h with
  | note hkind h₁ h₂ =>
    rcases hkind with hkind | hkind
    · rw [standard.noteOff hkind, velocity_of_noteOff hkind]
      exact ⟨_, map_data?_data?_eq_some.2 ⟨h₁, h₂, rfl⟩, rfl⟩
    · obtain ⟨note, hnote, hnoteEvent⟩ := standard.exists_note hkind first second
      rw [hnote, velocity_of_noteOn hkind]
      exact ⟨_, map_data?_data?_eq_some.2 ⟨h₁, h₂, rfl⟩, hnoteEvent h₁ h₂⟩
  | controlChange hkind h₁ h₂ =>
    rw [standard.controlChange hkind]
    exact ⟨_, map_data?_data?_eq_some.2 ⟨h₁, h₂, rfl⟩, rfl⟩
  | programChange hkind h₁ =>
    rw [standard.programChange hkind]
    exact ⟨_, map_data?_eq_some.2 ⟨h₁, rfl⟩, rfl⟩
  | pitchBend hkind h₁ h₂ =>
    rw [standard.pitchBend hkind]
    refine ⟨_, map_data?_data?_eq_some.2 ⟨h₁, h₂, rfl⟩, ?_⟩
    rw [Event.ofMessage?, centered_eq]
    rfl

end Standard

/-- Messages of one channel that are both notes of the same pitch and velocity, both control changes
or both pitch bends with the same data bytes, or both program changes with the same first data
byte. -/
def Same (status first second status' first' second' : UInt8) : Prop :=
  channel status = channel status' ∧
    ((kind status = 0x8 ∨ kind status = 0x9) ∧ (kind status' = 0x8 ∨ kind status' = 0x9) ∧
        first = first' ∧ velocity status second = velocity status' second' ∨
      kind status = 0xb ∧ kind status' = 0xb ∧ first = first' ∧ second = second' ∨
      kind status = 0xe ∧ kind status' = 0xe ∧ first = first' ∧ second = second' ∨
      kind status = 0xc ∧ kind status' = 0xc ∧ first = first')

/-- The kinds exclude each other, so that one alternative of `Same` is left for two events of one
constructor, and none for others. -/
theorem StandsFor.eq_iff_same {status first second status' first' second' : UInt8}
    {event event' : Event} (h : StandsFor status first second event)
    (h' : StandsFor status' first' second' event') :
    event = event' ↔ Same status first second status' first' second' := by
  cases h with
  | note hkind h₁ h₂ =>
    cases h' with
    | note hkind' h₁' h₂' =>
      simp only [Event.note.injEq, Fin.val_inj, UInt8.toNat_inj]
      grind [Same]
    | _ => exact iff_of_false (by simp) fun ⟨_, hsame⟩ => by omega
  | controlChange hkind h₁ h₂ =>
    cases h' with
    | controlChange hkind' h₁' h₂' =>
      simp only [Event.controlChange.injEq, Fin.val_inj, UInt8.toNat_inj]
      grind [Same]
    | _ => exact iff_of_false (by simp) fun ⟨_, hsame⟩ => by omega
  | programChange hkind h₁ =>
    cases h' with
    | programChange hkind' h₁' =>
      simp only [Event.programChange.injEq, Fin.val_inj, UInt8.toNat_inj]
      grind [Same]
    | _ => exact iff_of_false (by simp) fun ⟨_, hsame⟩ => by omega
  | pitchBend hkind h₁ h₂ =>
    cases h' with
    | pitchBend hkind' h₁' h₂' =>
      have hbend : (second.toNat * 128 + first.toNat - 8192 : Int) =
          second'.toNat * 128 + first'.toNat - 8192 ↔ first = first' ∧ second = second' := by
        rw [← UInt8.toNat_inj, ← UInt8.toNat_inj]
        omega
      simp only [Event.pitchBend.injEq, Fin.val_inj, hbend]
      grind [Same]
    | _ => exact iff_of_false (by simp) fun ⟨_, hsame⟩ => by omega

/-! ## The range of events -/

/-- The events that MIDI 1.0 has room for: 16 channels, data of 7 bits and bends of 14. -/
def Event.InRange : Event → Prop
  | .note channel pitch velocity => channel < 16 ∧ pitch < 128 ∧ velocity < 128
  | .controlChange channel controller value => channel < 16 ∧ controller < 128 ∧ value < 128
  | .programChange channel program => channel < 16 ∧ program < 128
  | .pitchBend channel value => channel < 16 ∧ -8192 ≤ value ∧ value ≤ 8191

theorem StandsFor.inRange {status first second : UInt8} {event : Event}
    (h : StandsFor status first second event) : event.InRange := by
  have hchannel := (channel status).isLt
  cases h with
  | note hkind h₁ h₂ =>
    have hvelocity : (velocity status second).toNat < 128 := by
      unfold velocity
      split
      · decide
      · exact h₂
    exact ⟨hchannel, h₁, hvelocity⟩
  | controlChange hkind h₁ h₂ => exact ⟨hchannel, h₁, h₂⟩
  | programChange hkind h₁ => exact ⟨hchannel, h₁⟩
  | pitchBend hkind h₁ h₂ => exact ⟨hchannel, by omega, by omega⟩

theorem exists_byte {n : Nat} (h : n < 256) : ∃ byte : UInt8, byte.toNat = n :=
  ⟨UInt8.ofNat n, UInt8.toNat_ofNat_of_lt' h⟩

theorem exists_status {k c : Nat} (hk : k < 16) (hc : c < 16) :
    ∃ status, kind status = k ∧ channel status = c := by
  obtain ⟨status, hstatus⟩ := exists_byte (n := 16 * k + c) (by omega)
  refine ⟨status, ?_, ?_⟩
  · rw [kind, hstatus]
    omega
  · rw [channel, hstatus, Fin.val_ofNat]
    omega

theorem exists_standsFor {event : Event} (h : event.InRange) :
    ∃ status first second, StandsFor status first second event := by
  cases event with
  | note c pitch v =>
    obtain ⟨hc, hpitch, hv⟩ := h
    obtain ⟨status, hkind, rfl⟩ := exists_status (k := 0x9) (by omega) hc
    obtain ⟨first, rfl⟩ := exists_byte (n := pitch) (by omega)
    obtain ⟨second, rfl⟩ := exists_byte (n := v) (by omega)
    have hstands := StandsFor.note (.inr hkind) hpitch hv
    rw [velocity_of_noteOn hkind] at hstands
    exact ⟨status, first, second, hstands⟩
  | controlChange c controller value =>
    obtain ⟨hc, hcontroller, hvalue⟩ := h
    obtain ⟨status, hkind, rfl⟩ := exists_status (k := 0xb) (by omega) hc
    obtain ⟨first, rfl⟩ := exists_byte (n := controller) (by omega)
    obtain ⟨second, rfl⟩ := exists_byte (n := value) (by omega)
    exact ⟨status, first, second, .controlChange hkind hcontroller hvalue⟩
  | programChange c program =>
    obtain ⟨hc, hprogram⟩ := h
    obtain ⟨status, hkind, rfl⟩ := exists_status (k := 0xc) (by omega) hc
    obtain ⟨first, rfl⟩ := exists_byte (n := program) (by omega)
    exact ⟨status, first, 0, .programChange hkind hprogram⟩
  | pitchBend c value =>
    obtain ⟨hc, hlow, hhigh⟩ := h
    obtain ⟨status, hkind, rfl⟩ := exists_status (k := 0xe) (by omega) hc
    -- The bend counted from 0, of which each byte has 7 bits.
    obtain ⟨bend, hbend⟩ := Int.eq_ofNat_of_zero_le (a := value + 8192) (by omega)
    obtain ⟨first, hfirst⟩ := exists_byte (n := bend % 128) (by omega)
    obtain ⟨second, hsecond⟩ := exists_byte (n := bend / 128) (by omega)
    have hstands : StandsFor status first second _ := .pitchBend hkind (by omega) (by omega)
    have hvalue : (second.toNat * 128 + first.toNat - 8192 : Int) = value := by omega
    rw [hvalue] at hstands
    exact ⟨status, first, second, hstands⟩

/-! ## Packets -/

namespace Event

/-- Two packets say the same. -/
def Alike : List UInt8 → List UInt8 → Prop
  | status :: first :: second :: _, status' :: first' :: second' :: _ =>
    Same status first second status' first' second'
  | _, _ => False

variable {read : Reader} {packet : List UInt8} {event : Event}

theorem decodeWith_take_three (read : Reader) (packet : List UInt8) :
    decodeWith read (packet.take 3) = decodeWith read packet :=
  match packet with
  | [] => rfl
  | [_] => rfl
  | [_, _] => rfl
  | _ :: _ :: _ :: _ => rfl

theorem decodeWith_cons_eq_ok {status first second : UInt8} {rest : List UInt8} :
    decodeWith read (status :: first :: second :: rest) = .ok event ↔
      ∃ message, read status first second = some message ∧ ofMessage? message = some event := by
  simp only [decodeWith]
  cases read status first second with
  | none => simp
  | some message => cases hevent : ofMessage? message <;> simp [hevent]

theorem decodeWith_eq_ok (standard : Standard read) :
    decodeWith read packet = .ok event ↔
      ∃ status first second rest, packet = status :: first :: second :: rest ∧
        StandsFor status first second event := by
  constructor
  · intro h
    match packet, h with
    | status :: first :: second :: rest, h =>
      obtain ⟨message, hread, hevent⟩ := decodeWith_cons_eq_ok.1 h
      exact ⟨status, first, second, rest, rfl, standard.standsFor hread hevent⟩
  · rintro ⟨status, first, second, rest, rfl, hstands⟩
    exact decodeWith_cons_eq_ok.2 (hstands.exists_message standard)

/-- Decoding depends on the first three bytes of a packet; it gives events in range, and all of them;
and it gives one event for two packets just if they say the same. -/
theorem decodeWith_same (standard : Standard read) :
    (∀ packet, decodeWith read packet = decodeWith read (packet.take 3)) ∧
    (∀ packet event, decodeWith read packet = .ok event → event.InRange) ∧
    (∀ event : Event, event.InRange → ∃ packet, decodeWith read packet = .ok event) ∧
    ∀ packet packet' event event', decodeWith read packet = .ok event →
      decodeWith read packet' = .ok event' → (event = event' ↔ Alike packet packet') := by
  refine ⟨fun packet => (decodeWith_take_three read packet).symm, ?_, ?_, ?_⟩
  · intro packet event h
    obtain ⟨status, first, second, rest, -, hstands⟩ := (decodeWith_eq_ok standard).1 h
    exact hstands.inRange
  · intro event h
    obtain ⟨status, first, second, hstands⟩ := exists_standsFor h
    exact ⟨_, (decodeWith_eq_ok standard).2 ⟨status, first, second, [], rfl, hstands⟩⟩
  · intro packet packet' event event' h h'
    obtain ⟨status, first, second, rest, rfl, hstands⟩ := (decodeWith_eq_ok standard).1 h
    obtain ⟨status', first', second', rest', rfl, hstands'⟩ := (decodeWith_eq_ok standard).1 h'
    exact hstands.eq_iff_same hstands'

/-- A note-off and a note-on without velocity are one event, two neighbouring bends are two, and the
lowest bend of the last channel is reached. -/
theorem decodeWith_same_silent :
    let decode := decodeWith Message.ofBytes?
    Standard Message.ofBytes? ∧
      decode [0x82, 60, 99] = .ok (.note 2 60 0) ∧ decode [0x92, 60, 0, 7] = .ok (.note 2 60 0) ∧
      Alike [0x82, 60, 99] [0x92, 60, 0, 7] ∧
      decode [0xe0, 1, 64] = .ok (.pitchBend 0 1) ∧ decode [0xe0, 2, 64] = .ok (.pitchBend 0 2) ∧
      ¬ Alike [0xe0, 1, 64] [0xe0, 2, 64] ∧ InRange (.pitchBend 15 (-8192)) ∧
      ∃ packet, decode packet = .ok (.pitchBend 15 (-8192)) := by
  intro decode
  obtain ⟨-, -, honto, hsame⟩ := decodeWith_same Message.ofBytes?_standard
  have hoff : decode [0x82, 60, 99] = .ok (.note 2 60 0) := rfl
  have hon : decode [0x92, 60, 0, 7] = .ok (.note 2 60 0) := rfl
  have hbend : decode [0xe0, 1, 64] = .ok (.pitchBend 0 1) := rfl
  have hnext : decode [0xe0, 2, 64] = .ok (.pitchBend 0 2) := rfl
  have hlowest : InRange (.pitchBend 15 (-8192)) := by simp [InRange]
  refine ⟨Message.ofBytes?_standard, hoff, hon, (hsame _ _ _ _ hoff hon).1 rfl, hbend, hnext, ?_,
    hlowest, honto _ hlowest⟩
  intro halike
  have heq := (hsame _ _ _ _ hbend hnext).2 halike
  simp at heq

end Event

end Patchbay.Midi
