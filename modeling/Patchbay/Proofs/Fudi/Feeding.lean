import Patchbay.Proofs.Fudi.Lines
import Patchbay.Proofs.Run
/-!
# An intake reads line by line

An intake keeps a bounded part of the unfinished line and counts a line that is too long as soon as
it is. `Intake.after` computes its state from the stream alone, and every byte takes the state after
a stream to the state after the stream with that byte. So an intake does what the account of the
stream's lines says, and its counters show the numbers of the account modulo 2^32.
-/

namespace Patchbay.Fudi

variable {τ : Type} [Message.Target τ]

/-! ## The intake -/

theorem ofWords?_eq_messageFor (receiver : String) (words : List String) :
    Message.ofWords? (receiver :: words) = some (messageFor receiver words) := by
  match words with
  | [] => rfl
  | [word] =>
    by_cases hword : word = "bang"
    · rw [hword]
      rfl
    · rw [messageFor_word receiver hword, Message.ofWords?, if_neg hword, Atom.ofWord]
      cases Single.ofText? word <;> rfl
  | selector :: word :: args =>
    rw [messageFor_args]
    rfl

namespace Intake

/-- The state of an intake that holds no line and has counted what an account says. -/
def ofAccount (a : Account τ) : Intake :=
  { received := UInt32.ofNat a.received, errors := UInt32.ofNat a.errors }

theorem ofAccount_unreadable (a : Account τ) :
    ofAccount (a.note .unreadable) =
      { ofAccount a with errors := (ofAccount a).errors + 1 } := by
  simp only [ofAccount, Account.note, UInt32.ofNat_add, UInt32.ofNat_one]

theorem ofAccount_message (a : Account τ) (m : Message) :
    ofAccount (a.note (.message m)) =
      if (Message.Target.deliver m a.target).1 then
        { ofAccount a with received := (ofAccount a).received + 1 }
      else { ofAccount a with errors := (ofAccount a).errors + 1 } := by
  simp only [ofAccount, Account.note]
  split
  · rw [UInt32.ofNat_add, UInt32.ofNat_one]
  · rw [UInt32.ofNat_add, UInt32.ofNat_one]

/-- What is logged on the way to a delivery does not matter to it. -/
theorem deliverLine_value (line : List UInt8) (s : Intake) (t : τ) :
    (deliverLine line s t).value =
      match String.fromUTF8? ⟨line.toArray⟩ with
      | none => (false, { s with errors := s.errors + 1 }, t)
      | some text => (deliverWords ((Text.tokens text).take 32) s t).value := by
  unfold deliverLine
  cases String.fromUTF8? ⟨line.toArray⟩ with
  | none => rfl
  | some text =>
    simp only [Text.words_eq_tokens]
    split <;> rfl

theorem deliverWords_value (receiver : String) (words : List String) (s : Intake) (t : τ) :
    (deliverWords (receiver :: words) s t).value =
      let (accepted, t) := Message.Target.deliver (messageFor receiver words) t
      if accepted then (true, { s with received := s.received + 1 }, t)
      else (false, { s with errors := s.errors + 1 }, t) := by
  simp only [deliverWords, ofWords?_eq_messageFor]
  split <;> rfl

/-- A finished line that fits is delivered as its reading says. -/
theorem deliverLine_eq_add (a : Account τ) {line : List UInt8} (hline : line.length ≤ 256) :
    ∃ answer, (a.add line).accepted = a.accepted ++ [answer] ∧
      (deliverLine line (ofAccount a) a.target).value =
        (answer, ofAccount (a.add line), (a.add line).target) := by
  rw [deliverLine_value, Account.add, readLine, if_neg (Nat.not_lt.2 hline)]
  cases String.fromUTF8? ⟨line.toArray⟩ with
  | none => exact ⟨false, rfl, by rw [ofAccount_unreadable]; rfl⟩
  | some text =>
    simp only
    cases (Text.tokens text).take 32 with
    | nil => exact ⟨false, rfl, rfl⟩
    | cons receiver words =>
      simp only [deliverWords_value, ofAccount_message]
      simp only [Account.note]
      rcases Message.Target.deliver (messageFor receiver words) a.target with ⟨accepted, target⟩
      cases accepted with
      | true => exact ⟨true, rfl, rfl⟩
      | false => exact ⟨false, rfl, rfl⟩

/-- The state of an intake that a stream went through. -/
def after (stream : List UInt8) (t : τ) : Intake where
  pending :=
    if (unfinishedLine stream).length ≤ 256 then .line (unfinishedLine stream) else .overlong
  received := UInt32.ofNat (account stream t).received
  errors := UInt32.ofNat (noticed stream t)

theorem after_of_fits {stream : List UInt8} (hfits : (unfinishedLine stream).length ≤ 256)
    (t : τ) :
    after stream t =
      { ofAccount (account stream t) with pending := .line (unfinishedLine stream) } := by
  rw [after, noticed, if_pos hfits, if_neg (Nat.not_lt.2 hfits)]
  rfl

theorem after_of_long {stream : List UInt8} (hlong : ¬(unfinishedLine stream).length ≤ 256)
    (t : τ) :
    after stream t =
      { ofAccount (account stream t) with
        pending := .overlong
        errors := (ofAccount (account stream t)).errors + 1 } := by
  rw [after, noticed, if_neg hlong, if_pos (Nat.lt_of_not_le hlong), UInt32.ofNat_add]
  rfl

theorem endLine_after (stream : List UInt8) (t : τ) {byte : UInt8}
    (hbyte : isTerminator byte = true) :
    ∃ answer,
      (account (stream ++ [byte]) t).accepted = (account stream t).accepted ++ [answer] ∧
      (endLine (after stream t) (account stream t).target).value =
        (answer, after (stream ++ [byte]) t, (account (stream ++ [byte]) t).target) := by
  have hempty := (lines_append_terminator stream hbyte).2
  have hafter : after (stream ++ [byte]) t = ofAccount (account (stream ++ [byte]) t) := by
    rw [after_of_fits (by rw [hempty]; exact Nat.zero_le _), hempty]
    rfl
  rw [hafter, account_append_terminator stream t hbyte]
  by_cases hfits : (unfinishedLine stream).length ≤ 256
  · rw [after_of_fits hfits]
    unfold endLine
    split
    · next h => cases h
    · next h =>
      obtain hnil : unfinishedLine stream = [] := by simpa using h
      rw [hnil]
      exact ⟨false, rfl, rfl⟩
    · next bytes _ h =>
      obtain rfl : unfinishedLine stream = bytes := by simpa using h
      exact deliverLine_eq_add (account stream t) hfits
  · rw [after_of_long hfits, Account.add, readLine, if_pos (Nat.lt_of_not_le hfits),
      ofAccount_unreadable]
    exact ⟨false, rfl, rfl⟩

theorem append_after (stream : List UInt8) (t : τ) {byte : UInt8}
    (hreturn : byte ≠ carriageReturn) (hbyte : isTerminator byte = false) :
    (append byte (after stream t)).value = after (stream ++ [byte]) t := by
  obtain ⟨hfinished, hunfinished⟩ := lines_append_byte stream hreturn hbyte
  have haccount := account_of_finishedLines hfinished t
  have hlength : (unfinishedLine (stream ++ [byte])).length =
      (unfinishedLine stream).length + 1 := by
    rw [hunfinished, List.length_append, List.length_singleton]
  by_cases hfits : (unfinishedLine stream).length ≤ 256
  · rw [after_of_fits hfits]
    unfold append
    by_cases hroom : (unfinishedLine stream).length < Limits.maxLineBytes
    · simp only [if_pos hroom]
      rw [after_of_fits (hlength ▸ hroom), haccount, hunfinished]
      rfl
    · simp only [if_neg hroom]
      rw [after_of_long (hlength ▸ hroom), haccount]
      rfl
  · rw [after_of_long hfits, after_of_long (by omega), haccount]
    rfl

/-- Every byte takes the state after a stream to the state after the stream with that byte, and is
answered by the line that it finishes, if it finishes one. -/
theorem step_after (stream : List UInt8) (t : τ) (byte : UInt8) :
    (step byte (after stream t) (account stream t).target).value =
      ((newlyAccepted stream [byte] t).contains true, after (stream ++ [byte]) t,
        (account (stream ++ [byte]) t).target) := by
  unfold newlyAccepted step
  by_cases hreturn : byte = carriageReturn
  · subst hreturn
    obtain ⟨hfinished, hunfinished⟩ := lines_append_carriageReturn stream
    rw [if_pos rfl, after, after, noticed, noticed, account_of_finishedLines hfinished, hunfinished,
      List.drop_length]
    rfl
  rw [if_neg hreturn]
  cases hbyte : isTerminator byte with
  | true =>
    obtain ⟨answer, haccepted, hend⟩ := endLine_after stream t hbyte
    rw [if_pos rfl, hend, haccepted, List.drop_left]
    cases answer <;> rfl
  | false =>
    have hstep := append_after stream t hreturn hbyte
    rw [account_of_finishedLines (lines_append_byte stream hreturn hbyte).1, List.drop_length]
    simp [hstep]

theorem feed_after (more stream : List UInt8) (t : τ) :
    ∃ dones, dones.count true = (newlyAccepted stream more t).count true ∧
      (feed more (after stream t) (account stream t).target).value =
        (dones, after (stream ++ more) t, (account (stream ++ more) t).target) := by
  induction more generalizing stream with
  | nil =>
    refine ⟨[], ?_, ?_⟩
    · simp [newlyAccepted]
    · rw [List.append_nil]
      rfl
  | cons byte more ih =>
    obtain ⟨dones, hcount, hfeed⟩ := ih (stream ++ [byte])
    refine ⟨(newlyAccepted stream [byte] t).contains true :: dones, ?_, ?_⟩
    · rw [newlyAccepted_cons stream byte more, List.count_append, ← hcount, List.count_cons]
      have hlength := newlyAccepted_byte_length stream byte t
      cases hnew : newlyAccepted stream [byte] t with
      | nil => simp
      | cons answer rest =>
        rw [hnew, List.length_cons] at hlength
        obtain rfl : rest = [] := List.length_eq_zero_iff.1 (by omega)
        cases answer with
        | true => simp [Nat.add_comm]
        | false => simp
    · rw [List.append_assoc, List.singleton_append] at hfeed
      simp [feed, step_after, hfeed]

end Intake

/-! ## Bytes and buffers in any mix -/

/-- One call that hands over bytes. -/
inductive Feeding where
  | byte (b : UInt8)
  | buffer (bytes : List UInt8)
deriving DecidableEq, Repr

/-- What such a call returns. -/
inductive Answer where
  /-- Whether the byte completed an accepted message. -/
  | done (accepted : Bool)
  /-- How many accepted messages the buffer completed. -/
  | count (accepted : Nat)
deriving DecidableEq, Repr

def Feeding.bytes : Feeding → List UInt8
  | .byte b => [b]
  | .buffer bytes => bytes

/-- What a call has to return after a stream. -/
def Feeding.answer (stream : List UInt8) (t : τ) : Feeding → Answer
  | .byte b => .done ((newlyAccepted stream [b] t).contains true)
  | .buffer bytes => .count ((newlyAccepted stream bytes t).count true)

def answers (t : τ) : List UInt8 → List Feeding → List Answer
  | _, [] => []
  | stream, feeding :: rest =>
    feeding.answer stream t :: answers t (stream ++ feeding.bytes) rest

namespace Intake

def take (feeding : Feeding) (s : Intake) (t : τ) : Answer × Intake × τ :=
  match feeding with
  | .byte b =>
    let (done, s, t) := (step b s t).value
    (.done done, s, t)
  | .buffer bytes =>
    let (count, s, t) := (feedAll bytes s t).value
    (.count count, s, t)

def takeAll (feedings : List Feeding) (s : Intake) (t : τ) : List Answer × Intake × τ :=
  runAll (fun p feeding => take feeding p.1 p.2) (s, t) feedings

theorem take_after (feeding : Feeding) (stream : List UInt8) (t : τ) :
    take feeding (after stream t) (account stream t).target =
      (feeding.answer stream t, after (stream ++ feeding.bytes) t,
        (account (stream ++ feeding.bytes) t).target) := by
  cases feeding with
  | byte b =>
    unfold take
    simp only [step_after]
    rfl
  | buffer bytes =>
    obtain ⟨dones, hcount, hfeed⟩ := feed_after bytes stream t
    unfold take feedAll
    simp only [Logged.value_bind, hfeed, hcount]
    rfl

theorem takeAll_after (feedings : List Feeding) (stream : List UInt8) (t : τ) :
    takeAll feedings (after stream t) (account stream t).target =
      (answers t stream feedings, after (stream ++ feedings.flatMap Feeding.bytes) t,
        (account (stream ++ feedings.flatMap Feeding.bytes) t).target) := by
  induction feedings generalizing stream with
  | nil => simp [takeAll, runAll, answers]
  | cons feeding rest ih =>
    have hrest := ih (stream ++ feeding.bytes)
    rw [List.append_assoc, ← List.flatMap_cons] at hrest
    unfold takeAll at hrest ⊢
    rw [runAll, take_after, hrest, answers]

end Intake

theorem answers_recorder (feedings : List Feeding) (stream : List UInt8) (t : τ) :
    answers ({ target := t } : Message.Recorder τ) stream feedings = answers t stream feedings := by
  induction feedings generalizing stream with
  | nil => rfl
  | cons feeding rest ih =>
    rw [answers, answers, ih]
    cases feeding with
    | byte b => rw [Feeding.answer, newlyAccepted_recorder, Feeding.answer]
    | buffer bytes => rw [Feeding.answer, newlyAccepted_recorder, Feeding.answer]

theorem after_recorder (stream : List UInt8) (t : τ) :
    Intake.after stream ({ target := t } : Message.Recorder τ) = Intake.after stream t := by
  unfold Intake.after noticed
  rw [account_recorder]
  rfl

theorem takeAll_recorder (feedings : List Feeding) (t : τ) :
    let stream := feedings.flatMap Feeding.bytes
    Intake.takeAll feedings {} ({ target := t } : Message.Recorder τ) =
      (answers t [] feedings, Intake.after stream t,
        { target := (account stream t).target, calls := (account stream t).calls }) := by
  intro stream
  have hrun := Intake.takeAll_after feedings [] ({ target := t } : Message.Recorder τ)
  rw [answers_recorder, List.nil_append, after_recorder, after_recorder, account_recorder,
    account_recorder] at hrun
  exact hrun

/-- A new intake does with a stream what the account of its lines says, however the stream is cut
into bytes and buffers: it makes the same deliveries in the same order, returns the same answers and
counts the same, modulo 2^32, apart from an unfinished line that is too long, which it counts before
its end. -/
theorem takeAll_eq_account (feedings : List Feeding) (t : τ) :
    let stream := feedings.flatMap Feeding.bytes
    let lines := account stream t
    let (given, s, recorder) :=
      Intake.takeAll feedings {} ({ target := t } : Message.Recorder τ)
    given = answers t [] feedings ∧
      recorder = { target := lines.target, calls := lines.calls } ∧
      s.received = UInt32.ofNat lines.received ∧
      s.errors =
        UInt32.ofNat (lines.errors + if 256 < (unfinishedLine stream).length then 1 else 0) := by
  intro stream lines
  rw [takeAll_recorder]
  exact ⟨rfl, rfl, rfl, rfl⟩

end Patchbay.Fudi
