import Patchbay.Fudi.Intake
import Patchbay.Proofs.Message.Recorder
import Patchbay.Proofs.Text.Tokens
/-!
# Control text, line by line

The rule for control text, said of a whole stream. Carriage returns are left out, the rest is cut at
every terminator, and each finished line is read on its own (`readLine`) and delivered if it is a
message (`Account.add`). An account counts without a bound.
-/

namespace Patchbay.Fudi

/-! ## Lines of a stream -/

/-- The parts of a stream between terminators. The last one has none yet. -/
def parts (stream : List UInt8) : List (List UInt8) :=
  (stream.filter (· ≠ Intake.carriageReturn)).splitOnP Intake.isTerminator

def finishedLines (stream : List UInt8) : List (List UInt8) :=
  (parts stream).dropLast

def unfinishedLine (stream : List UInt8) : List UInt8 :=
  (parts stream).getLastD []

theorem parts_eq (stream : List UInt8) :
    parts stream = finishedLines stream ++ [unfinishedLine stream] := by
  have hne : parts stream ≠ [] := List.splitOnP_ne_nil _ _
  rw [finishedLines, unfinishedLine, List.getLastD_eq_getLast?, List.getLast?_eq_some_getLast hne]
  exact (List.dropLast_concat_getLast hne).symm

theorem lines_of_parts {stream : List UInt8} {finished : List (List UInt8)} {line : List UInt8}
    (h : parts stream = finished ++ [line]) :
    finishedLines stream = finished ∧ unfinishedLine stream = line := by
  rw [parts_eq] at h
  obtain ⟨hfinished, hline⟩ := List.append_inj' h rfl
  exact ⟨hfinished, List.cons.inj hline |>.1⟩

theorem splitOnP_concat_of_neg {α : Type} {p : α → Bool} {x : α} (hx : p x = false) (l : List α)
    {front : List (List α)} {last : List α} (h : l.splitOnP p = front ++ [last]) :
    (l ++ [x]).splitOnP p = front ++ [last ++ [x]] := by
  induction l generalizing front last with
  | nil =>
    cases front with
    | nil => simp_all [List.splitOnP_cons_eq_if_modifyHead]
    | cons => simp at h
  | cons y l ih =>
    obtain ⟨first, rest, hsplit⟩ := List.exists_cons_of_ne_nil (List.splitOnP_ne_nil p l)
    rw [List.splitOnP_cons_eq_if_modifyHead, hsplit] at h
    rw [List.cons_append, List.splitOnP_cons_eq_if_modifyHead]
    by_cases hy : p y
    · rw [if_pos hy] at h ⊢
      cases front with
      | nil => simp at h
      | cons _ front =>
        obtain ⟨rfl, htail⟩ := List.cons.inj h
        rw [ih (hsplit.trans htail), List.cons_append]
    · rw [if_neg hy, List.modifyHead_cons] at h
      rw [if_neg hy]
      cases front with
      | nil =>
        obtain ⟨rfl, rfl⟩ := List.cons.inj h
        rw [ih (show _ = [] ++ [first] from hsplit)]
        rfl
      | cons _ front =>
        obtain ⟨rfl, rfl⟩ := List.cons.inj h
        rw [ih (show _ = (first :: front) ++ [last] from hsplit)]
        rfl

/-- A carriage return changes no line. -/
theorem lines_append_carriageReturn (stream : List UInt8) :
    finishedLines (stream ++ [Intake.carriageReturn]) = finishedLines stream ∧
      unfinishedLine (stream ++ [Intake.carriageReturn]) = unfinishedLine stream := by
  apply lines_of_parts
  rw [← parts_eq]
  simp [parts]

/-- A terminator finishes the line before it. -/
theorem lines_append_terminator (stream : List UInt8) {byte : UInt8}
    (hbyte : Intake.isTerminator byte = true) :
    finishedLines (stream ++ [byte]) = finishedLines stream ++ [unfinishedLine stream] ∧
      unfinishedLine (stream ++ [byte]) = [] := by
  have hne : byte ≠ Intake.carriageReturn := by
    rintro rfl
    exact absurd hbyte (by decide)
  apply lines_of_parts
  rw [← parts_eq]
  simp [parts, hne, List.splitOnP_append_cons _ [] hbyte]

/-- Any other byte is added to the unfinished line. -/
theorem lines_append_byte (stream : List UInt8) {byte : UInt8}
    (hreturn : byte ≠ Intake.carriageReturn) (hbyte : Intake.isTerminator byte = false) :
    finishedLines (stream ++ [byte]) = finishedLines stream ∧
      unfinishedLine (stream ++ [byte]) = unfinishedLine stream ++ [byte] := by
  apply lines_of_parts
  have hfilter : (stream ++ [byte]).filter (· ≠ Intake.carriageReturn) =
      stream.filter (· ≠ Intake.carriageReturn) ++ [byte] := by
    simp [hreturn]
  rw [parts, hfilter]
  exact splitOnP_concat_of_neg hbyte _ (parts_eq stream)

/-- Bytes without a terminator or a carriage return are added all together. -/
theorem lines_append_bytes (stream : List UInt8) {more : List UInt8}
    (h : ∀ byte ∈ more, byte ≠ Intake.carriageReturn ∧ Intake.isTerminator byte = false) :
    finishedLines (stream ++ more) = finishedLines stream ∧
      unfinishedLine (stream ++ more) = unfinishedLine stream ++ more := by
  induction more generalizing stream with
  | nil => simp
  | cons byte more ih =>
    obtain ⟨⟨hreturn, hterminator⟩, hmore⟩ := List.forall_mem_cons.1 h
    obtain ⟨hfinished, hunfinished⟩ := lines_append_byte stream hreturn hterminator
    obtain ⟨hrestFinished, hrestUnfinished⟩ := ih (stream ++ [byte]) hmore
    rw [List.append_assoc, List.singleton_append] at hrestFinished hrestUnfinished
    rw [hrestFinished, hrestUnfinished, hfinished, hunfinished, List.append_assoc,
      List.singleton_append]
    exact ⟨rfl, rfl⟩

/-! ## Reading one line -/

/-- What a finished line amounts to. -/
inductive Reading where
  /-- It is too long or no text. -/
  | unreadable
  /-- It has no words. -/
  | blank
  | message (m : Message)
deriving DecidableEq, Repr

/-- The message for a receiver and the words after it. -/
def messageFor (receiver : String) : List String → Message
  | [] => .bang receiver
  | ["bang"] => .bang receiver
  | [word] =>
    match Single.ofText? word with
    | some value => .float receiver value
    | none => .symbol receiver word
  | selector :: args => .list receiver selector (args.map Atom.ofWord)

theorem messageFor_word (receiver : String) {word : String} (hword : word ≠ "bang") :
    messageFor receiver [word] =
      match Single.ofText? word with
      | some value => .float receiver value
      | none => .symbol receiver word := by
  unfold messageFor
  split <;> simp_all

theorem messageFor_args (receiver selector word : String) (args : List String) :
    messageFor receiver (selector :: word :: args) =
      .list receiver selector ((word :: args).map Atom.ofWord) := by
  unfold messageFor
  split <;> simp_all

def readLine (line : List UInt8) : Reading :=
  if 256 < line.length then .unreadable
  else
    match String.fromUTF8? ⟨line.toArray⟩ with
    | none => .unreadable
    | some text =>
      match (Text.tokens text).take 32 with
      | [] => .blank
      | receiver :: words => .message (messageFor receiver words)

example : readLine "a 1 x".toUTF8.data.toList = .message (.list "a" "1" [.symbol "x"]) := by
  decide +kernel

/-! ## The account of a stream -/

/-- What came of some finished lines. -/
structure Account (τ : Type) where
  target : τ
  /-- The messages that were delivered, oldest first. -/
  calls : List Message := []
  /-- For each line whether it was accepted. -/
  accepted : List Bool := []
  received : Nat := 0
  errors : Nat := 0
deriving DecidableEq, Repr

variable {τ : Type} [Message.Target τ]

/-- One more line, as it was read. -/
def Account.note (a : Account τ) : Reading → Account τ
  | .unreadable => { a with accepted := a.accepted ++ [false], errors := a.errors + 1 }
  | .blank => { a with accepted := a.accepted ++ [false] }
  | .message m =>
    let (accepted, target) := Message.Target.deliver m a.target
    { target
      calls := a.calls ++ [m]
      accepted := a.accepted ++ [accepted]
      received := if accepted then a.received + 1 else a.received
      errors := if accepted then a.errors else a.errors + 1 }

def Account.add (a : Account τ) (line : List UInt8) : Account τ :=
  a.note (readLine line)

/-- The finished lines of a stream, one after another. -/
def account (stream : List UInt8) (t : τ) : Account τ :=
  (finishedLines stream).foldl Account.add { target := t }

/-- The answers for the lines that some more bytes finish. -/
def newlyAccepted (stream more : List UInt8) (t : τ) : List Bool :=
  (account (stream ++ more) t).accepted.drop (account stream t).accepted.length

theorem account_of_finishedLines {stream stream' : List UInt8}
    (h : finishedLines stream' = finishedLines stream) (t : τ) :
    account stream' t = account stream t := by
  rw [account, account, h]

theorem account_append_terminator (stream : List UInt8) (t : τ) {byte : UInt8}
    (hbyte : Intake.isTerminator byte = true) :
    account (stream ++ [byte]) t = (account stream t).add (unfinishedLine stream) := by
  rw [account, (lines_append_terminator stream hbyte).1, List.foldl_append]
  rfl

/-- A line that ends in a mark is added together with what stands before it. -/
theorem account_append_marked (stream : List UInt8) {line : List UInt8}
    (hline : ∀ byte ∈ line, byte ≠ Intake.carriageReturn ∧ Intake.isTerminator byte = false)
    (t : τ) :
    unfinishedLine (stream ++ line ++ [0x3b]) = [] ∧
      account (stream ++ line ++ [0x3b]) t =
        (account stream t).add (unfinishedLine stream ++ line) := by
  obtain ⟨hfinished, hunfinished⟩ := lines_append_bytes stream hline
  refine ⟨(lines_append_terminator _ rfl).2, ?_⟩
  rw [account_append_terminator _ t rfl, hunfinished, account_of_finishedLines hfinished]

/-- A line feed behind a finished line ends an empty one. -/
theorem account_append_lineFeed {stream : List UInt8} (hempty : unfinishedLine stream = [])
    (t : τ) :
    unfinishedLine (stream ++ [0x0a]) = [] ∧
      account (stream ++ [0x0a]) t = (account stream t).note .blank := by
  refine ⟨(lines_append_terminator _ rfl).2, ?_⟩
  rw [account_append_terminator _ t rfl, hempty]
  rfl

/-- The errors that are noticed of a stream: those of its lines, and an unfinished line that is too
long. -/
def noticed (stream : List UInt8) (t : τ) : Nat :=
  (account stream t).errors + if 256 < (unfinishedLine stream).length then 1 else 0

theorem Account.errors_le_add (a : Account τ) (line : List UInt8) :
    (a.errors + if 256 < line.length then 1 else 0) ≤ (a.add line).errors := by
  unfold Account.add
  by_cases hlong : 256 < line.length
  · rw [readLine, if_pos hlong, if_pos hlong]
    exact Nat.le_refl _
  · rw [if_neg hlong, Nat.add_zero]
    cases readLine line with
    | unreadable => exact Nat.le_succ _
    | blank => exact Nat.le_refl _
    | message m =>
      simp only [Account.note]
      split
      · exact Nat.le_refl _
      · exact Nat.le_succ _

/-- A line that is too long is noticed before its end, and its end adds nothing. -/
theorem noticed_le_append_byte (stream : List UInt8) (byte : UInt8) (t : τ) :
    noticed stream t ≤ noticed (stream ++ [byte]) t := by
  unfold noticed
  by_cases hreturn : byte = Intake.carriageReturn
  · obtain ⟨hfinished, hunfinished⟩ := lines_append_carriageReturn stream
    exact Nat.le_of_eq (by rw [hreturn, account_of_finishedLines hfinished, hunfinished])
  cases hbyte : Intake.isTerminator byte with
  | true =>
    rw [account_append_terminator stream t hbyte]
    exact Nat.le_add_right_of_le (Account.errors_le_add _ _)
  | false =>
    obtain ⟨hfinished, hunfinished⟩ := lines_append_byte stream hreturn hbyte
    rw [account_of_finishedLines hfinished, hunfinished, List.length_append, List.length_singleton]
    apply Nat.add_le_add_left
    split
    · exact Nat.le_of_eq (if_pos (by omega)).symm
    · exact Nat.zero_le _

theorem noticed_mono {front stream : List UInt8} (h : front <+: stream) (t : τ) :
    noticed front t ≤ noticed stream t := by
  obtain ⟨more, rfl⟩ := h
  induction more generalizing front with
  | nil => exact Nat.le_of_eq (by rw [List.append_nil])
  | cons byte more ih =>
    have hrest : noticed (front ++ [byte]) t ≤ noticed (front ++ [byte] ++ more) t := ih
    rw [List.append_assoc, List.singleton_append] at hrest
    exact Nat.le_trans (noticed_le_append_byte front byte t) hrest

theorem Account.exists_accepted_add (a : Account τ) (line : List UInt8) :
    ∃ answer, (a.add line).accepted = a.accepted ++ [answer] := by
  unfold Account.add
  cases readLine line with
  | unreadable => exact ⟨false, rfl⟩
  | blank => exact ⟨false, rfl⟩
  | message m => exact ⟨_, rfl⟩

/-- One byte finishes at most one line. -/
theorem account_append_byte (stream : List UInt8) (byte : UInt8) (t : τ) :
    ∃ answers, answers.length ≤ 1 ∧
      (account (stream ++ [byte]) t).accepted = (account stream t).accepted ++ answers := by
  by_cases hreturn : byte = Intake.carriageReturn
  · refine ⟨[], by simp, ?_⟩
    rw [hreturn, account_of_finishedLines (lines_append_carriageReturn stream).1, List.append_nil]
  cases hbyte : Intake.isTerminator byte with
  | true =>
    obtain ⟨answer, hadd⟩ := Account.exists_accepted_add (account stream t) (unfinishedLine stream)
    refine ⟨[answer], by simp, ?_⟩
    rw [account_append_terminator stream t hbyte, hadd]
  | false =>
    refine ⟨[], by simp, ?_⟩
    rw [account_of_finishedLines (lines_append_byte stream hreturn hbyte).1, List.append_nil]

theorem account_accepted_mono (stream more : List UInt8) (t : τ) :
    (account stream t).accepted <+: (account (stream ++ more) t).accepted := by
  induction more generalizing stream with
  | nil => simp
  | cons byte more ih =>
    obtain ⟨answers, -, hbyte⟩ := account_append_byte stream byte t
    have hrest := ih (stream ++ [byte])
    rw [List.append_assoc, List.singleton_append, hbyte] at hrest
    exact (List.prefix_append _ _).trans hrest

theorem account_accepted_append (stream more : List UInt8) (t : τ) :
    (account stream t).accepted ++ newlyAccepted stream more t =
      (account (stream ++ more) t).accepted :=
  List.prefix_iff_eq_append.1 (account_accepted_mono stream more t)

theorem newlyAccepted_byte_length (stream : List UInt8) (byte : UInt8) (t : τ) :
    (newlyAccepted stream [byte] t).length ≤ 1 := by
  obtain ⟨answers, hlength, hbyte⟩ := account_append_byte stream byte t
  rw [newlyAccepted, hbyte, List.drop_left]
  exact hlength

theorem newlyAccepted_cons (stream : List UInt8) (byte : UInt8) (more : List UInt8) (t : τ) :
    newlyAccepted stream (byte :: more) t =
      newlyAccepted stream [byte] t ++ newlyAccepted (stream ++ [byte]) more t := by
  have hbyte := account_accepted_append stream [byte] t
  have hrest := account_accepted_append (stream ++ [byte]) more t
  have hall := account_accepted_append stream (byte :: more) t
  rw [List.append_assoc, List.singleton_append, ← hall, ← hbyte, List.append_assoc] at hrest
  exact (List.append_cancel_left hrest).symm

/-! ## Recorded deliveries -/

/-- The account over a recorder of the same target. -/
def Account.recorded (a : Account τ) : Account (Message.Recorder τ) :=
  { a with target := { target := a.target, calls := a.calls } }

theorem Account.recorded_add (a : Account τ) (line : List UInt8) :
    a.recorded.add line = (a.add line).recorded := by
  unfold Account.add
  cases readLine line with
  | unreadable => rfl
  | blank => rfl
  | message m => rfl

theorem account_recorder (stream : List UInt8) (t : τ) :
    account stream ({ target := t } : Message.Recorder τ) = (account stream t).recorded := by
  have hfold : ∀ (lines : List (List UInt8)) (a : Account τ),
      lines.foldl Account.add a.recorded = (lines.foldl Account.add a).recorded := by
    intro lines
    induction lines with
    | nil => exact fun _ => rfl
    | cons line lines ih =>
      intro a
      rw [List.foldl_cons, Account.recorded_add, ih, List.foldl_cons]
  exact hfold _ { target := t }

theorem newlyAccepted_recorder (stream more : List UInt8) (t : τ) :
    newlyAccepted stream more ({ target := t } : Message.Recorder τ) =
      newlyAccepted stream more t := by
  rw [newlyAccepted, newlyAccepted, account_recorder, account_recorder]
  rfl

end Patchbay.Fudi
