import Mathlib.Algebra.GroupWithZero.Nat
import Mathlib.Data.List.TakeDrop
import Patchbay.Proofs.Fudi.CutLines
import Patchbay.Proofs.Run
/-!
# The writes of a sender

A line that fits is offered to the sink again and again, each time from where the sink said it had
come, until the sink says it has come to the end, fails or takes nothing (`Drained`). A line that
does not fit is not offered at all. Whatever the sink does, the counters say what became of the
lines; what it says decides how much of a line was written (`runAll_observe`).
-/

namespace Patchbay

/-! ## Writes on record -/

/-- A write to a sink. -/
structure SerialWrite where
  offered : List UInt8
  answer : Option Nat
deriving DecidableEq, Repr

/-- How many bytes were taken by the word of the sink. -/
def SerialWrite.reported (w : SerialWrite) : Nat := w.answer.getD 0

/-- How many bytes were taken in several writes by the word of the sink. -/
def reportedAll (writes : List SerialWrite) : Nat := (writes.map SerialWrite.reported).sum

theorem reportedAll_cons (w : SerialWrite) (writes : List SerialWrite) :
    reportedAll (w :: writes) = w.reported + reportedAll writes := by
  rw [reportedAll, List.map_cons, List.sum_cons, reportedAll]

/-- A sink with a record of the writes to it. -/
structure SerialSink.Recorded (ω : Type) where
  sink : ω
  writes : List SerialWrite := []
deriving DecidableEq, Repr

instance {ω : Type} [SerialSink ω] : SerialSink (SerialSink.Recorded ω) where
  write bytes r :=
    let answer := SerialSink.write bytes r.sink
    (answer.1, { sink := answer.2, writes := r.writes ++ [⟨bytes, answer.1⟩] })

theorem SerialSink.Recorded.of_write {ω : Type} [SerialSink ω] {bytes : List UInt8}
    {r r' : SerialSink.Recorded ω} {answer : Option Nat}
    (hwrite : SerialSink.write bytes r = (answer, r')) :
    SerialSink.write bytes r.sink = (answer, r'.sink) ∧
      r'.writes = r.writes ++ [⟨bytes, answer⟩] := by
  obtain ⟨rfl, rfl⟩ := Prod.mk.inj hwrite
  exact ⟨rfl, rfl⟩

/-! ## Texts from fragments -/

namespace Text

/-- Appends a fragment to the text in a buffer that holds so many bytes. `none` if it does not
fit. -/
def append? (capacity : Nat) (text fragment : String) : Option String :=
  if text.utf8ByteSize + fragment.utf8ByteSize ≤ capacity then some (text ++ fragment) else none

/-- Puts fragments together in a buffer that holds so many bytes. -/
def assemble (capacity : Nat) (fragments : List String) : Option String :=
  fragments.foldlM (append? capacity) ""

theorem foldlM_append? {capacity : Nat} {text : String} (htext : text.utf8ByteSize ≤ capacity)
    (fragments : List String) :
    fragments.foldlM (append? capacity) text =
      if (text ++ String.join fragments).utf8ByteSize ≤ capacity then
        some (text ++ String.join fragments)
      else none := by
  induction fragments generalizing text with
  | nil =>
    rw [String.join_nil, String.append_empty, if_pos htext]
    rfl
  | cons fragment fragments ih =>
    rw [List.foldlM_cons, String.join_cons, ← String.append_assoc, append?]
    by_cases hfits : text.utf8ByteSize + fragment.utf8ByteSize ≤ capacity
    · rw [if_pos hfits]
      exact ih (by rw [String.utf8ByteSize_append]; exact hfits)
    · have hlong : ¬(text ++ fragment ++ String.join fragments).utf8ByteSize ≤ capacity := by
        rw [String.utf8ByteSize_append, String.utf8ByteSize_append]
        omega
      rw [if_neg hfits, if_neg hlong]
      rfl

/-- Whether a buffer holds a text does not depend on the fragments that the text comes in. -/
theorem assemble_eq (capacity : Nat) (fragments : List String) :
    assemble capacity fragments =
      if (String.join fragments).utf8ByteSize ≤ capacity then some (String.join fragments)
      else none := by
  rw [assemble, foldlM_append? (Nat.zero_le capacity), String.empty_append]

end Text

/-! ## Bytes in several writes -/

namespace Fudi

/-- The writes by which bytes are offered to a sink. -/
structure Drained (bytes : List UInt8) (writes : List SerialWrite) (written : Bool) : Prop where
  /-- What is offered is the rest by the word of the sink, and there is a rest. -/
  offered : ∀ before w after, writes = before ++ w :: after →
    w.offered = bytes.drop (reportedAll before) ∧ reportedAll before < bytes.length
  /-- After a write that fails or takes nothing there is no other. -/
  goes_on : ∀ before w after, writes = before ++ w :: after → after ≠ [] → 0 < w.reported
  length_le : writes.length ≤ bytes.length
  written_iff : written = true ↔ bytes.length ≤ reportedAll writes
  ended : written = false → ∃ before w, writes = before ++ [w] ∧ w.reported = 0

namespace Drained

theorem nil : Drained [] [] true where
  offered before w after h := absurd h (by simp)
  goes_on before w after h := absurd h (by simp)
  length_le := Nat.le_refl _
  written_iff := by simp [reportedAll]
  ended h := by cases h

variable {bytes : List UInt8} {writes : List SerialWrite} {written : Bool}

/-- A write that fails or takes nothing is the last. -/
theorem stop (hne : bytes ≠ []) {w : SerialWrite} (hoffered : w.offered = bytes)
    (hnothing : w.reported = 0) : Drained bytes [w] false := by
  have honly : ∀ {before x after}, [w] = before ++ x :: after →
      before = [] ∧ x = w ∧ after = [] := by
    intro before x after h
    cases before with
    | nil =>
      obtain ⟨rfl, rfl⟩ := List.cons_eq_cons.1 h
      exact ⟨rfl, rfl, rfl⟩
    | cons y before =>
      obtain ⟨-, hnil⟩ := List.cons_eq_cons.1 h
      exact absurd hnil.symm (by simp)
  have hpos : 0 < bytes.length := List.length_pos_iff.2 hne
  refine ⟨?_, ?_, hpos, ?_, fun _ => ⟨[], w, rfl, hnothing⟩⟩
  · intro before x after h
    obtain ⟨rfl, rfl, rfl⟩ := honly h
    exact ⟨hoffered, hpos⟩
  · intro before x after h hafter
    exact absurd (honly h).2.2 hafter
  · have hnone : reportedAll [w] = 0 := by rw [reportedAll_cons, hnothing]; rfl
    rw [hnone]
    exact ⟨fun h => (nomatch h), fun h => absurd h (Nat.not_le.2 hpos)⟩

/-- After a write that takes something the rest is offered. -/
theorem cons {n : Nat} (hne : bytes ≠ []) (h : Drained (bytes.drop (n + 1)) writes written) :
    Drained bytes (⟨bytes, some (n + 1)⟩ :: writes) written := by
  have hpos : 0 < bytes.length := List.length_pos_iff.2 hne
  have hreported : ∀ more, reportedAll (⟨bytes, some (n + 1)⟩ :: more) = n + 1 + reportedAll more :=
    reportedAll_cons ⟨bytes, some (n + 1)⟩
  obtain ⟨hoffered, hgoesOn, hlength, hwritten, hended⟩ := h
  rw [List.length_drop] at hoffered hlength hwritten
  refine ⟨?_, ?_, ?_, ?_, ?_⟩
  · intro before x after hsplit
    cases before with
    | nil =>
      obtain ⟨rfl, -⟩ := List.cons_eq_cons.1 hsplit
      exact ⟨rfl, hpos⟩
    | cons y before =>
      obtain ⟨rfl, hrest⟩ := List.cons_eq_cons.1 hsplit
      obtain ⟨hrestOffered, hless⟩ := hoffered before x after hrest
      rw [hreported]
      exact ⟨hrestOffered.trans List.drop_drop, by omega⟩
  · intro before x after hsplit hafter
    cases before with
    | nil =>
      obtain ⟨rfl, -⟩ := List.cons_eq_cons.1 hsplit
      exact Nat.succ_pos n
    | cons y before =>
      obtain ⟨-, hrest⟩ := List.cons_eq_cons.1 hsplit
      exact hgoesOn before x after hrest hafter
  · rw [List.length_cons]
    omega
  · rw [hreported, hwritten]
    omega
  · intro hfailed
    obtain ⟨before, w, rfl, hnothing⟩ := hended hfailed
    exact ⟨⟨bytes, some (n + 1)⟩ :: before, w, rfl, hnothing⟩

end Drained

/-! ## One line -/

/-- Something that a sender is asked to write. -/
inductive SenderCall where
  | message (m : Message)
  | text (receiver payload : String)
deriving DecidableEq, Repr

namespace SenderCall

def receiver : SenderCall → String
  | .message m => m.receiver
  | .text receiver _ => receiver

def payload : SenderCall → String
  | .message m => m.payload
  | .text _ payload => payload

def line (call : SenderCall) : String := Sender.line call.receiver call.payload

def bytes (call : SenderCall) : List UInt8 := Text.bytes call.line

theorem bytes_ne_nil (call : SenderCall) : call.bytes ≠ [] := by
  rw [bytes, line, Sender.line, Text.bytes_append]
  exact List.append_ne_nil_of_right_ne_nil _ (by decide)

end SenderCall

/-- What came of a call. -/
structure Sending where
  call : SenderCall
  /-- Whether the sender answered that the line was written in full. -/
  written : Bool
  writes : List SerialWrite
deriving DecidableEq, Repr

namespace Sending

/-- The front of the line that was taken by the word of the sink. -/
def taken (x : Sending) : List UInt8 := x.call.bytes.take (reportedAll x.writes)

/-- A line that is too long is not offered. Any other is offered until it is taken or the sink fails
or takes nothing. -/
structure Exact (x : Sending) : Prop where
  too_long : Limits.maxLineBytes < x.call.bytes.length → x.written = false ∧ x.writes = []
  fits : x.call.bytes.length ≤ Limits.maxLineBytes → Drained x.call.bytes x.writes x.written
  /-- The answer says whether all of the line was taken. -/
  whole : x.written = true ↔ x.taken = x.call.bytes
  /-- A buffer of that size holds the line, in whatever fragments it comes, just if it is not too
  long. -/
  buffered : ∀ fragments, String.join fragments = x.call.line →
    Text.assemble Limits.maxLineBytes fragments =
      if Limits.maxLineBytes < x.call.bytes.length then none else some x.call.line

theorem assemble_line {call : SenderCall} {fragments : List String}
    (hjoin : String.join fragments = call.line) :
    Text.assemble Limits.maxLineBytes fragments =
      if Limits.maxLineBytes < call.bytes.length then none else some call.line := by
  rw [Text.assemble_eq, hjoin, SenderCall.bytes, Text.length_bytes]
  by_cases hlong : Limits.maxLineBytes < call.line.utf8ByteSize
  · rw [if_pos hlong, if_neg (Nat.not_le.2 hlong)]
  · rw [if_neg hlong, if_pos (Nat.le_of_not_lt hlong)]

theorem exact_of_long {call : SenderCall} (hlong : Limits.maxLineBytes < call.bytes.length) :
    Exact ⟨call, false, []⟩ where
  too_long _ := ⟨rfl, rfl⟩
  fits hfits := absurd hlong (Nat.not_lt.2 hfits)
  whole := ⟨fun h => (nomatch h), fun h => absurd h.symm call.bytes_ne_nil⟩
  buffered _ := assemble_line

theorem exact_of_drained {call : SenderCall} {writes : List SerialWrite} {written : Bool}
    (hfits : call.bytes.length ≤ Limits.maxLineBytes) (h : Drained call.bytes writes written) :
    Exact ⟨call, written, writes⟩ where
  too_long hlong := absurd hlong (Nat.not_lt.2 hfits)
  fits _ := h
  whole := h.written_iff.trans (List.take_eq_self_iff _).symm
  buffered _ := assemble_line

end Sending

namespace Sender

variable {ω : Type}

/-- The sender with one more line in its counters. -/
def tally (s : Sender ω) (written : Bool) : Sender ω :=
  { s with
    sent := if written then s.sent + 1 else s.sent
    dropped := if written then s.dropped else s.dropped + 1 }

theorem tally_counters (s : Sender ω) (written : Bool) :
    (s.tally written).sent = s.sent + UInt32.ofNat ([written].count true) ∧
      (s.tally written).dropped = s.dropped + UInt32.ofNat ([written].count false) := by
  cases written with
  | true => exact ⟨rfl, (UInt32.add_zero _).symm⟩
  | false => exact ⟨(UInt32.add_zero _).symm, rfl⟩

variable [SerialSink ω]

/-- Keeping a record changes nothing else. -/
theorem drain_recorded (bytes : List UInt8) (r : SerialSink.Recorded ω) :
    drain bytes r.sink = ((drain bytes r).1, (drain bytes r).2.sink) ∧
      ∃ writes, (drain bytes r).2.writes = r.writes ++ writes ∧
        Drained bytes writes (drain bytes r).1 ∧
        ∀ taken : ω → List UInt8, SerialSink.Candid taken →
          taken (drain bytes r).2.sink = taken r.sink ++ bytes.take (reportedAll writes) := by
  fun_induction drain bytes r with
  | case1 r =>
    refine ⟨by rw [drain], [], (List.append_nil _).symm, Drained.nil, ?_⟩
    intro taken _
    exact (List.append_nil _).symm
  | case2 r byte rest r' hwrite =>
    obtain ⟨hsink, hwrites⟩ := SerialSink.Recorded.of_write hwrite
    refine ⟨by rw [drain, hsink], _, hwrites, ?_, ?_⟩
    · exact Drained.stop (List.cons_ne_nil byte rest) rfl rfl
    · intro taken hcandid
      exact (hcandid.failed hsink).trans (List.append_nil _).symm
  | case3 r byte rest r' hwrite =>
    obtain ⟨hsink, hwrites⟩ := SerialSink.Recorded.of_write hwrite
    refine ⟨by rw [drain, hsink], _, hwrites, ?_, ?_⟩
    · exact Drained.stop (List.cons_ne_nil byte rest) rfl rfl
    · intro taken hcandid
      exact (hcandid.write hsink).2
  | case4 r byte rest n r' hwrite ih =>
    obtain ⟨hsink, hwrites⟩ := SerialSink.Recorded.of_write hwrite
    obtain ⟨hrest, more, hmore, hdrained, htaken⟩ := ih
    refine ⟨by rw [drain, hsink]; exact hrest, ⟨byte :: rest, some (n + 1)⟩ :: more, ?_, ?_, ?_⟩
    · rw [hmore, hwrites, List.append_assoc]
      rfl
    · exact Drained.cons (List.cons_ne_nil byte rest) hdrained
    · intro taken hcandid
      rw [htaken taken hcandid, (hcandid.write hsink).2, List.append_assoc, reportedAll_cons,
        List.take_add]
      rfl

/-- Does what a call asks for and says whether the line was written in full. -/
def perform (s : Sender ω) : SenderCall → Bool × Sender ω
  | .message m => s.send m
  | .text receiver payload => s.sendText receiver payload

theorem perform_eq (s : Sender ω) (call : SenderCall) :
    perform s call = s.sendText call.receiver call.payload := by
  cases call <;> rfl

theorem perform_of_long {call : SenderCall} (hlong : Limits.maxLineBytes < call.bytes.length)
    (s : Sender ω) : perform s call = (false, s.tally false) := by
  rw [perform_eq]
  exact if_pos hlong

theorem perform_of_fits {call : SenderCall} (hfits : call.bytes.length ≤ Limits.maxLineBytes)
    (s : Sender ω) :
    perform s call =
      ((drain call.bytes s.sink).1,
        tally { s with sink := (drain call.bytes s.sink).2 } (drain call.bytes s.sink).1) := by
  have hshort : ¬Limits.maxLineBytes < (line call.receiver call.payload).utf8ByteSize :=
    Nat.not_lt.2 hfits
  rw [perform_eq, sendText, if_neg hshort, SenderCall.bytes, SenderCall.line, Text.bytes]
  rcases drain (line call.receiver call.payload).toUTF8.data.toList s.sink with ⟨done, sink⟩
  cases done <;> rfl

/-- Does what a call asks for and keeps a record of the writes. -/
def observe (s : Sender ω) (call : SenderCall) : Sending × Sender ω :=
  let r := perform { s with sink := ({ sink := s.sink } : SerialSink.Recorded ω) } call
  (⟨call, r.1, r.2.sink.writes⟩, { r.2 with sink := r.2.sink.sink })

theorem observe_of_long {call : SenderCall} (hlong : Limits.maxLineBytes < call.bytes.length)
    (s : Sender ω) : observe s call = (⟨call, false, []⟩, s.tally false) := by
  rw [observe, perform_of_long hlong]
  rfl

theorem observe_of_fits {call : SenderCall} (hfits : call.bytes.length ≤ Limits.maxLineBytes)
    (s : Sender ω) :
    let r := drain call.bytes ({ sink := s.sink } : SerialSink.Recorded ω)
    observe s call = (⟨call, r.1, r.2.writes⟩, tally { s with sink := r.2.sink } r.1) := by
  rw [observe, perform_of_fits hfits]
  rfl

/-- One call with its record. -/
theorem observe_step (s : Sender ω) (call : SenderCall) :
    perform s call = ((observe s call).1.written, (observe s call).2) ∧
      (observe s call).1.Exact ∧
      ∀ taken : ω → List UInt8, SerialSink.Candid taken →
        taken (observe s call).2.sink = taken s.sink ++ (observe s call).1.taken := by
  rcases Nat.lt_or_ge Limits.maxLineBytes call.bytes.length with hlong | hfits
  · rw [observe_of_long hlong, perform_of_long hlong]
    refine ⟨rfl, Sending.exact_of_long hlong, ?_⟩
    intro taken _
    exact (List.append_nil _).symm
  · obtain ⟨hdrain, writes, hwrites, hdrained, htaken⟩ :=
      drain_recorded call.bytes ({ sink := s.sink } : SerialSink.Recorded ω)
    rw [List.nil_append] at hwrites
    rw [← hwrites] at hdrained htaken
    rw [observe_of_fits hfits, perform_of_fits hfits, hdrain]
    exact ⟨rfl, Sending.exact_of_drained hfits hdrained, htaken⟩

/-- The answer is counted. -/
theorem perform_counters (s : Sender ω) (call : SenderCall) :
    (perform s call).2.sent = s.sent + UInt32.ofNat ([(perform s call).1].count true) ∧
      (perform s call).2.dropped =
        s.dropped + UInt32.ofNat ([(perform s call).1].count false) := by
  rcases Nat.lt_or_ge Limits.maxLineBytes call.bytes.length with hlong | hfits
  · rw [perform_of_long hlong]
    exact tally_counters _ _
  · rw [perform_of_fits hfits]
    exact tally_counters _ _

theorem runAll_perform_counters (s : Sender ω) (calls : List SenderCall) :
    let r := runAll perform s calls
    r.2.sent = s.sent + UInt32.ofNat (r.1.count true) ∧
      r.2.dropped = s.dropped + UInt32.ofNat (r.1.count false) := by
  induction calls generalizing s with
  | nil => exact ⟨(UInt32.add_zero _).symm, (UInt32.add_zero _).symm⟩
  | cons call calls ih =>
    intro r
    have hcount : ∀ answer, r.1.count answer = [(perform s call).1].count answer +
        (runAll perform (perform s call).2 calls).1.count answer := by
      intro answer
      rw [← List.count_append]
      rfl
    obtain ⟨hsent, hdropped⟩ := perform_counters s call
    obtain ⟨hsentRest, hdroppedRest⟩ := ih (perform s call).2
    rw [hcount, hcount, UInt32.ofNat_add, UInt32.ofNat_add, ← UInt32.add_assoc,
      ← UInt32.add_assoc, ← hsent, ← hdropped]
    exact ⟨hsentRest, hdroppedRest⟩

theorem runAll_perform_eq (s : Sender ω) (calls : List SenderCall) :
    runAll perform s calls =
      ((runAll observe s calls).1.map Sending.written, (runAll observe s calls).2) := by
  induction calls generalizing s with
  | nil => rfl
  | cons call calls ih =>
    obtain ⟨hstep, -, -⟩ := observe_step s call
    rw [runAll, hstep, ih]
    rfl

theorem runAll_observe_calls (s : Sender ω) (calls : List SenderCall) :
    (runAll observe s calls).1.map Sending.call = calls := by
  induction calls generalizing s with
  | nil => rfl
  | cons call calls ih => exact List.cons_eq_cons.2 ⟨rfl, ih (observe s call).2⟩

theorem runAll_observe_taken {taken : ω → List UInt8} (hcandid : SerialSink.Candid taken)
    (s : Sender ω) (calls : List SenderCall) :
    taken (runAll observe s calls).2.sink =
      taken s.sink ++ (runAll observe s calls).1.flatMap Sending.taken := by
  induction calls generalizing s with
  | nil => exact (List.append_nil _).symm
  | cons call calls ih =>
    obtain ⟨-, -, htaken⟩ := observe_step s call
    refine (ih (observe s call).2).trans ?_
    rw [htaken taken hcandid, List.append_assoc]
    rfl

/-- Whatever the sink does, what comes of the calls is exact, and the counters say, modulo 2^32, how
many lines were written and how many were not. If the sink is candid it took of each line what it
said: all of it or, if the line was not written, less than that from its front. -/
theorem runAll_observe (s : Sender ω) (calls : List SenderCall) :
    let observed := runAll observe s calls
    let answers := observed.1.map Sending.written
    observed.1.map Sending.call = calls ∧
      runAll perform s calls = (answers, observed.2) ∧
      (∀ x ∈ observed.1, x.Exact) ∧
      observed.2.sent = s.sent + UInt32.ofNat (answers.count true) ∧
      observed.2.dropped = s.dropped + UInt32.ofNat (answers.count false) ∧
      ∀ taken : ω → List UInt8, SerialSink.Candid taken →
        taken observed.2.sink = taken s.sink ++ observed.1.flatMap Sending.taken := by
  have hplain := runAll_perform_eq s calls
  obtain ⟨hsent, hdropped⟩ := runAll_perform_counters s calls
  rw [hplain] at hsent hdropped
  refine ⟨runAll_observe_calls s calls, hplain, ?_, hsent, hdropped, ?_⟩
  · exact runAll_answers (P := fun _ => True)
      (fun call _ s _ => ⟨(observe_step s call).2.1, trivial⟩) trivial
  · intro taken hcandid
    exact runAll_observe_taken hcandid s calls

end Sender

/-- One line is too long, one is cut off and one is written. -/
theorem runAll_observe_stumbling :
    let calls : List SenderCall :=
      [.text "all" (String.ofList (List.replicate 256 'x')), .message (.bang "go"),
        .message (.bang "up")]
    let observed := runAll Sender.observe stumblingSender calls
    SerialSink.Candid Stumbling.bytes ∧
      observed.1.map Sending.written = [false, false, true] ∧
      observed.1.map (fun x => x.taken.length) = [0, 3, 9] ∧
      (∀ x ∈ observed.1, x.Exact) ∧ observed.2.sent = 1 ∧ observed.2.dropped = 2 ∧
      observed.2.sink.bytes = observed.1.flatMap Sending.taken := by
  intro calls observed
  obtain ⟨-, -, hexact, hsent, hdropped, htaken⟩ := Sender.runAll_observe stumblingSender calls
  have hwritten : observed.1.map Sending.written = [false, false, true] := by decide +kernel
  rw [hwritten] at hsent hdropped
  refine ⟨Stumbling.candid, hwritten, by decide +kernel, hexact, hsent, hdropped, ?_⟩
  exact (htaken Stumbling.bytes Stumbling.candid).trans (List.nil_append _)

end Fudi

end Patchbay
