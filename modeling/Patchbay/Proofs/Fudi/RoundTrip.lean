import Mathlib.Data.List.Forall2
import Patchbay.Proofs.Fudi.Feeding
import Patchbay.Proofs.Fudi.Sending
/-!
# What is sent is heard

The lines that a sender writes read back as the messages that were sent. A line is its words with
single spaces between them (`Message.line_eq`); none of its bytes but the last two ends a line, its
words come apart again, and their types tell which message they make.
-/

namespace Patchbay

/-! ## The same message -/

/-- The same number, where one NaN is as good as another. -/
def Single.Same (a b : Single) : Prop :=
  a = b ∨ (a.isNaN = true ∧ b.isNaN = true)

inductive Atom.Same : Atom → Atom → Prop where
  | float {a b : Single} (h : a.Same b) : Same (.float a) (.float b)
  | symbol (name : String) : Same (.symbol name) (.symbol name)

inductive Message.Same : Message → Message → Prop where
  | bang (receiver : String) : Same (.bang receiver) (.bang receiver)
  | float (receiver : String) {a b : Single} (h : a.Same b) :
      Same (.float receiver a) (.float receiver b)
  | symbol (receiver name : String) : Same (.symbol receiver name) (.symbol receiver name)
  | list (receiver selector : String) {as bs : List Atom} (h : List.Forall₂ Atom.Same as bs) :
      Same (.list receiver selector as) (.list receiver selector bs)

/-! ## Messages that can be sent -/

/-- A word that a line can hold. -/
structure Fudi.Token (s : String) : Prop extends Text.IsWord s where
  not_mark : ';' ∉ s.toList

theorem Fudi.token_iff (s : String) :
    Fudi.Token s ↔ s ≠ "" ∧ s.toList.all (!Text.isBlank ·) = true ∧ ';' ∉ s.toList := by
  rw [List.all_eq_true]
  refine ⟨fun h => ⟨h.ne_empty, fun c hc => ?_, h.not_mark⟩, ?_⟩
  · rw [h.not_blank c hc]
    rfl
  · rintro ⟨hne, hblank, hmark⟩
    exact ⟨⟨hne, fun c hc => by simpa using hblank c hc⟩, hmark⟩

instance (s : String) : Decidable (Fudi.Token s) :=
  decidable_of_iff' _ (Fudi.token_iff s)

/-- A number whose text is a token and reads back as the number. -/
structure Single.Sendable (value : Single) : Prop where
  token : Fudi.Token value.text
  reads : ∃ value', Single.ofText? value.text = some value' ∧ value.Same value'

def Atom.Sendable : Atom → Prop
  | .float value => value.Sendable
  | .symbol name => Fudi.Token name ∧ Single.ofText? name = none

/-- Names are tokens, and no symbol reads as something else. -/
def Message.Sendable : Message → Prop
  | .bang receiver => Fudi.Token receiver
  | .float receiver value => Fudi.Token receiver ∧ value.Sendable
  | .symbol receiver name =>
    Fudi.Token receiver ∧ Fudi.Token name ∧ name ≠ "bang" ∧ Single.ofText? name = none
  | .list receiver selector atoms =>
    Fudi.Token receiver ∧ Fudi.Token selector ∧ atoms ≠ [] ∧ atoms.length ≤ 30 ∧
      ∀ atom ∈ atoms, atom.Sendable

theorem Single.sendable_of_text {value value' : Single} {s : String} (htext : value.text = s)
    (htoken : Fudi.Token s) (hreads : Single.ofText? s = some value') (hsame : value.Same value') :
    value.Sendable := by
  subst htext
  exact ⟨htoken, value', hreads, hsame⟩

theorem Atom.Sendable.token {atom : Atom} (h : atom.Sendable) : Fudi.Token atom.text := by
  cases atom with
  | float value => exact Single.Sendable.token h
  | symbol name => exact h.1

/-- The word for an atom is typed as the atom was. -/
theorem Atom.Sendable.same_ofWord {atom : Atom} (h : atom.Sendable) :
    atom.Same (Atom.ofWord atom.text) := by
  cases atom with
  | float value =>
    obtain ⟨value', hreads, hsame⟩ := Single.Sendable.reads h
    rw [Atom.text, Atom.ofWord, hreads]
    exact .float hsame
  | symbol name =>
    rw [Atom.text, Atom.ofWord, h.2]
    exact .symbol name

/-! ## The words of a line -/

namespace Message

/-- The words after the receiver. -/
def args : Message → List String
  | .bang _ => ["bang"]
  | .float _ value => [value.text]
  | .symbol _ name => [name]
  | .list _ selector atoms => selector :: atoms.map Atom.text

/-- The text of a line up to the terminator. -/
def body (m : Message) : String :=
  " ".intercalate (m.receiver :: m.args)

theorem foldl_text_eq_intercalate (selector : String) (atoms : List Atom) :
    atoms.foldl (fun text atom => text ++ " " ++ atom.text) selector =
      " ".intercalate (selector :: atoms.map Atom.text) := by
  induction atoms generalizing selector with
  | nil => simp
  | cons atom atoms ih =>
    rw [List.foldl_cons, ih, String.intercalate_cons_append, List.map_cons,
      String.intercalate_cons_cons]

theorem payload_eq (m : Message) : m.payload = " ".intercalate m.args := by
  cases m with
  | bang receiver => rw [payload, args, String.intercalate_singleton]
  | float receiver value => rw [payload, args, String.intercalate_singleton]
  | symbol receiver name => rw [payload, args, String.intercalate_singleton]
  | list receiver selector atoms => exact foldl_text_eq_intercalate selector atoms

theorem args_ne_nil (m : Message) : m.args ≠ [] := by
  cases m <;> exact List.cons_ne_nil _ _

theorem line_eq (m : Message) : m.line = Text.bytes m.body ++ [0x3b, 0x0a] := by
  have htext : Fudi.Sender.line m.receiver m.payload = m.body ++ ";\n" := by
    rw [body, String.intercalate_cons_of_ne_nil m.args_ne_nil, ← payload_eq]
    rfl
  rw [line, htext, Text.bytes_append]
  rfl

variable {m : Message}

theorem Sendable.token (hm : m.Sendable) : ∀ w ∈ m.receiver :: m.args, Fudi.Token w := by
  cases m with
  | bang receiver =>
    refine List.forall_mem_cons.2 ⟨hm, List.forall_mem_singleton.2 ?_⟩
    decide
  | float receiver value =>
    obtain ⟨hreceiver, hvalue⟩ := hm
    exact List.forall_mem_cons.2 ⟨hreceiver, List.forall_mem_singleton.2 hvalue.token⟩
  | symbol receiver name =>
    obtain ⟨hreceiver, hname, -, -⟩ := hm
    exact List.forall_mem_cons.2 ⟨hreceiver, List.forall_mem_singleton.2 hname⟩
  | list receiver selector atoms =>
    obtain ⟨hreceiver, hselector, -, -, hatoms⟩ := hm
    refine List.forall_mem_cons.2 ⟨hreceiver, List.forall_mem_cons.2 ⟨hselector, ?_⟩⟩
    intro w hw
    obtain ⟨atom, hatom, rfl⟩ := List.mem_map.1 hw
    exact (hatoms atom hatom).token

theorem Sendable.length_args (hm : m.Sendable) : m.args.length ≤ 31 := by
  cases m with
  | bang receiver => simp [args]
  | float receiver value => simp [args]
  | symbol receiver name => simp [args]
  | list receiver selector atoms =>
    obtain ⟨-, -, -, hlength, -⟩ := hm
    rw [args, List.length_cons, List.length_map]
    omega

/-- The words after the receiver make the message again. -/
theorem Sendable.same_messageFor (hm : m.Sendable) :
    m.Same (Fudi.messageFor m.receiver m.args) := by
  cases m with
  | bang receiver => exact .bang receiver
  | float receiver value =>
    obtain ⟨value', hreads, hsame⟩ := hm.2.reads
    have hword : value.text ≠ "bang" := by
      intro hbang
      have hnone : Single.ofText? "bang" = none := by decide +kernel
      rw [hbang, hnone] at hreads
      cases hreads
    rw [args, Fudi.messageFor_word _ hword, hreads]
    exact .float receiver hsame
  | symbol receiver name =>
    obtain ⟨-, -, hword, hsymbol⟩ := hm
    rw [args, Fudi.messageFor_word _ hword, hsymbol]
    exact .symbol receiver name
  | list receiver selector atoms =>
    obtain ⟨-, -, hne, -, hatoms⟩ := hm
    obtain ⟨atom, atoms, rfl⟩ := List.exists_cons_of_ne_nil hne
    rw [args, List.map_cons, Fudi.messageFor_args, ← List.map_cons, List.map_map]
    refine .list receiver selector ?_
    refine List.forall₂_map_right_iff.2 (List.forall₂_same.2 ?_)
    intro atom hatom
    exact (hatoms atom hatom).same_ofWord

theorem mem_intercalate {ws : List String} {c : Char} (h : c ∈ (" ".intercalate ws).toList) :
    c = ' ' ∨ ∃ w ∈ ws, c ∈ w.toList := by
  induction ws with
  | nil => simp at h
  | cons w ws ih =>
    cases ws with
    | nil => exact .inr ⟨w, by simp, by simpa using h⟩
    | cons x ws =>
      rw [String.intercalate_cons_cons, String.toList_append, String.toList_append,
        List.mem_append, List.mem_append] at h
      rcases h with (h | h) | h
      · exact .inr ⟨w, by simp, h⟩
      · exact .inl (by simpa using h)
      · rcases ih h with hspace | ⟨y, hy, hc⟩
        · exact .inl hspace
        · exact .inr ⟨y, List.mem_cons_of_mem _ hy, hc⟩

/-- No byte of the body ends the line or is left out. -/
theorem Sendable.body_byte (hm : m.Sendable) :
    ∀ byte ∈ Text.bytes m.body,
      byte ≠ Fudi.Intake.carriageReturn ∧ Fudi.Intake.isTerminator byte = false := by
  -- A character that no token holds and that is no space is not in the body.
  have habsent : ∀ c : Char, c ≠ ' ' → (∀ w, Fudi.Token w → c ∉ w.toList) → c ∉ m.body.toList := by
    intro c hspace htoken hmem
    rcases mem_intercalate hmem with rfl | ⟨w, hw, hc⟩
    · exact hspace rfl
    · exact htoken w (hm.token w hw) hc
  have hblank : ∀ c : Char, Text.isBlank c = true → ∀ w, Fudi.Token w → c ∉ w.toList := by
    intro c hc w hw hmem
    rw [hw.not_blank c hmem] at hc
    cases hc
  have hreturn := habsent '\r' (by decide) (hblank _ rfl)
  have hmark := habsent ';' (by decide) fun w hw => hw.not_mark
  have hfeed := habsent '\n' (by decide) (hblank _ rfl)
  intro byte hbyte
  refine ⟨?_, ?_⟩
  · rintro rfl
    exact Text.not_mem_bytes rfl (by decide) hreturn hbyte
  · rw [Fudi.Intake.isTerminator, Bool.or_eq_false_iff, beq_eq_false_iff_ne, beq_eq_false_iff_ne]
    refine ⟨?_, ?_⟩
    · rintro rfl
      exact Text.not_mem_bytes rfl (by decide) hmark hbyte
    · rintro rfl
      exact Text.not_mem_bytes rfl (by decide) hfeed hbyte

end Message

namespace Fudi

variable {m : Message}

/-- The body of a line reads as the message. -/
theorem readLine_body (hm : m.Sendable) (hfits : m.line.length ≤ Limits.maxLineBytes) :
    ∃ m', m.Same m' ∧ readLine (Text.bytes m.body) = .message m' := by
  have hlength : ¬256 < (Text.bytes m.body).length := by
    rw [Message.line_eq, List.length_append] at hfits
    exact Nat.not_lt.2 (Nat.le_of_add_right_le hfits)
  have hwords : (Text.tokens m.body).take 32 = m.receiver :: m.args := by
    rw [Message.body, Text.tokens_intercalate fun w hw => (hm.token w hw).toIsWord]
    exact List.take_of_length_le (Nat.succ_le_succ hm.length_args)
  refine ⟨messageFor m.receiver m.args, hm.same_messageFor, ?_⟩
  rw [readLine, if_neg hlength, Text.fromUTF8?_bytes]
  simp only [hwords]

variable {τ : Type} [Message.Target τ]

theorem note_message_of_accepted {m : Message} {a : Account τ}
    (haccept : (Message.Target.deliver m a.target).1 = true) :
    (a.note (.message m)).calls = a.calls ++ [m] ∧
      (a.note (.message m)).received = a.received + 1 ∧
      (a.note (.message m)).errors = a.errors := by
  simp only [Account.note, haccept]
  exact ⟨trivial, rfl, rfl⟩

/-- A whole line after whole lines is one more message. -/
theorem account_append_line (haccept : ∀ m (t : τ), (Message.Target.deliver m t).1 = true)
    (hm : m.Sendable) (hfits : m.line.length ≤ Limits.maxLineBytes) {stream : List UInt8}
    (hwhole : unfinishedLine stream = []) (t : τ) :
    ∃ m', m.Same m' ∧ unfinishedLine (stream ++ m.line) = [] ∧
      (account (stream ++ m.line) t).calls = (account stream t).calls ++ [m'] ∧
      (account (stream ++ m.line) t).received = (account stream t).received + 1 ∧
      (account (stream ++ m.line) t).errors = (account stream t).errors := by
  obtain ⟨m', hsame, hread⟩ := readLine_body hm hfits
  obtain ⟨hempty, hmarked⟩ := account_append_marked stream hm.body_byte t
  obtain ⟨hwhole', hfed⟩ := account_append_lineFeed hempty t
  have hline : stream ++ m.line = stream ++ Text.bytes m.body ++ [0x3b] ++ [0x0a] := by
    rw [Message.line_eq]
    simp
  -- The mark ends the body, and the line feed ends an empty line.
  have haccount : account (stream ++ m.line) t =
      ((account stream t).note (.message m')).note .blank := by
    rw [hline, hfed, hmarked, hwhole, List.nil_append, Account.add, hread]
  refine ⟨m', hsame, ?_, ?_⟩
  · rw [hline]
    exact hwhole'
  · rw [haccount]
    exact note_message_of_accepted (haccept m' _)

/-- Lines after whole lines are as many more messages. -/
theorem account_append_lines (haccept : ∀ m (t : τ), (Message.Target.deliver m t).1 = true)
    {ms : List Message} (hms : ∀ m ∈ ms, m.Sendable)
    (hfits : ∀ m ∈ ms, m.line.length ≤ Limits.maxLineBytes) {stream : List UInt8}
    (hwhole : unfinishedLine stream = []) (t : τ) :
    ∃ heard, List.Forall₂ Message.Same ms heard ∧
      unfinishedLine (stream ++ ms.flatMap Message.line) = [] ∧
      (account (stream ++ ms.flatMap Message.line) t).calls = (account stream t).calls ++ heard ∧
      (account (stream ++ ms.flatMap Message.line) t).received =
        (account stream t).received + ms.length ∧
      (account (stream ++ ms.flatMap Message.line) t).errors = (account stream t).errors := by
  induction ms generalizing stream with
  | nil => exact ⟨[], .nil, by simpa using hwhole, by simp, by simp, by simp⟩
  | cons m ms ih =>
    obtain ⟨hm, hms⟩ := List.forall_mem_cons.1 hms
    obtain ⟨hfit, hfits⟩ := List.forall_mem_cons.1 hfits
    obtain ⟨m', hsame, hline, hcalls, hreceived, herrors⟩ :=
      account_append_line haccept hm hfit hwhole t
    obtain ⟨heard, hheard, hlines, hmoreCalls, hmoreReceived, hmoreErrors⟩ := ih hms hfits hline
    refine ⟨m' :: heard, .cons hsame hheard, ?_⟩
    rw [List.flatMap_cons, ← List.append_assoc]
    refine ⟨hlines, ?_, ?_, ?_⟩
    · rw [hmoreCalls, hcalls, List.append_assoc, List.singleton_append]
    · rw [hmoreReceived, hreceived, List.length_cons]
      omega
    · rw [hmoreErrors, herrors]

/-- Messages that were all sent are all heard. If a sender answers `true` to every one of them, a
new intake that is fed what the sink took, in any mix of bytes and buffers, delivers the same
messages in the same order. It counts them, modulo 2^32, and at no point on the way an error. -/
theorem takeAll_sendAll {ω : Type} [SerialSink ω] {taken : ω → List UInt8}
    (hsink : SerialSink.Truthful taken)
    (haccept : ∀ m (t : τ), (Message.Target.deliver m t).1 = true)
    {ms : List Message} (hms : ∀ m ∈ ms, m.Sendable) {s : Sender ω} (hnew : taken s.sink = [])
    (hsent : ∀ answer ∈ (s.sendAll ms).1, answer = true)
    {feedings : List Feeding}
    (hfed : feedings.flatMap Feeding.bytes = taken (s.sendAll ms).2.sink) (t : τ) :
    let (_, intake, recorder) := Intake.takeAll feedings {} ({ target := t } : Message.Recorder τ)
    List.Forall₂ Message.Same ms recorder.calls ∧
      intake.received = UInt32.ofNat ms.length ∧ intake.errors = 0 ∧
      ∀ earlier, earlier.flatMap Feeding.bytes <+: feedings.flatMap Feeding.bytes →
        (Intake.takeAll earlier {} ({ target := t } : Message.Recorder τ)).2.1.errors = 0 := by
  obtain ⟨hfits, htaken⟩ := Sender.sendAll_taken hsink hsent
  have hstream : feedings.flatMap Feeding.bytes = [] ++ ms.flatMap Message.line := by
    rw [hfed, htaken, hnew]
  have hempty : unfinishedLine [] = [] := rfl
  obtain ⟨heard, hheard, hwhole, hcalls, hreceived, herrors⟩ :=
    account_append_lines haccept hms hfits hempty t
  have hnoticed : noticed (feedings.flatMap Feeding.bytes) t = 0 := by
    rw [hstream, noticed, herrors, hwhole]
    rfl
  have hcount : (account (feedings.flatMap Feeding.bytes) t).received = ms.length := by
    rw [hstream, hreceived]
    exact Nat.zero_add _
  rw [← hstream] at hcalls
  rw [takeAll_recorder]
  refine ⟨?_, congrArg UInt32.ofNat hcount, congrArg UInt32.ofNat hnoticed, ?_⟩
  · rw [hcalls]
    exact hheard
  · intro earlier hearlier
    have hnone := Nat.le_zero.1 (hnoticed ▸ noticed_mono hearlier t)
    rw [takeAll_recorder]
    exact congrArg UInt32.ofNat hnone

/-! ## A sink with short writes -/

/-- A sink that takes up to three bytes at once. -/
structure Trickle where
  bytes : List UInt8 := []
deriving DecidableEq, Repr

instance : SerialSink Trickle where
  write bytes sink := (some (min 3 bytes.length), { bytes := sink.bytes ++ bytes.take 3 })

theorem Trickle.truthful : SerialSink.Truthful Trickle.bytes := by
  refine ⟨?_⟩
  intro bytes sink n sink' hwrite
  obtain ⟨hn, rfl⟩ := Prod.mk.inj hwrite
  obtain rfl := Option.some.inj hn
  exact ⟨Nat.min_le_right _ _, by rw [List.take_eq_take_min]⟩

/-- A target that refuses nothing. -/
structure Everyone where
deriving DecidableEq, Repr

instance : Message.Target Everyone where
  deliver _ t := (true, t)

/-- One message of every kind. -/
def everyKind : List Message :=
  [.bang "go", .float "level" Single.nan, .symbol "state" "idle",
    .list "pos" "xy" [.float Single.one, .symbol "up"]]

theorem everyKind_sendable : ∀ m ∈ everyKind, m.Sendable := by
  have hnan : Single.nan.Sendable :=
    Single.sendable_of_text (show Single.nan.text = "NaN" by decide +kernel) (by decide)
      (show Single.ofText? "NaN" = some Single.nan by decide +kernel) (.inl rfl)
  have hone : Single.one.Sendable :=
    Single.sendable_of_text (show Single.one.text = "1" by decide +kernel) (by decide)
      (show Single.ofText? "1" = some Single.one by decide +kernel) (.inl rfl)
  have hup : Atom.Sendable (.symbol "up") := ⟨by decide, by decide +kernel⟩
  have hatoms : ∀ atom ∈ [Atom.float Single.one, Atom.symbol "up"], atom.Sendable :=
    List.forall_mem_cons.2 ⟨hone, List.forall_mem_singleton.2 hup⟩
  intro m hm
  simp only [everyKind, List.mem_cons, List.not_mem_nil, or_false] at hm
  rcases hm with rfl | rfl | rfl | rfl
  · exact show Token "go" by decide
  · exact ⟨by decide, hnan⟩
  · exact ⟨by decide, by decide, by decide, by decide +kernel⟩
  · exact ⟨by decide, by decide, by decide, by decide, hatoms⟩

theorem takeAll_sendAll_everyKind :
    let sent := Sender.sendAll everyKind ({ sink := {} } : Sender Trickle)
    let (_, intake, recorder) :=
      Intake.takeAll [.buffer sent.2.sink.bytes] {} ({ target := {} } : Message.Recorder Everyone)
    List.Forall₂ Message.Same everyKind recorder.calls ∧
      intake.received = 4 ∧ intake.errors = 0 := by
  have hanswers : (Sender.sendAll everyKind ({ sink := {} } : Sender Trickle)).1 =
      [true, true, true, true] := by
    decide +kernel
  intro sent
  have hsent : ∀ answer ∈ sent.1, answer = true := by
    rw [hanswers]
    decide
  have hfed : [Feeding.buffer sent.2.sink.bytes].flatMap Feeding.bytes = sent.2.sink.bytes :=
    List.flatMap_singleton _ _
  have haccept : ∀ m (t : Everyone), (Message.Target.deliver m t).1 = true := fun _ _ => rfl
  obtain ⟨hcalls, hreceived, herrors, -⟩ :=
    takeAll_sendAll Trickle.truthful haccept everyKind_sendable rfl hsent hfed ({} : Everyone)
  exact ⟨hcalls, hreceived, herrors⟩

end Fudi

end Patchbay
