import Patchbay.Proofs.Fudi.RoundTrip
/-!
# Lines that were cut off

A sink that fails in the middle of a line has taken a part of it, and nothing ends that part. A peer
reads it together with the next line that is written, as one line. `heard` computes what a peer
hears from how much of each line was taken (`takeAll_heard`). So a message that was written in full
is heard as it is if no part of an earlier line is left in front of it, and it may turn into another
message if there is one (`takeAll_glued`).
-/

namespace Patchbay

/-- Even a write that fails takes nothing but a front of what it is offered. -/
structure SerialSink.TakesFront {ω : Type} [SerialSink ω] (taken : ω → List UInt8) : Prop
    extends SerialSink.Truthful taken where
  failed : ∀ {bytes sink sink'}, SerialSink.write bytes sink = (none, sink') →
    ∃ n, taken sink' = taken sink ++ bytes.take n

/-- A write that fails takes nothing. -/
structure SerialSink.Candid {ω : Type} [SerialSink ω] (taken : ω → List UInt8) : Prop
    extends SerialSink.Truthful taken where
  failed : ∀ {bytes sink sink'}, SerialSink.write bytes sink = (none, sink') →
    taken sink' = taken sink

theorem SerialSink.Candid.takesFront {ω : Type} [SerialSink ω] {taken : ω → List UInt8}
    (h : SerialSink.Candid taken) : SerialSink.TakesFront taken where
  toTruthful := h.toTruthful
  failed hwrite := ⟨0, (h.failed hwrite).trans (List.append_nil _).symm⟩

theorem Atom.Same.refl (atom : Atom) : atom.Same atom := by
  cases atom with
  | float value => exact .float (.inl rfl)
  | symbol name => exact .symbol name

theorem Message.Same.refl (m : Message) : m.Same m := by
  cases m with
  | bang receiver => exact .bang receiver
  | float receiver value => exact .float receiver (.inl rfl)
  | symbol receiver name => exact .symbol receiver name
  | list receiver selector atoms =>
    exact .list receiver selector (List.forall₂_same.2 fun atom _ => Atom.Same.refl atom)

namespace Fudi

/-! ## What is taken of a line -/

/-- What came of a message that was sent. -/
structure Attempt where
  message : Message
  /-- Whether the sender answered that the line was written in full. -/
  written : Bool
  /-- How many bytes of the line the sink took. -/
  taken : Nat
deriving DecidableEq, Repr

namespace Attempt

/-- The bytes that the sink took. -/
def bytes (a : Attempt) : List UInt8 :=
  a.message.line.take a.taken

/-- A line of which something was taken fits, and all of it was taken if the sender says so. -/
structure Fair (a : Attempt) : Prop where
  fits : 0 < a.taken → a.message.line.length ≤ Limits.maxLineBytes
  whole : a.written = true → a.taken = a.message.line.length

end Attempt

namespace Sender

variable {ω : Type} [SerialSink ω] {taken : ω → List UInt8}

theorem drain_takes (hsink : SerialSink.TakesFront taken) (bytes : List UInt8) (sink : ω) :
    ∃ n, taken (drain bytes sink).2 = taken sink ++ bytes.take n := by
  fun_induction drain bytes sink with
  | case1 sink => exact ⟨0, (List.append_nil _).symm⟩
  | case2 sink byte rest sink' hwrite => exact hsink.failed hwrite
  | case3 sink byte rest sink' hwrite => exact ⟨0, (hsink.write hwrite).2⟩
  | case4 sink byte rest n sink' hwrite ih =>
    obtain ⟨more, hmore⟩ := ih
    obtain ⟨-, htaken⟩ := hsink.write hwrite
    refine ⟨n + 1 + more, ?_⟩
    rw [hmore, htaken, List.append_assoc, List.take_add]
    rfl

/-- A line that is too long is not offered to the sink. Of any other a front is taken. -/
theorem send_takes (hsink : SerialSink.TakesFront taken) (m : Message) (s : Sender ω) :
    ∃ n, taken (send m s).2.sink = taken s.sink ++ m.line.take n ∧
      (0 < n → m.line.length ≤ Limits.maxLineBytes) := by
  obtain ⟨n, hdrain⟩ := drain_takes hsink m.line s.sink
  by_cases hlong : Limits.maxLineBytes < (line m.receiver m.payload).utf8ByteSize
  · refine ⟨0, ?_, fun h => absurd h (Nat.lt_irrefl 0)⟩
    simp [send, sendText, hlong]
  · refine ⟨n, ?_, ?_⟩
    · unfold send sendText
      simp only [if_neg hlong]
      rw [Message.line, Text.bytes] at hdrain ⊢
      rcases hrun : drain (line m.receiver m.payload).toUTF8.data.toList s.sink with ⟨done, sink⟩
      rw [hrun] at hdrain
      cases done <;> exact hdrain
    · intro _
      rw [Message.line, Text.length_bytes]
      exact Nat.le_of_not_lt hlong

/-- What comes of messages that are sent in order. -/
def attempts (taken : ω → List UInt8) : List Message → Sender ω → List Attempt
  | [], _ => []
  | m :: rest, s =>
    let r := send m s
    ⟨m, r.1, (taken r.2.sink).length - (taken s.sink).length⟩ :: attempts taken rest r.2

theorem attempts_fair (hsink : SerialSink.TakesFront taken) (ms : List Message) (s : Sender ω) :
    (∀ a ∈ attempts taken ms s, a.Fair) ∧
      taken (sendAll ms s).2.sink =
        taken s.sink ++ (attempts taken ms s).flatMap Attempt.bytes := by
  induction ms generalizing s with
  | nil =>
    refine ⟨?_, (List.append_nil _).symm⟩
    intro a ha
    cases ha
  | cons m ms ih =>
    obtain ⟨hfair, hrest⟩ := ih (send m s).2
    obtain ⟨n, htaken, hfits⟩ := send_takes hsink m s
    have hcount : (taken (send m s).2.sink).length - (taken s.sink).length =
        (m.line.take n).length := by
      rw [htaken, List.length_append, Nat.add_sub_cancel_left]
    refine ⟨List.forall_mem_cons.2 ⟨⟨?_, ?_⟩, hfair⟩, ?_⟩
    · intro hsome
      rw [hcount, List.length_take] at hsome
      exact hfits (Nat.lt_of_lt_of_le hsome (Nat.min_le_left _ _))
    · intro hsent
      rw [(send_taken hsink.toTruthful hsent).2, List.length_append, Nat.add_sub_cancel_left]
    · have hfirst : m.line.take
          ((taken (send m s).2.sink).length - (taken s.sink).length) = m.line.take n := by
        rw [hcount, List.length_take, ← List.take_eq_take_min]
      rw [htaken, List.append_assoc, ← hfirst] at hrest
      exact hrest

theorem map_attempts (taken : ω → List UInt8) (ms : List Message) (s : Sender ω) :
    (attempts taken ms s).map Attempt.message = ms ∧
      (attempts taken ms s).map Attempt.written = (sendAll ms s).1 := by
  induction ms generalizing s with
  | nil => exact ⟨rfl, rfl⟩
  | cons m ms ih =>
    obtain ⟨hmessages, hanswers⟩ := ih (send m s).2
    exact ⟨List.cons_eq_cons.2 ⟨rfl, hmessages⟩, List.cons_eq_cons.2 ⟨rfl, hanswers⟩⟩

end Sender

/-! ## What is heard of it -/

def Reading.messages : Reading → List Message
  | .message m => [m]
  | .unreadable => []
  | .blank => []

/-- What a peer hears, where some bytes of earlier lines have no end yet. A line of which no more
was taken than its body has no end either. Any other is heard, together with what is left in front
of it. -/
def heard : List UInt8 → List Attempt → List Message
  | _, [] => []
  | left, a :: rest =>
    let body := Text.bytes a.message.body
    if a.taken ≤ body.length then heard (left ++ body.take a.taken) rest
    else
      (if left = [] then [a.message] else (readLine (left ++ body)).messages) ++ heard [] rest

/-- The messages that were written in full where nothing is left of an earlier line: it was written
in full as well, or nothing was taken of it. -/
def undamaged : Bool → List Attempt → List Message
  | _, [] => []
  | clean, a :: rest =>
    (if clean && a.written then [a.message] else []) ++
      undamaged (a.written || clean && a.taken == 0) rest

theorem undamaged_sublist {attempts : List Attempt} (hfair : ∀ a ∈ attempts, a.Fair) {clean : Bool}
    {left : List UInt8} (hclean : clean = true → left = []) :
    (undamaged clean attempts).Sublist (heard left attempts) := by
  induction attempts generalizing clean left with
  | nil => exact List.Sublist.slnil
  | cons a rest ih =>
    obtain ⟨ha, hrest⟩ := List.forall_mem_cons.1 hfair
    have hempty : ∀ clean : Bool, clean = true → ([] : List UInt8) = [] := fun _ _ => rfl
    unfold undamaged heard
    cases hwritten : a.written with
    | true =>
      have hall : ¬a.taken ≤ (Text.bytes a.message.body).length := by
        rw [ha.whole hwritten, Message.line_eq, List.length_append]
        exact Nat.not_le.2 (Nat.lt_add_of_pos_right Nat.two_pos)
      rw [if_neg hall]
      refine List.Sublist.append ?_ (ih hrest (hempty _))
      cases clean with
      | true =>
        rw [if_pos (hclean rfl)]
        exact List.Sublist.refl _
      | false => exact List.nil_sublist _
    | false =>
      rw [Bool.and_false, if_neg Bool.false_ne_true, List.nil_append, Bool.false_or]
      by_cases hpart : a.taken ≤ (Text.bytes a.message.body).length
      · rw [if_pos hpart]
        refine ih hrest ?_
        intro hstill
        obtain ⟨hbefore, hnone⟩ := Bool.and_eq_true_iff.1 hstill
        rw [hclean hbefore, eq_of_beq hnone]
        rfl
      · rw [if_neg hpart]
        exact (ih hrest (hempty _)).trans (List.sublist_append_right _ _)

variable {τ : Type} [Message.Target τ]

theorem Account.calls_note (a : Account τ) (r : Reading) :
    (a.note r).calls = a.calls ++ r.messages := by
  cases r with
  | unreadable => exact (List.append_nil _).symm
  | blank => exact (List.append_nil _).symm
  | message m => rfl

section Attempted

variable {a : Attempt} (hm : a.message.Sendable) (stream : List UInt8) (t : τ)

include hm

/-- A part of a line adds to what is left of earlier ones. -/
theorem account_append_part (hpart : a.taken ≤ (Text.bytes a.message.body).length) :
    unfinishedLine (stream ++ a.bytes) =
        unfinishedLine stream ++ (Text.bytes a.message.body).take a.taken ∧
      account (stream ++ a.bytes) t = account stream t := by
  have hbytes : a.bytes = (Text.bytes a.message.body).take a.taken := by
    rw [Attempt.bytes, Message.line_eq, List.take_append_of_le_length hpart]
  have hbyte : ∀ byte ∈ (Text.bytes a.message.body).take a.taken,
      byte ≠ Intake.carriageReturn ∧ Intake.isTerminator byte = false :=
    fun byte hmem => hm.body_byte byte (List.mem_of_mem_take hmem)
  obtain ⟨hfinished, hunfinished⟩ := lines_append_bytes stream hbyte
  rw [hbytes]
  exact ⟨hunfinished, account_of_finishedLines hfinished t⟩

/-- A line with its mark is read behind what is left of earlier ones, with its line feed or
without. -/
theorem account_append_whole (hwhole : (Text.bytes a.message.body).length < a.taken) :
    unfinishedLine (stream ++ a.bytes) = [] ∧
      (account (stream ++ a.bytes) t).calls = (account stream t).calls ++
        (readLine (unfinishedLine stream ++ Text.bytes a.message.body)).messages := by
  obtain ⟨hempty, hmarked⟩ := account_append_marked stream hm.body_byte t
  have hbytes : a.bytes = Text.bytes a.message.body ++ [0x3b] ∨
      a.bytes = Text.bytes a.message.body ++ [0x3b] ++ [0x0a] := by
    rw [Attempt.bytes, Message.line_eq, List.take_append, List.take_of_length_le (Nat.le_of_lt hwhole)]
    obtain ⟨more, hmore⟩ := Nat.exists_eq_add_of_lt hwhole
    cases more with
    | zero =>
      left
      rw [hmore, Nat.add_zero, Nat.add_sub_cancel_left]
      rfl
    | succ more =>
      right
      rw [List.take_of_length_le (by rw [hmore]; simp only [List.length_cons, List.length_nil]; omega),
        List.append_assoc]
      rfl
  rcases hbytes with hbytes | hbytes
  · rw [hbytes, ← List.append_assoc, hmarked, Account.add, Account.calls_note]
    exact ⟨hempty, rfl⟩
  · obtain ⟨hfed, hblank⟩ := account_append_lineFeed hempty t
    rw [hbytes, ← List.append_assoc, ← List.append_assoc, hblank, hmarked, Account.calls_note,
      Account.add, Account.calls_note]
    exact ⟨hfed, List.append_nil _⟩

end Attempted

/-- The account of what was taken of some lines. -/
theorem account_append_attempts {attempts : List Attempt}
    (hms : ∀ a ∈ attempts, a.message.Sendable) (hfair : ∀ a ∈ attempts, a.Fair)
    (stream : List UInt8) (t : τ) :
    ∃ calls, List.Forall₂ Message.Same (heard (unfinishedLine stream) attempts) calls ∧
      (account (stream ++ attempts.flatMap Attempt.bytes) t).calls =
        (account stream t).calls ++ calls := by
  induction attempts generalizing stream with
  | nil =>
    refine ⟨[], .nil, ?_⟩
    rw [List.flatMap_nil, List.append_nil, List.append_nil]
  | cons a rest ih =>
    obtain ⟨hm, hms⟩ := List.forall_mem_cons.1 hms
    obtain ⟨ha, hfair⟩ := List.forall_mem_cons.1 hfair
    obtain ⟨calls, hcalls, hrest⟩ := ih hms hfair (stream ++ a.bytes)
    rw [List.flatMap_cons, ← List.append_assoc]
    unfold heard
    by_cases hpart : a.taken ≤ (Text.bytes a.message.body).length
    · obtain ⟨hleft, haccount⟩ := account_append_part hm stream t hpart
      rw [hleft] at hcalls
      rw [haccount] at hrest
      rw [if_pos hpart]
      exact ⟨calls, hcalls, hrest⟩
    · obtain ⟨hempty, haccount⟩ := account_append_whole hm stream t (Nat.lt_of_not_le hpart)
      rw [hempty] at hcalls
      rw [haccount, List.append_assoc (account stream t).calls] at hrest
      rw [if_neg hpart]
      refine ⟨_, List.rel_append ?_ hcalls, hrest⟩
      by_cases hnothing : unfinishedLine stream = []
      · have hfits := ha.fits (Nat.lt_of_le_of_lt (Nat.zero_le _) (Nat.lt_of_not_le hpart))
        obtain ⟨m', hsame, hread⟩ := readLine_body hm hfits
        rw [if_pos hnothing, hnothing, List.nil_append, hread]
        exact .cons hsame .nil
      · rw [if_neg hnothing]
        exact List.forall₂_same.2 fun m _ => Message.Same.refl m

theorem sublistForall₂_of_sublist {α β : Type} {R : α → β → Prop} {l l' : List α} {k : List β}
    (hsub : l.Sublist l') (hrel : List.Forall₂ R l' k) : List.SublistForall₂ R l k := by
  induction hsub generalizing k with
  | slnil => exact .nil
  | cons _ _ ih =>
    cases hrel with
    | cons _ hrest => exact .cons_right (ih hrest)
  | cons_cons _ _ ih =>
    cases hrel with
    | cons hfirst hrest => exact .cons hfirst (ih hrest)

/-- What a new intake hears of messages that were sent over a sink that may fail anywhere: it is
told by how much of each line the sink took. Among it are, in order and as they were sent, all
messages that were written in full where nothing is left of an earlier line. -/
theorem takeAll_heard {ω : Type} [SerialSink ω] {taken : ω → List UInt8}
    (hsink : SerialSink.TakesFront taken) {ms : List Message} (hms : ∀ m ∈ ms, m.Sendable)
    {s : Sender ω} (hnew : taken s.sink = []) {feedings : List Feeding}
    (hfed : feedings.flatMap Feeding.bytes = taken (s.sendAll ms).2.sink) (t : τ) :
    let attempts := Sender.attempts taken ms s
    let (_, _, recorder) := Intake.takeAll feedings {} ({ target := t } : Message.Recorder τ)
    attempts.map Attempt.message = ms ∧
      attempts.map Attempt.written = (s.sendAll ms).1 ∧
      List.Forall₂ Message.Same (heard [] attempts) recorder.calls ∧
      List.SublistForall₂ Message.Same (undamaged true attempts) recorder.calls := by
  intro attempts
  obtain ⟨hmessages, hanswers⟩ := Sender.map_attempts taken ms s
  obtain ⟨hfair, htaken⟩ := Sender.attempts_fair hsink ms s
  have hsendable : ∀ a ∈ attempts, a.message.Sendable := by
    intro a ha
    apply hms
    rw [← hmessages]
    exact List.mem_map_of_mem ha
  obtain ⟨calls, hheard, hcalls⟩ := account_append_attempts hsendable hfair [] t
  have hstream : feedings.flatMap Feeding.bytes = [] ++ attempts.flatMap Attempt.bytes := by
    rw [hfed, htaken, hnew]
  rw [takeAll_recorder, hstream, hcalls]
  refine ⟨hmessages, hanswers, hheard, ?_⟩
  exact sublistForall₂_of_sublist (undamaged_sublist hfair fun _ => rfl) hheard

/-! ## A sink that fails -/

/-- A sink that takes up to three bytes at once and whose writes fail as planned, and then no
more. -/
structure Stumbling where
  bytes : List UInt8 := []
  fails : List Bool
deriving DecidableEq, Repr

instance : SerialSink Stumbling where
  write bytes sink :=
    if sink.fails.headD false then (none, { sink with fails := sink.fails.tail })
    else
      (some (min 3 bytes.length), { bytes := sink.bytes ++ bytes.take 3, fails := sink.fails.tail })

theorem Stumbling.candid : SerialSink.Candid Stumbling.bytes := by
  refine ⟨⟨?_⟩, ?_⟩
  · intro bytes sink n sink' hwrite
    simp only [SerialSink.write] at hwrite
    split at hwrite
    · cases hwrite
    · obtain ⟨hn, rfl⟩ := Prod.mk.inj hwrite
      obtain rfl := Option.some.inj hn
      exact ⟨Nat.min_le_right _ _, by rw [List.take_eq_take_min]⟩
  · intro bytes sink sink' hwrite
    simp only [SerialSink.write] at hwrite
    split at hwrite
    · obtain ⟨-, rfl⟩ := Prod.mk.inj hwrite
      rfl
    · cases hwrite

theorem Stumbling.takesFront : SerialSink.TakesFront Stumbling.bytes :=
  Stumbling.candid.takesFront

/-- The second write fails. -/
def stumblingSender : Sender Stumbling := { sink := { fails := [false, true] } }

/-- The message that was cut off takes the place of the receiver of the next one. The one after it
is heard as it was sent. -/
theorem takeAll_heard_stumbling :
    let ms : List Message := [.bang "go", .bang "up", .bang "on"]
    let sent := stumblingSender.sendAll ms
    let attempts := Sender.attempts Stumbling.bytes ms stumblingSender
    let (_, _, recorder) :=
      Intake.takeAll [.buffer sent.2.sink.bytes] {} ({ target := {} } : Message.Recorder Everyone)
    sent.1 = [false, true, true] ∧ attempts.map Attempt.taken = [3, 9, 9] ∧
      List.Forall₂ Message.Same [.list "go" "up" [.symbol "bang"], .bang "on"] recorder.calls ∧
      List.SublistForall₂ Message.Same [.bang "on"] recorder.calls := by
  intro ms sent attempts
  have hms : ∀ m ∈ ms, m.Sendable := by
    intro m hm
    simp only [ms, List.mem_cons, List.not_mem_nil, or_false] at hm
    rcases hm with rfl | rfl | rfl <;> exact show Token _ by decide
  have hfed : [Feeding.buffer sent.2.sink.bytes].flatMap Feeding.bytes = sent.2.sink.bytes :=
    List.flatMap_singleton _ _
  have hattempts : attempts =
      [⟨.bang "go", false, 3⟩, ⟨.bang "up", true, 9⟩, ⟨.bang "on", true, 9⟩] := by
    decide +kernel
  obtain ⟨-, hanswers, hheard, hundamaged⟩ :=
    takeAll_heard Stumbling.takesFront hms rfl hfed ({} : Everyone)
  have hcalls : heard [] attempts = [.list "go" "up" [.symbol "bang"], .bang "on"] := by
    rw [hattempts]
    decide +kernel
  have hclean : undamaged true attempts = [.bang "on"] := by
    rw [hattempts]
    decide
  refine ⟨hanswers.symm.trans (congrArg _ hattempts), congrArg _ hattempts, ?_, ?_⟩
  · rw [← hcalls]
    exact hheard
  · rw [← hclean]
    exact hundamaged

/-- A message that was written in full is not heard, because the one before it was cut off. -/
theorem takeAll_glued :
    let ms : List Message := [.bang "go", .bang "up"]
    let sent := stumblingSender.sendAll ms
    let (_, _, recorder) :=
      Intake.takeAll [.buffer sent.2.sink.bytes] {} ({ target := {} } : Message.Recorder Everyone)
    SerialSink.TakesFront Stumbling.bytes ∧ (∀ m ∈ ms, m.Sendable) ∧
      (∀ m (t : Everyone), (Message.Target.deliver m t).1 = true) ∧ sent.1 = [false, true] ∧
      ¬∃ call ∈ recorder.calls, Message.Same (.bang "up") call := by
  intro ms sent
  refine ⟨Stumbling.takesFront, ?_, fun _ _ => rfl, by decide +kernel, ?_⟩
  · intro m hm
    simp only [ms, List.mem_cons, List.not_mem_nil, or_false] at hm
    rcases hm with rfl | rfl <;> exact show Token _ by decide
  · have hcalls : (Intake.takeAll [.buffer sent.2.sink.bytes] {}
        ({ target := {} } : Message.Recorder Everyone)).2.2.calls =
          [.list "go" "up" [.symbol "bang"]] := by
      decide +kernel
    rintro ⟨call, hcall, hsame⟩
    have hmem : call ∈ [Message.list "go" "up" [.symbol "bang"]] := by
      rw [← hcalls]
      exact hcall
    obtain rfl := List.mem_singleton.1 hmem
    cases hsame

end Fudi

end Patchbay
