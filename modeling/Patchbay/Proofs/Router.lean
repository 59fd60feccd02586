import Mathlib.Data.Bool.Count
import Patchbay.Router
import Patchbay.Proofs.Run
import Patchbay.Proofs.Fudi.Dispatch
import Patchbay.Proofs.Fudi.Writes
/-!
# One router, separate channels

Calls on a router in any order: control text, MIDI packets, messages and console text of the engine,
and lines that are written by hand. A call concerns one part of the router and leaves the others as
they are. So every part does what it would do alone, with only its own calls in the same order, and
each call is counted once (`performAll_separate`). That holds for any reader of the bytes of a
packet.
-/

namespace Patchbay

/-! ## An engine that is listened in on -/

/-- An engine with a record of what reached it. -/
structure Overheard (σ : Type) where
  engine : σ
  /-- The messages that were delivered, and whether they were accepted. -/
  messages : List (Message × Bool) := []
  events : List Midi.Event := []
deriving DecidableEq, Repr

namespace Overheard

variable {σ : Type}

instance [Message.Target σ] : Message.Target (Overheard σ) where
  deliver m t :=
    let r := Message.Target.deliver m t.engine
    (r.1, { t with engine := r.2, messages := t.messages ++ [(m, r.1)] })

instance [Midi.Target σ] : Midi.Target (Overheard σ) where
  play event t :=
    { t with engine := Midi.Target.play event t.engine, events := t.events ++ [event] }

/-- An engine was delivered what a recorder shows, and accepted what is known to it. -/
def Matches (known : String → Bool) (t : Overheard σ) (u : Message.Recorder σ) : Prop :=
  t.messages = u.calls.map fun m => (m, known m.receiver)

variable {known : String → Bool}

theorem acceptAlike_of_known [Message.Target σ]
    (haccept : ∀ m (t : σ), (Message.Target.deliver m t).1 = known m.receiver) :
    Fudi.AcceptAlike fun (t : Overheard σ) u => t.Matches known u := by
  intro m t u h
  have hleft : (Message.Target.deliver m t).1 = known m.receiver := haccept m t.engine
  have hright : (Message.Target.deliver m u).1 = known m.receiver := haccept m u.target
  refine ⟨hleft.trans hright.symm, ?_⟩
  have hmessages : (Message.Target.deliver m t).2.messages =
      t.messages ++ [(m, (Message.Target.deliver m t).1)] := rfl
  have hcalls : (Message.Target.deliver m u).2.calls = u.calls ++ [m] := rfl
  change Matches known _ _
  unfold Matches at h ⊢
  rw [hmessages, hcalls, hleft, h, List.map_append]
  rfl

end Overheard

/-! ## A decoder and a writer on their own -/

/-- Two counters that share what they count show its number between them, modulo 2^32, and exactly
if it is small enough. -/
theorem counters_of_shares {a b n : Nat} (h : a + b = n) :
    UInt32.ofNat a + UInt32.ofNat b = UInt32.ofNat n ∧
      (n < UInt32.size → (UInt32.ofNat a).toNat + (UInt32.ofNat b).toNat = n) := by
  subst h
  refine ⟨(UInt32.ofNat_add a b).symm, fun hsmall => ?_⟩
  rw [UInt32.toNat_ofNat_of_lt' (by omega), UInt32.toNat_ofNat_of_lt' (by omega)]

/-- The event of a packet, if it gives one. -/
def Midi.Event.decodeWith? (read : Reader) (packet : List UInt8) : Option Event :=
  (decodeWith read packet).toOption

/-- A decoder of packets with its counters. -/
structure Midi.Decoder where
  events : List Event := []
  received : UInt32 := 0
  ignored : UInt32 := 0
deriving DecidableEq, Repr

namespace Midi.Decoder

def next (read : Reader) (d : Decoder) (packet : List UInt8) : Decoder :=
  match Event.decodeWith read packet with
  | .ok event => { d with events := d.events ++ [event], received := d.received + 1 }
  | .error _ => { d with ignored := d.ignored + 1 }

variable {read : Reader}

theorem next_of_some {packet : List UInt8} {event : Event}
    (h : Event.decodeWith? read packet = some event) (d : Decoder) :
    d.next read packet = { d with events := d.events ++ [event], received := d.received + 1 } := by
  unfold Event.decodeWith? at h
  unfold next
  cases hdecode : Event.decodeWith read packet with
  | ok event' =>
    rw [hdecode] at h
    obtain rfl : event' = event := Option.some.inj h
    rfl
  | error why =>
    rw [hdecode] at h
    cases h

theorem next_of_none {packet : List UInt8} (h : Event.decodeWith? read packet = none)
    (d : Decoder) : d.next read packet = { d with ignored := d.ignored + 1 } := by
  unfold Event.decodeWith? at h
  unfold next
  cases hdecode : Event.decodeWith read packet with
  | ok event =>
    rw [hdecode] at h
    cases h
  | error why => rfl

theorem foldl_next (packets : List (List UInt8)) (d : Decoder) :
    packets.foldl (next read) d =
      let events := packets.filterMap (Event.decodeWith? read)
      let silent := packets.countP fun packet => !(Event.decodeWith? read packet).isSome
      { events := d.events ++ events
        received := d.received + UInt32.ofNat events.length
        ignored := d.ignored + UInt32.ofNat silent } := by
  induction packets generalizing d with
  | nil => simp
  | cons packet packets ih =>
    rw [List.foldl_cons, ih]
    cases hevent : Event.decodeWith? read packet with
    | some event =>
      rw [next_of_some hevent, List.filterMap_cons_some hevent,
        List.countP_cons_of_neg (by simp [hevent])]
      simp only [List.append_assoc, List.singleton_append, List.length_cons, UInt32.ofNat_add,
        UInt32.ofNat_one, UInt32.add_assoc, UInt32.add_comm 1]
    | none =>
      rw [next_of_none hevent, List.filterMap_cons_none hevent,
        List.countP_cons_of_pos (by simp [hevent])]
      simp only [UInt32.ofNat_add, UInt32.ofNat_one, UInt32.add_assoc, UInt32.add_comm 1]

/-- A new decoder counts an event or an ignored packet for every packet. -/
theorem foldl_next_counts (read : Reader) (packets : List (List UInt8)) :
    let d := packets.foldl (next read) {}
    d.events = packets.filterMap (Event.decodeWith? read) ∧
      d.received = UInt32.ofNat d.events.length ∧
      ∃ silent, d.events.length + silent = packets.length ∧ d.ignored = UInt32.ofNat silent := by
  intro d
  have hd : d = _ := foldl_next packets {}
  have hevents : d.events = packets.filterMap (Event.decodeWith? read) := by rw [hd]; rfl
  refine ⟨hevents, ?_, packets.countP fun packet => !(Event.decodeWith? read packet).isSome, ?_, ?_⟩
  · rw [hevents, hd]
    exact UInt32.zero_add _
  · rw [hevents, List.length_filterMap_eq_countP,
      List.length_eq_countP_add_countP fun packet => (Event.decodeWith? read packet).isSome]
    exact congrArg _ (List.countP_congr fun packet _ => by simp)
  · rw [hd]
    exact UInt32.zero_add _

end Midi.Decoder

namespace Fudi.Sender

variable {ω : Type} [SerialSink ω]

/-- Sends a line, given by its receiver and the text after it. -/
def next (s : Sender ω) (line : String × String) : Sender ω :=
  (s.sendText line.1 line.2).2

theorem foldl_next (lines : List (String × String)) (s : Sender ω) :
    lines.foldl next s =
      (runAll perform s (lines.map fun line => SenderCall.text line.1 line.2)).2 := by
  induction lines generalizing s with
  | nil => rfl
  | cons line lines ih => exact ih (s.next line)

/-- A new sender counts every line as sent or as dropped. -/
theorem foldl_next_counts (lines : List (String × String)) (sink : ω) :
    let s := lines.foldl next { sink }
    ∃ written lost, written + lost = lines.length ∧ s.sent = UInt32.ofNat written ∧
      s.dropped = UInt32.ofNat lost := by
  intro s
  let calls := lines.map fun line => SenderCall.text line.1 line.2
  let r := runAll perform ({ sink } : Sender ω) calls
  have hs : s = r.2 := foldl_next lines { sink }
  obtain ⟨hsent, hdropped⟩ := runAll_perform_counters ({ sink } : Sender ω) calls
  refine ⟨r.1.count true, r.1.count false, ?_, ?_, ?_⟩
  · rw [List.count_true_add_count_false, length_runAll, List.length_map]
  · rw [hs, hsent]
    exact UInt32.zero_add _
  · rw [hs, hdropped]
    exact UInt32.zero_add _

end Fudi.Sender

/-! ## Calls -/

inductive RouterCall where
  /-- A byte or a buffer of control text. -/
  | text (feeding : Fudi.Feeding)
  | midi (packet : List UInt8)
  /-- A message of the engine. -/
  | emit (m : Message)
  /-- Console text of the engine. -/
  | print (text : String)
  /-- A message that is written by hand. -/
  | send (m : Message)
  /-- Any text for a receiver, written by hand. -/
  | sendText (receiver payload : String)
deriving DecidableEq, Repr

inductive RouterReply where
  | answered (answer : Fudi.Answer)
  | played (done : Bool)
  | sent (done : Bool)
  | silent
deriving DecidableEq, Repr

namespace RouterCall

def feeding? : RouterCall → Option Fudi.Feeding
  | text feeding => some feeding
  | _ => none

def packet? : RouterCall → Option (List UInt8)
  | midi packet => some packet
  | _ => none

/-- The receiver of a line that is to be written, and the text after it. -/
def line? : RouterCall → Option (String × String)
  | emit m => some (m.receiver, m.payload)
  | send m => some (m.receiver, m.payload)
  | sendText receiver payload => some (receiver, payload)
  | _ => none

def console? : RouterCall → Option String
  | print shown => some shown
  | _ => none

end RouterCall

def RouterReply.answer? : RouterReply → Option Fudi.Answer
  | answered answer => some answer
  | _ => none

namespace Router

variable {ω σ τ : Type} [SerialSink ω]

section Calls

variable [Message.Target τ] [Midi.Target τ] (read : Midi.Reader)

def perform (s : Router ω × τ) : RouterCall → RouterReply × (Router ω × τ)
  | .text (.byte b) =>
    let r := (s.1.feed [b] s.2).value
    (.answered (.done (r.1.headD false)), r.2)
  | .text (.buffer bytes) =>
    let r := (s.1.feedAll bytes s.2).value
    (.answered (.count r.1), r.2)
  | .midi packet =>
    let r := s.1.midi read packet s.2
    (.played r.1, r.2)
  | .emit m => (.silent, (s.1.send m).2, s.2)
  | .print text => (.silent, (s.1.print text).value, s.2)
  | .send m =>
    let r := s.1.sender.send m
    (.sent r.1, { s.1 with sender := r.2 }, s.2)
  | .sendText receiver payload =>
    let r := s.1.sender.sendText receiver payload
    (.sent r.1, { s.1 with sender := r.2 }, s.2)

def performAll (s : Router ω × τ) (calls : List RouterCall) :
    List RouterReply × (Router ω × τ) :=
  runAll (perform read) s calls

/-! ## What a call concerns -/

/-- Control text concerns the intake and the engine. -/
theorem perform_text (s : Router ω × τ) (feeding : Fudi.Feeding) :
    perform read s (.text feeding) =
      let r := Fudi.Intake.take feeding s.1.intake s.2
      (.answered r.1, { s.1 with intake := r.2.1 }, r.2.2) := by
  cases feeding with
  | byte b => rfl
  | buffer bytes => rfl

/-- A packet concerns its counters and the engine. -/
theorem perform_midi (s : Router ω × τ) (packet : List UInt8) :
    perform read s (.midi packet) =
      match Midi.Event.decodeWith read packet with
      | .ok event =>
        (.played true, { s.1 with midiReceived := s.1.midiReceived + 1 },
          Midi.Target.play event s.2)
      | .error _ => (.played false, { s.1 with midiIgnored := s.1.midiIgnored + 1 }, s.2) := by
  simp only [perform, midi]
  cases Midi.Event.decodeWith read packet <;> rfl

/-- A line concerns the sender, and console text a counter. -/
theorem perform_outgoing (s : Router ω × τ) (call : RouterCall) :
    (perform read s call).2.1.sender = call.line?.elim s.1.sender s.1.sender.next ∧
      (perform read s call).2.1.printed =
        call.console?.elim s.1.printed fun _ => s.1.printed + 1 := by
  cases call with
  | text feeding =>
    rw [perform_text]
    exact ⟨rfl, rfl⟩
  | midi packet =>
    rw [perform_midi]
    cases Midi.Event.decodeWith read packet <;> exact ⟨rfl, rfl⟩
  | emit m => exact ⟨rfl, rfl⟩
  | print text => exact ⟨rfl, rfl⟩
  | send m => exact ⟨rfl, rfl⟩
  | sendText receiver payload => exact ⟨rfl, rfl⟩

end Calls

section Engines

variable [Message.Target σ] [Midi.Target σ] (read : Midi.Reader)

/-- What a decoder would be that saw what the router did and the engine heard. -/
def decoder (s : Router ω × Overheard σ) : Midi.Decoder where
  events := s.2.events
  received := s.1.midiReceived
  ignored := s.1.midiIgnored

theorem perform_decoder (s : Router ω × Overheard σ) (call : RouterCall) :
    decoder (perform read s call).2 = call.packet?.elim (decoder s) ((decoder s).next read) := by
  cases call with
  | text feeding =>
    have hevents : (Fudi.Intake.take feeding s.1.intake s.2).2.2.events = s.2.events :=
      Fudi.Intake.take_keeps (P := fun t : Overheard σ => t.events = s.2.events)
        (fun _ _ h => h) feeding s.1.intake rfl
    rw [perform_text]
    unfold decoder
    simp only [hevents]
    rfl
  | midi packet =>
    rw [perform_midi, RouterCall.packet?, Option.elim_some, Midi.Decoder.next]
    cases Midi.Event.decodeWith read packet <;> rfl
  | emit m => rfl
  | print text => rfl
  | send m => rfl
  | sendText receiver payload => rfl

/-- Keeping records changes nothing else. -/
theorem perform_engine (s : Router ω × Overheard σ) (call : RouterCall) :
    (perform read s call).1 = (perform read (s.1, s.2.engine) call).1 ∧
      ((perform read s call).2.1, (perform read s call).2.2.engine) =
        (perform read (s.1, s.2.engine) call).2 := by
  cases call with
  | text feeding =>
    have hR : Fudi.AcceptAlike fun (t : Overheard σ) (u : σ) => t.engine = u := by
      rintro m t u rfl
      exact ⟨rfl, rfl⟩
    obtain ⟨hanswer, hintake, hengine⟩ :=
      Fudi.Intake.take_alike hR feeding s.1.intake (rfl : s.2.engine = s.2.engine)
    rw [perform_text, perform_text]
    exact ⟨congrArg RouterReply.answered hanswer,
      Prod.ext (congrArg (fun intake => { s.1 with intake }) hintake) hengine⟩
  | midi packet =>
    rw [perform_midi, perform_midi]
    cases Midi.Event.decodeWith read packet <;> exact ⟨rfl, rfl⟩
  | emit m => exact ⟨rfl, rfl⟩
  | print text => exact ⟨rfl, rfl⟩
  | send m => exact ⟨rfl, rfl⟩
  | sendText receiver payload => exact ⟨rfl, rfl⟩

variable {known : String → Bool}

/-- What a router and its engine have in common with an intake of its own and a recorder. -/
structure HearsText (known : String → Bool) (s : Router ω × Overheard σ)
    (p : Fudi.Intake × Message.Recorder σ) : Prop where
  intake_eq : s.1.intake = p.1
  matches_calls : s.2.Matches known p.2

theorem HearsText.perform
    (haccept : ∀ m (t : σ), (Message.Target.deliver m t).1 = known m.receiver)
    {s : Router ω × Overheard σ} {p : Fudi.Intake × Message.Recorder σ}
    (h : HearsText known s p) (feeding : Fudi.Feeding) :
    (perform read s (.text feeding)).1.answer? = some (Fudi.Intake.take feeding p.1 p.2).1 ∧
      HearsText known (perform read s (.text feeding)).2 (Fudi.Intake.take feeding p.1 p.2).2 := by
  obtain ⟨hanswer, hintake, htarget⟩ :=
    Fudi.Intake.take_alike (Overheard.acceptAlike_of_known haccept) feeding p.1 h.matches_calls
  rw [perform_text, h.intake_eq]
  exact ⟨congrArg some hanswer, hintake, htarget⟩

/-- Other calls are no concern of the intake. -/
theorem HearsText.perform_other {s : Router ω × Overheard σ}
    {p : Fudi.Intake × Message.Recorder σ} (h : HearsText known s p) {call : RouterCall}
    (hother : call.feeding? = none) :
    (Router.perform read s call).1.answer? = none ∧
      HearsText known (Router.perform read s call).2 p := by
  cases call with
  | text feeding => cases hother
  | midi packet =>
    rw [perform_midi]
    cases Midi.Event.decodeWith read packet with
    | ok event => exact ⟨rfl, h.intake_eq, h.matches_calls⟩
    | error why => exact ⟨rfl, h.intake_eq, h.matches_calls⟩
  | emit m => exact ⟨rfl, h.intake_eq, h.matches_calls⟩
  | print text => exact ⟨rfl, h.intake_eq, h.matches_calls⟩
  | send m => exact ⟨rfl, h.intake_eq, h.matches_calls⟩
  | sendText receiver payload => exact ⟨rfl, h.intake_eq, h.matches_calls⟩

/-! ## Whole runs -/

theorem performAll_text
    (haccept : ∀ m (t : σ), (Message.Target.deliver m t).1 = known m.receiver)
    {s : Router ω × Overheard σ} {p : Fudi.Intake × Message.Recorder σ}
    (h : HearsText known s p) (calls : List RouterCall) :
    let alone := Fudi.Intake.takeAll (calls.filterMap RouterCall.feeding?) p.1 p.2
    (performAll read s calls).1.filterMap RouterReply.answer? = alone.1 ∧
      HearsText known (performAll read s calls).2 alone.2 := by
  refine runAll_alongside (HearsText known) RouterCall.feeding? RouterReply.answer? ?_ ?_ h calls
  · intro s p call feeding h hpick
    cases call with
    | text given =>
      obtain rfl := Option.some.inj hpick
      exact h.perform read haccept given
    | _ => cases hpick
  · intro s p call h hother
    exact h.perform_other read hother

theorem performAll_engine (s : Router ω × Overheard σ) (calls : List RouterCall) :
    (performAll read s calls).1 = (performAll read (s.1, s.2.engine) calls).1 ∧
      ((performAll read s calls).2.1, (performAll read s calls).2.2.engine) =
        (performAll read (s.1, s.2.engine) calls).2 := by
  have hrun : (runAll (perform read) s calls).1 =
      (runAll (perform read) (s.1, s.2.engine) (calls.map id)).1 ∧
      ((runAll (perform read) s calls).2.1, (runAll (perform read) s calls).2.2.engine) =
        (runAll (perform read) (s.1, s.2.engine) (calls.map id)).2 := by
    refine runAll_alike (fun (s : Router ω × Overheard σ) u => (s.1, s.2.engine) = u) id ?_ rfl
    rintro call - s u rfl
    exact perform_engine read s call
  rw [List.map_id] at hrun
  exact hrun

theorem performAll_decoder (s : Router ω × Overheard σ) (calls : List RouterCall) :
    decoder (performAll read s calls).2 =
      (calls.filterMap RouterCall.packet?).foldl (Midi.Decoder.next read) (decoder s) :=
  runAll_part decoder RouterCall.packet? (perform_decoder read) s calls

theorem performAll_sender (s : Router ω × Overheard σ) (calls : List RouterCall) :
    (performAll read s calls).2.1.sender =
      (calls.filterMap RouterCall.line?).foldl Fudi.Sender.next s.1.sender :=
  runAll_part (fun s => s.1.sender) RouterCall.line?
    (fun s call => (perform_outgoing read s call).1) s calls

theorem performAll_printed (s : Router ω × Overheard σ) (calls : List RouterCall) :
    (performAll read s calls).2.1.printed =
      s.1.printed + UInt32.ofNat (calls.filterMap RouterCall.console?).length := by
  have hrun : (performAll read s calls).2.1.printed =
      (calls.filterMap RouterCall.console?).foldl (fun n _ => n + 1) s.1.printed :=
    runAll_part (fun s => s.1.printed) RouterCall.console?
      (fun s call => (perform_outgoing read s call).2) s calls
  rw [hrun]
  generalize s.1.printed = n
  induction calls.filterMap RouterCall.console? generalizing n with
  | nil => exact (UInt32.add_zero n).symm
  | cons text texts ih =>
    rw [List.foldl_cons, ih, List.length_cons, Nat.add_comm, UInt32.ofNat_add, UInt32.ofNat_one,
      UInt32.add_assoc]

section NewRouter

variable (sink : ω) (engine : σ) (calls : List RouterCall)

/-- A new router handles text as an intake alone does. What the engine accepts of it is counted and
reported. -/
theorem performAll_heard
    (haccept : ∀ m (t : σ), (Message.Target.deliver m t).1 = known m.receiver) :
    let run := performAll read (ofSink sink, ({ engine } : Overheard σ)) calls
    let router := run.2.1
    let heard := run.2.2
    let accepted := heard.messages.countP Prod.snd
    let answers := run.1.filterMap RouterReply.answer?
    let alone := Fudi.Intake.takeAll (calls.filterMap RouterCall.feeding?) {}
      ({ target := engine } : Message.Recorder σ)
    answers = alone.1 ∧ router.intake = alone.2.1 ∧
      heard.messages.map Prod.fst = alone.2.2.calls ∧
      router.intake.received = UInt32.ofNat accepted ∧
      accepted = (answers.map Fudi.Answer.dispatched).sum := by
  intro run router heard accepted answers alone
  have hstart : HearsText known (ofSink sink, ({ engine } : Overheard σ))
      (({} : Fudi.Intake), ({ target := engine } : Message.Recorder σ)) := ⟨rfl, rfl⟩
  obtain ⟨hanswers, htext⟩ : answers = alone.1 ∧ HearsText known run.2 alone.2 :=
    performAll_text read haccept hstart calls
  have hmessages : heard.messages = alone.2.2.calls.map fun m => (m, known m.receiver) :=
    htext.matches_calls
  have haccepted : accepted = alone.2.2.calls.countP fun m => known m.receiver := by
    change heard.messages.countP Prod.snd = _
    rw [hmessages, List.countP_map]
    rfl
  obtain ⟨hreceived, hdispatched⟩ :
      alone.2.1.received = UInt32.ofNat (alone.1.map Fudi.Answer.dispatched).sum ∧
        (alone.1.map Fudi.Answer.dispatched).sum =
          alone.2.2.calls.countP fun m => known m.receiver :=
    Fudi.takeAll_dispatched haccept (calls.filterMap RouterCall.feeding?) engine
  refine ⟨hanswers, htext.intake_eq, ?_, ?_, ?_⟩
  · rw [hmessages, List.map_map]
    exact List.map_id _
  · rw [htext.intake_eq, haccepted, ← hdispatched]
    exact hreceived
  · rw [haccepted, hanswers]
    exact hdispatched.symm

/-- A new router counts an event or an ignored packet for every packet. -/
theorem performAll_played :
    let run := performAll read (ofSink sink, ({ engine } : Overheard σ)) calls
    let router := run.2.1
    let heard := run.2.2
    let packets := calls.filterMap RouterCall.packet?
    heard.events = packets.filterMap (Midi.Event.decodeWith? read) ∧
      router.midiReceived = UInt32.ofNat heard.events.length ∧
      ∃ silent, heard.events.length + silent = packets.length ∧
        router.midiIgnored = UInt32.ofNat silent := by
  intro run router heard packets
  have hdecoder : decoder run.2 = packets.foldl (Midi.Decoder.next read) {} :=
    performAll_decoder read (ofSink sink, { engine }) calls
  have hcounts := Midi.Decoder.foldl_next_counts read packets
  rw [← hdecoder] at hcounts
  exact hcounts

/-- A new router counts every line as sent or as dropped. -/
theorem performAll_sent :
    let router := (performAll read (ofSink sink, ({ engine } : Overheard σ)) calls).2.1
    let lines := calls.filterMap RouterCall.line?
    router.sender = lines.foldl Fudi.Sender.next { sink } ∧
      ∃ written lost, written + lost = lines.length ∧
        router.sender.sent = UInt32.ofNat written ∧ router.sender.dropped = UInt32.ofNat lost := by
  intro router lines
  have hsender : router.sender = lines.foldl Fudi.Sender.next { sink } :=
    performAll_sender read (ofSink sink, { engine }) calls
  have hcounts := Fudi.Sender.foldl_next_counts lines sink
  rw [← hsender] at hcounts
  exact ⟨hsender, hcounts⟩

end NewRouter

/-- Calls on a new router are counted once each, whatever their order, and its channels do not
disturb each other: the text that came in, the packets and the lines that went out are handled as by
an intake, a decoder and a sender of their own. A counter shows its number modulo 2^32, and so the
number itself as long as that is small enough. What the engine accepts may depend on the receiver of
a message only. -/
theorem performAll_separate
    (haccept : ∀ m (t : σ), (Message.Target.deliver m t).1 = known m.receiver) (sink : ω)
    (engine : σ) (calls : List RouterCall) :
    let run := performAll read (ofSink sink, ({ engine } : Overheard σ)) calls
    let router := run.2.1
    let heard := run.2.2
    let packets := calls.filterMap RouterCall.packet?
    let lines := calls.filterMap RouterCall.line?
    let prints := calls.filterMap RouterCall.console?
    let accepted := heard.messages.countP Prod.snd
    let answers := run.1.filterMap RouterReply.answer?
    let alone := Fudi.Intake.takeAll (calls.filterMap RouterCall.feeding?) {}
      ({ target := engine } : Message.Recorder σ)
    (router.midiReceived + router.midiIgnored = UInt32.ofNat packets.length ∧
      router.midiReceived = UInt32.ofNat heard.events.length ∧
      router.intake.received = UInt32.ofNat accepted ∧
      accepted = (answers.map Fudi.Answer.dispatched).sum ∧
      router.sender.sent + router.sender.dropped = UInt32.ofNat lines.length ∧
      router.printed = UInt32.ofNat prints.length) ∧
    ((packets.length < UInt32.size →
        router.midiReceived.toNat + router.midiIgnored.toNat = packets.length ∧
          router.midiReceived.toNat = heard.events.length) ∧
      (accepted < UInt32.size → router.intake.received.toNat = accepted) ∧
      (lines.length < UInt32.size →
        router.sender.sent.toNat + router.sender.dropped.toNat = lines.length) ∧
      (prints.length < UInt32.size → router.printed.toNat = prints.length)) ∧
    (answers = alone.1 ∧ router.intake = alone.2.1 ∧
      heard.messages.map Prod.fst = alone.2.2.calls ∧
      heard.events = packets.filterMap (Midi.Event.decodeWith? read) ∧
      router.sender = lines.foldl Fudi.Sender.next { sink }) ∧
    performAll read (ofSink sink, engine) calls = (run.1, router, heard.engine) := by
  intro run router heard packets lines prints accepted answers alone
  obtain ⟨hanswers, hintake, hmessages, haccepted, hdispatched⟩ :=
    performAll_heard read sink engine calls haccept
  obtain ⟨hevents, hreceived, silent, hpackets, hignored⟩ := performAll_played read sink engine calls
  obtain ⟨hsender, written, lost, hlines, hsent, hdropped⟩ := performAll_sent read sink engine calls
  have hprinted : router.printed = UInt32.ofNat prints.length :=
    (performAll_printed read (ofSink sink, { engine }) calls).trans (UInt32.zero_add _)
  have hengine := performAll_engine read (ofSink sink, ({ engine } : Overheard σ)) calls
  obtain ⟨hmidi, hmidiExact⟩ := counters_of_shares hpackets
  obtain ⟨hsend, hsendExact⟩ := counters_of_shares hlines
  rw [← hreceived, ← hignored] at hmidi hmidiExact
  rw [← hsent, ← hdropped] at hsend hsendExact
  refine ⟨⟨hmidi, hreceived, haccepted, hdispatched, hsend, hprinted⟩,
    ⟨fun hsmall => ⟨hmidiExact hsmall, ?_⟩, fun hsmall => ?_, hsendExact, fun hsmall => ?_⟩,
    ⟨hanswers, hintake, hmessages, hevents, hsender⟩, Prod.ext hengine.1.symm hengine.2.symm⟩
  · have hfew : heard.events.length < UInt32.size :=
      Nat.lt_of_le_of_lt (Nat.le_of_add_right_le (Nat.le_of_eq hpackets)) hsmall
    exact (congrArg UInt32.toNat hreceived).trans (UInt32.toNat_ofNat_of_lt' hfew)
  · exact (congrArg UInt32.toNat haccepted).trans (UInt32.toNat_ofNat_of_lt' hsmall)
  · exact (congrArg UInt32.toNat hprinted).trans (UInt32.toNat_ofNat_of_lt' hsmall)

end Engines

end Router

/-! ## An engine that knows one receiver -/

/-- An engine that counts what reaches it. -/
structure Doorman where
  reached : Nat := 0
deriving DecidableEq, Repr

def Doorman.knows (receiver : String) : Bool := receiver == "go"

instance : Message.Target Doorman where
  deliver m t := (Doorman.knows m.receiver, { reached := t.reached + 1 })

instance : Midi.Target Doorman where
  play _ t := { reached := t.reached + 1 }

/-- A message is split by packets and lines of the engine, of which one is cut off. -/
theorem Router.performAll_separate_doorman :
    let calls : List RouterCall :=
      [.text (.byte 0x67), .midi [0x90, 60, 100], .text (.buffer (Text.bytes "o;no x;g")),
        .emit (.bang "go"), .print "ready\n", .midi [0x90, 200, 100],
        .text (.buffer (Text.bytes "o bang;")), .send (.bang "up")]
    let run := performAll Midi.Message.ofBytes?
      (ofSink Fudi.stumblingSender.sink, ({ engine := {} } : Overheard Doorman)) calls
    let router := run.2.1
    let heard := run.2.2
    router.midiReceived.toNat + router.midiIgnored.toNat = 2 ∧ router.midiReceived = 1 ∧
      router.intake.received = 2 ∧
      router.sender.sent.toNat + router.sender.dropped.toNat = 2 ∧ router.printed = 1 ∧
      heard.messages.map Prod.fst = [.bang "go", .symbol "no" "x", .bang "go"] ∧
      heard.events = [.note 0 60 100] ∧
      router.sender.sink.bytes = Text.bytes "go up bang;\n" := by
  intro calls run router heard
  have haccept : ∀ m (t : Doorman),
      (Message.Target.deliver m t).1 = Doorman.knows m.receiver := fun _ _ => rfl
  obtain ⟨⟨-, hreceived, hintake, hreported, -, hprinted⟩, ⟨hpackets, -, hlines, -⟩,
    ⟨hanswers, -, hmessages, hevents, hsender⟩, -⟩ :=
      performAll_separate Midi.Message.ofBytes? haccept Fudi.stumblingSender.sink {} calls
  have hreport : ((Fudi.Intake.takeAll (calls.filterMap RouterCall.feeding?) {}
      ({ target := {} } : Message.Recorder Doorman)).1.map Fudi.Answer.dispatched).sum = 2 := by
    decide +kernel
  have hcalls : (Fudi.Intake.takeAll (calls.filterMap RouterCall.feeding?) {}
      ({ target := {} } : Message.Recorder Doorman)).2.2.calls =
        [.bang "go", .symbol "no" "x", .bang "go"] := by
    decide +kernel
  have hbytes : ((calls.filterMap RouterCall.line?).foldl Fudi.Sender.next
      { sink := Fudi.stumblingSender.sink }).sink.bytes = Text.bytes "go up bang;\n" := by
    decide +kernel
  have hplayed : heard.events = [.note 0 60 100] := hevents.trans (by decide)
  refine ⟨(hpackets (by decide)).1, ?_, ?_, hlines (by decide), hprinted,
    hmessages.trans hcalls, hplayed, ?_⟩
  · rw [hreceived, hplayed]
    rfl
  · rw [hintake, hreported, hanswers, hreport]
    rfl
  · rw [hsender]
    exact hbytes

end Patchbay
