import Patchbay.Output.I2s
import Patchbay.Proofs.Run
import Patchbay.Proofs.Sample.Frame
import Patchbay.Proofs.Sample.Stored
/-!
# What a serial output sends

Calls on an `I2sOutput`, with a record of what its transmitter was told. The transmitter may refuse
to start, and a fill may leave samples out or report more than there is room for.
`perform_effect` says everything that a call can do. From it follow, for any calls in any order, that
the transmitter is switched on and off in turn, and that every transfer holds what was filled in for
it and silence, whatever the buffer held from earlier ones (`performAll_transfers`).
-/

namespace Patchbay

/-! ## What a transmitter is told -/

inductive TransmitterEvent where
  /-- It was told to start, and did or did not. -/
  | enabled (done : Bool)
  | disabled
deriving DecidableEq, Repr

/-- Whether a transmitter runs after an event. One that runs is not enabled, and one that does not
run is not disabled. -/
def TransmitterEvent.next? : Bool → TransmitterEvent → Option Bool
  | false, .enabled done => some done
  | true, .disabled => some false
  | true, .enabled _ => none
  | false, .disabled => none

/-- A transmitter that is switched on and off in turn was switched on once more than off if it runs,
and as often if it does not. -/
theorem TransmitterEvent.count_enabled {events : List TransmitterEvent} {before after : Bool}
    (h : events.foldlM next? before = some after) :
    events.count (.enabled true) + before.toNat = events.count .disabled + after.toNat := by
  induction events generalizing before with
  | nil =>
    obtain rfl := Option.some.inj h
    rfl
  | cons e events ih =>
    rw [List.foldlM_cons] at h
    obtain ⟨between, hfirst, hrest⟩ := Option.bind_eq_some_iff.1 h
    have hcount := ih hrest
    cases before with
    | false =>
      cases e with
      | enabled done =>
        obtain rfl := Option.some.inj hfirst
        cases done <;> simp at hcount ⊢ <;> omega
      | disabled => cases hfirst
    | true =>
      cases e with
      | enabled done => cases hfirst
      | disabled =>
        obtain rfl := Option.some.inj hfirst
        simp at hcount ⊢
        omega

/-- A transmitter with a record of what it was told. -/
structure Supervised (τ : Type) where
  transmitter : τ
  events : List TransmitterEvent := []
deriving DecidableEq, Repr

instance {τ φ : Type} [Transmitter τ φ] : Transmitter (Supervised τ) φ where
  enable t :=
    let r := Transmitter.enable t.transmitter
    (r.1, { transmitter := r.2, events := t.events ++ [.enabled r.1.isOk] })
  disable t :=
    { transmitter := Transmitter.disable t.transmitter, events := t.events ++ [.disabled] }
  faultName := Transmitter.faultName τ

/-! ## Calls -/

inductive I2sCall (frames : Nat) (γ : Type) where
  | start
  | stop
  /-- A transfer of some words, at most a chunk. -/
  | interrupt (words : Nat) (fits : words ≤ frames) (fill : Fill Int16 (2 * words) γ)

inductive I2sReply where
  | started (done : Bool)
  | stopped
  /-- So many frames were filled in, and these words are the transfer. -/
  | sent (filled : Nat) (words : List UInt32)
deriving DecidableEq, Repr

namespace I2sOutput

variable {τ φ γ : Type} {frames : Nat}

/-- The same output with a transmitter that keeps a record, of which some is there already. -/
def supervised (told : List TransmitterEvent) (o : I2sOutput τ frames) :
    I2sOutput (Supervised τ) frames where
  transmitter := { transmitter := o.transmitter, events := told }
  samples := o.samples
  active := o.active

/-- The samples of a transfer: of what a fill left, as much as it reported and as there is, and
silence behind it. -/
def transfer {count : Nat} (reported : Nat) (left : Vector Int16 count) : List Int16 :=
  left.toList.take (min reported count) ++ List.replicate (count - min reported count) 0

theorem length_transfer {count : Nat} (reported : Nat) (left : Vector Int16 count) :
    (transfer reported left).length = count := by
  rw [transfer, List.length_append, List.length_take, List.length_replicate, Vector.length_toList]
  omega

/-- Nothing of a transfer depends on what a chunk held where nothing was written. -/
theorem transfer_of_prefix {count : Nat} (reported : Nat) (left : Vector Int16 count)
    {written : List Int16} (hwritten : written <+: left.toList)
    (henough : min reported count ≤ written.length) :
    transfer reported left = written.take (min reported count) ++
      List.replicate (count - min reported count) 0 := by
  obtain ⟨rest, hrest⟩ := hwritten
  rw [transfer, ← hrest, List.take_append_of_le_length henough]

variable [Transmitter τ φ]

def perform (s : I2sOutput τ frames × γ) :
    I2sCall frames γ → I2sReply × (I2sOutput τ frames × γ)
  | .start =>
    let r := s.1.start.value
    (.started r.1.isOk, (r.2, s.2))
  | .stop => (.stopped, (s.1.stop, s.2))
  | .interrupt _ fits fill =>
    let r := s.1.interrupt fits fill s.2
    (.sent r.1 r.2.1.toList, r.2.2)

def performAll (s : I2sOutput τ frames × γ) (calls : List (I2sCall frames γ)) :
    List I2sReply × (I2sOutput τ frames × γ) :=
  runAll perform s calls

/-! ## What a call can do -/

/-- What a call can come to: what the transmitter is told, the reply, and the state afterwards. -/
inductive Effect (s : I2sOutput τ frames × γ) : I2sCall frames γ → List TransmitterEvent →
    I2sReply × (I2sOutput τ frames × γ) → Prop where
  | running (active : s.1.active = true) : Effect s .start [] (.started true, s)
  | switched (done : Bool) (t : τ) (inactive : s.1.active = false) :
      Effect s .start [.enabled done]
        (.started done, ({ s.1 with transmitter := t, active := done }, s.2))
  | resting (inactive : s.1.active = false) : Effect s .stop [] (.stopped, s)
  | stopped (t : τ) (active : s.1.active = true) :
      Effect s .stop [.disabled] (.stopped, ({ s.1 with transmitter := t, active := false }, s.2))
  | silent {words : Nat} {fits : words ≤ frames} {fill : Fill Int16 (2 * words) γ}
      (inactive : s.1.active = false) :
      Effect s (.interrupt words fits fill) [] (.sent 0 (List.replicate words 0), s)
  | filled {words : Nat} {fits : words ≤ frames} {fill : Fill Int16 (2 * words) γ}
      (front : Vector Int16 (2 * words)) (samples : Vector Int16 (2 * frames))
      (active : s.1.active = true)
      (offered : front.toList = s.1.samples.toList.take (2 * words)) :
      Effect s (.interrupt words fits fill) []
        (.sent (min (fill front s.2).1 (2 * words) / 2)
          (Frame.pack (transfer (fill front s.2).1 (fill front s.2).2.1)),
          ({ s.1 with samples }, (fill front s.2).2.2))

theorem create?_of_even {samples : Nat} (hsome : 2 ≤ samples) (heven : samples % 2 = 0)
    (transmitter : τ) :
    ∃ o, create? samples transmitter = some o ∧ o.active = false :=
  ⟨_, if_pos ⟨hsome, heven⟩, rfl⟩

/-- A call on an output comes to an effect, and to the same on an output that keeps a record. -/
structure Outcome (s : I2sOutput τ frames × γ) (call : I2sCall frames γ)
    (told : List TransmitterEvent) (r : I2sReply × (I2sOutput τ frames × γ)) : Prop where
  effect : Effect s call told r
  run_eq : perform s call = r
  supervised_eq : ∀ before, perform (s.1.supervised before, s.2) call =
    (r.1, r.2.1.supervised (before ++ told), r.2.2)

section Active

variable (o : I2sOutput τ frames)

theorem start_of_active (h : o.active = true) : o.start.value = (.ok (), o) := by
  unfold start
  rw [if_pos h]
  rfl

theorem start_of_inactive (h : o.active = false) :
    o.start.value = ((Transmitter.enable o.transmitter).1,
      { o with
        transmitter := (Transmitter.enable o.transmitter).2
        active := (Transmitter.enable o.transmitter).1.isOk }) := by
  obtain ⟨transmitter, samples, active⟩ := o
  obtain rfl : active = false := h
  unfold start
  simp only
  rw [if_neg Bool.false_ne_true]
  rcases Transmitter.enable transmitter with ⟨_ | _, t⟩ <;> rfl

theorem stop_of_active (h : o.active = true) :
    o.stop = { o with transmitter := Transmitter.disable o.transmitter, active := false } :=
  if_pos h

theorem stop_of_inactive (h : o.active = false) : o.stop = o := by
  unfold stop
  rw [h]
  rfl

end Active

theorem start_outcome (s : I2sOutput τ frames × γ) : ∃ told r, Outcome s .start told r := by
  obtain ⟨o, g⟩ := s
  cases hactive : o.active with
  | true =>
    refine ⟨_, _, .running hactive, ?_, ?_⟩
    · simp only [perform, start_of_active o hactive]
      rfl
    · intro before
      rw [List.append_nil]
      simp only [perform, start_of_active (o.supervised before) hactive]
      rfl
  | false =>
    refine ⟨_, _, .switched (Transmitter.enable o.transmitter).1.isOk
      (Transmitter.enable o.transmitter).2 hactive, ?_, ?_⟩
    · simp only [perform, start_of_inactive o hactive]
    · intro before
      simp only [perform, start_of_inactive (o.supervised before) hactive]
      rfl

theorem stop_outcome (s : I2sOutput τ frames × γ) : ∃ told r, Outcome s .stop told r := by
  obtain ⟨o, g⟩ := s
  cases hactive : o.active with
  | true =>
    refine ⟨_, _, .stopped (Transmitter.disable o.transmitter) hactive, ?_, ?_⟩
    · simp only [perform, stop_of_active o hactive]
    · intro before
      simp only [perform, stop_of_active (o.supervised before) hactive]
      rfl
  | false =>
    refine ⟨_, _, .resting hactive, ?_, ?_⟩
    · simp only [perform, stop_of_inactive o hactive]
    · intro before
      rw [List.append_nil]
      simp only [perform, stop_of_inactive (o.supervised before) hactive]

section Interrupt

variable {words : Nat} (fits : words ≤ frames) (fill : Fill Int16 (2 * words) γ)
  (o : I2sOutput τ frames) (g : γ)

theorem interrupt_of_inactive (h : o.active = false) :
    o.interrupt fits fill g = (0, Vector.replicate words 0, o, g) := by
  unfold interrupt
  rw [h]
  rfl

theorem interrupt_of_active (h : o.active = true) :
    ∃ front sent samples, front.toList = o.samples.toList.take (2 * words) ∧
      sent.toList = Frame.pack (transfer (fill front g).1 (fill front g).2.1) ∧
      o.interrupt fits fill g = (min (fill front g).1 (2 * words) / 2, sent,
        { o with samples }, (fill front g).2.2) ∧
      ∀ before, (o.supervised before).interrupt fits fill g =
        (min (fill front g).1 (2 * words) / 2, sent,
          { o.supervised before with samples }, (fill front g).2.2) := by
  refine ⟨Vector.ofFn fun i => o.samples[i.val], (o.interrupt fits fill g).2.1,
    (o.interrupt fits fill g).2.2.1.samples, ?_, ?_, ?_, ?_⟩
  · apply List.ext_getElem
    · simp only [Vector.length_toList, List.length_take]
      omega
    · intro i hi hi'
      simp
  · unfold interrupt
    rw [if_pos h]
    simp only
    rw [Frame.toList_words _ (fun _ => Vector.getElem?_eq_getElem _)
      (fun _ => Vector.getElem?_eq_getElem _), toList_front]
    rfl
  · unfold interrupt
    rw [if_pos h]
  · intro before
    unfold interrupt
    rw [if_pos h, if_pos (show (o.supervised before).active = true from h)]
    rfl

end Interrupt

theorem interrupt_outcome (s : I2sOutput τ frames × γ) {words : Nat} (fits : words ≤ frames)
    (fill : Fill Int16 (2 * words) γ) : ∃ told r, Outcome s (.interrupt words fits fill) told r := by
  obtain ⟨o, g⟩ := s
  cases hactive : o.active with
  | true =>
    obtain ⟨front, sent, samples, hfront, hsent, hrun, hsupervised⟩ :=
      interrupt_of_active fits fill o g hactive
    refine ⟨_, _, .filled front samples hactive hfront, ?_, ?_⟩
    · simp only [perform, hrun, hsent]
    · intro before
      rw [List.append_nil]
      simp only [perform, hsupervised, hsent]
      rfl
  | false =>
    refine ⟨_, _, .silent hactive, ?_, ?_⟩
    · simp only [perform, interrupt_of_inactive fits fill o g hactive, Vector.toList_replicate]
    · intro before
      rw [List.append_nil]
      simp only [perform, interrupt_of_inactive fits fill (o.supervised before) g hactive,
        Vector.toList_replicate]

/-- Whatever a call comes to, it comes to it with and without a record. -/
theorem perform_outcome (s : I2sOutput τ frames × γ) (call : I2sCall frames γ) :
    ∃ told, Outcome s call told (perform s call) := by
  obtain ⟨told, r, h⟩ : ∃ told r, Outcome s call told r := by
    cases call with
    | start => exact start_outcome s
    | stop => exact stop_outcome s
    | interrupt words fits fill => exact interrupt_outcome s fits fill
  obtain rfl := h.run_eq
  exact ⟨told, h⟩

/-! ## Whole runs -/

omit [Transmitter τ φ] in
theorem Effect.switches {s : I2sOutput τ frames × γ} {call : I2sCall frames γ}
    {told : List TransmitterEvent} {r : I2sReply × (I2sOutput τ frames × γ)}
    (h : Effect s call told r) :
    told.foldlM TransmitterEvent.next? s.1.active = some r.2.1.active := by
  cases h with
  | running _ => rfl
  | switched done t inactive =>
    rw [inactive]
    rfl
  | resting _ => rfl
  | stopped t active =>
    rw [active]
    rfl
  | silent _ => rfl
  | filled _ _ _ _ => rfl

/-- The record of a run: it is what a transmitter is told that is switched on and off in turn, and
keeping it changes nothing else. -/
theorem performAll_supervised (s : I2sOutput τ frames × γ) (calls : List (I2sCall frames γ)) :
    ∃ told, told.foldlM TransmitterEvent.next? s.1.active = some (performAll s calls).2.1.active ∧
      ∀ before, performAll (s.1.supervised before, s.2) calls = ((performAll s calls).1,
        (performAll s calls).2.1.supervised (before ++ told), (performAll s calls).2.2) := by
  induction calls generalizing s with
  | nil =>
    refine ⟨[], rfl, ?_⟩
    intro before
    rw [List.append_nil]
    rfl
  | cons call calls ih =>
    obtain ⟨first, hfirst⟩ := perform_outcome s call
    obtain ⟨told, hswitches, hrest⟩ := ih (perform s call).2
    refine ⟨first ++ told, ?_, ?_⟩
    · rw [List.foldlM_append, hfirst.effect.switches]
      exact hswitches
    · intro before
      rw [← List.append_assoc]
      have hstep := hfirst.supervised_eq before
      simp only [performAll, runAll] at hrest ⊢
      rw [hstep, hrest]

section Calls

variable {s : I2sOutput τ frames × γ} {told : List TransmitterEvent}
  {r : I2sReply × (I2sOutput τ frames × γ)}

omit [Transmitter τ φ]

theorem Effect.inactive_of_refused (h : Effect s .start told r) (hrefused : r.1 = .started false) :
    r.2.1.active = false := by
  cases h with
  | running _ => cases hrefused
  | switched done t inactive => exact I2sReply.started.inj hrefused

variable {words : Nat} {fits : words ≤ frames} {fill : Fill Int16 (2 * words) γ}

theorem Effect.silent_of_inactive (h : Effect s (.interrupt words fits fill) told r)
    (hinactive : s.1.active = false) : r = (.sent 0 (List.replicate words 0), s) := by
  cases h with
  | silent _ => rfl
  | filled front samples active offered => rw [hinactive] at active; cases active

theorem Effect.filled_of_active (h : Effect s (.interrupt words fits fill) told r)
    (hactive : s.1.active = true) :
    ∃ front, front.toList = s.1.samples.toList.take (2 * words) ∧
      ∀ written, written <+: (fill front s.2).2.1.toList →
        min (fill front s.2).1 (2 * words) ≤ written.length →
          ∃ sent samples, r = (.sent (min (fill front s.2).1 (2 * words) / 2) sent,
              { s.1 with samples }, (fill front s.2).2.2) ∧
            sent.length = words ∧
            Frame.unpack sent = written.take (min (fill front s.2).1 (2 * words)) ++
              List.replicate (2 * words - min (fill front s.2).1 (2 * words)) 0 := by
  cases h with
  | silent inactive => rw [hactive] at inactive; cases inactive
  | filled front samples active offered =>
    refine ⟨front, offered, ?_⟩
    intro written hwritten henough
    have hlength := length_transfer (fill front s.2).1 (fill front s.2).2.1
    refine ⟨_, samples, rfl, ?_, ?_⟩
    · rw [Frame.length_pack, hlength, Nat.mul_div_cancel_left _ Nat.two_pos]
    · rw [Frame.unpack_pack (by rw [hlength, Nat.mul_mod_right]),
        transfer_of_prefix _ _ hwritten henough]

end Calls

/-- After any calls: the transmitter was switched on and off in turn, an output that could not start
is inactive, and a transfer consists of what was filled in for it, as much as was reported, with
silence behind it. Of an inactive output it is all silence, and nothing is filled in. -/
theorem performAll_transfers {samples : Nat} (hsome : 2 ≤ samples) (heven : samples % 2 = 0)
    (transmitter : τ) :
    ∃ o, create? samples transmitter = some o ∧ o.active = false ∧
      ∀ {γ : Type} (g : γ) (calls : List (I2sCall (samples / 2) γ)),
        let run := performAll (o, g) calls
        let seen := performAll (o.supervised [], g) calls
        let told := seen.2.1.transmitter.events
        seen = (run.1, run.2.1.supervised told, run.2.2) ∧
        told.foldlM TransmitterEvent.next? false = some run.2.1.active ∧
        told.count (.enabled true) = told.count .disabled + run.2.1.active.toNat ∧
        ((perform run.2 .start).1 = .started false → (perform run.2 .start).2.1.active = false) ∧
        (run.2.1.active = false → ∀ words fits fill,
          perform run.2 (.interrupt words fits fill) = (.sent 0 (List.replicate words 0), run.2)) ∧
        (run.2.1.active = true → ∀ words fits fill,
          ∃ front : Vector Int16 (2 * words),
            front.toList = run.2.1.samples.toList.take (2 * words) ∧
            let r := fill front run.2.2
            let kept := min r.1 (2 * words)
            ∀ written, written <+: r.2.1.toList → kept ≤ written.length →
              ∃ sent samples, perform run.2 (.interrupt words fits fill) =
                  (.sent (kept / 2) sent, { run.2.1 with samples }, r.2.2) ∧
                sent.length = words ∧
                Frame.unpack sent =
                  written.take kept ++ List.replicate (2 * words - kept) 0) := by
  obtain ⟨o, hcreate, hstopped⟩ := create?_of_even hsome heven transmitter
  refine ⟨o, hcreate, hstopped, ?_⟩
  intro γ g calls run seen told
  obtain ⟨events, hswitches, hrecord⟩ := performAll_supervised (o, g) calls
  have hseen : seen = (run.1, run.2.1.supervised events, run.2.2) := hrecord []
  have htold : told = events := by
    simp only [told, hseen]
    rfl
  rw [htold]
  rw [hstopped] at hswitches
  refine ⟨hseen, hswitches, ?_, ?_, ?_, ?_⟩
  · have hcount := TransmitterEvent.count_enabled hswitches
    rwa [Bool.toNat_false, Nat.add_zero] at hcount
  · intro hrefused
    obtain ⟨_, houtcome⟩ := perform_outcome run.2 .start
    exact houtcome.effect.inactive_of_refused hrefused
  · intro hinactive words fits fill
    obtain ⟨_, houtcome⟩ := perform_outcome run.2 (.interrupt words fits fill)
    exact houtcome.effect.silent_of_inactive hinactive
  · intro hactive words fits fill
    obtain ⟨_, houtcome⟩ := perform_outcome run.2 (.interrupt words fits fill)
    exact houtcome.effect.filled_of_active hactive

end I2sOutput

/-! ## A transmitter that refuses -/

/-- A transmitter that refuses to start as planned, and then no more. -/
structure Balky where
  refuses : List Bool
deriving DecidableEq, Repr

instance : Transmitter Balky Unit where
  enable t := (if t.refuses.headD false then .error () else .ok (), ⟨t.refuses.tail⟩)
  disable t := t
  faultName _ := "refusal"

/-- A fill that writes what it is given over a chunk, and counts how often it is asked. -/
def Fill.pour {count : Nat} (given : List Int16) (reported : Nat) : Fill Int16 count Nat :=
  fun chunk asked =>
    (reported, Vector.ofFn fun i => given[i.val]?.getD (getElem chunk i i.isLt), asked + 1)

/-- The first start is refused. The third transfer is a short one and the last one of an odd number
of samples, after chunks that were full. -/
theorem I2sOutput.performAll_transfers_balky :
    let o : I2sOutput Balky 2 := { transmitter := ⟨[true]⟩, samples := Vector.replicate 4 0 }
    let calls : List (I2sCall 2 Nat) :=
      [.start, .interrupt 2 (by decide) (.pour [1, -2, 3, -4] 9), .start,
        .interrupt 2 (by decide) (.pour [1, -2, 3, -4] 9), .start,
        .interrupt 1 (by decide) (.pour [-5] 1)]
    let run := performAll (o, 0) calls
    let seen := performAll (o.supervised [], 0) calls
    let last := perform run.2 (.interrupt 2 (by decide) (.pour [7, -8, 9] 3))
    run.1 = [.started false, .sent 0 [0, 0], .started true,
        .sent 2 [0xFFFE0001, 0xFFFC0003], .started true, .sent 0 [0x0000FFFB]] ∧
      run.2.2 = 2 ∧ seen.2.1.transmitter.events = [.enabled false, .enabled true] ∧
      ∃ sent, last.1 = .sent 1 sent ∧ Frame.unpack sent = [7, -8, 9, 0] := by
  intro o calls run seen last
  obtain ⟨o', hcreate, -, hruns⟩ := performAll_transfers (by decide : 2 ≤ 4) (by decide)
    (⟨[true]⟩ : Balky)
  obtain rfl : o = o' := Option.some.inj hcreate
  obtain ⟨hseen, -, -, -, -, hfilled⟩ := hruns 0 calls
  have hactive : run.2.1.active = true := by decide
  obtain ⟨front, hfront, htransfer⟩ := hfilled hactive 2 (by decide) (.pour [7, -8, 9] 3)
  obtain rfl : front = #v[-5, 0, 3, -4] := Vector.toList_inj.1 hfront
  obtain ⟨sent, samples, hlast, -, hunpack⟩ := htransfer [7, -8, 9] (by decide) (by decide)
  have hkept : min 3 (2 * 2) / 2 = 1 := by decide
  have hreply : last.1 = .sent (min 3 (2 * 2) / 2) sent := congrArg Prod.fst hlast
  rw [hkept] at hreply
  exact ⟨by decide, by decide, by decide, sent, hreply, hunpack⟩

end Patchbay
