import Mathlib.Algebra.GroupWithZero.Nat
import Patchbay.Proofs.Fudi.Feeding
/-!
# What is dispatched

Of its target an intake sees nothing but whether a message was accepted. So two targets that accept
alike are delivered the same messages by the same bytes (`Intake.take_alike`), and what happens to a
target between two deliveries does not matter. What an intake reports to its callers and what its
target accepted come to the same number, and this is what it counts (`takeAll_dispatched`).
-/

namespace Patchbay.Fudi

/-! ## Targets that accept alike -/

/-- The outcomes of a call over two targets: the same but for the targets, which are related. -/
structure Alike {τ υ α : Type} (R : τ → υ → Prop) (x : α × Intake × τ) (y : α × Intake × υ) :
    Prop where
  answer : x.1 = y.1
  intake : x.2.1 = y.2.1
  target : R x.2.2 y.2.2

/-- Related targets accept the same messages and stay related. -/
def AcceptAlike {τ υ : Type} [Message.Target τ] [Message.Target υ] (R : τ → υ → Prop) : Prop :=
  ∀ m t u, R t u → (Message.Target.deliver m t).1 = (Message.Target.deliver m u).1 ∧
    R (Message.Target.deliver m t).2 (Message.Target.deliver m u).2

namespace Intake

variable {τ υ : Type} [Message.Target τ] [Message.Target υ] {R : τ → υ → Prop}

section Steps

variable (hR : AcceptAlike R) (s : Intake) {t : τ} {u : υ} (h : R t u)

include hR h

theorem deliverWords_alike (words : List String) :
    Alike R (deliverWords words s t).value (deliverWords words s u).value := by
  cases words with
  | nil => exact ⟨rfl, rfl, h⟩
  | cons receiver words =>
    have halike := hR (messageFor receiver words) t u h
    rw [deliverWords_value, deliverWords_value]
    revert halike
    rcases Message.Target.deliver (messageFor receiver words) t with ⟨accepted, t'⟩
    rcases Message.Target.deliver (messageFor receiver words) u with ⟨accepted', u'⟩
    rintro ⟨hsame, hnext⟩
    obtain rfl : accepted = accepted' := hsame
    cases accepted with
    | true => exact ⟨rfl, rfl, hnext⟩
    | false => exact ⟨rfl, rfl, hnext⟩

theorem deliverLine_alike (line : List UInt8) :
    Alike R (deliverLine line s t).value (deliverLine line s u).value := by
  rw [deliverLine_value, deliverLine_value]
  cases String.fromUTF8? ⟨line.toArray⟩ with
  | none => exact ⟨rfl, rfl, h⟩
  | some text => exact deliverWords_alike hR s h _

theorem endLine_alike : Alike R (endLine s t).value (endLine s u).value := by
  unfold endLine
  split
  · exact ⟨rfl, rfl, h⟩
  · exact ⟨rfl, rfl, h⟩
  · exact deliverLine_alike hR s.reset h _

theorem step_alike (byte : UInt8) : Alike R (step byte s t).value (step byte s u).value := by
  unfold step
  split
  · exact ⟨rfl, rfl, h⟩
  · split
    · exact endLine_alike hR s h
    · exact ⟨rfl, rfl, h⟩

end Steps

variable {t : τ} {u : υ}

theorem feed_alike (hR : AcceptAlike R) (bytes : List UInt8) (s : Intake) (h : R t u) :
    Alike R (feed bytes s t).value (feed bytes s u).value := by
  induction bytes generalizing s t u with
  | nil => exact ⟨rfl, rfl, h⟩
  | cons byte rest ih =>
    obtain ⟨hanswer, hintake, hnext⟩ := step_alike hR s h byte
    obtain ⟨hanswers, hend, hlast⟩ := ih (step byte s t).value.2.1 hnext
    rw [hintake] at hanswers hend hlast
    unfold feed
    simp only [Logged.value_bind, Logged.value_pure]
    rw [hintake]
    exact ⟨List.cons_eq_cons.2 ⟨hanswer, hanswers⟩, hend, hlast⟩

theorem take_alike (hR : AcceptAlike R) (feeding : Feeding) (s : Intake) (h : R t u) :
    Alike R (take feeding s t) (take feeding s u) := by
  cases feeding with
  | byte b =>
    obtain ⟨hanswer, hintake, hnext⟩ := step_alike hR s h b
    exact ⟨congrArg Answer.done hanswer, hintake, hnext⟩
  | buffer bytes =>
    obtain ⟨hanswer, hintake, hnext⟩ := feed_alike hR bytes s h
    exact ⟨congrArg (fun dones : List Bool => Answer.count (dones.count true)) hanswer, hintake,
      hnext⟩

/-- What deliveries keep of a target, bytes keep. -/
theorem take_keeps {P : τ → Prop} (keeps : ∀ m t, P t → P (Message.Target.deliver m t).2)
    (feeding : Feeding) (s : Intake) (h : P t) : P (take feeding s t).2.2 := by
  have hself : AcceptAlike fun t u : τ => t = u ∧ P t := by
    rintro m t _ ⟨rfl, ht⟩
    exact ⟨rfl, rfl, keeps m t ht⟩
  exact (take_alike hself feeding s ⟨rfl, h⟩).target.2

end Intake

/-! ## What is reported -/

/-- How many accepted messages an answer reports. -/
def Answer.dispatched : Answer → Nat
  | .done accepted => accepted.toNat
  | .count accepted => accepted

variable {τ : Type} [Message.Target τ]

theorem Feeding.dispatched_answer (feeding : Feeding) (stream : List UInt8) (t : τ) :
    (feeding.answer stream t).dispatched =
      (newlyAccepted stream feeding.bytes t).count true := by
  cases feeding with
  | byte b =>
    have hlength := newlyAccepted_byte_length stream b t
    rw [Feeding.answer, Feeding.bytes, Answer.dispatched]
    cases hnew : newlyAccepted stream [b] t with
    | nil => rfl
    | cons answer rest =>
      rw [hnew, List.length_cons] at hlength
      obtain rfl : rest = [] := List.length_eq_zero_iff.1 (by omega)
      cases answer <;> rfl
  | buffer bytes => rfl

theorem dispatched_answers (feedings : List Feeding) (stream : List UInt8) (t : τ) :
    (account stream t).accepted.count true +
        ((answers t stream feedings).map Answer.dispatched).sum =
      (account (stream ++ feedings.flatMap Feeding.bytes) t).accepted.count true := by
  induction feedings generalizing stream with
  | nil => rw [List.flatMap_nil, List.append_nil, answers, List.map_nil, List.sum_nil, Nat.add_zero]
  | cons feeding rest ih =>
    have hrest := ih (stream ++ feeding.bytes)
    rw [← account_accepted_append, List.count_append, ← Feeding.dispatched_answer] at hrest
    rw [List.flatMap_cons, ← List.append_assoc, ← hrest, answers, List.map_cons, List.sum_cons,
      Nat.add_assoc]

/-- An account whose counter says how many of its lines were accepted. -/
structure Account.Counted (known : String → Bool) (a : Account τ) : Prop where
  lines : a.accepted.count true = a.received
  calls : (a.calls.countP fun m => known m.receiver) = a.received

variable {known : String → Bool}

theorem Account.Counted.note
    (haccept : ∀ m (t : τ), (Message.Target.deliver m t).1 = known m.receiver) {a : Account τ}
    (ha : a.Counted known) (r : Reading) : (a.note r).Counted known := by
  obtain ⟨hlines, hcalls⟩ := ha
  cases r with
  | unreadable => exact ⟨List.count_append.trans hlines, hcalls⟩
  | blank => exact ⟨List.count_append.trans hlines, hcalls⟩
  | message m =>
    have hknown := haccept m a.target
    simp only [Account.note]
    rw [hknown]
    refine ⟨?_, ?_⟩
    · simp only [List.count_append, hlines]
      cases known m.receiver <;> rfl
    · simp only [List.countP_append, hcalls, List.countP_singleton]
      cases known m.receiver <;> rfl

theorem account_counted
    (haccept : ∀ m (t : τ), (Message.Target.deliver m t).1 = known m.receiver)
    (stream : List UInt8) (t : τ) : (account stream t).Counted known := by
  have hfold : ∀ (lines : List (List UInt8)) (a : Account τ), a.Counted known →
      (lines.foldl Account.add a).Counted known := by
    intro lines
    induction lines with
    | nil => exact fun _ ha => ha
    | cons line lines ih => exact fun a ha => ih _ (ha.note haccept (readLine line))
  exact hfold _ _ ⟨rfl, rfl⟩

/-- Of a target that knows some receivers, an intake counts and reports the messages that were
accepted. -/
theorem takeAll_dispatched
    (haccept : ∀ m (t : τ), (Message.Target.deliver m t).1 = known m.receiver)
    (feedings : List Feeding) (t : τ) :
    let (given, s, recorder) :=
      Intake.takeAll feedings {} ({ target := t } : Message.Recorder τ)
    let dispatched := (given.map Answer.dispatched).sum
    s.received = UInt32.ofNat dispatched ∧
      dispatched = recorder.calls.countP fun m => known m.receiver := by
  obtain ⟨hlines, hcalls⟩ := account_counted haccept (feedings.flatMap Feeding.bytes) t
  have hdispatched := dispatched_answers feedings [] t
  have hnone : (account [] t).accepted.count true = 0 := rfl
  rw [hnone, Nat.zero_add, List.nil_append, hlines] at hdispatched
  rw [takeAll_recorder]
  exact ⟨congrArg UInt32.ofNat hdispatched.symm, hdispatched.trans hcalls.symm⟩

end Patchbay.Fudi
