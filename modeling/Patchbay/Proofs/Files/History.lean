import Mathlib.Data.Multiset.UnionInter
import Patchbay.Proofs.Files.Held
/-!
# What storage saw

A history lists what was done through the handles of a storage, each of which is known by a ticket
of its own. It tells which handles are out, how often files were opened and closed, and which bytes
each handle has given.

`History.Ledger` says that a history agrees with the files that are held: they are what is out, each
under a ticket of its own, and each has given the bytes that its position counts. One more event
keeps the agreement if the files change with it.
-/

namespace Patchbay

/-- One thing that storage saw. -/
inductive StorageEvent where
  /-- A file could not be opened. -/
  | missed (name : String)
  | opened (ticket : Nat) (name : String)
  | gave (ticket : Nat) (data : List UInt8)
  /-- A read failed. -/
  | failed (ticket : Nat)
  | closed (ticket : Nat)
deriving DecidableEq, Repr

/-- The ticket of the handle that an event is about, if there is a handle. -/
def StorageEvent.ticket? : StorageEvent → Option Nat
  | .missed _ => none
  | .opened ticket _ | .gave ticket _ | .failed ticket | .closed ticket => some ticket

/-- What storage saw, latest first. -/
abbrev History := List StorageEvent

namespace History

/-- How often a file was opened. -/
def opens (events : History) : Nat := events.countP fun e => e matches .opened _ _

/-- How often a handle was closed. -/
def closes (events : History) : Nat := events.countP fun e => e matches .closed _

/-- The bytes that a handle has given. -/
def given (ticket : Nat) : History → List UInt8
  | [] => []
  | .gave other data :: events =>
    if other = ticket then given ticket events ++ data else given ticket events
  | _ :: events => given ticket events

@[simp] theorem given_missed (ticket : Nat) (name : String) (events : History) :
    given ticket (.missed name :: events) = given ticket events := rfl

@[simp] theorem given_opened (ticket other : Nat) (name : String) (events : History) :
    given ticket (.opened other name :: events) = given ticket events := rfl

@[simp] theorem given_failed (ticket other : Nat) (events : History) :
    given ticket (.failed other :: events) = given ticket events := rfl

@[simp] theorem given_closed (ticket other : Nat) (events : History) :
    given ticket (.closed other :: events) = given ticket events := rfl

@[simp] theorem given_gave_self (ticket : Nat) (data : List UInt8) (events : History) :
    given ticket (.gave ticket data :: events) = given ticket events ++ data := if_pos rfl

theorem given_gave_of_ne {ticket other : Nat} (h : other ≠ ticket) (data : List UInt8)
    (events : History) : given ticket (.gave other data :: events) = given ticket events := if_neg h

/-- A handle is out when it was opened and has not been closed. -/
def Out (ticket : Nat) (events : History) : Prop :=
  (∃ name, .opened ticket name ∈ events) ∧ .closed ticket ∉ events

/-- Every ticket was new when its handle was opened, and every handle was out when it was read or
closed. -/
def Lawful : History → Prop
  | [] => True
  | .missed _ :: events => Lawful events
  | .opened ticket _ :: events => (∀ name, .opened ticket name ∉ events) ∧ Lawful events
  | .gave ticket _ :: events => Out ticket events ∧ Lawful events
  | .failed ticket :: events => Out ticket events ∧ Lawful events
  | .closed ticket :: events => Out ticket events ∧ Lawful events

theorem Lawful.tail {e : StorageEvent} {events : History} (h : Lawful (e :: events)) :
    Lawful events := by
  cases e with
  | missed => exact h
  | opened => exact h.2
  | gave => exact h.2
  | failed => exact h.2
  | closed => exact h.2

/-- No handle is heard of that was not opened. -/
theorem Lawful.exists_opened {events : History} (h : Lawful events) {e : StorageEvent}
    (he : e ∈ events) {ticket : Nat} (hticket : e.ticket? = some ticket) :
    ∃ name, .opened ticket name ∈ events := by
  induction events with
  | nil => cases he
  | cons first events ih =>
    have hthere (hopened : ∃ name, StorageEvent.opened ticket name ∈ events) :
        ∃ name, StorageEvent.opened ticket name ∈ first :: events :=
      hopened.imp fun _ hname => List.mem_cons_of_mem _ hname
    rcases List.mem_cons.1 he with rfl | he
    · cases e with
      | missed => cases hticket
      | opened other name =>
        obtain rfl := Option.some.inj hticket
        exact ⟨name, List.mem_cons_self⟩
      | gave =>
        obtain rfl := Option.some.inj hticket
        exact hthere h.1.1
      | failed =>
        obtain rfl := Option.some.inj hticket
        exact hthere h.1.1
      | closed =>
        obtain rfl := Option.some.inj hticket
        exact hthere h.1.1
    · exact hthere (ih h.tail he)

/-- A handle that was never heard of has given nothing. -/
theorem given_eq_nil {ticket : Nat} {events : History}
    (h : ∀ data, .gave ticket data ∉ events) : given ticket events = [] := by
  induction events with
  | nil => rfl
  | cons e events ih =>
    have hrest := ih fun data hdata => h data (List.mem_cons_of_mem _ hdata)
    cases e with
    | gave other data =>
      have hother : other ≠ ticket := by
        rintro rfl
        exact h data List.mem_cons_self
      rw [given_gave_of_ne hother, hrest]
    | _ => exact hrest

/-- A handle that is closed gives nothing more. -/
theorem Lawful.given_of_closed {ticket : Nat} {earlier events : History} (h : Lawful events)
    (hearlier : earlier <:+ events) (hclosed : .closed ticket ∈ earlier) :
    given ticket events = given ticket earlier := by
  induction events with
  | nil => rw [List.suffix_nil.1 hearlier]
  | cons e events ih =>
    rcases List.suffix_cons_iff.1 hearlier with rfl | hbefore
    · rfl
    · rw [← ih h.tail hbefore]
      cases e with
      | gave other data =>
        have hother : other ≠ ticket := by
          rintro rfl
          exact h.1.2 (hbefore.mem hclosed)
        rw [given_gave_of_ne hother]
      | _ => rfl

/-! ## Contents -/

/-- Every read gave what comes next in the content of its handle, and nothing only at the end. -/
def Honest (content : Nat → List UInt8) : History → Prop
  | [] => True
  | .gave ticket data :: events =>
    (given ticket events ++ data <+: content ticket ∧
      (data = [] → given ticket events = content ticket)) ∧ Honest content events
  | _ :: events => Honest content events

instance decidableHonest (content : Nat → List UInt8) :
    (events : History) → Decidable (Honest content events)
  | [] => .isTrue trivial
  | .gave _ _ :: events =>
    have := decidableHonest content events
    inferInstanceAs (Decidable ((_ ∧ _) ∧ Honest content events))
  | .missed _ :: events => decidableHonest content events
  | .opened _ _ :: events => decidableHonest content events
  | .failed _ :: events => decidableHonest content events
  | .closed _ :: events => decidableHonest content events

namespace Honest

variable {content : Nat → List UInt8} {ticket : Nat} {events : History}

theorem tail {e : StorageEvent} (h : Honest content (e :: events)) : Honest content events := by
  cases e with
  | gave => exact h.2
  | _ => exact h

theorem given_prefix (h : Honest content events) : given ticket events <+: content ticket := by
  induction events with
  | nil => exact List.nil_prefix
  | cons e events ih =>
    cases e with
    | gave other data =>
      by_cases heq : other = ticket
      · subst heq
        rw [given_gave_self]
        exact h.1.1
      · rw [given_gave_of_ne heq]
        exact ih h.tail
    | _ => exact ih h.tail

/-- A handle that has once given nothing has given all there is. -/
theorem given_eq (h : Honest content events) (hend : .gave ticket [] ∈ events) :
    given ticket events = content ticket := by
  induction events with
  | nil => cases hend
  | cons e events ih =>
    rcases List.mem_cons.1 hend with rfl | hend
    · rw [given_gave_self, List.append_nil]
      exact h.1.2 rfl
    · have hall := ih h.tail hend
      cases e with
      | gave other data =>
        by_cases heq : other = ticket
        · subst heq
          have hlength := h.1.1.length_le
          rw [hall, List.length_append] at hlength
          obtain rfl : data = [] := List.eq_nil_of_length_eq_zero (by omega)
          rw [given_gave_self, hall, List.append_nil]
        · rw [given_gave_of_ne heq, hall]
      | _ => exact hall

end Honest

/-! ## The files that are held -/

/-- A history agrees with the files that are held, whose handles are tickets. -/
structure Ledger (events : History) (files : Multiset (OpenFile Nat)) : Prop where
  lawful : Lawful events
  ticket_lt : ∀ {ticket name}, .opened ticket name ∈ events → ticket < opens events
  nodup : (files.map OpenFile.handle).Nodup
  out_iff : ∀ {ticket}, Out ticket events ↔ ticket ∈ files.map OpenFile.handle
  balance : opens events = closes events + files.card
  position : ∀ {file}, file ∈ files → file.position = (given file.handle events).length
  named : ∀ {file}, file ∈ files → .opened file.handle file.name ∈ events

namespace Ledger

variable {events : History} {files : Multiset (OpenFile Nat)} {file : OpenFile Nat}

theorem empty : Ledger [] 0 := by
  refine ⟨trivial, ?_, Multiset.nodup_zero, ?_, rfl, ?_, ?_⟩
  all_goals simp [Out]

/-- An event that neither opens nor closes a handle leaves the tickets that are out. -/
theorem quiet (h : Ledger events files) (e : StorageEvent) (hopened : ∀ t name, e ≠ .opened t name)
    (hclosed : ∀ t, e ≠ .closed t) (hlawful : Lawful (e :: events))
    {files' : Multiset (OpenFile Nat)}
    (htickets : files'.map OpenFile.handle = files.map OpenFile.handle)
    (hnamed : ∀ file ∈ files', .opened file.handle file.name ∈ events)
    (hposition : ∀ file ∈ files', file.position = (given file.handle (e :: events)).length) :
    Ledger (e :: events) files' := by
  have hmem {t name} : StorageEvent.opened t name ∈ e :: events ↔ .opened t name ∈ events := by
    rw [List.mem_cons, or_iff_right (hopened t name).symm]
  have hopens : opens (e :: events) = opens events := by
    cases e with
    | opened t name => exact absurd rfl (hopened t name)
    | _ => rfl
  have hcloses : closes (e :: events) = closes events := by
    cases e with
    | closed t => exact absurd rfl (hclosed t)
    | _ => rfl
  have hcard : files'.card = files.card := by
    rw [← Multiset.card_map OpenFile.handle, htickets, Multiset.card_map]
  refine ⟨hlawful, fun ht => ?_, ?_, fun {ticket} => ?_, ?_, hposition _, fun hfile => ?_⟩
  · rw [hopens]
    exact h.ticket_lt (hmem.1 ht)
  · rw [htickets]
    exact h.nodup
  · rw [htickets, ← h.out_iff, Out, Out, List.mem_cons, or_iff_right (hclosed ticket).symm]
    simp only [hmem]
  · rw [hopens, hcloses, hcard]
    exact h.balance
  · exact List.mem_cons_of_mem _ (hnamed _ hfile)

theorem missed (h : Ledger events files) (name : String) : Ledger (.missed name :: events) files :=
  h.quiet (.missed name) (by simp) (by simp) h.lawful rfl (fun _ => h.named) fun _ => h.position

theorem out (h : Ledger events (file ::ₘ files)) : Out file.handle events := by
  rw [h.out_iff, Multiset.map_cons]
  exact Multiset.mem_cons_self _ _

theorem failed (h : Ledger events (file ::ₘ files)) :
    Ledger (.failed file.handle :: events) (file ::ₘ files) :=
  h.quiet (.failed _) (by simp) (by simp) ⟨h.out, h.lawful⟩ rfl (fun _ => h.named) fun _ => h.position

/-- No other file has the ticket of a file that is held. -/
theorem ticket_ne (h : Ledger events (file ::ₘ files)) {other : OpenFile Nat}
    (hother : other ∈ files) : file.handle ≠ other.handle := by
  have hnodup := h.nodup
  rw [Multiset.map_cons, Multiset.nodup_cons] at hnodup
  intro heq
  exact hnodup.1 (heq ▸ Multiset.mem_map_of_mem _ hother)

theorem gave (h : Ledger events (file ::ₘ files)) (data : List UInt8) :
    Ledger (.gave file.handle data :: events)
      ({ file with position := file.position + data.length } ::ₘ files) := by
  have hnamed : StorageEvent.opened file.handle file.name ∈ events :=
    h.named (Multiset.mem_cons_self _ _)
  refine h.quiet (.gave _ _) (by simp) (by simp) ⟨h.out, h.lawful⟩ ?_ ?_ ?_
  · rw [Multiset.map_cons, Multiset.map_cons]
  · rintro other hother
    rcases Multiset.mem_cons.1 hother with rfl | hother
    · exact hnamed
    · exact h.named (Multiset.mem_cons_of_mem hother)
  · rintro other hother
    rcases Multiset.mem_cons.1 hother with rfl | hother
    · rw [given_gave_self, List.length_append, ← h.position (Multiset.mem_cons_self _ _)]
    · rw [given_gave_of_ne (h.ticket_ne hother)]
      exact h.position (Multiset.mem_cons_of_mem hother)

/-- No event is about the next ticket yet. -/
theorem unheard (h : Ledger events files) {e : StorageEvent} (he : e ∈ events) :
    e.ticket? ≠ some (opens events) := by
  intro hticket
  obtain ⟨name, hname⟩ := h.lawful.exists_opened he hticket
  exact Nat.lt_irrefl _ (h.ticket_lt hname)

theorem given_next (h : Ledger events files) : given (opens events) events = [] := by
  apply given_eq_nil
  intro data hdata
  exact h.unheard hdata rfl

theorem opened (h : Ledger events files) (name : String) (size : Nat) :
    Ledger (.opened (opens events) name :: events)
      ({ handle := opens events, size, position := 0, name } ::ₘ files) := by
  have hnew : opens events ∉ files.map OpenFile.handle := by
    rw [← h.out_iff]
    rintro ⟨⟨name, hname⟩, -⟩
    exact h.unheard hname rfl
  have hopens : opens (.opened (opens events) name :: events) = opens events + 1 :=
    List.countP_cons_of_pos rfl
  refine ⟨⟨fun name hname => h.unheard hname rfl, h.lawful⟩, fun {ticket name'} ht => ?_, ?_,
    fun {ticket} => ?_, ?_, fun {file} hfile => ?_, fun {file} hfile => ?_⟩
  · rw [hopens]
    rcases List.mem_cons.1 ht with heq | ht
    · obtain ⟨rfl, -⟩ := StorageEvent.opened.inj heq
      exact Nat.lt_succ_self _
    · exact Nat.lt_succ_of_lt (h.ticket_lt ht)
  · rw [Multiset.map_cons, Multiset.nodup_cons]
    exact ⟨hnew, h.nodup⟩
  · rw [Multiset.map_cons, Multiset.mem_cons, ← h.out_iff]
    constructor
    · rintro ⟨⟨name', hname'⟩, hclosed⟩
      rcases List.mem_cons.1 hname' with heq | hname'
      · exact .inl (StorageEvent.opened.inj heq).1
      · exact .inr ⟨⟨name', hname'⟩, fun hmem => hclosed (List.mem_cons_of_mem _ hmem)⟩
    · rintro (rfl | ⟨⟨name', hname'⟩, hclosed⟩)
      · refine ⟨⟨name, List.mem_cons_self⟩, fun hmem => ?_⟩
        exact h.unheard ((List.mem_cons.1 hmem).resolve_left (by simp)) rfl
      · refine ⟨⟨name', List.mem_cons_of_mem _ hname'⟩, fun hmem => ?_⟩
        exact hclosed ((List.mem_cons.1 hmem).resolve_left (by simp))
  · rw [hopens, Multiset.card_cons, h.balance]
    rfl
  · rcases Multiset.mem_cons.1 hfile with rfl | hfile
    · exact congrArg List.length h.given_next.symm
    · exact h.position hfile
  · rcases Multiset.mem_cons.1 hfile with rfl | hfile
    · exact List.mem_cons_self
    · exact List.mem_cons_of_mem _ (h.named hfile)

theorem closed (h : Ledger events (file ::ₘ files)) :
    Ledger (.closed file.handle :: events) files := by
  have hcloses : closes (.closed file.handle :: events) = closes events + 1 :=
    List.countP_cons_of_pos rfl
  have hbalance := h.balance
  have hnodup := h.nodup
  rw [Multiset.card_cons] at hbalance
  rw [Multiset.map_cons, Multiset.nodup_cons] at hnodup
  refine ⟨⟨h.out, h.lawful⟩, fun ht => ?_, hnodup.2, fun {ticket} => ?_, ?_, fun hfile => ?_,
    fun hfile => ?_⟩
  · exact h.ticket_lt ((List.mem_cons.1 ht).resolve_left (by simp))
  · have hout : Out ticket (.closed file.handle :: events) ↔
        Out ticket events ∧ ticket ≠ file.handle := by
      simp only [Out, List.mem_cons, reduceCtorEq, false_or, StorageEvent.closed.injEq, not_or]
      rw [and_assoc, and_comm (a := ticket ≠ file.handle)]
    rw [hout, h.out_iff, Multiset.map_cons, Multiset.mem_cons]
    constructor
    · rintro ⟨heq | hmem, hne⟩
      · exact absurd heq hne
      · exact hmem
    · intro hmem
      refine ⟨.inr hmem, ?_⟩
      rintro rfl
      exact hnodup.1 hmem
  · rw [hcloses, show opens (.closed file.handle :: events) = opens events from rfl, hbalance]
    omega
  · exact h.position (Multiset.mem_cons_of_mem hfile)
  · exact List.mem_cons_of_mem _ (h.named (Multiset.mem_cons_of_mem hfile))

end Ledger

end History

end Patchbay
