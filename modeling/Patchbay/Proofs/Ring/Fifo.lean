import Patchbay.Proofs.Ring
import Patchbay.Proofs.Run
/-!
# The ring as a bounded queue

What a program sees of a ring: a list that values join at the back and leave at the front, with room
for a fixed number of them. `Fifo.perform` says of each call what it answers and what becomes of the
list; it knows nothing of slots and indices. A ring of `n` slots answers every sequence of calls as
the list with room for `n - 1` values does, however often its indices go around.
-/

namespace Patchbay

/-- One call on a queue. -/
inductive QueueCall (α : Type) where
  | push (a : α)
  | pushMany (l : List α)
  | pop
deriving DecidableEq, Repr

/-- What a call on a queue answers. -/
inductive QueueReply (α : Type) where
  | accepted
  /-- There was no room, and the value is handed back. -/
  | refused (a : α)
  /-- So many leading values were added. -/
  | added (count : Nat)
  | popped (a? : Option α)
deriving DecidableEq, Repr

variable {α : Type} {n : Nat}

namespace Fifo

/-- One call on a list with room for `capacity` values, oldest first. -/
def perform (capacity : Nat) (l : List α) : QueueCall α → QueueReply α × List α
  | .push a => if l.length < capacity then (.accepted, l ++ [a]) else (.refused a, l)
  | .pushMany as =>
    let count := min as.length (capacity - l.length)
    (.added count, l ++ as.take count)
  | .pop => (.popped l.head?, l.tail)

/-- Calls one after another. -/
def performAll (capacity : Nat) (l : List α) (calls : List (QueueCall α)) :
    List (QueueReply α) × List α :=
  runAll (perform capacity) l calls

end Fifo

namespace Ring

/-- One call on a ring. -/
def perform (r : Ring α n) : QueueCall α → QueueReply α × Ring α n
  | .push a =>
    match r.push? a with
    | some r => (.accepted, r)
    | none => (.refused a, r)
  | .pushMany as => let s := r.pushMany as; (.added s.1, s.2)
  | .pop => let s := r.pop; (.popped s.1, s.2)

/-- Calls one after another. -/
def performAll (r : Ring α n) (calls : List (QueueCall α)) : List (QueueReply α) × Ring α n :=
  runAll perform r calls

/-- The arithmetic of a ring is that of whole numbers, and the slot that the next value is taken
from holds one. The sums stay below `2 * n`, so they are exact in machine words too as long as
`2 * n` fits in one. -/
structure Sane (r : Ring α n) : Prop where
  head_lt : r.head.val < n
  tail_lt : r.tail.val < n
  head_add_lt : r.head.val + n < 2 * n
  tail_add_lt : r.tail.val + n < 2 * n
  /-- What `pushMany` takes the remainder of to find its room. -/
  room : ((r.tail.val + n - r.head.val - 1 : Nat) : Int) = r.tail.val + n - r.head.val - 1
  /-- What `size` takes the remainder of. -/
  size : ((r.head.val + n - r.tail.val : Nat) : Int) = r.head.val + n - r.tail.val
  free : ((r.capacity - r.size : Nat) : Int) = r.capacity - r.size
  written : r.tail ≠ r.head → ∃ a, r.slots[r.tail] = some a

namespace Holds

variable {r : Ring α n} {l : List α}

theorem sane (h : r.Holds l) : r.Sane := by
  have hhead := r.head.isLt
  have htail := r.tail.isLt
  have hsize := r.size_lt
  refine ⟨hhead, htail, by omega, by omega, by omega, by omega, ?_, fun hne => ?_⟩
  · rw [capacity]
    omega
  · cases l with
    | nil => exact absurd (h.tail_eq_head_iff.2 rfl) hne
    | cons a l =>
      have hpop : r.pop = (r.slots[r.tail], { r with tail := next r.tail }) := if_neg hne
      refine ⟨a, ?_⟩
      rw [← h.pop_cons.1, hpop]

/-- The ring is full when the slot after the head is the one to read next. -/
theorem next_head_eq_tail_iff (h : r.Holds l) : next r.head = r.tail ↔ l.length = n - 1 := by
  have hhead := r.head.isLt
  have htail := r.tail.isLt
  have hsize := r.size_cases
  have hnext := next_cases r.head
  rw [h.size_eq] at hsize
  rw [Fin.ext_iff]
  omega

theorem push?_eq (h : r.Holds l) (a : α) :
    r.push? a = if l.length < n - 1 then some (r.write a) else none := by
  have hlength := h.length_lt
  rw [push?]
  by_cases hfull : next r.head = r.tail
  · rw [if_pos hfull, if_neg (by rw [h.next_head_eq_tail_iff.1 hfull]; exact Nat.lt_irrefl _)]
  · have hroom : l.length ≠ n - 1 := fun heq => hfull (h.next_head_eq_tail_iff.2 heq)
    rw [if_neg hfull, if_pos (by omega)]

/-- Each call answers as the list does and leaves what the list leaves. -/
theorem perform (h : r.Holds l) (call : QueueCall α) :
    (r.perform call).1 = (Fifo.perform (n - 1) l call).1 ∧
      (r.perform call).2.Holds (Fifo.perform (n - 1) l call).2 := by
  cases call with
  | push a =>
    simp only [Ring.perform, Fifo.perform, h.push?_eq a]
    by_cases hroom : l.length < n - 1
    · simp only [if_pos hroom]
      exact ⟨trivial, h.write a (by omega)⟩
    · simp only [if_neg hroom]
      exact ⟨trivial, h⟩
  | pushMany as =>
    obtain ⟨hcount, hadded⟩ := h.pushMany as
    refine ⟨congrArg QueueReply.added hcount, ?_⟩
    rw [List.take_eq_take_min, Nat.min_comm] at hadded
    exact hadded
  | pop =>
    cases l with
    | nil =>
      simp only [Ring.perform, h.pop_nil]
      exact ⟨rfl, h⟩
    | cons a l =>
      obtain ⟨hpop, hrest⟩ := h.pop_cons
      exact ⟨congrArg QueueReply.popped hpop, hrest⟩

theorem performAll (h : r.Holds l) (calls : List (QueueCall α)) :
    (r.performAll calls).1 = (Fifo.performAll (n - 1) l calls).1 ∧
      (r.performAll calls).2.Holds (Fifo.performAll (n - 1) l calls).2 := by
  have hrun := runAll_alike Holds id (fun call (_ : call ∈ calls) _ _ h => h.perform call) h
  rw [List.map_id] at hrun
  exact hrun

end Holds

/-- A new ring of at least two slots answers any sequence of calls as a list with room for all slots
but one, and afterwards holds that list: its size, its room and its emptiness are those of the list,
its indices lie within the slots, no subtraction goes below zero, and the next value to be taken
from it has been written. -/
theorem performAll_eq_fifo (α : Type) {n : Nat} (hn : 2 ≤ n) (calls : List (QueueCall α)) :
    ∃ new, empty? α n = some new ∧
      let r := new.performAll calls
      let l := Fifo.performAll (n - 1) [] calls
      r.1 = l.1 ∧ r.2.contents = l.2 ∧ l.2.length ≤ n - 1 ∧ r.2.size = l.2.length ∧
        r.2.free = n - 1 - l.2.length ∧ r.2.isEmpty = l.2.isEmpty ∧ r.2.Sane := by
  have hnew : ∃ new, empty? α n = some new := ⟨_, dif_pos hn⟩
  obtain ⟨new, hnew⟩ := hnew
  obtain ⟨hreplies, hholds⟩ := (Holds.empty hnew).performAll calls
  have hlength := hholds.length_lt
  exact ⟨new, hnew, hreplies, hholds.contents_eq, by omega, hholds.size_eq, hholds.free_eq,
    hholds.isEmpty_eq, hholds.sane⟩

/-- Three slots have room for two values; here the indices go around while values wait. -/
theorem performAll_eq_fifo_around :
    let calls : List (QueueCall Nat) :=
      [.push 1, .pushMany [2, 3, 4], .push 5, .pop, .pushMany [6, 7], .pop, .pop, .pop, .push 8]
    2 ≤ 3 ∧ ∃ new, empty? Nat 3 = some new ∧
      let r := new.performAll calls
      r.1 = [.accepted, .added 1, .refused 5, .popped (some 1), .added 1, .popped (some 2),
          .popped (some 6), .popped none, .accepted] ∧
        r.2.contents = [8] ∧ r.2.size = 1 ∧ r.2.free = 1 ∧ r.2.isEmpty = false ∧ r.2.Sane := by
  intro calls
  have hslots : 2 ≤ 3 := by decide
  obtain ⟨new, hnew, hreplies, hcontents, -, hsize, hfree, hisEmpty, hsane⟩ :=
    performAll_eq_fifo Nat hslots calls
  exact ⟨hslots, new, hnew, hreplies, hcontents, hsize, hfree, hisEmpty, hsane⟩

end Ring

end Patchbay
