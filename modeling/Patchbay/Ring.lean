/-!
# A bounded ring

A first-in, first-out queue in `n` slots for one producer and one consumer, each of whom moves an
index of its own. One slot always stays empty, which tells a full ring from an empty one, so at most
`n - 1` values are stored. A slot keeps its value after it has been read, until it is written again.
-/

namespace Patchbay

/-- A ring of `n` slots. -/
structure Ring (α : Type) (n : Nat) where
  /-- The slots; one that has never been written is `none`. -/
  slots : Vector (Option α) n
  /-- The next slot to write. -/
  head : Fin n
  /-- The next slot to read. -/
  tail : Fin n
deriving DecidableEq, Repr

namespace Ring

variable {α : Type} {n : Nat}

/-- The ring without values. There is none with fewer than two slots. -/
def empty? (α : Type) (n : Nat) : Option (Ring α n) :=
  if h : 2 ≤ n then
    some { slots := Vector.replicate n none, head := ⟨0, by omega⟩, tail := ⟨0, by omega⟩ }
  else none

/-- The slot after another, going around. -/
def next (slot : Fin n) : Fin n :=
  ⟨(slot + 1) % n, Nat.mod_lt _ (Nat.zero_lt_of_lt slot.isLt)⟩

/-- The values that fit. -/
def capacity (_ : Ring α n) : Nat := n - 1

/-- The values that are stored. -/
def size (r : Ring α n) : Nat := (r.head + n - r.tail) % n

/-- The values that can still be added. -/
def free (r : Ring α n) : Nat := r.capacity - r.size

def isEmpty (r : Ring α n) : Bool := r.tail == r.head

/-- Writes a value at the head, whether or not there is room. -/
def write (a : α) (r : Ring α n) : Ring α n :=
  { r with slots := r.slots.set r.head (some a), head := next r.head }

/-- Adds a value, unless the ring is full. -/
def push? (a : α) (r : Ring α n) : Option (Ring α n) :=
  if next r.head = r.tail then none else some (r.write a)

/-- Adds as many leading values of a list as fit, and answers how many. -/
def pushMany (l : List α) (r : Ring α n) : Nat × Ring α n :=
  let room := (r.tail + n - r.head - 1) % n
  let count := min l.length room
  (count, (l.take count).foldl (fun r a => r.write a) r)

/-- Removes the oldest value and answers it, or `none` if there is none. -/
def pop (r : Ring α n) : Option α × Ring α n :=
  if r.tail = r.head then (none, r)
  else (r.slots[r.tail], { r with tail := next r.tail })

end Ring

end Patchbay
