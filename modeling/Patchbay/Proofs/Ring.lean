import Mathlib.Data.List.Basic
import Patchbay.Ring
/-!
# A ring holds a list

`Ring.Holds r l` says that the slots of a ring from its tail on hold the list `l`. Every operation
takes a ring that holds a list to a ring that holds the list it should: a ring of `n` slots is a
first-in, first-out queue of at most `n - 1` values.
-/

namespace Patchbay.Ring

variable {α : Type} {n : Nat}

/-- The values of a ring, oldest first. -/
def contents (r : Ring α n) : List α :=
  (List.range r.size).filterMap fun k => r.slots[(r.tail + k) % n]?.join

structure Holds (r : Ring α n) (l : List α) : Prop where
  size_eq : r.size = l.length
  slot : ∀ {k a}, l[k]? = some a → r.slots[(r.tail + k) % n]? = some (some a)

/-! ## Going around -/

theorem add_mod_cases {i : Nat} (hi : i < n) (k : Nat) (hk : k ≤ n) :
    (i + k < n ∧ (i + k) % n = i + k) ∨ (n ≤ i + k ∧ (i + k) % n = i + k - n) := by
  rcases Nat.lt_or_ge (i + k) n with hlt | hge
  · exact .inl ⟨hlt, Nat.mod_eq_of_lt hlt⟩
  · refine .inr ⟨hge, ?_⟩
    rw [Nat.mod_eq_sub_mod hge, Nat.mod_eq_of_lt (by omega)]

theorem next_cases (slot : Fin n) :
    (slot.val + 1 < n ∧ (next slot).val = slot.val + 1) ∨
      (slot.val + 1 = n ∧ (next slot).val = 0) := by
  have hslot := slot.isLt
  have hnext : (next slot).val = (slot.val + 1) % n := rfl
  have hmod := add_mod_cases hslot 1 (by omega)
  omega

theorem size_cases (r : Ring α n) :
    (r.tail.val ≤ r.head.val ∧ r.size = r.head.val - r.tail.val) ∨
      (r.head.val < r.tail.val ∧ r.size = r.head.val + n - r.tail.val) := by
  have hhead := r.head.isLt
  have htail := r.tail.isLt
  have hsize : r.size = (r.head.val + (n - r.tail.val)) % n := by
    rw [size]
    congr 1
    omega
  have hmod := add_mod_cases hhead (n - r.tail.val) (by omega)
  omega

theorem size_eq_zero_iff {r : Ring α n} : r.size = 0 ↔ r.tail = r.head := by
  have hhead := r.head.isLt
  have hsize := r.size_cases
  rw [Fin.ext_iff]
  omega

theorem size_lt (r : Ring α n) : r.size < n :=
  Nat.mod_lt _ (Nat.zero_lt_of_lt r.head.isLt)

theorem head_eq (r : Ring α n) : r.head.val = (r.tail.val + r.size) % n := by
  have hhead := r.head.isLt
  have htail := r.tail.isLt
  have hsize := r.size_cases
  have hmod := add_mod_cases htail r.size (Nat.le_of_lt r.size_lt)
  omega

theorem room_eq (r : Ring α n) : (r.tail.val + n - r.head.val - 1) % n = n - 1 - r.size := by
  have hhead := r.head.isLt
  have htail := r.tail.isLt
  have hsize := r.size_cases
  have hsum : r.tail.val + n - r.head.val - 1 = r.tail.val + (n - r.head.val - 1) := by omega
  have hmod := add_mod_cases htail (n - r.head.val - 1) (by omega)
  rw [hsum]
  omega

/-! ## Operations

How many values are stored depends on the indices alone, whatever stands in the slots. -/

theorem size_write (r : Ring α n) (a : α) (hroom : r.size + 1 < n) :
    (r.write a).size = r.size + 1 := by
  have hhead := r.head.isLt
  have htail := r.tail.isLt
  have hsize := r.size_cases
  have hsize' := (r.write a).size_cases
  have hnext : (r.write a).head = next r.head := rfl
  have hkeep : (r.write a).tail = r.tail := rfl
  have hcases := next_cases r.head
  rw [hnext, hkeep] at hsize'
  omega

theorem size_foldl_write (r : Ring α n) (as : List α) (hroom : r.size + as.length < n) :
    (as.foldl (fun r a => r.write a) r).size = r.size + as.length := by
  induction as generalizing r with
  | nil => rfl
  | cons a as ih =>
    rw [List.length_cons] at hroom
    have hwrite := r.size_write a (by omega)
    rw [List.foldl_cons, ih (r.write a) (by omega), hwrite, List.length_cons]
    omega

theorem pushMany_count (r : Ring α n) (as : List α) :
    (r.pushMany as).1 = min as.length (n - 1 - r.size) := by
  unfold pushMany
  simp only [room_eq]

theorem size_pushMany (r : Ring α n) (as : List α) :
    (r.pushMany as).2.size = r.size + (r.pushMany as).1 := by
  have hlt := r.size_lt
  unfold pushMany
  simp only [room_eq]
  rw [size_foldl_write, List.length_take]
  · omega
  · rw [List.length_take]
    omega

namespace Holds

variable {r : Ring α n} {l : List α}

theorem length_lt (h : r.Holds l) : l.length < n :=
  h.size_eq ▸ r.size_lt

theorem contents_eq (h : r.Holds l) : r.contents = l := by
  have hslots : (List.range r.size).map (fun k => r.slots[(r.tail + k) % n]?.join) =
      l.map some := by
    apply List.ext_getElem?
    intro k
    rw [h.size_eq, List.getElem?_map, List.getElem?_map]
    cases hk : l[k]? with
    | none =>
      rw [List.getElem?_eq_none (by simpa using List.getElem?_eq_none_iff.1 hk)]
      rfl
    | some a =>
      obtain ⟨hlt, -⟩ := List.getElem?_eq_some_iff.1 hk
      rw [List.getElem?_range hlt, Option.map_some, h.slot hk]
      rfl
  have hmap := congrArg (List.filterMap id) hslots
  rw [List.filterMap_map, List.filterMap_map] at hmap
  simpa [contents] using hmap

theorem free_eq (h : r.Holds l) : r.free = n - 1 - l.length := by
  rw [free, capacity, h.size_eq]

theorem tail_eq_head_iff (h : r.Holds l) : r.tail = r.head ↔ l = [] := by
  rw [← size_eq_zero_iff, h.size_eq, List.length_eq_zero_iff]

theorem isEmpty_eq (h : r.Holds l) : r.isEmpty = l.isEmpty := by
  rw [Ring.isEmpty, Bool.eq_iff_iff, beq_iff_eq, h.tail_eq_head_iff, List.isEmpty_iff]

theorem empty {r : Ring α n} (h : empty? α n = some r) : r.Holds [] := by
  unfold empty? at h
  split at h
  · obtain rfl := Option.some.inj h
    refine ⟨?_, ?_⟩
    · rw [size]
      simp
    · intro k a hk
      cases hk
  · cases h

theorem write (h : r.Holds l) (a : α) (hroom : l.length + 1 < n) :
    (r.write a).Holds (l ++ [a]) := by
  have htail := r.tail.isLt
  have hhead := r.head_eq
  have hkeep : (r.write a).tail = r.tail := rfl
  rw [h.size_eq] at hhead
  refine ⟨?_, ?_⟩
  · rw [List.length_append, List.length_singleton, r.size_write a (by rw [h.size_eq]; exact hroom),
      h.size_eq]
  · intro k b hk
    have hset : (r.write a).slots = r.slots.set r.head (some a) := rfl
    rw [hset, hkeep, Vector.getElem?_set]
    rcases Nat.lt_or_ge k l.length with hlt | hge
    · -- An older value stands in another slot.
      have hother : r.head.val ≠ (r.tail.val + k) % n := by
        have hnew := add_mod_cases htail l.length (by omega)
        have hold := add_mod_cases htail k (by omega)
        omega
      rw [List.getElem?_append_left hlt] at hk
      rw [if_neg hother]
      exact h.slot hk
    · rw [List.getElem?_append_right hge] at hk
      obtain ⟨hzero, rfl⟩ : k - l.length = 0 ∧ a = b := by
        cases hlast : k - l.length with
        | zero => simpa [hlast] using hk
        | succ => simp [hlast] at hk
      obtain rfl : k = l.length := by omega
      rw [if_pos hhead]

theorem foldl_write (h : r.Holds l) (as : List α) (hroom : l.length + as.length < n) :
    (as.foldl (fun r a => r.write a) r).Holds (l ++ as) := by
  induction as generalizing r l with
  | nil => simpa using h
  | cons a as ih =>
    rw [List.length_cons] at hroom
    have hwrite := h.write a (by omega)
    have hrest := ih hwrite (by simp; omega)
    rw [List.append_assoc, List.singleton_append] at hrest
    exact hrest

/-- As many leading values as fit are added. -/
theorem pushMany (h : r.Holds l) (as : List α) :
    (r.pushMany as).1 = min as.length (n - 1 - l.length) ∧
      (r.pushMany as).2.Holds (l ++ as.take (n - 1 - l.length)) := by
  have hlength := h.length_lt
  refine ⟨by rw [pushMany_count, h.size_eq], ?_⟩
  unfold Ring.pushMany
  simp only [room_eq, h.size_eq]
  rw [Nat.min_comm, ← List.take_eq_take_min]
  refine h.foldl_write _ ?_
  rw [List.length_take]
  omega

theorem pop_nil (h : r.Holds []) : r.pop = (none, r) :=
  if_pos (h.tail_eq_head_iff.2 rfl)

theorem pop_cons {a : α} (h : r.Holds (a :: l)) :
    r.pop.1 = some a ∧ r.pop.2.Holds l := by
  have htail := r.tail.isLt
  have hlength := h.length_lt
  have hne : r.tail ≠ r.head := fun heq => List.cons_ne_nil a l (h.tail_eq_head_iff.1 heq)
  have hpop : r.pop = (r.slots[r.tail], { r with tail := next r.tail }) := if_neg hne
  let rest : Ring α n := { r with tail := next r.tail }
  have hnext := next_cases r.tail
  rw [hpop]
  refine ⟨?_, ?_, ?_⟩
  · have hslot := h.slot (show (a :: l)[0]? = some a from rfl)
    rw [Nat.add_zero, Nat.mod_eq_of_lt htail] at hslot
    exact Option.some.inj ((Vector.getElem?_eq_getElem htail).symm.trans hslot)
  · have hsize := r.size_cases
    have hsize' := rest.size_cases
    have hhead := r.head.isLt
    have htail' : rest.tail = next r.tail := rfl
    have hhead' : rest.head = r.head := rfl
    rw [h.size_eq, List.length_cons] at hsize
    rw [htail', hhead'] at hsize'
    rw [List.length_cons] at hlength
    change rest.size = l.length
    omega
  · intro k b hk
    have hslot := h.slot (show (a :: l)[k + 1]? = some b from hk)
    have hindex : (r.tail.val + (k + 1)) % n = ((next r.tail).val + k) % n := by
      unfold next
      rw [Nat.mod_add_mod]
      congr 1
      omega
    rw [hindex] at hslot
    exact hslot

end Holds

end Patchbay.Ring
