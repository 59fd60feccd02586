import Mathlib.Data.List.ReduceOption
import Mathlib.Data.Multiset.MapFold
import Patchbay.Proofs.Files.Slots
/-!
# The files that a table holds

What slots hold is a multiset of open files. A file can be taken out of it and another one put in
its place, and nothing changes for the others. A file may be looked at through another handle, which
changes neither where it is found nor what else is known of it.
-/

namespace Patchbay

variable {σ τ η κ : Type} {n : Nat}

/-- A file that is known by another handle. -/
def OpenFile.map (f : η → κ) (file : OpenFile η) : OpenFile κ :=
  { handle := f file.handle, size := file.size, position := file.position, name := file.name }

namespace FileTable

/-- The files that slots hold. -/
def held (slots : Vector (Option (OpenFile η)) n) : Multiset (OpenFile η) :=
  slots.toList.reduceOption

theorem mem_held {slots : Vector (Option (OpenFile η)) n} {file : OpenFile η} :
    file ∈ held slots ↔ ∃ slot : Fin n, slots.get slot = some file := by
  simp only [held, Multiset.mem_coe, List.reduceOption_mem_iff, Vector.mem_toList_iff,
    Vector.mem_iff_getElem]
  constructor
  · rintro ⟨slot, hslot, hfile⟩
    exact ⟨⟨slot, hslot⟩, hfile⟩
  · rintro ⟨slot, hfile⟩
    exact ⟨slot, slot.isLt, hfile⟩

theorem card_held (t : FileTable σ η n) : (held t.slots).card = t.openCount := by
  rw [held, Multiset.coe_card, List.reduceOption_length_eq, openCount, List.countP_eq_length_filter]

theorem held_replicate_none : held (Vector.replicate n (none : Option (OpenFile η))) = 0 := by
  rw [held, Vector.toList_replicate, List.reduceOption_replicate_none, Multiset.coe_nil]

theorem held_map (f : η → κ) (slots : Vector (Option (OpenFile η)) n) :
    held (slots.map (Option.map (OpenFile.map f))) = (held slots).map (OpenFile.map f) := by
  rw [held, held, Vector.toList_map, List.reduceOption_map, Multiset.map_coe]

/-- What the other slots hold is the same, whatever one slot holds. -/
theorem held_split (slots : Vector (Option (OpenFile η)) n) (slot : Fin n) :
    ∃ others, held slots = (slots.get slot).elim others (· ::ₘ others) ∧
      ∀ file?, held (slots.set slot file? slot.isLt) = file?.elim others (· ::ₘ others) := by
  have hlt : slot.val < slots.toList.length := by simp
  have hget : slots.toList[slot.val] = slots.get slot := Vector.getElem_toList hlt
  have hjoin (before after : List (Option (OpenFile η))) (file? : Option (OpenFile η)) :
      ((before ++ file? :: after).reduceOption : Multiset (OpenFile η)) =
        file?.elim ((before ++ after).reduceOption : Multiset (OpenFile η))
          (· ::ₘ ((before ++ after).reduceOption : Multiset (OpenFile η))) := by
    rw [List.reduceOption_append, List.reduceOption_append]
    cases file? with
    | none => rw [List.reduceOption_cons_of_none, Option.elim_none]
    | some file =>
      rw [List.reduceOption_cons_of_some, Option.elim_some, Multiset.cons_coe, Multiset.coe_eq_coe]
      exact List.perm_middle
  refine ⟨(slots.toList.take slot ++ slots.toList.drop (slot + 1)).reduceOption, ?_,
    fun file? => ?_⟩
  · rw [← hjoin, ← hget, ← List.drop_eq_getElem_cons hlt, List.take_append_drop, held]
  · rw [held, Vector.toList_set, List.set_eq_take_append_cons_drop, if_pos hlt, hjoin]

/-! ## Other handles -/

section Map

variable (f : η → κ) {t : FileTable σ η n} {t' : FileTable τ κ n}

theorem get_map (slots : Vector (Option (OpenFile η)) n) (slot : Fin n) :
    (slots.map (Option.map (OpenFile.map f))).get slot =
      (slots.get slot).map (OpenFile.map f) :=
  Vector.getElem_map _ slot.isLt

theorem set_map (slots : Vector (Option (OpenFile η)) n) (slot : Fin n)
    (file? : Option (OpenFile η)) :
    (slots.map (Option.map (OpenFile.map f))).set slot (file?.map (OpenFile.map f)) slot.isLt =
      (slots.set slot file? slot.isLt).map (Option.map (OpenFile.map f)) :=
  (Vector.map_set ..).symm

variable {f}

theorem find?_eq_map (h : t'.slots = t.slots.map (Option.map (OpenFile.map f))) (fd : Descriptor) :
    t'.find? fd = (t.find? fd).map fun found => (found.1, found.2.map f) := by
  cases hslot : slotOf? n fd with
  | none => simp [find?, hslot]
  | some slot =>
    obtain rfl := slotOf?_eq_some.1 hslot
    rw [find?_descriptor, find?_descriptor, h, get_map, Option.map_map, Option.map_map]
    rfl

theorem freeSlot?_eq_of_map (h : t'.slots = t.slots.map (Option.map (OpenFile.map f))) :
    t'.freeSlot? = t.freeSlot? := by
  have hget (slot : Fin n) : t'.slots.get slot = none ↔ t.slots.get slot = none := by
    rw [h, get_map, Option.map_eq_none_iff]
  cases hslot : t.freeSlot? with
  | none =>
    rw [freeSlot?_eq_none] at hslot ⊢
    exact fun slot hfree => hslot slot ((hget slot).1 hfree)
  | some slot =>
    rw [freeSlot?_eq_some] at hslot ⊢
    exact ⟨(hget slot).2 hslot.1, fun earlier hlt hfree =>
      hslot.2 earlier hlt ((hget earlier).1 hfree)⟩

end Map

end FileTable

end Patchbay
