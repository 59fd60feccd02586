import Mathlib.Logic.Function.Basic
import Patchbay.Files.Table
/-!
# Slots and descriptors

Slots and the descriptors of a table stand for each other one to one, a standard stream has no slot,
and a change to one slot is not seen through the descriptor of another.
-/

namespace Patchbay.FileTable

variable {σ η : Type} {n : Nat}

theorem get_set {α : Type} (slots : Vector α n) (slot other : Fin n) (a : α) :
    (slots.set slot a slot.isLt).get other = if other = slot then a else slots.get other := by
  have hget : ∀ slots : Vector α n, slots.get other = slots[other.val] := fun _ => rfl
  rw [hget, hget, Vector.getElem_set]
  exact if_congr (eq_comm.trans Fin.ext_iff.symm) rfl rfl

theorem get_replicate {α : Type} (a : α) (slot : Fin n) : (Vector.replicate n a).get slot = a :=
  Vector.getElem_replicate slot.isLt

theorem descriptor_injective : Function.Injective (descriptor (n := n)) := by
  intro a b hab
  simp only [descriptor, Descriptor.mk.injEq] at hab
  omega

theorem slotOf?_eq_some {fd : Descriptor} {slot : Fin n} :
    slotOf? n fd = some slot ↔ fd = descriptor slot := by
  cases fd
  cases slot
  simp only [slotOf?, descriptor, Option.dite_none_right_eq_some, Option.some.injEq, Fin.mk.injEq,
    Descriptor.mk.injEq, exists_prop]
  omega

theorem not_isStandard_descriptor (slot : Fin n) : (descriptor slot).isStandard = false := by
  have hraw : ¬((slot.val : Int) + Limits.firstDescriptor < 3) := by
    simp only [Limits.firstDescriptor]
    omega
  simp [Descriptor.isStandard, descriptor, hraw]

theorem find?_eq_some {t : FileTable σ η n} {fd : Descriptor} {slot : Fin n} {file : OpenFile η} :
    t.find? fd = some (slot, file) ↔ fd = descriptor slot ∧ t.slots.get slot = some file := by
  simp only [find?, Option.bind_eq_bind, Option.bind_eq_some_iff, slotOf?_eq_some, Option.pure_def,
    Option.some.injEq, Prod.mk.injEq]
  constructor
  · rintro ⟨slot', rfl, file', hfile, rfl, rfl⟩
    exact ⟨rfl, hfile⟩
  · rintro ⟨rfl, hfile⟩
    exact ⟨slot, rfl, file, hfile, rfl, rfl⟩

theorem find?_descriptor (t : FileTable σ η n) (slot : Fin n) :
    t.find? (descriptor slot) = (t.slots.get slot).map (slot, ·) := by
  have hslot : slotOf? n (descriptor slot) = some slot := slotOf?_eq_some.2 rfl
  have hfind : t.find? (descriptor slot) =
      (t.slots.get slot).bind fun file => some (slot, file) := by
    simp only [find?, hslot, Option.bind_eq_bind, Option.bind_some, Option.pure_def]
    rfl
  rw [hfind]
  cases t.slots.get slot <;> rfl

theorem find?_of_isStandard {t : FileTable σ η n} {fd : Descriptor} (h : fd.isStandard) :
    t.find? fd = none := by
  rw [Option.eq_none_iff_forall_ne_some]
  rintro ⟨slot, file⟩ hfind
  obtain ⟨rfl, -⟩ := find?_eq_some.1 hfind
  simp [not_isStandard_descriptor] at h

theorem not_isStandard_of_find? {t : FileTable σ η n} {fd : Descriptor} {found : Fin n × OpenFile η}
    (h : t.find? fd = some found) : ¬fd.isStandard := by
  intro hfd
  rw [find?_of_isStandard hfd] at h
  cases h

theorem find?_replicate (storage : σ) (fd : Descriptor) :
    ({ storage, slots := Vector.replicate n none } : FileTable σ η n).find? fd = none := by
  rw [Option.eq_none_iff_forall_ne_some]
  rintro ⟨slot, file⟩ hfind
  obtain ⟨-, hfile⟩ := find?_eq_some.1 hfind
  rw [get_replicate] at hfile
  cases hfile

/-- Whether a descriptor is looked up depends on the slots alone. -/
theorem find?_congr {t t' : FileTable σ η n} (h : t.slots = t'.slots) (fd : Descriptor) :
    t.find? fd = t'.find? fd := by
  simp [find?, h]

/-- Writing a slot changes what its own descriptor finds, and no other. -/
theorem find?_set (t : FileTable σ η n) (slot : Fin n) (file? : Option (OpenFile η)) (storage : σ)
    (fd : Descriptor) :
    ({ storage, slots := t.slots.set slot file? slot.isLt } : FileTable σ η n).find? fd =
      if fd = descriptor slot then file?.map (slot, ·) else t.find? fd := by
  by_cases hfd : fd = descriptor slot
  · subst hfd
    rw [if_pos rfl, find?_descriptor, get_set, if_pos rfl]
  · rw [if_neg hfd]
    cases hslot : slotOf? n fd with
    | none => simp [find?, hslot]
    | some other =>
      obtain rfl := slotOf?_eq_some.1 hslot
      have hne : other ≠ slot := fun h => hfd (congrArg descriptor h)
      rw [find?_descriptor, find?_descriptor, get_set, if_neg hne]

/-- What a slot has just taken is found there. -/
theorem find?_put (t : FileTable σ η n) (slot : Fin n) (file : OpenFile η) (s : σ) :
    (t.put slot file s).find? (descriptor slot) = some (slot, file) := by
  rw [put, find?_set, if_pos rfl, Option.map_some]

theorem fstat_put (t : FileTable σ η n) (slot : Fin n) (file : OpenFile η) (s : σ) :
    (t.put slot file s).fstat (descriptor slot) =
      .ok { FileInfo.regular with size := some file.size } := by
  simp only [fstat, not_isStandard_descriptor, Bool.false_eq_true, if_false, find?_put]

theorem freeSlot?_eq_none {t : FileTable σ η n} :
    t.freeSlot? = none ↔ ∀ slot : Fin n, t.slots.get slot ≠ none := by
  simp only [freeSlot?, Vector.findFinIdx?_eq_none_iff, Vector.mem_iff_getElem,
    Option.isNone_iff_eq_none]
  constructor
  · intro h slot
    exact h _ ⟨slot, slot.isLt, rfl⟩
  · rintro h file? ⟨slot, hslot, rfl⟩
    exact h ⟨slot, hslot⟩

/-- The free slot that is taken is the first one. -/
theorem freeSlot?_eq_some {t : FileTable σ η n} {slot : Fin n} :
    t.freeSlot? = some slot ↔
      t.slots.get slot = none ∧ ∀ earlier < slot, t.slots.get earlier ≠ none := by
  obtain ⟨storage, ⟨slots, rfl⟩⟩ := t
  simp only [freeSlot?, Vector.findFinIdx?]
  simp only [Fin.cast_refl, Option.map_id, id_eq, Array.findFinIdx?_eq_some_iff, Fin.getElem_fin,
    Option.isNone_iff_eq_none, ne_eq]
  rfl

end Patchbay.FileTable
