import Mathlib.Algebra.BigOperators.Group.List.Basic
import Mathlib.Algebra.Order.Group.Multiset
import Patchbay.Proofs.Files.Cursor
import Patchbay.Proofs.Files.Shelf
import Patchbay.Proofs.Files.Slots
/-!
# The file table over steady storage

Over steady storage the file table makes seekable files: its descriptors are cursors, whatever calls
are made in whatever order. `Sound` is the invariant behind it. A slot knows the true size of its
file and a position within it, and storage owes its handle exactly the bytes from that position on.
There is one lemma for each operation, which gives its answer and keeps the invariant.
-/

namespace Patchbay.FileTable

variable {σ η : Type} {n : Nat}

section View

variable (files : String → Option (List UInt8))

/-- The cursor that an open file is. -/
def cursor (file : OpenFile η) : Cursor :=
  { content := (files file.name).getD [], position := file.position }

/-- The cursors that the descriptors of a table are. -/
def cursors (t : FileTable σ η n) : Cursors := fun fd =>
  (t.find? fd).map fun found => cursor files found.2

/-- What storage owes for a slot: the bytes from the position on. -/
def owed : Option (OpenFile η) → Multiset (η × List UInt8)
  | none => 0
  | some file => {(file.handle, (cursor files file).rest)}

/-- What storage owes for all slots. -/
def account (slots : Vector (Option (OpenFile η)) n) : Multiset (η × List UInt8) :=
  (slots.toList.map (owed files)).sum

variable {files}

theorem account_replicate_none :
    account files (Vector.replicate n (none : Option (OpenFile η))) = 0 := by
  simp [account, owed]

variable (files) in
/-- What is owed for one slot can be told from what is owed for the others. -/
theorem account_split (slots : Vector (Option (OpenFile η)) n) (slot : Fin n) :
    ∃ others, account files slots = owed files (slots.get slot) + others ∧
      ∀ file?, account files (slots.set slot file? slot.isLt) = owed files file? + others := by
  have hlt : slot.val < slots.toList.length := by simp
  refine ⟨((slots.toList.take slot).map (owed files)).sum +
    ((slots.toList.drop (slot + 1)).map (owed files)).sum, ?_, fun file? => ?_⟩
  · rw [account]
    conv_lhs => rw [← List.take_append_drop slot.val slots.toList, List.drop_eq_getElem_cons hlt]
    simp [add_left_comm]
    rfl
  · rw [account, Vector.toList_set, List.set_eq_take_append_cons_drop, if_pos hlt]
    simp [add_left_comm]

/-- Writing a slot changes nothing of what is owed for the others. -/
theorem account_set {slots : Vector (Option (OpenFile η)) n} {slot : Fin n}
    {others : Multiset (η × List UInt8)}
    (h : account files slots = owed files (slots.get slot) + others)
    (file? : Option (OpenFile η)) :
    account files (slots.set slot file? slot.isLt) = owed files file? + others := by
  obtain ⟨others', hall, hset⟩ := account_split files slots slot
  rw [hset, add_left_cancel (hall.symm.trans h)]

theorem cursors_descriptor (t : FileTable σ η n) (slot : Fin n) :
    cursors files t (descriptor slot) = (t.slots.get slot).map (cursor files) := by
  rw [cursors, find?_descriptor]
  cases t.slots.get slot <;> rfl

theorem cursors_congr {t t' : FileTable σ η n} (h : t.slots = t'.slots) :
    cursors files t = cursors files t' := by
  funext fd
  rw [cursors, cursors, find?_congr h]

theorem cursors_set (t : FileTable σ η n) (slot : Fin n) (file? : Option (OpenFile η))
    (storage : σ) :
    cursors files { storage, slots := t.slots.set slot file? slot.isLt } =
      (cursors files t).put (descriptor slot) (file?.map (cursor files)) := by
  funext fd
  rw [cursors, find?_set, Cursors.put, Function.update_apply]
  split
  · cases file? <;> rfl
  · rfl

end View

/-! ## The invariant -/

section Invariant

variable (files : String → Option (List UInt8)) (Owes : σ → Multiset (η × List UInt8) → Prop)

/-- What a slot says of its file is true, and the position lies within the content. -/
structure Truthful (file : OpenFile η) : Prop where
  named : files file.name = some (cursor files file).content
  size_eq : file.size = (cursor files file).content.length
  position_le : file.position ≤ (cursor files file).content.length

/-- All slots are truthful, and storage owes each handle the bytes from the position on. -/
structure Sound (t : FileTable σ η n) : Prop where
  slot : ∀ {slot : Fin n} {file}, t.slots.get slot = some file → Truthful files file
  owes : Owes t.storage (account files t.slots)

end Invariant

variable {files : String → Option (List UInt8)} {Owes : σ → Multiset (η × List UInt8) → Prop}
  {t : FileTable σ η n}

/-- A table without open files owes nothing. -/
theorem Sound.empty {storage : σ} (howes : Owes storage 0) :
    cursors files ({ storage, slots := Vector.replicate n none } : FileTable σ η n) =
        Cursors.closed ∧
      Sound files Owes ({ storage, slots := Vector.replicate n none } : FileTable σ η n) := by
  refine ⟨?_, fun hslot => ?_, ?_⟩
  · funext fd
    rw [cursors, find?_replicate]
    rfl
  · rw [get_replicate] at hslot
    cases hslot
  · rw [account_replicate_none]
    exact howes

/-- Slots that stay, over storage that owes the same, stay sound. -/
theorem Sound.restore (h : Sound files Owes t) {storage : σ}
    (howes : Owes storage (account files t.slots)) : Sound files Owes { t with storage } :=
  ⟨h.slot, howes⟩

/-- One slot may be written if the new file is truthful and storage owes what the new file asks for
beside what it owes to the others. -/
theorem Sound.write (h : Sound files Owes t) {slot : Fin n} {file? : Option (OpenFile η)}
    {storage : σ} {others : Multiset (η × List UInt8)}
    (hothers : account files t.slots = owed files (t.slots.get slot) + others)
    (hfile : ∀ file, file? = some file → Truthful files file)
    (howes : Owes storage (owed files file? + others)) :
    Sound files Owes { storage, slots := t.slots.set slot file? slot.isLt } := by
  refine ⟨fun {other file} hother => ?_, ?_⟩
  · rw [get_set] at hother
    split at hother
    · exact hfile file hother
    · exact h.slot hother
  · rwa [account_set hothers]

/-- A file that is open can be worked on alone: storage owes its handle the bytes from the position
on, and whatever is owed instead may be written to its slot. -/
theorem Sound.working (h : Sound files Owes t) {slot : Fin n} {file : OpenFile η}
    (hslot : t.slots.get slot = some file) :
    ∃ others, Owes t.storage ((file.handle, (cursor files file).rest) ::ₘ others) ∧
      ∀ {file? storage}, (∀ file, file? = some file → Truthful files file) →
        Owes storage (owed files file? + others) →
          Sound files Owes { storage, slots := t.slots.set slot file? slot.isLt } := by
  obtain ⟨others, hothers, -⟩ := account_split files t.slots slot
  refine ⟨others, ?_, h.write hothers⟩
  have howes := h.owes
  rw [hothers, hslot, owed, Multiset.singleton_add] at howes
  exact howes

/-- Nothing is left at the end, and only there. -/
theorem Truthful.rest_eq_nil {file : OpenFile η} (h : Truthful files file) :
    (cursor files file).rest = [] ↔ file.position = (cursor files file).content.length := by
  rw [Cursor.rest, List.drop_eq_nil_iff]
  exact ⟨fun hle => Nat.le_antisymm h.position_le hle, Nat.le_of_eq ∘ Eq.symm⟩

/-- A file that has read some of the bytes from its position on. -/
theorem Truthful.forward {file : OpenFile η} (h : Truthful files file) {data rest : List UInt8}
    (hrest : (cursor files file).rest = data ++ rest) (handle : η) :
    let moved := { file with handle, position := file.position + data.length }
    Truthful files moved ∧ (cursor files moved).rest = rest := by
  have hlen : data.length + rest.length = (cursor files file).content.length - file.position := by
    rw [← List.length_append, ← hrest, Cursor.rest, List.length_drop]
    rfl
  have hposition := h.position_le
  refine ⟨⟨h.named, h.size_eq, ?_⟩, ?_⟩
  · change file.position + data.length ≤ (cursor files file).content.length
    omega
  · calc (cursor files file).content.drop (file.position + data.length)
        = (cursor files file).rest.drop data.length := List.drop_drop.symm
      _ = rest := by rw [hrest, List.drop_left]

/-! ## Descriptors in use -/

theorem inTable_descriptor (slot : Fin n) : Cursors.InTable n (descriptor slot) := by
  simp only [Cursors.InTable, descriptor]
  omega

theorem exists_slot_of_inTable {fd : Descriptor} (h : Cursors.InTable n fd) :
    ∃ slot : Fin n, fd = descriptor slot := by
  obtain ⟨raw⟩ := fd
  simp only [Cursors.InTable] at h
  refine ⟨⟨(raw - Limits.firstDescriptor).toNat, by omega⟩, ?_⟩
  simp only [descriptor, Descriptor.mk.injEq]
  omega

/-- No slot is free exactly when all descriptors of the table are open files. -/
theorem freeSlot?_eq_none_iff_full :
    t.freeSlot? = none ↔ ∀ fd, Cursors.InTable n fd → cursors files t fd ≠ none := by
  rw [freeSlot?_eq_none]
  constructor
  · rintro h fd hfd
    obtain ⟨slot, rfl⟩ := exists_slot_of_inTable hfd
    rw [cursors_descriptor]
    simpa using h slot
  · intro h slot
    have := h _ (inTable_descriptor slot)
    rw [cursors_descriptor] at this
    simpa using this

variable (files) in
/-- What a descriptor finds is the file of its slot. -/
theorem find?_cases (t : FileTable σ η n) (fd : Descriptor) :
    (t.find? fd = none ∧ cursors files t fd = none) ∨
      ∃ slot file, t.find? fd = some (slot, file) ∧ fd = descriptor slot ∧
        t.slots.get slot = some file ∧ cursors files t fd = some (cursor files file) := by
  cases hfind : t.find? fd with
  | none => exact .inl ⟨rfl, by simp [cursors, hfind]⟩
  | some found =>
    obtain ⟨slot, file⟩ := found
    obtain ⟨hfd, hfile⟩ := find?_eq_some.1 hfind
    exact .inr ⟨slot, file, rfl, hfd, hfile, by simp [cursors, hfind]⟩

theorem Sound.fstat (h : Sound files Owes t) (fd : Descriptor) :
    t.fstat fd = (cursors files t).status fd := by
  by_cases hfd : fd.isStandard
  · simp [FileTable.fstat, Cursors.status, hfd]
  obtain ⟨hfind, hcursor⟩ | ⟨slot, file, hfind, rfl, hslot, hcursor⟩ := find?_cases files t fd
  · simp [FileTable.fstat, Cursors.status, hfd, hfind, hcursor]
  · simp [FileTable.fstat, Cursors.status, hfd, hfind, hcursor, (h.slot hslot).size_eq]

theorem position_eq (t : FileTable σ η n) (fd : Descriptor) :
    t.position fd =
      (cursors files t fd).elim (.error .badDescriptor) fun c => .ok c.position := by
  obtain ⟨hfind, hcursor⟩ | ⟨slot, file, hfind, -, -, hcursor⟩ := find?_cases files t fd
  · simp [FileTable.position, hfind, hcursor]
  · simp [FileTable.position, hfind, hcursor, cursor]

/-! ## The operations -/

variable [Storage σ η]

/-- Measuring finds the length of the file and leaves the account as it was. -/
theorem measure_of_steady (name : String) (steady : Storage.Steady files Owes) {storage : σ}
    {account : Multiset (η × List UInt8)} (howes : Owes storage account) :
    ∃ storage', measure name storage = ((files name).map List.length, storage') ∧
      Owes storage' account := by
  cases hname : files name with
  | none =>
    obtain ⟨storage', hopen, howes'⟩ := steady.missing howes hname
    exact ⟨storage', by simp [measure, hopen], howes'⟩
  | some content =>
    obtain ⟨probe, storage₁, hopen, howes₁⟩ := steady.opened howes hname
    obtain ⟨data, rest, probe', storage₂, hskip, -, hlen, howes₂⟩ :=
      steady.skip maxFileBytes probe storage₁ howes₁
    have hle := steady.length_le hname
    have hsize : data.length = content.length := by
      have hmost : Int64.maxValue.toInt ≤ (maxFileBytes : Int) := by decide
      omega
    exact ⟨_, by simp [measure, hopen, hskip, hsize], steady.closed howes₂⟩

theorem Sound.openFile (steady : Storage.Steady files Owes) (h : Sound files Owes t)
    (path : String) :
    let r := (t.openFile path).value
    Cursors.Opens files n path (cursors files t) r.1 (cursors files r.2) ∧
      Sound files Owes r.2 := by
  simp only [FileTable.openFile]
  cases hslot : t.freeSlot? with
  | none => exact ⟨⟨freeSlot?_eq_none_iff_full.1 hslot, rfl⟩, h⟩
  | some slot =>
    have hfull : ¬∀ fd, Cursors.InTable n fd → cursors files t fd ≠ none := by
      rw [← freeSlot?_eq_none_iff_full, hslot]
      simp
    have hfree : t.slots.get slot = none := (freeSlot?_eq_some.1 hslot).1
    by_cases hlong : Limits.maxPathBytes < (Path.normalize path).utf8ByteSize
    · simp only [hlong, if_true]
      exact ⟨⟨hfull, hlong, rfl⟩, h⟩
    · simp only [hlong, if_false]
      obtain ⟨storage₁, hmeasure, howes₁⟩ := measure_of_steady (Path.normalize path) steady h.owes
      cases hname : files (Path.normalize path) with
      | none =>
        simp only [hname, Option.map_none] at hmeasure
        simp only [hmeasure]
        exact ⟨⟨hfull, hlong, hname, cursors_congr rfl⟩, h.restore howes₁⟩
      | some content =>
        simp only [hname, Option.map_some] at hmeasure
        obtain ⟨handle, storage₂, hopen, howes₂⟩ := steady.opened howes₁ hname
        simp only [hmeasure, hopen]
        have hcursor : (files (Path.normalize path)).getD [] = content := by rw [hname]; rfl
        refine ⟨⟨hlong, inTable_descriptor slot, ?_, content, hname, ?_⟩, ?_⟩
        · rw [cursors_descriptor, hfree]
          rfl
        · simp [FileTable.put, cursors_set, cursor, hcursor]
        · refine h.write (show _ = _ + account files t.slots by simp [hfree, owed]) ?_ ?_
          · rintro file ⟨⟩
            exact ⟨by simpa [cursor, hcursor] using hname, by simp [cursor, hcursor], by simp⟩
          · simpa [owed, cursor, Cursor.rest, hcursor] using howes₂

theorem Sound.read (steady : Storage.Steady files Owes) (h : Sound files Owes t)
    (fd : Descriptor) (count : Nat) :
    let r := t.read fd count
    Cursors.Reads fd count (cursors files t) r.1 (cursors files r.2) ∧ Sound files Owes r.2 := by
  by_cases hfd : fd.isStandard
  · simp [FileTable.read, Cursors.Reads, hfd, h]
  obtain ⟨hfind, hcursor⟩ | ⟨slot, file, hfind, rfl, hslot, hcursor⟩ := find?_cases files t fd
  · simp [FileTable.read, Cursors.Reads, hfd, hfind, hcursor, h]
  have hfile := h.slot hslot
  by_cases hcount : count = 0
  · simp only [FileTable.read, Cursors.Reads, hfd, hfind, hcursor, hcount, if_true, if_false,
      Bool.false_eq_true]
    refine ⟨⟨0, by simp, hfile.position_le, by simp, by simp, ?_⟩, h⟩
    simp [Cursors.put, ← hcursor]
  obtain ⟨others, howes, hwrite⟩ := h.working hslot
  obtain ⟨data, rest, handle, storage, hread, hdata, hle, hend, howes'⟩ :=
    steady.read howes (Nat.pos_of_ne_zero hcount)
  obtain ⟨hmoved, hrest⟩ := hfile.forward hdata handle
  have hgiven : data.length = 0 ↔
      count = 0 ∨ file.position = (cursor files file).content.length := by
    rw [or_iff_right hcount, List.length_eq_zero_iff, ← hfile.rest_eq_nil, hdata,
      List.append_eq_nil_iff]
    exact ⟨fun hnil => ⟨hnil, hend hnil⟩, And.left⟩
  simp only [FileTable.read, Cursors.Reads, hfd, hfind, hcursor, if_neg hcount, hread,
    Option.getD_some, if_false, Bool.false_eq_true]
  refine ⟨⟨data.length, hle, hmoved.position_le, hgiven, ?_, cursors_set ..⟩, ?_⟩
  · rw [hdata, List.take_left]
  · refine hwrite ?_ ?_
    · rintro _ ⟨⟩
      exact hmoved
    · rw [owed, hrest, Multiset.singleton_add]
      exact howes'

/-- The 64-bit arithmetic of a seek never shows: a sum out of range lies beyond both ends of the
file in the same direction. -/
theorem Truthful.target_eq (steady : Storage.Steady files Owes) {file : OpenFile η}
    (h : Truthful files file) (offset : Int) (whence : Whence) :
    target file offset whence = (cursor files file).goal offset whence := by
  have hle := steady.length_le h.named
  have hmin : Int64.minValue.toInt < 0 := by decide
  have hsize := h.size_eq
  have hposition : (cursor files file).position = file.position := rfl
  cases whence <;> simp only [target, Cursor.goal, saturate64, hsize, hposition] <;> omega

/-- A seek goes forward from a truthful file: the one at hand, or a fresh one at the start if the
goal lies behind. -/
theorem rewind_of_steady (steady : Storage.Steady files Owes) {file : OpenFile η}
    (h : Truthful files file) {storage : σ} {others : Multiset (η × List UInt8)}
    (howes : Owes storage ((file.handle, (cursor files file).rest) ::ₘ others)) (goal : Nat) :
    ∃ handle position storage',
      let start := { file with handle, position }
      (if goal < file.position then rewind file storage else (some file, storage)) =
        (some start, storage') ∧
      position ≤ goal ∧ Truthful files start ∧
      Owes storage' ((handle, (cursor files start).rest) ::ₘ others) := by
  by_cases hback : goal < file.position
  · obtain ⟨handle, storage₁, hopen, howes₁⟩ := steady.opened howes h.named
    rw [Multiset.cons_swap] at howes₁
    refine ⟨handle, 0, Storage.close file.handle storage₁, ?_, Nat.zero_le goal, ?_, ?_⟩
    · rw [if_pos hback, rewind, hopen]
    · exact ⟨h.named, h.size_eq, Nat.zero_le _⟩
    · exact steady.closed howes₁
  · exact ⟨file.handle, file.position, storage, if_neg hback, Nat.le_of_not_lt hback, h, howes⟩

/-- Going forward reaches every position up to the end. -/
theorem advance_of_steady (steady : Storage.Steady files Owes) {file : OpenFile η}
    (h : Truthful files file) {storage : σ} {others : Multiset (η × List UInt8)}
    (howes : Owes storage ((file.handle, (cursor files file).rest) ::ₘ others)) {goal : Nat}
    (hfrom : file.position ≤ goal) (hto : goal ≤ (cursor files file).content.length) :
    ∃ handle storage',
      let moved := { file with handle, position := goal }
      advance goal file storage = (moved, storage') ∧ Truthful files moved ∧
        Owes storage' ((handle, (cursor files moved).rest) ::ₘ others) := by
  obtain ⟨data, rest, handle, storage', hskip, hdata, hlen, howes'⟩ :=
    steady.skip (goal - file.position) file.handle storage howes
  have hgoal : file.position + data.length = goal := by
    rw [hlen, Cursor.rest, List.length_drop]
    change file.position + min _ ((cursor files file).content.length - file.position) = goal
    omega
  obtain ⟨hmoved, hrest⟩ := h.forward hdata handle
  rw [hgoal] at hmoved hrest
  exact ⟨handle, storage', by simp only [advance, hskip, hgoal], hmoved, by rwa [hrest]⟩

theorem Sound.seek (steady : Storage.Steady files Owes) (h : Sound files Owes t)
    (fd : Descriptor) (offset : Int) (whence : Whence) :
    let r := (t.seek fd offset whence).value
    Cursors.Seeks fd offset whence (cursors files t) r.1 (cursors files r.2) ∧
      Sound files Owes r.2 := by
  by_cases hfd : fd.isStandard
  · simp [FileTable.seek, Cursors.Seeks, hfd, h]
  obtain ⟨hfind, hcursor⟩ | ⟨slot, file, hfind, rfl, hslot, hcursor⟩ := find?_cases files t fd
  · simp [FileTable.seek, Cursors.Seeks, hfd, hfind, hcursor, h]
  have hfile := h.slot hslot
  obtain ⟨others, howes, hwrite⟩ := h.working hslot
  obtain ⟨handle₁, position, storage₁, hstart, hfrom, hfile₁, howes₁⟩ :=
    rewind_of_steady steady hfile howes ((cursor files file).goal offset whence)
  obtain ⟨handle₂, storage₂, hadvance, hfile₂, howes₂⟩ :=
    advance_of_steady steady hfile₁ howes₁ hfrom ((cursor files file).goal_le offset whence)
  simp only [FileTable.seek, Cursors.Seeks, hfd, hfind, hcursor, hfile.target_eq steady, hstart,
    hadvance, if_false, Bool.false_eq_true]
  refine ⟨⟨rfl, cursors_set ..⟩, hwrite ?_ ?_⟩
  · rintro _ ⟨⟩
    exact hfile₂
  · rw [owed, Multiset.singleton_add]
    exact howes₂

theorem Sound.close (steady : Storage.Steady files Owes) (h : Sound files Owes t)
    (fd : Descriptor) :
    let r := t.close fd
    Cursors.Closes fd (cursors files t) r.1 (cursors files r.2) ∧ Sound files Owes r.2 := by
  by_cases hfd : fd.isStandard
  · simp [FileTable.close, Cursors.Closes, hfd, h]
  obtain ⟨hfind, hcursor⟩ | ⟨slot, file, hfind, rfl, hslot, hcursor⟩ := find?_cases files t fd
  · simp [FileTable.close, Cursors.Closes, hfd, hfind, hcursor, h]
  obtain ⟨others, howes, hwrite⟩ := h.working hslot
  simp only [FileTable.close, Cursors.Closes, hfd, hfind, hcursor, if_false, Bool.false_eq_true]
  refine ⟨⟨trivial, cursors_set ..⟩, hwrite ?_ ?_⟩
  · intro _ hopen
    cases hopen
  · rw [owed, zero_add]
    exact steady.closed howes

theorem Sound.stat (steady : Storage.Steady files Owes) (h : Sound files Owes t) (path : String) :
    let r := t.stat path
    (cursors files r.2 = cursors files t ∧
      r.1 = if (files (Path.normalize path)).isSome then .ok .regular else .error .notFound) ∧
      Sound files Owes r.2 := by
  cases hname : files (Path.normalize path) with
  | none =>
    obtain ⟨storage₁, hopen, howes₁⟩ := steady.missing h.owes hname
    simp only [FileTable.stat, hopen]
    exact ⟨⟨cursors_congr rfl, rfl⟩, h.restore howes₁⟩
  | some content =>
    obtain ⟨handle, storage₁, hopen, howes₁⟩ := steady.opened h.owes hname
    simp only [FileTable.stat, hopen]
    exact ⟨⟨cursors_congr rfl, rfl⟩, h.restore (steady.closed howes₁)⟩

/-- Closing all files of a list of slots pays what is owed for them. -/
theorem closeEach_owes (steady : Storage.Steady files Owes)
    (slots : List (Option (OpenFile η))) {storage : σ} {others : Multiset (η × List UInt8)}
    (howes : Owes storage ((slots.map (owed files)).sum + others)) :
    Owes (closeEach slots storage) others := by
  induction slots generalizing storage with
  | nil => simpa [closeEach] using howes
  | cons slot slots ih =>
    rw [List.map_cons, List.sum_cons, add_assoc] at howes
    cases slot with
    | none => exact ih (by simpa [owed] using howes)
    | some file =>
      rw [owed, Multiset.singleton_add] at howes
      exact ih (steady.closed howes)

theorem Sound.closeAll (steady : Storage.Steady files Owes) (h : Sound files Owes t) :
    cursors files t.closeAll = Cursors.closed ∧ Sound files Owes t.closeAll := by
  refine Sound.empty (closeEach_owes steady t.slots.toList ?_)
  rw [add_zero]
  exact h.owes

/-! ## Sequences of calls -/

/-- Every call is a step of the cursors and keeps the invariant. -/
theorem Sound.perform (steady : Storage.Steady files Owes) (h : Sound files Owes t)
    (call : FileCall) :
    let r := t.perform call
    Cursors.Step files n (cursors files t) call r.1 (cursors files r.2) ∧
      Sound files Owes r.2 := by
  cases call with
  | openFile path => exact h.openFile steady path
  | read fd count => exact h.read steady fd count
  | seek fd offset whence => exact h.seek steady fd offset whence
  | close fd => exact h.close steady fd
  | stat path => exact h.stat steady path
  | fstat fd => exact ⟨⟨h.fstat fd, rfl⟩, h⟩
  | position fd => exact ⟨⟨position_eq t fd, rfl⟩, h⟩
  | closeAll => exact ⟨⟨rfl, (h.closeAll steady).1⟩, (h.closeAll steady).2⟩

theorem Sound.performAll (steady : Storage.Steady files Owes) (h : Sound files Owes t)
    (calls : List FileCall) :
    let r := t.performAll calls
    Cursors.Run files n (cursors files t) calls r.1 (cursors files r.2) ∧
      Sound files Owes r.2 := by
  induction calls generalizing t with
  | nil => exact ⟨.nil _, h⟩
  | cons call calls ih =>
    obtain ⟨hstep, hmid⟩ := h.perform steady call
    obtain ⟨hrun, hend⟩ := ih hmid
    exact ⟨.cons hstep hrun, hend⟩

/-- Over steady storage, any sequence of calls on a new table is a run of cursors, and one more call
leaves every other open file where it is. -/
theorem performAll_run_cursors (steady : Storage.Steady files Owes) {storage : σ}
    (fresh : Owes storage 0) (n : Nat) (calls : List FileCall) :
    let r := (ofStorage storage : FileTable σ η n).performAll calls
    Cursors.Run files n .closed calls r.1 (cursors files r.2) ∧
      ∀ (call : FileCall) (fd : Descriptor) (c : Cursor), call ≠ .closeAll →
        call.descriptor? ≠ some fd → cursors files r.2 fd = some c →
          cursors files (r.2.perform call).2 fd = some c := by
  obtain ⟨hnew, hsound⟩ : cursors files (ofStorage storage : FileTable σ η n) = .closed ∧
      Sound files Owes (ofStorage storage : FileTable σ η n) := Sound.empty fresh
  obtain ⟨hrun, hend⟩ := hsound.performAll steady calls
  rw [hnew] at hrun
  exact ⟨hrun, fun call fd c hcall hother hfd =>
    (hend.perform steady call).1.other hfd hcall hother⟩

/-- A file is read in pieces of at most two bytes, rewound by one and opened again. -/
theorem performAll_run_cursors_shelf :
    let shelf : Shelf := { files := [("a", [1, 2, 3, 4, 5])], most := 2 }
    let fd : Descriptor := ⟨10⟩
    let again : Descriptor := ⟨11⟩
    let calls : List FileCall :=
      [.openFile "/a", .read fd 4, .seek fd (-1) .current, .openFile "./a", .read fd 1]
    let r := (ofStorage shelf : FileTable Shelf (List UInt8) 2).performAll calls
    Storage.Steady shelf.content shelf.Owes ∧ shelf.Owes shelf 0 ∧
      r.1 = [.opened (.ok fd), .data (.ok [1, 2]), .position (.ok 1), .opened (.ok again),
        .data (.ok [2])] ∧
      cursors shelf.content r.2 fd = some ⟨[1, 2, 3, 4, 5], 2⟩ ∧
      cursors shelf.content r.2 again = some ⟨[1, 2, 3, 4, 5], 0⟩ ∧
      Cursors.Run shelf.content 2 .closed calls r.1 (cursors shelf.content r.2) ∧
      ∀ (call : FileCall) (fd : Descriptor) (c : Cursor), call ≠ .closeAll →
        call.descriptor? ≠ some fd → cursors shelf.content r.2 fd = some c →
          cursors shelf.content (r.2.perform call).2 fd = some c := by
  intro shelf fd again calls r
  have steady : Storage.Steady shelf.content shelf.Owes := shelf.steady (by decide) (by decide)
  have fresh : shelf.Owes shelf 0 := shelf.owes_zero
  obtain ⟨hrun, hother⟩ := performAll_run_cursors steady fresh 2 calls
  exact ⟨steady, fresh, by decide +kernel, by decide +kernel, by decide +kernel, hrun, hother⟩

end Patchbay.FileTable
