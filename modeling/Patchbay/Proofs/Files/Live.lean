import Mathlib.Data.List.Perm.Lattice
import Patchbay.Proofs.Files.Effect
import Patchbay.Proofs.Files.Seekable
/-!
# Live descriptors

A descriptor is live from the open that answers it until it is closed. Which ones are live can be
told from the acts and their outcomes alone, and it is what the slots of the table hold. From this
follow the number of open files, the descriptor that an open gives out next, and which numbers are
refused.
-/

namespace Patchbay

variable {σ η ε : Type} {n : Nat}

/-- The descriptor that an open answered. -/
def FileOutcome.opened? : FileOutcome → Option Descriptor
  | .reply (.opened (.ok fd)) => some fd
  | _ => none

namespace FileAct

/-- The descriptors that an act leaves open. -/
def leaves (before : List Descriptor) : FileAct σ → List Descriptor
  | .call (.close fd) => before.filter (· ≠ fd)
  | .call .closeAll => []
  | _ => before

/-- The live descriptors after one more act. -/
def live (before : List Descriptor) (done : FileAct σ × FileOutcome) : List Descriptor :=
  done.2.opened?.toList ++ done.1.leaves before

/-- The descriptors that were opened in the course of some acts and not closed since. -/
def liveAfter (acts : List (FileAct σ)) (outcomes : List FileOutcome) : List Descriptor :=
  (acts.zip outcomes).foldl live []

variable {before : List Descriptor} {act : FileAct σ} {fd : Descriptor}

theorem mem_leaves :
    fd ∈ act.leaves before ↔ fd ∈ before ∧ act ≠ .call (.close fd) ∧ act ≠ .call .closeAll := by
  unfold leaves
  split
  · rw [List.mem_filter, decide_eq_true_eq]
    simp [ne_comm]
  · simp
  · next hclose hcloseAll => exact ⟨fun hfd => ⟨hfd, hclose fd, hcloseAll⟩, And.left⟩

theorem leaves_sublist (before : List Descriptor) (act : FileAct σ) :
    (act.leaves before).Sublist before := by
  unfold leaves
  split
  · exact List.filter_sublist
  · exact List.nil_sublist _
  · exact List.Sublist.refl _

theorem mem_live {outcome : FileOutcome} :
    fd ∈ live before (act, outcome) ↔ outcome.opened? = some fd ∨
      fd ∈ before ∧ act ≠ .call (.close fd) ∧ act ≠ .call .closeAll := by
  rw [live, List.mem_append, Option.mem_toList, mem_leaves]

end FileAct

/-! ## Slots -/

namespace FileTable

/-- The live descriptors are those whose slot holds a file, and each is listed once. -/
structure Live (t : FileTable σ η n) (live : List Descriptor) : Prop where
  nodup : live.Nodup
  mem_iff : ∀ {fd}, fd ∈ live ↔ ∃ slot, fd = descriptor slot ∧ t.slots.get slot ≠ none

namespace Live

variable {t : FileTable σ η n} {live : List Descriptor}

theorem mem_descriptor (h : t.Live live) {slot : Fin n} :
    descriptor slot ∈ live ↔ t.slots.get slot ≠ none := by
  rw [h.mem_iff]
  constructor
  · rintro ⟨other, heq, hheld⟩
    rwa [descriptor_injective heq]
  · exact fun hheld => ⟨slot, rfl, hheld⟩

theorem inTable (h : t.Live live) {fd : Descriptor} (hfd : fd ∈ live) : Cursors.InTable n fd := by
  obtain ⟨slot, rfl, -⟩ := h.mem_iff.1 hfd
  exact inTable_descriptor slot

/-- A descriptor can be asked for its position exactly if it is live. -/
theorem position_iff (h : t.Live live) {fd : Descriptor} :
    fd ∈ live ↔ ∃ position, t.position fd = .ok position := by
  unfold FileTable.position
  cases hfind : t.find? fd with
  | none =>
    have hnot : fd ∉ live := by
      intro hfd
      obtain ⟨slot, rfl, hheld⟩ := h.mem_iff.1 hfd
      rw [find?_descriptor, Option.map_eq_none_iff] at hfind
      exact hheld hfind
    simp [hnot]
  | some found =>
    obtain ⟨slot, file⟩ := found
    obtain ⟨rfl, hfile⟩ := find?_eq_some.1 hfind
    simp [h.mem_descriptor, hfile]

theorem perm_slots (h : t.Live live) :
    live.Perm (((List.finRange n).filter fun slot => (t.slots.get slot).isSome).map descriptor) := by
  rw [List.perm_ext_iff_of_nodup h.nodup
    (((List.nodup_finRange n).filter _).map descriptor_injective)]
  intro fd
  simp only [h.mem_iff, List.mem_map, List.mem_filter, List.mem_finRange, true_and,
    Option.isSome_iff_ne_none]
  exact exists_congr fun slot => by rw [and_comm, eq_comm (a := fd)]

theorem length_eq (h : t.Live live) : live.length = t.openCount := by
  have hslots : t.slots.toList = (List.finRange n).map t.slots.get := by
    refine List.ext_getElem (by simp) fun index _ _ => ?_
    rw [Vector.getElem_toList, List.getElem_map, List.getElem_finRange]
    rfl
  rw [h.perm_slots.length_eq, List.length_map, ← List.countP_eq_length_filter, openCount, hslots,
    List.countP_map]
  rfl

/-- All slots are taken exactly if there are as many live descriptors. -/
theorem full_iff (h : t.Live live) : t.freeSlot? = none ↔ live.length = n := by
  rw [freeSlot?_eq_none, h.perm_slots.length_eq, List.length_map, ← List.countP_eq_length_filter]
  have hall := List.countP_eq_length (p := fun slot => (t.slots.get slot).isSome)
    (l := List.finRange n)
  rw [List.length_finRange] at hall
  simp [hall, Option.isSome_iff_ne_none]

/-- The first free slot has the least descriptor that is not live. -/
theorem free_iff (h : t.Live live) {slot : Fin n} (hfree : t.freeSlot? = some slot) :
    descriptor slot ∉ live ∧
      ∀ other, Cursors.InTable n other → other ∉ live → (descriptor slot).raw ≤ other.raw := by
  obtain ⟨hslot, hearlier⟩ := freeSlot?_eq_some.1 hfree
  refine ⟨fun hlive => h.mem_descriptor.1 hlive hslot, fun other hother hnot => ?_⟩
  obtain ⟨slot', rfl⟩ := exists_slot_of_inTable hother
  rw [h.mem_descriptor, not_ne_iff] at hnot
  have hle : slot ≤ slot' := Fin.not_lt.1 fun hlt => hearlier slot' hlt hnot
  simp only [descriptor]
  exact Int.add_le_add_right (Int.ofNat_le.2 hle) _

end Live

theorem live_new (storage : σ) : (ofStorage storage : FileTable σ η n).Live [] := by
  refine ⟨List.nodup_nil, fun {fd} => iff_of_false List.not_mem_nil ?_⟩
  rintro ⟨slot, -, hheld⟩
  exact hheld (get_replicate none slot)

/-- No operation takes the number for a descriptor: each answers that it is bad and leaves the table
as it is, storage and all. -/
structure Refuses [Storage σ η] (t : FileTable σ η n) (fd : Descriptor) : Prop where
  close : t.close fd = (.error .badDescriptor, t)
  read : ∀ count, t.read fd count = (.error .badDescriptor, t)
  seek : ∀ offset whence, t.seek fd offset whence = pure (.error .badDescriptor, t)
  fstat : t.fstat fd = .error .badDescriptor
  position : t.position fd = .error .badDescriptor

/-- Operations on a standard stream answer for themselves and leave the table as it is. -/
structure PassesBy [Storage σ η] (t : FileTable σ η n) (fd : Descriptor) : Prop where
  close : t.close fd = (.ok (), t)
  read : ∀ count, t.read fd count = (.ok [], t)
  seek : ∀ offset whence, t.seek fd offset whence = pure (.error .unsupported, t)

variable [Storage σ η] {t : FileTable σ η n} {live : List Descriptor} {fd : Descriptor}

theorem Live.refuses (h : t.Live live) (hfd : fd ∉ live) (hstandard : fd.isStandard = false) :
    t.Refuses fd := by
  have hfind : t.find? fd = none := by
    rw [Option.eq_none_iff_forall_ne_some]
    rintro ⟨slot, file⟩ hfind
    obtain ⟨rfl, hfile⟩ := find?_eq_some.1 hfind
    exact hfd (h.mem_descriptor.2 (by simp [hfile]))
  constructor <;> simp [close, read, seek, fstat, FileTable.position, hstandard, hfind]

theorem passesBy_of_isStandard (hstandard : fd.isStandard) : t.PassesBy fd := by
  constructor <;> simp [close, read, seek, hstandard]

/-- Opening fails for want of a descriptor exactly if no slot is free, and else answers, if anything,
the descriptor of the first one that is. -/
theorem openFile_answer (t : FileTable σ η n) (path : String) :
    ((t.openFile path).value.1 = .error .tooManyOpenFiles ↔ t.freeSlot? = none) ∧
      ∀ fd, (t.openFile path).value.1 = .ok fd →
        ∃ slot, t.freeSlot? = some slot ∧ fd = descriptor slot := by
  cases hfree : t.freeSlot? with
  | none => simp [openFile, hfree]
  | some slot =>
    simp only [openFile, hfree]
    split
    · simp
    · split
      · simp
      · split
        · simp
        · simp [eq_comm]

end FileTable

/-! ## Sessions -/

namespace FileSession

variable [Storage σ η] [Patch.Loader ε] {s : FileSession σ η ε n} {act : FileAct σ}

theorem opened?_perform {fd : Descriptor} :
    (s.perform act).1.opened? = some fd ↔
      ∃ path, act = .call (.openFile path) ∧ (s.table.openFile path).value.1 = .ok fd := by
  cases act with
  | call call =>
    cases call with
    | openFile path =>
      simp only [perform, FileTable.perform, FileOutcome.opened?, FileAct.call.injEq,
        FileCall.openFile.injEq, exists_eq_left']
      cases (s.table.openFile path).value.1 <;> simp
    | _ => simp [perform, FileTable.perform, FileOutcome.opened?]
  | _ => simp [perform, FileOutcome.opened?]

/-- A slot holds a file after an act if the act opened it, or if it held one before and the act left
it open. -/
theorem perform_held_iff {slot : Fin n} :
    (s.perform act).2.table.slots.get slot ≠ none ↔
      (s.perform act).1.opened? = some (FileTable.descriptor slot) ∨
        s.table.slots.get slot ≠ none ∧ act ≠ .call (.close (FileTable.descriptor slot)) ∧
          act ≠ .call .closeAll := by
  rw [opened?_perform]
  constructor
  · exact fun hheld => (perform_held_cases hheld).symm
  · rintro (⟨path, rfl, hopen⟩ | ⟨hheld, hclose, hcloseAll⟩)
    · obtain ⟨e, s', hvalue, -⟩ | ⟨slot', size, handle, s₁, s₂, -, -, -, hvalue⟩ :=
        s.table.openFile_cases path
      · rw [hvalue] at hopen
        cases hopen
      · rw [hvalue] at hopen
        obtain rfl := FileTable.descriptor_injective (Except.ok.inj hopen)
        simp only [perform, FileTable.perform, hvalue, FileTable.put]
        rw [FileTable.get_set, if_pos rfl]
        exact Option.some_ne_none _
    · obtain ⟨file, hfile⟩ := Option.ne_none_iff_exists'.1 hheld
      obtain ⟨file', hfile', -⟩ := perform_size_kept hclose hcloseAll ⟨file, hfile, rfl⟩
      rw [hfile']
      exact Option.some_ne_none _

variable {live : List Descriptor}

/-- An act and its outcome tell which descriptors are live after it. -/
theorem perform_live (h : s.table.Live live) (act : FileAct σ) :
    (s.perform act).2.table.Live (FileAct.live live (act, (s.perform act).1)) := by
  refine ⟨?_, fun {fd} => ?_⟩
  · have hleft : (act.leaves live).Nodup := h.nodup.sublist (FileAct.leaves_sublist live act)
    unfold FileAct.live
    cases hopened : (s.perform act).1.opened? with
    | none => exact hleft
    | some fd =>
      -- A descriptor that is given out had a free slot.
      obtain ⟨path, -, hopen⟩ := opened?_perform.1 hopened
      obtain ⟨slot, hfree, rfl⟩ := (s.table.openFile_answer path).2 fd hopen
      have hnew : FileTable.descriptor slot ∉ act.leaves live := fun hmem =>
        (h.free_iff hfree).1 (FileAct.mem_leaves.1 hmem).1
      exact List.nodup_cons.2 ⟨hnew, hleft⟩
  · rw [FileAct.mem_live]
    constructor
    · rintro (hopened | ⟨hfd, hclose, hcloseAll⟩)
      · obtain ⟨path, -, hopen⟩ := opened?_perform.1 hopened
        obtain ⟨slot, -, rfl⟩ := (s.table.openFile_answer path).2 fd hopen
        exact ⟨slot, rfl, perform_held_iff.2 (.inl hopened)⟩
      · obtain ⟨slot, rfl, hheld⟩ := h.mem_iff.1 hfd
        exact ⟨slot, rfl, perform_held_iff.2 (.inr ⟨hheld, hclose, hcloseAll⟩)⟩
    · rintro ⟨slot, rfl, hheld⟩
      rwa [h.mem_descriptor, ← perform_held_iff]

theorem performAll_live (h : s.table.Live live) (acts : List (FileAct σ)) :
    (s.performAll acts).2.table.Live ((acts.zip (s.performAll acts).1).foldl FileAct.live live) := by
  induction acts generalizing s live with
  | nil => exact h
  | cons act acts ih => exact ih (perform_live h act)

/-- Descriptors are given out and checked exactly. Whatever storage does and however it changes,
after any acts on a new table the live descriptors are distinct, lie in the range of the table and
are as many as the files that are open, and it is for them that a position is told. An open fails for
want of a descriptor exactly if all are live, and one that succeeds answers the least that is not.
Any other number but those of the standard streams is refused, and neither with these nor with a
standard stream is the table touched, or the storage in it. -/
theorem session_descriptors (n : Nat) (storage : σ) (engine : ε) (acts : List (FileAct σ)) :
    let r := (new n storage engine).performAll acts
    let t := r.2.table
    let live := FileAct.liveAfter acts r.1
    live.Nodup ∧ (∀ fd ∈ live, Cursors.InTable n fd) ∧ t.openCount = live.length ∧
      (∀ fd, fd ∈ live ↔ ∃ position, t.position fd = .ok position) ∧
      (∀ path, ((t.openFile path).value.1 = .error .tooManyOpenFiles ↔ live.length = n) ∧
        ∀ fd, (t.openFile path).value.1 = .ok fd → fd ∉ live ∧ Cursors.InTable n fd ∧
          ∀ other, Cursors.InTable n other → other ∉ live → fd.raw ≤ other.raw) ∧
      (∀ fd, fd ∉ live → fd.isStandard = false → t.Refuses fd) ∧
      ∀ fd, fd.isStandard → t.PassesBy fd := by
  intro r t live
  have hlive : t.Live live := performAll_live (FileTable.live_new storage) acts
  refine ⟨hlive.nodup, fun fd => hlive.inTable, hlive.length_eq.symm, fun fd => hlive.position_iff,
    fun path => ?_, fun fd => hlive.refuses, fun fd => FileTable.passesBy_of_isStandard⟩
  obtain ⟨htooMany, hanswer⟩ := t.openFile_answer path
  refine ⟨htooMany.trans hlive.full_iff, fun fd hopen => ?_⟩
  obtain ⟨slot, hfree, rfl⟩ := hanswer fd hopen
  obtain ⟨hnew, hleast⟩ := hlive.free_iff hfree
  exact ⟨hnew, FileTable.inTable_descriptor slot, hleast⟩

/-- The first of two descriptors is closed, given out again, and meanwhile refused. -/
theorem session_descriptors_reused :
    let shelf : Shelf := { files := [("a", [1, 2, 3])], most := 2 }
    let acts : List (FileAct Shelf) :=
      [.call (.openFile "a"), .call (.openFile "/a"), .load "a", .call (.close ⟨10⟩)]
    let r := (new 2 shelf true).performAll acts
    let live := FileAct.liveAfter acts r.1
    live = [⟨11⟩] ∧ Cursors.InTable 2 ⟨11⟩ ∧ (r.2.table.openFile "./a").value.1 = .ok ⟨10⟩ ∧
      ⟨10⟩ ∉ live ∧ r.2.table.Refuses ⟨10⟩ ∧ r.2.table.Refuses ⟨-2147483648⟩ ∧
      r.2.table.PassesBy .stderr := by
  intro shelf acts r live
  have hlive : live = [⟨11⟩] := by decide +kernel
  have hopen : (r.2.table.openFile "./a").value.1 = .ok ⟨10⟩ := by decide +kernel
  obtain ⟨-, hinTable, -, -, hopens, hrefuses, hpasses⟩ := session_descriptors 2 shelf true acts
  have hnew : ⟨10⟩ ∉ live := ((hopens "./a").2 ⟨10⟩ hopen).1
  have hlast : ⟨11⟩ ∈ live := by
    rw [hlive]
    decide
  have hlowest : ⟨-2147483648⟩ ∉ live := by
    rw [hlive]
    decide
  exact ⟨hlive, hinTable ⟨11⟩ hlast, hopen, hnew,
    hrefuses ⟨10⟩ hnew rfl, hrefuses _ hlowest rfl, hpasses .stderr rfl⟩

end FileSession

end Patchbay
