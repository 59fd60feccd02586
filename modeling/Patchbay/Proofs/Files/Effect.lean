import Mathlib.Data.List.Induction
import Mathlib.Logic.Relation
import Patchbay.Proofs.Files.Coupling
/-!
# What an operation does to the slots

Storage is *probed* when files were asked for and those that were there were read for a while and
closed again. `Effect` lists all that a call can come to. Storage is probed and the slots stay, or
the call succeeds and changes one slot, or all of them when everything is closed. A call that fails
does the first of these, and so does the loading of a patch, whether it fails or not.
-/

namespace Patchbay

variable {σ η ε : Type} {n : Nat} [Storage σ η]

namespace Storage

/-- One read through a handle. -/
inductive ReadOnce : η × σ → η × σ → Prop
  | read (handle : η) (storage : σ) {count : Nat} (h : 0 < count) :
    ReadOnce (handle, storage) (Storage.read handle count storage).2

/-- Storage is asked for a file. It has none, or the file is read for a while and then closed. -/
inductive Glance (s : σ) : σ → Prop
  | missed {name : String} {s' : σ} (h : Storage.openFile name s = (none, s')) : Glance s s'
  | visited {name : String} {handle handle' : η} {s₁ s₂ : σ}
    (h : Storage.openFile name s = (some handle, s₁))
    (hread : Relation.ReflTransGen ReadOnce (handle, s₁) (handle', s₂)) :
    Glance s (Storage.close handle' s₂)

/-- Storage is asked for files one after another, and none of them stays open. -/
abbrev Probed : σ → σ → Prop := Relation.ReflTransGen Glance

theorem skipFrom_reads (passed count : Nat) (handle : η) (s : σ) :
    Relation.ReflTransGen ReadOnce (handle, s) (skipFrom passed count handle s).2 := by
  induction passed, handle, s using skipFrom_induct (σ := σ) count with
  | done passed handle s hle => rw [skipFrom_of_le hle]
  | next passed handle s data? handle' s' hlt hwant hread ih =>
    have hfirst := Relation.ReflTransGen.single (ReadOnce.read handle s hwant)
    rw [hread] at hfirst
    rw [skipFrom_of_read hlt hread]
    by_cases hend : data?.getD [] = []
    · rw [if_pos hend]
      exact hfirst
    · rw [if_neg hend]
      exact hfirst.trans (ih hend)

end Storage

namespace FileTable

theorem measure_probed (name : String) (s : σ) : Storage.Probed s (measure name s).2 := by
  rw [measure]
  split
  · next s' hopen => exact .single (.missed hopen)
  · next probe s' hopen =>
    exact .single (.visited hopen (Storage.skipFrom_reads 0 maxFileBytes probe s'))

variable {t t' : FileTable σ η n}

/-! ## The single operations -/

/-- Opening a file fails and leaves the slots, or fills a free one with a file that was measured and
then opened. -/
theorem openFile_cases (t : FileTable σ η n) (path : String) :
    (∃ e s', (t.openFile path).value = (.error e, { t with storage := s' }) ∧
      Storage.Probed t.storage s') ∨
    ∃ slot size handle s₁ s₂, t.slots.get slot = none ∧
      measure (Path.normalize path) t.storage = (some size, s₁) ∧
      Storage.openFile (Path.normalize path) s₁ = (some handle, s₂) ∧
      (t.openFile path).value = (.ok (descriptor slot),
        t.put slot { handle, size, position := 0, name := Path.normalize path } s₂) := by
  cases hfree : t.freeSlot? with
  | none =>
    refine .inl ⟨.tooManyOpenFiles, t.storage, ?_, .refl⟩
    simp only [openFile, hfree]
    rfl
  | some slot =>
    by_cases hlong : Limits.maxPathBytes < (Path.normalize path).utf8ByteSize
    · refine .inl ⟨.pathTooLong, t.storage, ?_, .refl⟩
      simp only [openFile, hfree, if_pos hlong]
      rfl
    · simp only [openFile, hfree, if_neg hlong]
      have hprobed := measure_probed (Path.normalize path) t.storage
      obtain ⟨size?, s₁, hmeasure⟩ :
          ∃ size? s₁, measure (Path.normalize path) t.storage = (size?, s₁) := ⟨_, _, rfl⟩
      rw [hmeasure] at hprobed ⊢
      cases size? with
      | none => exact .inl ⟨.notFound, s₁, rfl, hprobed⟩
      | some size =>
        obtain ⟨handle?, s₂, hopen⟩ :
            ∃ handle? s₂, Storage.openFile (Path.normalize path) s₁ = (handle?, s₂) := ⟨_, _, rfl⟩
        simp only [hopen]
        cases handle? with
        | none => exact .inl ⟨.notFound, s₂, rfl, hprobed.tail (.missed hopen)⟩
        | some handle =>
          exact .inr ⟨slot, size, handle, s₁, s₂, (freeSlot?_eq_some.1 hfree).1, rfl, hopen, rfl⟩

/-- A read from an open file passes on what storage gives, and writes the progress down. -/
theorem read_of_find? {fd : Descriptor} {slot : Fin n} {file : OpenFile η}
    (h : t.find? fd = some (slot, file)) {count : Nat} (hcount : 0 < count) :
    t.read fd count =
      let r := Storage.read file.handle count t.storage
      (.ok (r.1.getD []), t.put slot
        { file with handle := r.2.1, position := file.position + (r.1.getD []).length } r.2.2) := by
  simp only [read, if_neg (not_isStandard_of_find? h), h, if_neg (Nat.ne_of_gt hcount)]

theorem rewind_cases (file : OpenFile η) (s : σ) :
    (∃ s', rewind file s = (none, s') ∧ Storage.Probed s s') ∨
      ∃ start s', rewind file s = (some start, s') ∧ start.size = file.size ∧
        start.name = file.name := by
  rw [rewind]
  split
  · next s' hopen => exact .inl ⟨s', rfl, .single (.missed hopen)⟩
  · next handle s' hopen => exact .inr ⟨_, _, rfl, rfl, rfl⟩

/-- A seek in an open file cannot open it anew and leaves it as it is, or moves in the file. -/
theorem seek_cases {fd : Descriptor} {slot : Fin n} {file : OpenFile η}
    (h : t.find? fd = some (slot, file)) (offset : Int) (whence : Whence) :
    (∃ s', (t.seek fd offset whence).value = (.error .reopenFailed, { t with storage := s' }) ∧
      Storage.Probed t.storage s') ∨
    ∃ moved s', (t.seek fd offset whence).value = (.ok moved.position, t.put slot moved s') ∧
      moved.size = file.size ∧ moved.name = file.name := by
  simp only [seek, if_neg (not_isStandard_of_find? h), h]
  by_cases hback : target file offset whence < file.position
  · simp only [if_pos hback]
    obtain ⟨s', hrewind, hprobed⟩ | ⟨start, s', hrewind, hsize, hname⟩ :=
      rewind_cases file t.storage
    · simp only [hrewind]
      exact .inl ⟨s', rfl, hprobed⟩
    · simp only [hrewind]
      exact .inr ⟨_, _, rfl, hsize, hname⟩
  · simp only [if_neg hback]
    exact .inr ⟨_, _, rfl, rfl, rfl⟩

/-- Closing what a free slot has just taken leaves the slots as they were. -/
theorem close_put {slot : Fin n} (hfree : t.slots.get slot = none) (file : OpenFile η) (s : σ) :
    (t.put slot file s).close (descriptor slot) =
      (.ok (), { t with storage := Storage.close file.handle s }) := by
  have hnone : t.slots[slot.val] = none := hfree
  simp only [close, not_isStandard_descriptor, Bool.false_eq_true, if_false, find?_put]
  rw [put, Vector.set_set, ← hnone, Vector.set_getElem_self]

/-! ## Any call -/

/-- What a call can come to. -/
inductive Effect (t t' : FileTable σ η n) (call : FileCall) (reply : FileReply) : Prop
  /-- The slots stay. -/
  | kept (hslots : t'.slots = t.slots) (hprobed : Storage.Probed t.storage t'.storage)
  /-- A free slot takes a file. -/
  | opened {path : String} {slot : Fin n} {file : OpenFile η} (hfree : t.slots.get slot = none)
    (hcall : call = .openFile path) (hreply : reply = .opened (.ok (descriptor slot)))
    (hslots : t'.slots = t.slots.set slot (some file) slot.isLt)
  /-- The file that the call is about is read on, or is opened anew and then read on. -/
  | moved {slot : Fin n} {file file' : OpenFile η} (hheld : t.slots.get slot = some file)
    (hcall : call.descriptor? = some (descriptor slot)) (hreply : reply.failed = false)
    (hsize : file'.size = file.size) (hname : file'.name = file.name)
    (hslots : t'.slots = t.slots.set slot (some file') slot.isLt)
  /-- The file that the call is about is closed. -/
  | closed {slot : Fin n} (hcall : call = .close (descriptor slot))
    (hreply : reply = .done (.ok ())) (hslots : t'.slots = t.slots.set slot none slot.isLt)
  /-- All files are closed. -/
  | cleared (hcall : call = .closeAll) (hreply : reply = .done (.ok ()))
    (hslots : t'.slots = Vector.replicate n none)

theorem perform_effect (t : FileTable σ η n) (call : FileCall) :
    Effect t (t.perform call).2 call (t.perform call).1 := by
  have hquiet {reply : FileReply} : Effect t t call reply := .kept rfl .refl
  cases call with
  | openFile path =>
    obtain ⟨e, s', hopen, hprobed⟩ | ⟨slot, size, handle, s₁, s₂, hfree, -, -, hopen⟩ :=
      openFile_cases t path
    · simp only [perform, hopen]
      exact .kept rfl hprobed
    · simp only [perform, hopen]
      exact .opened hfree rfl rfl rfl
  | read fd count =>
    cases hfind : t.find? fd with
    | none =>
      by_cases hfd : fd.isStandard
      · simpa only [perform, read, if_pos hfd] using hquiet
      · simpa only [perform, read, if_neg hfd, hfind] using hquiet
    | some found =>
      obtain ⟨slot, file⟩ := found
      obtain ⟨rfl, hheld⟩ := find?_eq_some.1 hfind
      rcases Nat.eq_zero_or_pos count with rfl | hcount
      · simpa only [perform, read, not_isStandard_descriptor, Bool.false_eq_true, if_false, hfind,
          if_true] using hquiet
      · simp only [perform, read_of_find? hfind hcount]
        refine .moved hheld rfl rfl ?_ ?_ rfl
        · rfl
        · rfl
  | seek fd offset whence =>
    cases hfind : t.find? fd with
    | none =>
      by_cases hfd : fd.isStandard
      · simpa only [perform, seek, if_pos hfd, Logged.value_pure] using hquiet
      · simpa only [perform, seek, if_neg hfd, hfind, Logged.value_pure] using hquiet
    | some found =>
      obtain ⟨slot, file⟩ := found
      obtain ⟨rfl, hheld⟩ := find?_eq_some.1 hfind
      obtain ⟨s', hseek, hprobed⟩ | ⟨moved, s', hseek, hsize, hname⟩ :=
        seek_cases hfind offset whence
      · simp only [perform, hseek]
        exact .kept rfl hprobed
      · simp only [perform, hseek]
        exact .moved hheld rfl rfl hsize hname rfl
  | close fd =>
    cases hfind : t.find? fd with
    | none =>
      by_cases hfd : fd.isStandard
      · simpa only [perform, close, if_pos hfd] using hquiet
      · simpa only [perform, close, if_neg hfd, hfind] using hquiet
    | some found =>
      obtain ⟨slot, file⟩ := found
      obtain ⟨rfl, -⟩ := find?_eq_some.1 hfind
      simp only [perform, close, not_isStandard_descriptor, Bool.false_eq_true, if_false, hfind]
      exact .closed rfl rfl rfl
  | stat path =>
    simp only [perform, stat]
    split
    · next s' hopen => exact .kept rfl (.single (.missed hopen))
    · next handle s' hopen => exact .kept rfl (.single (.visited hopen .refl))
  | fstat fd => exact hquiet
  | position fd => exact hquiet
  | closeAll => exact .cleared rfl rfl rfl

variable {call : FileCall} {reply : FileReply}

theorem Effect.of_failed (h : Effect t t' call reply) (hfailed : reply.failed) :
    t'.slots = t.slots ∧ Storage.Probed t.storage t'.storage := by
  cases h with
  | kept hslots hprobed => exact ⟨hslots, hprobed⟩
  | opened hfree hcall hreply hslots =>
    subst hreply
    cases hfailed
  | moved hheld hcall hreply hsize hname hslots =>
    rw [hreply] at hfailed
    cases hfailed
  | closed hcall hreply hslots =>
    subst hreply
    cases hfailed
  | cleared hcall hreply hslots =>
    subst hreply
    cases hfailed

theorem Effect.size_kept (h : Effect t t' call reply) {slot : Fin n}
    (hclose : call ≠ .close (descriptor slot)) (hcloseAll : call ≠ .closeAll) {size : Nat}
    (hheld : ∃ file, t.slots.get slot = some file ∧ file.size = size) :
    ∃ file, t'.slots.get slot = some file ∧ file.size = size := by
  obtain ⟨file, hheld, rfl⟩ := hheld
  cases h with
  | kept hslots hprobed =>
    rw [hslots]
    exact ⟨file, hheld, rfl⟩
  | @opened _ other _ hfree hcall hreply hslots =>
    have hne : slot ≠ other := by
      rintro rfl
      rw [hfree] at hheld
      cases hheld
    rw [hslots, get_set, if_neg hne]
    exact ⟨file, hheld, rfl⟩
  | @moved other old new hold hcall hreply hsize hname hslots =>
    rw [hslots, get_set]
    by_cases heq : slot = other
    · subst heq
      rw [hheld] at hold
      rw [if_pos rfl]
      exact ⟨new, rfl, hsize.trans (congrArg OpenFile.size (Option.some.inj hold)).symm⟩
    · rw [if_neg heq]
      exact ⟨file, hheld, rfl⟩
  | @closed other hcall hreply hslots =>
    have hne : slot ≠ other := by
      rintro rfl
      exact hclose hcall
    rw [hslots, get_set, if_neg hne]
    exact ⟨file, hheld, rfl⟩
  | cleared hcall hreply hslots => exact absurd hcall hcloseAll

theorem get_close (t : FileTable σ η n) (slot : Fin n) :
    (t.close (descriptor slot)).2.slots.get slot = none := by
  have hfind := find?_descriptor t slot
  cases hslot : t.slots.get slot with
  | none =>
    rw [hslot, Option.map_none] at hfind
    simpa only [close, not_isStandard_descriptor, Bool.false_eq_true, if_false, hfind] using hslot
  | some file =>
    rw [hslot, Option.map_some] at hfind
    simp only [close, not_isStandard_descriptor, Bool.false_eq_true, if_false, hfind]
    rw [get_set, if_pos rfl]

/-- A file that is open after a call was open before, or was opened by it. -/
theorem perform_held_cases {t : FileTable σ η n} {call : FileCall} {slot : Fin n}
    (hheld : (t.perform call).2.slots.get slot ≠ none) :
    (t.slots.get slot ≠ none ∧ call ≠ .close (descriptor slot) ∧ call ≠ .closeAll) ∨
      ∃ path, call = .openFile path ∧ (t.openFile path).value.1 = .ok (descriptor slot) := by
  have hclose : call ≠ .close (descriptor slot) := by
    rintro rfl
    exact hheld (get_close t slot)
  have hcloseAll : call ≠ .closeAll := by
    rintro rfl
    exact hheld (get_replicate none slot)
  cases perform_effect t call with
  | kept hslots hprobed =>
    rw [hslots] at hheld
    exact .inl ⟨hheld, hclose, hcloseAll⟩
  | @opened path other _ hfree hcall hreply hslots =>
    subst hcall
    by_cases heq : slot = other
    · subst heq
      exact .inr ⟨path, rfl, FileReply.opened.inj hreply⟩
    · rw [hslots, get_set, if_neg heq] at hheld
      exact .inl ⟨hheld, hclose, hcloseAll⟩
  | @moved other file _ hold hcall hreply hsize hname hslots =>
    by_cases heq : slot = other
    · subst heq
      exact .inl ⟨by simp [hold], hclose, hcloseAll⟩
    · rw [hslots, get_set, if_neg heq] at hheld
      exact .inl ⟨hheld, hclose, hcloseAll⟩
  | @closed other hcall hreply hslots =>
    have hne : slot ≠ other := by
      rintro rfl
      exact hclose hcall
    rw [hslots, get_set, if_neg hne] at hheld
    exact .inl ⟨hheld, hclose, hcloseAll⟩
  | cleared hcall hreply hslots => exact absurd hcall hcloseAll

end FileTable

/-! ## Patches and whole sessions -/

namespace Patch

theorem measure_of_error {path : String} {t t' : FileTable σ η n} {e : FileError}
    (h : (t.openFile path).value = (.error e, t')) : (measure path t).value = (.error e, t') := by
  simp only [measure, Logged.value_bind, h, Logged.value_pure]

/-- A file that is measured for a patch is closed again, so its slot is as free as before. -/
theorem measure_of_ok {path : String} {t : FileTable σ η n} {slot : Fin n} {file : OpenFile η} {s : σ}
    (hfree : t.slots.get slot = none)
    (h : (t.openFile path).value = (.ok (FileTable.descriptor slot), t.put slot file s)) :
    (measure path t).value = (.ok file.size, { t with storage := Storage.close file.handle s }) := by
  simp only [measure, Logged.value_bind, h, FileTable.close_put hfree, FileTable.fstat_put,
    Logged.value_pure]
  rfl

theorem measure_probed (path : String) (t : FileTable σ η n) :
    (measure path t).value.2.slots = t.slots ∧
      Storage.Probed t.storage (measure path t).value.2.storage := by
  obtain ⟨e, s', hopen, hprobed⟩ | ⟨slot, size, handle, s₁, s₂, hfree, hmeasure, hopened, hopen⟩ :=
    t.openFile_cases path
  · rw [measure_of_error hopen]
    exact ⟨rfl, hprobed⟩
  · rw [measure_of_ok hfree hopen]
    have hmeasured := FileTable.measure_probed (Path.normalize path) t.storage
    rw [hmeasure] at hmeasured
    exact ⟨rfl, hmeasured.tail (.visited hopened .refl)⟩

variable [Loader ε]

theorem load_probed (path : String) (t : FileTable σ η n) (engine : ε) :
    (load path t engine).value.2.1.slots = t.slots ∧
      Storage.Probed t.storage (load path t engine).value.2.1.storage := by
  have hmeasure := measure_probed path t
  simp only [load, Logged.value_bind]
  cases (measure path t).value.1 with
  | error e => exact hmeasure
  | ok size =>
    simp only []
    split
    · exact hmeasure
    · split
      · exact hmeasure
      · split
        · exact hmeasure
        · exact hmeasure

theorem loadFirst_probed (listing : List String) (t : FileTable σ η n) (engine : ε) :
    (loadFirst listing t engine).value.2.1.slots = t.slots ∧
      Storage.Probed t.storage (loadFirst listing t engine).value.2.1.storage := by
  induction listing generalizing t engine with
  | nil => exact ⟨rfl, .refl⟩
  | cons name rest ih =>
    simp only [loadFirst]
    split
    · exact ih t engine
    · have hload := load_probed name t engine
      simp only [Logged.value_bind]
      cases (load name t engine).value.1 with
      | ok patch => exact hload
      | error e =>
        obtain ⟨hslots, hprobed⟩ := ih (load name t engine).value.2.1 (load name t engine).value.2.2
        exact ⟨hslots.trans hload.1, hload.2.trans hprobed⟩

theorem find_probed (listing : List String) (t : FileTable σ η n) (engine : ε) :
    (find listing t engine).value.2.1.slots = t.slots ∧
      Storage.Probed t.storage (find listing t engine).value.2.1.storage := by
  have hload := load_probed Limits.defaultPatch t engine
  simp only [find, Logged.value_bind]
  cases (load Limits.defaultPatch t engine).value.1 with
  | ok patch => exact hload
  | error e =>
    obtain ⟨hslots, hprobed⟩ := loadFirst_probed listing
      (load Limits.defaultPatch t engine).value.2.1 (load Limits.defaultPatch t engine).value.2.2
    exact ⟨hslots.trans hload.1, hload.2.trans hprobed⟩

end Patch

namespace FileSession

variable [Patch.Loader ε] {s : FileSession σ η ε n} {act : FileAct σ}

theorem perform_of_failed (h : (s.perform act).1.failed) :
    (s.perform act).2.table.slots = s.table.slots ∧
      Storage.Probed s.table.storage (s.perform act).2.table.storage := by
  cases act with
  | call call => exact (s.table.perform_effect call).of_failed h
  | load path => exact Patch.load_probed path s.table s.engine
  | find listing => exact Patch.find_probed listing s.table s.engine
  | change f => cases h

theorem perform_size_kept {slot : Fin n}
    (hclose : act ≠ .call (.close (FileTable.descriptor slot))) (hcloseAll : act ≠ .call .closeAll)
    {size : Nat} (hheld : ∃ file, s.table.slots.get slot = some file ∧ file.size = size) :
    ∃ file, (s.perform act).2.table.slots.get slot = some file ∧ file.size = size := by
  cases act with
  | call call =>
    exact (s.table.perform_effect call).size_kept (fun h => hclose (congrArg _ h))
      (fun h => hcloseAll (congrArg _ h)) hheld
  | load path =>
    have hslots := (Patch.load_probed path s.table s.engine).1
    exact hslots ▸ hheld
  | find listing =>
    have hslots := (Patch.find_probed listing s.table s.engine).1
    exact hslots ▸ hheld
  | change f => exact hheld

theorem perform_held_cases {slot : Fin n} (hheld : (s.perform act).2.table.slots.get slot ≠ none) :
    (s.table.slots.get slot ≠ none ∧ act ≠ .call (.close (FileTable.descriptor slot)) ∧
      act ≠ .call .closeAll) ∨
    ∃ path, act = .call (.openFile path) ∧
      (s.table.openFile path).value.1 = .ok (FileTable.descriptor slot) := by
  cases act with
  | call call =>
    obtain ⟨hbefore, hclose, hcloseAll⟩ | ⟨path, rfl, hopen⟩ :=
      FileTable.perform_held_cases (t := s.table) hheld
    · exact .inl ⟨hbefore, fun h => hclose (FileAct.call.inj h),
        fun h => hcloseAll (FileAct.call.inj h)⟩
    · exact .inr ⟨path, rfl, hopen⟩
  | load path =>
    have hslots := (Patch.load_probed path s.table s.engine).1
    exact .inl ⟨hslots ▸ hheld, by simp, by simp⟩
  | find listing =>
    have hslots := (Patch.find_probed listing s.table s.engine).1
    exact .inl ⟨hslots ▸ hheld, by simp, by simp⟩
  | change f => exact .inl ⟨hheld, by simp, by simp⟩

/-- An act opens a file for a descriptor, and the acts after it leave it open. -/
structure Opens (s : FileSession σ η ε n) (before : List (FileAct σ)) (path : String)
    (later : List (FileAct σ)) (fd : Descriptor) : Prop where
  answer : ((s.performAll before).2.table.openFile path).value.1 = .ok fd
  close_not_mem : .call (.close fd) ∉ later
  closeAll_not_mem : .call .closeAll ∉ later

/-- Every open file was opened by some act. -/
theorem exists_opens (hnew : ∀ slot, s.table.slots.get slot = none) {acts : List (FileAct σ)}
    {slot : Fin n} (hheld : (s.performAll acts).2.table.slots.get slot ≠ none) :
    ∃ before path later, acts = before ++ .call (.openFile path) :: later ∧
      s.Opens before path later (FileTable.descriptor slot) := by
  induction acts using List.reverseRecOn with
  | nil => exact absurd (hnew slot) hheld
  | append_singleton acts act ih =>
    rw [performAll, runAll_append] at hheld
    obtain ⟨hbefore, hclose, hcloseAll⟩ | ⟨path, rfl, hopen⟩ := perform_held_cases hheld
    · obtain ⟨before, path, later, rfl, hopens⟩ := ih hbefore
      refine ⟨before, path, later ++ [act], by simp, hopens.answer, ?_, ?_⟩
      · simp [hopens.close_not_mem, hclose.symm]
      · simp [hopens.closeAll_not_mem, hcloseAll.symm]
    · exact ⟨acts, path, [], rfl, hopen, by simp, by simp⟩

theorem performAll_size_kept {acts : List (FileAct σ)} {slot : Fin n}
    (hclose : .call (.close (FileTable.descriptor slot)) ∉ acts)
    (hcloseAll : .call .closeAll ∉ acts) {size : Nat}
    (hheld : ∃ file, s.table.slots.get slot = some file ∧ file.size = size) :
    ∃ file, (s.performAll acts).2.table.slots.get slot = some file ∧ file.size = size := by
  apply runAll_keeps (P := fun s : FileSession σ η ε n =>
    ∃ file, s.table.slots.get slot = some file ∧ file.size = size) _ hheld
  rintro act hact s hheld
  apply perform_size_kept _ _ hheld
  · rintro rfl
    exact hclose hact
  · rintro rfl
    exact hcloseAll hact

end FileSession

end Patchbay
