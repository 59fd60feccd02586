import Patchbay.Proofs.Files.Acts
import Patchbay.Proofs.Files.Held
import Patchbay.Proofs.Files.Steady
/-!
# Storages in step

Two storages are in step when they open files and fail together and give the same data. What ties
their states to each other is up to them; `Storage.Coupling` is the rule that such a tie must keep.
It is stated with the files that are open in both: each file has a handle on either side, and the
bytes read through the one are those read through the other.

Tables over two storages in step answer every act alike. There is one lemma for each operation.
-/

namespace Patchbay

variable {σ τ η κ ε : Type} {n : Nat}

variable {Coupled : Multiset (OpenFile (η × κ)) → σ → τ → Prop}
  {files : Multiset (OpenFile (η × κ))} {file : OpenFile (η × κ)} {s : σ} {r : τ}

namespace Storage

variable [Storage σ η] [Storage τ κ]

/-- The rule for two storages in step, of which `files` are open. -/
structure Coupling (Coupled : Multiset (OpenFile (η × κ)) → σ → τ → Prop) : Prop where
  openFile : ∀ {files s t} (name : String), Coupled files s t →
    (∃ s' t', Storage.openFile name s = (none, s') ∧ Storage.openFile name t = (none, t') ∧
      Coupled files s' t') ∨
    ∃ handle s' t', Storage.openFile name s = (some handle.1, s') ∧
      Storage.openFile name t = (some handle.2, t') ∧
      ∀ size, Coupled ({ handle, size, position := 0, name } ::ₘ files) s' t'
  read : ∀ {files s t count} {file : OpenFile (η × κ)}, Coupled (file ::ₘ files) s t → 0 < count →
    ∃ data? handle s' t', Storage.read file.handle.1 count s = (data?, handle.1, s') ∧
      Storage.read file.handle.2 count t = (data?, handle.2, t') ∧
      Coupled
        ({ file with handle, position := file.position + (data?.getD []).length } ::ₘ files) s' t'
  close : ∀ {files s t} {file : OpenFile (η × κ)}, Coupled (file ::ₘ files) s t →
    Coupled files (Storage.close file.handle.1 s) (Storage.close file.handle.2 t)

theorem Coupling.skipFrom (c : Coupling Coupled) (passed count : Nat) (left : η) (right : κ)
    {size position : Nat} {name : String}
    (h : Coupled ({ handle := (left, right), size, position, name } ::ₘ files) s r) :
    ∃ more handle s' r', Storage.skipFrom passed count left s = (passed + more, handle.1, s') ∧
      Storage.skipFrom passed count right r = (passed + more, handle.2, r') ∧
      Coupled ({ handle, size, position := position + more, name } ::ₘ files) s' r' := by
  induction passed, left, s using Storage.skipFrom_induct (σ := σ) count
    generalizing right position r with
  | done passed left s hle =>
    rw [skipFrom_of_le hle, skipFrom_of_le hle]
    exact ⟨0, (left, right), s, r, rfl, rfl, h⟩
  | next passed left s data? left' s₁ hlt hwant hread ih =>
    obtain ⟨_, handle, _, r₁, hsame, hread', h₁⟩ := c.read h hwant
    obtain ⟨rfl, rfl, rfl⟩ := hread.symm.trans hsame
    rw [skipFrom_of_read hlt hread, skipFrom_of_read hlt hread']
    by_cases hend : data?.getD [] = []
    · rw [hend] at h₁
      rw [if_pos hend, if_pos hend]
      exact ⟨0, handle, s₁, r₁, rfl, rfl, h₁⟩
    · rw [if_neg hend, if_neg hend]
      obtain ⟨more, handle', s', r', hskip, hskip', h'⟩ := ih hend handle.2 h₁
      rw [Nat.add_assoc] at hskip hskip' h'
      exact ⟨_, handle', s', r', hskip, hskip', h'⟩

theorem Coupling.skip (c : Coupling Coupled) (count : Nat)
    (h : Coupled (file ::ₘ files) s r) :
    ∃ passed handle s' r', Storage.skip count file.handle.1 s = (passed, handle.1, s') ∧
      Storage.skip count file.handle.2 r = (passed, handle.2, r') ∧
      Coupled ({ file with handle, position := file.position + passed } ::ₘ files) s' r' := by
  simpa [Storage.skip] using c.skipFrom 0 count file.handle.1 file.handle.2 h

end Storage

namespace FileTable

/-- Two tables in step: they hold the same files, each through the handle on its side. -/
def InStep (Coupled : Multiset (OpenFile (η × κ)) → σ → τ → Prop) (t : FileTable σ η n)
    (u : FileTable τ κ n) : Prop :=
  ∃ both : Vector (Option (OpenFile (η × κ))) n,
    t.slots = both.map (Option.map (OpenFile.map Prod.fst)) ∧
      u.slots = both.map (Option.map (OpenFile.map Prod.snd)) ∧
      Coupled (held both) t.storage u.storage

variable {t : FileTable σ η n} {u : FileTable τ κ n}

theorem InStep.empty (h : Coupled 0 s r) :
    InStep Coupled ({ storage := s, slots := Vector.replicate n none } : FileTable σ η n)
      ({ storage := r, slots := Vector.replicate n none } : FileTable τ κ n) := by
  refine ⟨Vector.replicate n none, ?_, ?_, ?_⟩
  · rw [Vector.map_replicate, Option.map_none]
  · rw [Vector.map_replicate, Option.map_none]
  · rw [held_replicate_none]
    exact h

/-- The storages of two tables in step go on together under the slots as they are. -/
theorem InStep.restore (h : InStep Coupled t u) :
    ∃ files, Coupled files t.storage u.storage ∧
      ∀ {s r}, Coupled files s r → InStep Coupled { t with storage := s } { u with storage := r } := by
  obtain ⟨both, ht, hu, hstorage⟩ := h
  exact ⟨held both, hstorage, fun hstorage' => ⟨both, ht, hu, hstorage'⟩⟩

/-- A descriptor is looked up alike in two tables in step. What it finds can be worked on beside the
other files, and then be written back or given up. -/
theorem InStep.find?_cases (h : InStep Coupled t u) (fd : Descriptor) :
    (t.find? fd = none ∧ u.find? fd = none) ∨
      ∃ slot file others, t.find? fd = some (slot, file.map Prod.fst) ∧
        u.find? fd = some (slot, file.map Prod.snd) ∧
        Coupled (file ::ₘ others) t.storage u.storage ∧
        (∀ {s r}, Coupled (file ::ₘ others) s r →
          InStep Coupled { t with storage := s } { u with storage := r }) ∧
        (∀ {file' s r}, Coupled (file' ::ₘ others) s r →
          InStep Coupled (t.put slot (file'.map Prod.fst) s) (u.put slot (file'.map Prod.snd) r)) ∧
        ∀ {s r}, Coupled others s r →
          InStep Coupled { storage := s, slots := t.slots.set slot none slot.isLt }
            { storage := r, slots := u.slots.set slot none slot.isLt } := by
  obtain ⟨both, ht, hu, hstorage⟩ := h
  let b : FileTable Unit (η × κ) n := { storage := (), slots := both }
  have hfindt := find?_eq_map (t := b) ht fd
  have hfindu := find?_eq_map (t := b) hu fd
  cases hfind : b.find? fd with
  | none =>
    rw [hfind] at hfindt hfindu
    exact .inl ⟨hfindt, hfindu⟩
  | some found =>
    obtain ⟨slot, file⟩ := found
    rw [hfind] at hfindt hfindu
    obtain ⟨-, hslot⟩ := find?_eq_some.1 hfind
    obtain ⟨others, hheld, hset⟩ := held_split both slot
    replace hheld : held both = file ::ₘ others := by
      rw [hheld, show both.get slot = some file from hslot, Option.elim_some]
    rw [hheld] at hstorage
    have hwrite (file? : Option (OpenFile (η × κ))) {s r}
        (hstorage' : Coupled (file?.elim others (· ::ₘ others)) s r) :
        InStep Coupled
          { storage := s, slots := t.slots.set slot (file?.map (OpenFile.map Prod.fst)) }
          { storage := r, slots := u.slots.set slot (file?.map (OpenFile.map Prod.snd)) } := by
      refine ⟨both.set slot file?, ?_, ?_, ?_⟩
      · rw [← set_map, ht]
      · rw [← set_map, hu]
      · rwa [hset]
    exact .inr ⟨slot, file, others, hfindt, hfindu, hstorage,
      fun hstorage' => ⟨both, ht, hu, by rwa [hheld]⟩, hwrite (some _), hwrite none⟩

theorem InStep.freeSlot?_cases (h : InStep Coupled t u) :
    (t.freeSlot? = none ∧ u.freeSlot? = none) ∨
      ∃ slot files, t.freeSlot? = some slot ∧ u.freeSlot? = some slot ∧
        Coupled files t.storage u.storage ∧
        (∀ {s r}, Coupled files s r →
          InStep Coupled { t with storage := s } { u with storage := r }) ∧
        ∀ {file s r}, Coupled (file ::ₘ files) s r →
          InStep Coupled (t.put slot (file.map Prod.fst) s) (u.put slot (file.map Prod.snd) r) := by
  obtain ⟨both, ht, hu, hstorage⟩ := h
  let b : FileTable Unit (η × κ) n := { storage := (), slots := both }
  have hfreet := freeSlot?_eq_of_map (t := b) ht
  have hfreeu := freeSlot?_eq_of_map (t := b) hu
  cases hfree : b.freeSlot? with
  | none => exact .inl ⟨hfreet.trans hfree, hfreeu.trans hfree⟩
  | some slot =>
    obtain ⟨hslot, -⟩ := freeSlot?_eq_some.1 hfree
    obtain ⟨others, hheld, hset⟩ := held_split both slot
    replace hheld : held both = others := by
      rw [hheld, show both.get slot = none from hslot, Option.elim_none]
    rw [hheld] at hstorage
    refine .inr ⟨slot, others, hfreet.trans hfree, hfreeu.trans hfree, hstorage,
      fun hstorage' => ⟨both, ht, hu, by rwa [hheld]⟩, fun {file s r} hstorage' => ?_⟩
    refine ⟨both.set slot (some file), ?_, ?_, ?_⟩
    · rw [← set_map, ← ht]
      rfl
    · rw [← set_map, ← hu]
      rfl
    · rwa [hset]

/-! ## The operations -/

variable [Storage σ η] [Storage τ κ] (c : Storage.Coupling Coupled)

include c in
theorem measure_in_step (name : String) (h : Coupled files s r) :
    ∃ size? s' r', measure name s = (size?, s') ∧ measure name r = (size?, r') ∧
      Coupled files s' r' := by
  obtain ⟨s', r', hopen, hopen', h'⟩ | ⟨probe, s₁, r₁, hopen, hopen', h₁⟩ := c.openFile name h
  · exact ⟨none, s', r', by simp [measure, hopen], by simp [measure, hopen'], h'⟩
  · obtain ⟨size, probe', s₂, r₂, hskip, hskip', h₂⟩ := c.skip maxFileBytes (h₁ 0)
    refine ⟨some size, _, _, ?_, ?_, c.close h₂⟩
    · simp [measure, hopen, hskip]
    · simp [measure, hopen', hskip']

include c in
theorem InStep.openFile (h : InStep Coupled t u) (path : String) :
    (t.openFile path).value.1 = (u.openFile path).value.1 ∧
      InStep Coupled (t.openFile path).value.2 (u.openFile path).value.2 := by
  obtain ⟨ht, hu⟩ | ⟨slot, files, ht, hu, hfiles, hrestore, hput⟩ := h.freeSlot?_cases
  · simp only [FileTable.openFile, ht, hu]
    exact ⟨rfl, h⟩
  by_cases hlong : Limits.maxPathBytes < (Path.normalize path).utf8ByteSize
  · simp only [FileTable.openFile, ht, hu, hlong, if_true]
    exact ⟨rfl, h⟩
  simp only [FileTable.openFile, ht, hu, hlong, if_false]
  obtain ⟨size?, s₁, r₁, hsize, hsize', h₁⟩ := measure_in_step c (Path.normalize path) hfiles
  cases size? with
  | none =>
    simp only [hsize, hsize']
    exact ⟨rfl, hrestore h₁⟩
  | some size =>
    simp only [hsize, hsize']
    obtain ⟨s₂, r₂, hopen, hopen', h₂⟩ | ⟨handle, s₂, r₂, hopen, hopen', h₂⟩ :=
      c.openFile (Path.normalize path) h₁
    · simp only [hopen, hopen']
      exact ⟨rfl, hrestore h₂⟩
    · simp only [hopen, hopen']
      exact ⟨rfl, hput (h₂ size)⟩

include c in
theorem InStep.read (h : InStep Coupled t u) (fd : Descriptor) (count : Nat) :
    (t.read fd count).1 = (u.read fd count).1 ∧
      InStep Coupled (t.read fd count).2 (u.read fd count).2 := by
  by_cases hfd : fd.isStandard
  · simp only [FileTable.read, hfd, if_true]
    exact ⟨trivial, h⟩
  obtain ⟨ht, hu⟩ | ⟨slot, file, others, ht, hu, hfile, -, hput, -⟩ := h.find?_cases fd
  · simp only [FileTable.read, if_neg hfd, ht, hu]
    exact ⟨trivial, h⟩
  by_cases hcount : count = 0
  · simp only [FileTable.read, if_neg hfd, ht, hu, if_pos hcount]
    exact ⟨trivial, h⟩
  obtain ⟨data?, handle, s', r', hread, hread', h'⟩ := c.read hfile (Nat.pos_of_ne_zero hcount)
  simp only [FileTable.read, if_neg hfd, ht, hu, if_neg hcount, OpenFile.map, hread, hread']
  exact ⟨trivial, hput h'⟩

theorem target_map (f : η → κ) (file : OpenFile η) (offset : Int) (whence : Whence) :
    target (file.map f) offset whence = target file offset whence := by
  cases whence <;> rfl

include c in
/-- Where a seek starts from is found alike. If the file cannot be opened anew, it is still the one
at hand. -/
theorem rewind_in_step (goal : Nat) (h : Coupled (file ::ₘ files) s r) :
    ∃ start? s' r',
      (if goal < file.position then rewind (file.map Prod.fst) s else (some (file.map Prod.fst), s)) =
        (Option.map (OpenFile.map Prod.fst) start?, s') ∧
      (if goal < file.position then rewind (file.map Prod.snd) r else (some (file.map Prod.snd), r)) =
        (Option.map (OpenFile.map Prod.snd) start?, r') ∧
      Coupled (start?.getD file ::ₘ files) s' r' := by
  by_cases hback : goal < file.position
  · simp only [if_pos hback, rewind]
    obtain ⟨s', r', hopen, hopen', h'⟩ | ⟨handle, s', r', hopen, hopen', h'⟩ :=
      c.openFile file.name h
    · refine ⟨none, s', r', ?_, ?_, h'⟩
      · rw [show (file.map Prod.fst).name = file.name from rfl, hopen]
        rfl
      · rw [show (file.map Prod.snd).name = file.name from rfl, hopen']
        rfl
    · have hclosed := c.close (Multiset.cons_swap .. ▸ h' file.size)
      refine ⟨some { file with handle, position := 0 }, _, _, ?_, ?_, hclosed⟩
      · rw [show (file.map Prod.fst).name = file.name from rfl, hopen]
        rfl
      · rw [show (file.map Prod.snd).name = file.name from rfl, hopen']
        rfl
  · simp only [if_neg hback]
    exact ⟨some file, s, r, rfl, rfl, h⟩

include c in
theorem advance_in_step (goal : Nat) (h : Coupled (file ::ₘ files) s r) :
    ∃ moved s' r', advance goal (file.map Prod.fst) s = (moved.map Prod.fst, s') ∧
      advance goal (file.map Prod.snd) r = (moved.map Prod.snd, r') ∧
      Coupled (moved ::ₘ files) s' r' := by
  obtain ⟨passed, handle, s', r', hskip, hskip', h'⟩ := c.skip (goal - file.position) h
  refine ⟨{ file with handle, position := file.position + passed }, s', r', ?_, ?_, h'⟩
  · simp only [advance, OpenFile.map, hskip]
  · simp only [advance, OpenFile.map, hskip']

include c in
theorem InStep.seek (h : InStep Coupled t u) (fd : Descriptor) (offset : Int) (whence : Whence) :
    (t.seek fd offset whence).value.1 = (u.seek fd offset whence).value.1 ∧
      InStep Coupled (t.seek fd offset whence).value.2 (u.seek fd offset whence).value.2 := by
  by_cases hfd : fd.isStandard
  · simp only [FileTable.seek, if_pos hfd]
    exact ⟨rfl, h⟩
  obtain ⟨ht, hu⟩ | ⟨slot, file, others, ht, hu, hfile, hrestore, hput, -⟩ := h.find?_cases fd
  · simp only [FileTable.seek, if_neg hfd, ht, hu]
    exact ⟨rfl, h⟩
  obtain ⟨start?, s₁, r₁, hstart, hstart', h₁⟩ :=
    rewind_in_step c (target file offset whence) hfile
  have hposition (side : η × κ → η) : (file.map side).position = file.position := rfl
  have hposition' (side : η × κ → κ) : (file.map side).position = file.position := rfl
  simp only [FileTable.seek, if_neg hfd, ht, hu, target_map, hposition, hposition', hstart, hstart']
  cases start? with
  | none => exact ⟨rfl, hrestore h₁⟩
  | some start =>
    obtain ⟨moved, s₂, r₂, hmoved, hmoved', h₂⟩ := advance_in_step c (target file offset whence) h₁
    simp only [Option.getD_some, Option.map_some] at hmoved hmoved' ⊢
    simp only [hmoved, hmoved']
    exact ⟨rfl, hput h₂⟩

include c in
theorem InStep.close (h : InStep Coupled t u) (fd : Descriptor) :
    (t.close fd).1 = (u.close fd).1 ∧ InStep Coupled (t.close fd).2 (u.close fd).2 := by
  by_cases hfd : fd.isStandard
  · simp only [FileTable.close, if_pos hfd]
    exact ⟨trivial, h⟩
  obtain ⟨ht, hu⟩ | ⟨slot, file, others, ht, hu, hfile, -, -, hclear⟩ := h.find?_cases fd
  · simp only [FileTable.close, if_neg hfd, ht, hu]
    exact ⟨trivial, h⟩
  · simp only [FileTable.close, if_neg hfd, ht, hu]
    exact ⟨trivial, hclear (c.close hfile)⟩

include c in
theorem InStep.stat (h : InStep Coupled t u) (path : String) :
    (t.stat path).1 = (u.stat path).1 ∧ InStep Coupled (t.stat path).2 (u.stat path).2 := by
  obtain ⟨files, hfiles, hrestore⟩ := h.restore
  obtain ⟨s', r', hopen, hopen', h'⟩ | ⟨handle, s', r', hopen, hopen', h'⟩ :=
    c.openFile (Path.normalize path) hfiles
  · simp only [FileTable.stat, hopen, hopen']
    exact ⟨trivial, hrestore h'⟩
  · simp only [FileTable.stat, hopen, hopen']
    exact ⟨trivial, hrestore (c.close (h' 0))⟩

omit [Storage σ η] [Storage τ κ] in
theorem InStep.fstat (h : InStep Coupled t u) (fd : Descriptor) : t.fstat fd = u.fstat fd := by
  obtain ⟨ht, hu⟩ | ⟨slot, file, others, ht, hu, -⟩ := h.find?_cases fd
  · simp only [FileTable.fstat, ht, hu]
  · simp only [FileTable.fstat, ht, hu, OpenFile.map]

omit [Storage σ η] [Storage τ κ] in
theorem InStep.position (h : InStep Coupled t u) (fd : Descriptor) :
    t.position fd = u.position fd := by
  obtain ⟨ht, hu⟩ | ⟨slot, file, others, ht, hu, -⟩ := h.find?_cases fd
  · simp only [FileTable.position, ht, hu]
  · simp only [FileTable.position, ht, hu, OpenFile.map]

include c in
theorem closeEach_in_step (both : List (Option (OpenFile (η × κ))))
    (h : Coupled (both.reduceOption + files) s r) :
    Coupled files (closeEach (both.map (Option.map (OpenFile.map Prod.fst))) s)
      (closeEach (both.map (Option.map (OpenFile.map Prod.snd))) r) := by
  induction both generalizing s r with
  | nil =>
    rw [List.reduceOption_nil, Multiset.coe_nil, Multiset.zero_add] at h
    exact h
  | cons file? both ih =>
    cases file? with
    | none => exact ih h
    | some file =>
      rw [List.reduceOption_cons_of_some, ← Multiset.cons_coe, Multiset.cons_add] at h
      exact ih (c.close h)

include c in
theorem InStep.closeAll (h : InStep Coupled t u) : InStep Coupled t.closeAll u.closeAll := by
  obtain ⟨both, ht, hu, hstorage⟩ := h
  refine InStep.empty ?_
  rw [ht, hu, Vector.toList_map, Vector.toList_map]
  refine closeEach_in_step c both.toList ?_
  rw [Multiset.add_zero]
  exact hstorage

include c in
theorem InStep.perform (h : InStep Coupled t u) (call : FileCall) :
    (t.perform call).1 = (u.perform call).1 ∧
      InStep Coupled (t.perform call).2 (u.perform call).2 := by
  cases call with
  | openFile path => exact (h.openFile c path).imp_left (congrArg FileReply.opened)
  | read fd count => exact (h.read c fd count).imp_left (congrArg FileReply.data)
  | seek fd offset whence => exact (h.seek c fd offset whence).imp_left (congrArg FileReply.position)
  | close fd => exact (h.close c fd).imp_left (congrArg FileReply.done)
  | stat path => exact (h.stat c path).imp_left (congrArg FileReply.info)
  | fstat fd => exact ⟨congrArg FileReply.info (h.fstat fd), h⟩
  | position fd => exact ⟨congrArg FileReply.position (h.position fd), h⟩
  | closeAll => exact ⟨rfl, h.closeAll c⟩

end FileTable

/-! ## Patches and whole sessions -/

namespace Patch

variable [Storage σ η] [Storage τ κ] [Loader ε] (c : Storage.Coupling Coupled)
  {t : FileTable σ η n} {u : FileTable τ κ n}

include c in
theorem measure_in_step (path : String) (h : t.InStep Coupled u) :
    (measure path t).value.1 = (measure path u).value.1 ∧
      (measure path t).value.2.InStep Coupled (measure path u).value.2 := by
  obtain ⟨hopened, hopen⟩ := h.openFile c path
  simp only [measure, Logged.value_bind]
  rw [← hopened]
  cases (t.openFile path).value.1 with
  | error e => exact ⟨rfl, hopen⟩
  | ok fd =>
    obtain ⟨hclosed, hclose⟩ := hopen.close c fd
    simp only [Logged.value_pure, hclosed, hopen.fstat fd]
    exact ⟨trivial, hclose⟩

include c in
theorem load_in_step (path : String) (engine : ε) (h : t.InStep Coupled u) :
    (load path t engine).value.1 = (load path u engine).value.1 ∧
      (load path t engine).value.2.2 = (load path u engine).value.2.2 ∧
      (load path t engine).value.2.1.InStep Coupled (load path u engine).value.2.1 := by
  obtain ⟨hsize, hmeasure⟩ := measure_in_step c path h
  simp only [load, Logged.value_bind]
  rw [← hsize]
  cases (measure path t).value.1 with
  | error e => exact ⟨rfl, rfl, hmeasure⟩
  | ok size =>
    simp only []
    split
    · exact ⟨rfl, rfl, hmeasure⟩
    · split
      · exact ⟨rfl, rfl, hmeasure⟩
      · split
        · exact ⟨rfl, rfl, hmeasure⟩
        · exact ⟨rfl, rfl, hmeasure⟩

include c in
theorem loadFirst_in_step (listing : List String) (engine : ε) (h : t.InStep Coupled u) :
    (loadFirst listing t engine).value.1 = (loadFirst listing u engine).value.1 ∧
      (loadFirst listing t engine).value.2.2 = (loadFirst listing u engine).value.2.2 ∧
      (loadFirst listing t engine).value.2.1.InStep Coupled
        (loadFirst listing u engine).value.2.1 := by
  induction listing generalizing t u engine with
  | nil => exact ⟨rfl, rfl, h⟩
  | cons name rest ih =>
    simp only [loadFirst]
    split
    · exact ih engine h
    · obtain ⟨hloaded, hengine, hload⟩ := load_in_step c name engine h
      simp only [Logged.value_bind]
      rw [← hloaded, ← hengine]
      cases (load name t engine).value.1 with
      | error e => exact ih _ hload
      | ok patch => exact ⟨rfl, rfl, hload⟩

include c in
theorem find_in_step (listing : List String) (engine : ε) (h : t.InStep Coupled u) :
    (find listing t engine).value.1 = (find listing u engine).value.1 ∧
      (find listing t engine).value.2.2 = (find listing u engine).value.2.2 ∧
      (find listing t engine).value.2.1.InStep Coupled (find listing u engine).value.2.1 := by
  obtain ⟨hloaded, hengine, hload⟩ := load_in_step c Limits.defaultPatch engine h
  simp only [find, Logged.value_bind]
  rw [← hloaded, ← hengine]
  cases (load Limits.defaultPatch t engine).value.1 with
  | error e => exact loadFirst_in_step c listing _ hload
  | ok patch => exact ⟨rfl, rfl, hload⟩

end Patch

namespace FileSession

/-- Two sessions in step: the same engine beside tables in step. -/
structure InStep (Coupled : Multiset (OpenFile (η × κ)) → σ → τ → Prop)
    (s : FileSession σ η ε n) (r : FileSession τ κ ε n) : Prop where
  table : s.table.InStep Coupled r.table
  engine : s.engine = r.engine

variable [Storage σ η] [Storage τ κ] [Patch.Loader ε] (c : Storage.Coupling Coupled)
  {s : FileSession σ η ε n} {r : FileSession τ κ ε n}

include c in
/-- Sessions in step have the same outcomes, if the changes of the two storages keep them in
step. -/
theorem InStep.perform (h : s.InStep Coupled r) {lift : (σ → σ) → τ → τ} {act : FileAct σ}
    (hchange : ∀ f, act = .change f → ∀ {files s r}, Coupled files s r →
      Coupled files (f s) (lift f r)) :
    (s.perform act).1 = (r.perform (act.map lift)).1 ∧
      (s.perform act).2.InStep Coupled (r.perform (act.map lift)).2 := by
  obtain ⟨t, start⟩ := s
  obtain ⟨u, start'⟩ := r
  obtain ⟨htable, rfl⟩ := h
  cases act with
  | call call =>
    obtain ⟨hreply, hnext⟩ := htable.perform c call
    exact ⟨congrArg FileOutcome.reply hreply, hnext, rfl⟩
  | load path =>
    obtain ⟨hloaded, hengine, hnext⟩ := Patch.load_in_step c path start htable
    exact ⟨congrArg FileOutcome.patch hloaded, hnext, hengine⟩
  | find listing =>
    obtain ⟨hfound, hengine, hnext⟩ := Patch.find_in_step c listing start htable
    exact ⟨congrArg FileOutcome.patch hfound, hnext, hengine⟩
  | change f =>
    obtain ⟨files, hfiles, hrestore⟩ := htable.restore
    exact ⟨rfl, hrestore (hchange f rfl hfiles), rfl⟩

include c in
theorem InStep.performAll (h : s.InStep Coupled r) (lift : (σ → σ) → τ → τ)
    {acts : List (FileAct σ)}
    (hchange : ∀ f, .change f ∈ acts → ∀ {files s r}, Coupled files s r →
      Coupled files (f s) (lift f r)) :
    (s.performAll acts).1 = (r.performAll (acts.map (FileAct.map lift))).1 ∧
      (s.performAll acts).2.InStep Coupled (r.performAll (acts.map (FileAct.map lift))).2 :=
  runAll_alike (InStep Coupled) (FileAct.map lift)
    (fun _ hact _ _ h => h.perform c fun f hf => hchange f (hf ▸ hact)) h

end FileSession

end Patchbay
