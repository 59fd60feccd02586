import Patchbay.Proofs.Files.Faulty
/-!
# Sizes

A file is measured by a pass that reads it to the end, and the pass takes a read that fails for the
end. What is known of an open file is therefore how much the pass gave: a beginning of the content,
and all of it unless the next read failed.

`Storage.Fallible` is the rule of storage whose files do not change while its reads may fail at any
call, and its opens too.
-/

namespace Patchbay

variable {σ η : Type} {n : Nat}

namespace Storage

variable [Storage σ η]

/-- The rule of storage over fixed files that may fail. As for steady storage it is stated against an
account of the handles that are out, each with the bytes that it has still to give. What a handle
gives after a failed read is left open. -/
structure Fallible (files : String → Option (List UInt8))
    (Owes : σ → Multiset (η × List UInt8) → Prop) : Prop where
  opened : ∀ {s s' account name handle}, Owes s account →
    Storage.openFile name s = (some handle, s') →
    ∃ content, files name = some content ∧ Owes s' ((handle, content) ::ₘ account)
  missed : ∀ {s s' account name}, Owes s account →
    Storage.openFile name s = ((none : Option η), s') → Owes s' account
  /-- A read that does not fail gives the next bytes owed, and none only when none are owed. -/
  gave : ∀ {s s' account count data} {handle handle' : η} {owed},
    Owes s ((handle, owed) ::ₘ account) → 0 < count →
    Storage.read handle count s = (some data, handle', s') →
    ∃ rest, owed = data ++ rest ∧ data.length ≤ count ∧ (data = [] → rest = []) ∧
      Owes s' ((handle', rest) ::ₘ account)
  failed : ∀ {s s' account count} {handle handle' : η} {owed},
    Owes s ((handle, owed) ::ₘ account) → 0 < count →
    Storage.read handle count s = (none, handle', s') →
    ∃ rest, Owes s' ((handle', rest) ::ₘ account)
  closed : ∀ {s account} {handle : η} {owed}, Owes s ((handle, owed) ::ₘ account) →
    Owes (Storage.close handle s) account
  /-- Positions are signed 64-bit integers, so a file has fewer than `2 ^ 63` bytes. -/
  length_le : ∀ {name content}, files name = some content →
    (content.length : Int) ≤ Int64.maxValue.toInt

variable {files : String → Option (List UInt8)} {Owes : σ → Multiset (η × List UInt8) → Prop}
  {account : Multiset (η × List UInt8)}

/-- Steady storage may fail, but does not. -/
theorem Steady.fallible (steady : Steady files Owes) : Fallible files Owes where
  opened := by
    intro s s' account name handle howes hopen
    cases hname : files name with
    | none =>
      obtain ⟨s₁, hmissed, -⟩ := steady.missing howes hname
      rw [hmissed] at hopen
      cases hopen
    | some content =>
      obtain ⟨handle₁, s₁, hopened, howes₁⟩ := steady.opened howes hname
      rw [hopened] at hopen
      obtain ⟨rfl, rfl⟩ := hopen
      exact ⟨content, rfl, howes₁⟩
  missed := by
    intro s s' account name howes hopen
    cases hname : files name with
    | none =>
      obtain ⟨s₁, hmissed, howes₁⟩ := steady.missing howes hname
      rw [hmissed] at hopen
      obtain ⟨-, rfl⟩ := hopen
      exact howes₁
    | some content =>
      obtain ⟨handle₁, s₁, hopened, -⟩ := steady.opened howes hname
      rw [hopened] at hopen
      cases hopen
  gave := by
    intro s s' account count data handle handle' owed howes hcount hread
    obtain ⟨data₁, rest, handle₁, s₁, hgave, hsplit, hle, hend, howes₁⟩ := steady.read howes hcount
    rw [hgave] at hread
    obtain ⟨rfl, rfl, rfl⟩ := hread
    exact ⟨rest, hsplit, hle, hend, howes₁⟩
  failed := by
    intro s s' account count handle handle' owed howes hcount hread
    obtain ⟨data, rest, handle₁, s₁, hgave, -⟩ := steady.read howes hcount
    rw [hgave] at hread
    cases hread
  closed := steady.closed
  length_le := steady.length_le

/-- Reads of a whole chunk each, none of which fails, and the data that they give. -/
inductive Pass : η × σ → List UInt8 → η × σ → Prop
  | nil (at' : η × σ) : Pass at' [] at'
  | cons {handle handle' : η} {s s' : σ} {data more : List UInt8} {last : η × σ}
    (hread : Storage.read handle skipBytes s = (some data, handle', s'))
    (hmore : Pass (handle', s') more last) : Pass (handle, s) (data ++ more) last

/-- Skipping on passes over the next bytes owed, and stops at `count`, at the end, or before a read
that fails. -/
theorem Fallible.skipFrom (fallible : Fallible files Owes) {count passed : Nat} {handle : η} {s : σ}
    {owed : List UInt8} (howes : Owes s ((handle, owed) ::ₘ account))
    (hroom : passed + owed.length + skipBytes ≤ count) :
    ∃ data stop rest, Pass (handle, s) data stop ∧
      (Storage.skipFrom passed count handle s).1 = passed + data.length ∧
      Owes (Storage.skipFrom passed count handle s).2.2
        (((Storage.skipFrom passed count handle s).2.1, rest) ::ₘ account) ∧
      data <+: owed ∧ (data = owed ∨ (Storage.read stop.1 skipBytes stop.2).1 = none) := by
  induction passed, handle, s using skipFrom_induct (σ := σ) count generalizing owed with
  | done passed handle s hle =>
    have := skipBytes_pos
    omega
  | next passed handle s data? handle' s' hlt hwant hread ih =>
    -- There is room for the whole file, so whole chunks are asked for.
    have hchunk : min (count - passed) skipBytes = skipBytes := by omega
    rw [skipFrom_of_read hlt hread]
    rw [hchunk] at hread hwant
    match data?, hread, ih with
    | none, hread, _ =>
      obtain ⟨rest, howes'⟩ := fallible.failed howes hwant hread
      refine ⟨[], (handle, s), rest, .nil _, rfl, howes', List.nil_prefix, .inr ?_⟩
      rw [hread]
    | some [], hread, _ =>
      obtain ⟨rest, rfl, -, hend, howes'⟩ := fallible.gave howes hwant hread
      obtain rfl := hend rfl
      exact ⟨[], (handle, s), [], .nil _, rfl, howes', List.nil_prefix, .inl rfl⟩
    | some (byte :: given), hread, ih =>
      obtain ⟨rest, rfl, -, -, howes'⟩ := fallible.gave howes hwant hread
      obtain ⟨data, stop, left, hpass, hcount, howes'', hprefix, hstop⟩ :=
        ih (by simp) howes' (by simp at hroom ⊢; omega)
      simp only [Option.getD_some, reduceCtorEq, if_false] at hcount howes'' ⊢
      refine ⟨byte :: given ++ data, stop, left, .cons hread hpass, ?_, howes'', ?_, ?_⟩
      · rw [hcount, List.length_append, Nat.add_assoc]
      · exact (List.prefix_append_right_inj _).2 hprefix
      · exact hstop.imp_left fun hall => by rw [hall]

end Storage

/-- Faults may come on top of those that storage has already. -/
theorem Faulty.fallible [Storage σ η] {files : String → Option (List UInt8)}
    {Owes : σ → Multiset (η × List UInt8) → Prop} (fallible : Storage.Fallible files Owes) :
    Storage.Fallible files fun f : Faulty σ => Owes f.storage where
  opened := by
    intro f f' account name handle howes hopen
    by_cases hfault : f.opens.headD false
    · rw [openFile_of_fault hfault] at hopen
      cases hopen
    · rw [openFile_of_no_fault hfault] at hopen
      obtain ⟨hsome, rfl⟩ := Prod.mk.inj hopen
      exact fallible.opened howes (Prod.ext hsome rfl)
  missed := by
    intro f f' account name howes hopen
    by_cases hfault : f.opens.headD false
    · rw [openFile_of_fault hfault] at hopen
      obtain ⟨-, rfl⟩ := hopen
      exact howes
    · rw [openFile_of_no_fault hfault] at hopen
      obtain ⟨hnone, rfl⟩ := Prod.mk.inj hopen
      exact fallible.missed howes (Prod.ext hnone rfl)
  gave := by
    intro f f' account count data handle handle' owed howes hcount hread
    by_cases hfault : f.reads.headD false
    · rw [read_of_fault hfault] at hread
      cases hread
    · rw [read_of_no_fault hfault] at hread
      obtain ⟨hsome, hsame⟩ := Prod.mk.inj hread
      obtain ⟨rfl, rfl⟩ := Prod.mk.inj hsame
      exact fallible.gave howes hcount (Prod.ext hsome rfl)
  failed := by
    intro f f' account count handle handle' owed howes hcount hread
    by_cases hfault : f.reads.headD false
    · rw [read_of_fault hfault] at hread
      obtain ⟨-, rfl, rfl⟩ := hread
      exact ⟨owed, howes⟩
    · rw [read_of_no_fault hfault] at hread
      obtain ⟨hnone, hsame⟩ := Prod.mk.inj hread
      obtain ⟨rfl, rfl⟩ := Prod.mk.inj hsame
      exact fallible.failed howes hcount (Prod.ext hnone rfl)
  closed := fallible.closed
  length_le := fallible.length_le

namespace FileTable

variable [Storage σ η] {files : String → Option (List UInt8)}
  {Owes : σ → Multiset (η × List UInt8) → Prop} {account : Multiset (η × List UInt8)}

/-- What a file that storage opens is measured to be: the length of what a pass from its start gives
before the file ends or a read fails. -/
theorem measure_of_fallible (fallible : Storage.Fallible files Owes) {name : String} {s s' : σ}
    {size : Nat} (howes : Owes s account) (hmeasure : measure name s = (some size, s')) :
    Owes s' account ∧ ∃ content probe s₁ data stop, files name = some content ∧
      Storage.openFile name s = (some probe, s₁) ∧ Storage.Pass (probe, s₁) data stop ∧
      size = data.length ∧ data <+: content ∧
      (data = content ∨ (Storage.read stop.1 Storage.skipBytes stop.2).1 = none) := by
  obtain ⟨probe?, s₁, hopen⟩ : ∃ probe? s₁, Storage.openFile name s = (probe?, s₁) := ⟨_, _, rfl⟩
  simp only [measure, hopen] at hmeasure
  cases probe? with
  | none => cases hmeasure
  | some probe =>
    obtain ⟨content, hcontent, howes₁⟩ := fallible.opened howes hopen
    have hlength := fallible.length_le hcontent
    have hroom : 0 + content.length + Storage.skipBytes ≤ maxFileBytes := by
      simp only [Storage.skipBytes, maxFileBytes, UInt64.size]
      have : Int64.maxValue.toInt = 2 ^ 63 - 1 := by decide
      omega
    obtain ⟨data, stop, rest, hpass, hcount, howes₂, hprefix, hstop⟩ :=
      fallible.skipFrom howes₁ hroom
    obtain ⟨hsize, rfl⟩ := Prod.mk.inj hmeasure
    refine ⟨fallible.closed howes₂, content, probe, s₁, data, stop, hcontent, hopen, hpass, ?_,
      hprefix, hstop⟩
    rw [Storage.skip, hcount, Nat.zero_add] at hsize
    exact (Option.some.inj hsize).symm

/-- The size of a file that was opened is the length of what one pass over it gave. It is the whole
length unless the read after the pass failed, and a patch is judged by the same size. The file's own
handle starts afresh and owes the whole content in any case. -/
theorem openFile_size (fallible : Storage.Fallible files Owes) {t : FileTable σ η n}
    {path : String} {fd : Descriptor} (howes : Owes t.storage account)
    (hopen : (t.openFile path).value.1 = .ok fd) :
    ∃ content probe s data stop, files (Path.normalize path) = some content ∧
      Storage.openFile (Path.normalize path) t.storage = (some probe, s) ∧
      Storage.Pass (probe, s) data stop ∧
      (t.openFile path).value.2.fstat fd = .ok { FileInfo.regular with size := some data.length } ∧
      (Patch.measure path t).value.1 = .ok data.length ∧ data <+: content ∧
      (data = content ∨ (Storage.read stop.1 Storage.skipBytes stop.2).1 = none) ∧
      ∃ slot file, (t.openFile path).value.2.find? fd = some (slot, file) ∧
        Owes (t.openFile path).value.2.storage ((file.handle, content) ::ₘ account) := by
  obtain ⟨e, s', hvalue, -⟩ | ⟨slot, size, handle, s₁, s₂, hfree, hmeasure, hopened, hvalue⟩ :=
    t.openFile_cases path
  · rw [hvalue] at hopen
    cases hopen
  · have hpatch := Patch.measure_of_ok hfree hvalue
    rw [hvalue] at hopen
    obtain rfl := Except.ok.inj hopen
    obtain ⟨howes₁, content, probe, s, data, stop, hcontent, hprobe, hpass, rfl, hprefix, hstop⟩ :=
      measure_of_fallible fallible howes hmeasure
    obtain ⟨content', hcontent', howes₂⟩ := fallible.opened howes₁ hopened
    obtain rfl : content = content' := Option.some.inj (hcontent.symm.trans hcontent')
    refine ⟨content, probe, s, data, stop, hcontent, hprobe, hpass, ?_, ?_, hprefix, hstop, ?_⟩
    · rw [hvalue, fstat_put]
    · rw [hpatch]
    · rw [hvalue]
      exact ⟨slot, _, find?_put .., howes₂⟩

/-- A table over one file of three bytes, of which a read gives two at most. The second read is to
fail. -/
def interrupted : FileTable (Faulty Shelf) (List UInt8) 8 :=
  .ofStorage { storage := { files := [("f", [97, 98, 99])], most := 2 }, reads := [false, true] }

theorem interrupted_fallible :
    Storage.Fallible interrupted.storage.storage.content
      fun f : Faulty Shelf => interrupted.storage.storage.Owes f.storage :=
  Faulty.fallible (Shelf.steady _ (by decide) (by decide)).fallible

theorem interrupted_opened : (interrupted.openFile "f").value.1 = .ok ⟨10⟩ := by
  decide +kernel

theorem openFile_size_interrupted :
    ∃ content probe s data stop,
      interrupted.storage.storage.content (Path.normalize "f") = some content ∧
      Storage.openFile (Path.normalize "f") interrupted.storage = (some probe, s) ∧
      Storage.Pass (probe, s) data stop ∧
      (interrupted.openFile "f").value.2.fstat ⟨10⟩ =
        .ok { FileInfo.regular with size := some data.length } ∧
      (Patch.measure "f" interrupted).value.1 = .ok data.length ∧ data <+: content ∧
      (data = content ∨ (Storage.read stop.1 Storage.skipBytes stop.2).1 = none) ∧
      ∃ slot file, (interrupted.openFile "f").value.2.find? ⟨10⟩ = some (slot, file) ∧
        interrupted.storage.storage.Owes (interrupted.openFile "f").value.2.storage.storage
          {(file.handle, content)} :=
  openFile_size interrupted_fallible (Shelf.owes_zero _) interrupted_opened

/-- The read that fails ends the pass, so the file is taken for shorter than it is: its last byte is
out of reach of a seek, and reading on passes its size. -/
theorem openFile_size_short :
    Storage.Fallible interrupted.storage.storage.content
        (fun f : Faulty Shelf => interrupted.storage.storage.Owes f.storage) ∧
      interrupted.storage.storage.content "f" = some [97, 98, 99] ∧
      (interrupted.openFile "f").value.1 = .ok ⟨10⟩ ∧
      let t := (interrupted.openFile "f").value.2
      t.fstat ⟨10⟩ = .ok { FileInfo.regular with size := some 2 } ∧
      (t.seek ⟨10⟩ 0 .finish).value.1 = .ok 2 ∧
      ((t.read ⟨10⟩ 4).2.read ⟨10⟩ 4).2.position ⟨10⟩ = .ok 3 ∧
      (Patch.measure "f" interrupted).value.1 = .ok 2 := by
  refine ⟨interrupted_fallible, ?_⟩
  decide +kernel

end FileTable

end Patchbay
