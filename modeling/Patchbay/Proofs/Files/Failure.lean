import Patchbay.Proofs.Files.Faulty
import Patchbay.Proofs.Files.Watched
/-!
# Failures

An act that fails leaves every slot as it was, and no open handle has given more than before. A read
that storage fails is not told from one at the end, but it too leaves every position. If storage
keeps no trace of what failed, then nothing that happens later depends on whether it was tried.
-/

namespace Patchbay

variable {σ η ε : Type} {n : Nat}

/-- The changes of storage among some acts do not tell apart what is alike. -/
def FileAct.KeepAlike (Alike : Multiset (η × η) → σ → σ → Prop) (acts : List (FileAct σ)) : Prop :=
  ∀ f, .change f ∈ acts → ∀ {handles s t}, Alike handles s t → Alike handles (f s) (f t)

theorem FileTable.put_self {t : FileTable σ η n} {slot : Fin n} {file : OpenFile η}
    (hheld : t.slots.get slot = some file) (s : σ) :
    t.put slot file s = { t with storage := s } := by
  have hget : t.slots[slot.val] = some file := hheld
  rw [put, ← hget, Vector.set_getElem_self]

variable [Storage σ η]

/-! ## Handles that are out -/

namespace Watched

theorem given_of_reads {a b : Ticketed η × Watched σ}
    (h : Relation.ReflTransGen Storage.ReadOnce a b) :
    b.1.ticket = a.1.ticket ∧ b.2.events.opens = a.2.events.opens ∧
      ∀ ticket, a.1.ticket ≠ ticket → b.2.events.given ticket = a.2.events.given ticket := by
  induction h with
  | refl => exact ⟨rfl, rfl, fun _ _ => rfl⟩
  | tail _ hread ih =>
    obtain ⟨hticket, hopens, hgiven⟩ := ih
    cases hread with
    | @read ticketed w count hcount =>
      obtain ⟨hsame, ⟨-, hevents⟩ | ⟨data, -, hevents⟩⟩ := read_events ticketed count w
      · refine ⟨hsame.trans hticket, ?_, fun ticket hne => ?_⟩
        · rw [hevents]
          exact hopens
        · rw [hevents, History.given_failed, hgiven ticket hne]
      · refine ⟨hsame.trans hticket, ?_, fun ticket hne => ?_⟩
        · rw [hevents]
          exact hopens
        · rw [hevents, History.given_gave_of_ne (hticket.trans_ne hne), hgiven ticket hne]

/-- Handles that were opened before storage was probed give nothing meanwhile. -/
theorem given_of_probed {w w' : Watched σ} (h : Storage.Probed w w') :
    w.events.opens ≤ w'.events.opens ∧
      ∀ ticket < w.events.opens, w'.events.given ticket = w.events.given ticket := by
  induction h with
  | refl => exact ⟨Nat.le_refl _, fun _ _ => rfl⟩
  | @tail w₁ _ _ hglance ih =>
    obtain ⟨hopens, hgiven⟩ := ih
    cases hglance with
    | missed hopen =>
      rw [missed_events hopen]
      exact ⟨hopens, hgiven⟩
    | @visited name handle handle' w₂ w₃ hopen hread =>
      obtain ⟨hticket, hevents⟩ := openFile_events hopen
      obtain ⟨-, hopens', hgiven'⟩ := given_of_reads hread
      have hcount : w₂.events.opens = w₁.events.opens + 1 := by
        rw [hevents]
        exact List.countP_cons_of_pos rfl
      have hclosed : (Storage.close handle' w₃).events = .closed handle'.ticket :: w₃.events := rfl
      rw [hclosed]
      refine ⟨?_, fun ticket hlt => ?_⟩
      · change w.events.opens ≤ w₃.events.opens
        rw [hopens', hcount]
        omega
      · -- The probing handle is newer than any of these.
        have hne : handle.ticket ≠ ticket := by
          rw [hticket]
          omega
        rw [History.given_closed, hgiven' ticket hne, hevents, History.given_opened,
          hgiven ticket hlt]

end Watched

/-! ## Acts that fail -/

namespace FileSession

variable [Patch.Loader ε] {s : FileSession σ η ε n} {act : FileAct σ}

/-- A read from an open file that storage fails. -/
def ReadFails (s : FileSession σ η ε n) (act : FileAct σ) : Prop :=
  ∃ fd count slot file, act = .call (.read fd count) ∧ s.table.find? fd = some (slot, file) ∧
    0 < count ∧ (Storage.read file.handle count s.table.storage).1 = none

theorem perform_of_read_fails {fd : Descriptor} {count : Nat} {slot : Fin n} {file : OpenFile η}
    (hfind : s.table.find? fd = some (slot, file)) (hcount : 0 < count) {handle : η} {s' : σ}
    (hread : Storage.read file.handle count s.table.storage = (none, handle, s')) :
    s.perform (.call (.read fd count)) =
      (.reply (.data (.ok [])), { s with table := s.table.put slot { file with handle } s' }) := by
  simp only [perform, FileTable.perform, FileTable.read_of_find? hfind hcount, hread,
    Option.getD_none, List.length_nil, Nat.add_zero]

variable {Alike : Multiset (η × η) → σ → σ → Prop} {replan : σ → σ}

/-- A session is in step with itself, if what changes its storage does not tell storages apart. -/
theorem inStep_self (h : Storage.Coupling fun files => Alike (files.map OpenFile.handle))
    {storage : σ} (hstorage : Alike 0 storage storage) (engine : ε) {acts : List (FileAct σ)}
    (hacts : FileAct.KeepAlike Alike acts) :
    let s := ((new n storage engine).performAll acts).2
    s.InStep (fun files => Alike (files.map OpenFile.handle)) s := by
  have hnew : (new n storage engine : FileSession σ η ε n).InStep
      (fun files => Alike (files.map OpenFile.handle)) (new n storage engine) := by
    refine ⟨.empty ?_, rfl⟩
    rw [Multiset.map_zero]
    exact hstorage
  have hend := (hnew.performAll h id fun f hf _ _ _ halike => hacts f hf halike).2
  rwa [FileAct.list_map_id] at hend

/-- With its faults to come replaced, a table after a failure is in step with the table before. -/
theorem inStep_after_failure (h : Storage.Traceless Alike replan)
    (hself : s.InStep (fun files => Alike (files.map OpenFile.handle)) s)
    (hfail : (s.perform act).1.failed ∨ s.ReadFails act) :
    let t := s.table
    let t' := (s.perform act).2.table
    ({ t with storage := replan t.storage } : FileTable σ η n).InStep
      (fun files => Alike (files.map OpenFile.handle))
      { t' with storage := replan t'.storage } := by
  rcases hfail with hfailed | ⟨fd, count, slot, file, rfl, hfind, hcount, hnone⟩
  · obtain ⟨both, hleft, hright, halike⟩ := hself.table
    obtain ⟨hslots, hprobed⟩ := perform_of_failed hfailed
    exact ⟨both, hleft, hslots.trans hright, h.probed halike hprobed⟩
  · obtain ⟨hnot, -⟩ | ⟨slot', pair, others, hleft, hright, halike, -, hput, -⟩ :=
      hself.table.find?_cases fd
    · rw [hfind] at hnot
      cases hnot
    · rw [hfind] at hleft hright
      obtain ⟨rfl, rfl⟩ := Prod.mk.inj (Option.some.inj hleft)
      obtain ⟨-, hsame⟩ := Prod.mk.inj (Option.some.inj hright)
      obtain ⟨-, hheld⟩ := FileTable.find?_eq_some.1 hfind
      -- On the left nothing is done; the read that fails is on the right.
      intro t t'
      have hleft : { t with storage := replan t.storage } =
          t.put slot (pair.map Prod.fst) (replan t.storage) := (FileTable.put_self hheld _).symm
      obtain ⟨handle, s', hread⟩ :
          ∃ handle s', Storage.read pair.handle.2 count t.storage = (none, handle, s') := by
        rw [hsame] at hnone
        exact ⟨_, _, Prod.ext hnone rfl⟩
      have hright : t' = t.put slot { pair.map Prod.snd with handle } s' := by
        rw [hsame] at hfind
        exact congrArg (·.2.table) (perform_of_read_fails hfind hcount hread)
      rw [hleft, hright]
      apply @hput { pair with handle := (pair.handle.1, handle) }
      rw [Multiset.map_cons] at halike ⊢
      exact h.failed (h.replanned halike) hread

/-- With the same faults to come, acts after a failure come out as they would have without it. -/
theorem performAll_after_failure (h : Storage.Traceless Alike replan)
    (hself : s.InStep (fun files => Alike (files.map OpenFile.handle)) s)
    (hfail : (s.perform act).1.failed ∨ s.ReadFails act) (other : ε) {later : List (FileAct σ)}
    (hlater : FileAct.KeepAlike Alike later) :
    ({ (s.perform act).2 with engine := other }.performAll (.change replan :: later)).1 =
      ({ s with engine := other }.performAll (.change replan :: later)).1 := by
  let restart (r : FileSession σ η ε n) : FileSession σ η ε n :=
    { table := { r.table with storage := replan r.table.storage }, engine := other }
  have hrestart (r : FileSession σ η ε n) :
      ({ r with engine := other }.performAll (.change replan :: later)).1 =
        .changed :: ((restart r).performAll later).1 := rfl
  have hstart : (restart s).InStep (fun files => Alike (files.map OpenFile.handle))
      (restart (s.perform act).2) := ⟨inStep_after_failure h hself hfail, rfl⟩
  have hend := (hstart.performAll h.coupling id fun f hf _ _ _ halike => hlater f hf halike).1
  rw [FileAct.list_map_id] at hend
  rw [hrestart, hrestart, hend]

end FileSession

/-! ## The whole of it -/

namespace Watched

variable [Patch.Loader ε]

/-- A read that storage fails answers as at the end, and only the handle it read from may differ. -/
theorem perform_of_read_fails {w : FileSession (Watched σ) (Ticketed η) ε n}
    {act : FileAct (Watched σ)} (hfail : w.ReadFails act) :
    (w.perform act).1 = .reply (.data (.ok [])) ∧
      ∃ slot file handle, w.table.slots.get slot = some file ∧
        (w.perform act).2.table.slots =
          w.table.slots.set slot (some { file with handle }) slot.isLt ∧
        handle.ticket = file.handle.ticket ∧ ∀ ticket,
          (w.perform act).2.table.storage.events.given ticket =
            w.table.storage.events.given ticket := by
  obtain ⟨fd, count, slot, file, rfl, hfind, hcount, hnone⟩ := hfail
  obtain ⟨hticket, ⟨-, hevents⟩ | ⟨data, hdata, -⟩⟩ :=
    read_events file.handle count w.table.storage
  · obtain ⟨handle, storage', hread⟩ :
        ∃ handle storage', Storage.read file.handle count w.table.storage =
          (none, handle, storage') := ⟨_, _, Prod.ext hnone rfl⟩
    rw [hread] at hticket hevents
    rw [FileSession.perform_of_read_fails hfind hcount hread]
    refine ⟨rfl, slot, file, handle, (FileTable.find?_eq_some.1 hfind).2, rfl, hticket, ?_⟩
    intro ticket
    change storage'.events.given ticket = _
    rw [hevents, History.given_failed]
  · rw [hnone] at hdata
    cases hdata

/-- An act that fails changes nothing of the files that are open, in any state that a table can come
to. All slots stay as they are, and no handle in them has given more than before. A read that storage
fails answers as at the end; it leaves size, position and name, and the handle has given no more.

If storage is traceless, then later acts come out as they would have without the failure, once the
faults to come are the same. -/
theorem session_failure_changes_nothing (n : Nat) (storage : σ) (engine : ε)
    (acts : List (FileAct σ)) (act : FileAct σ) :
    let s := ((FileSession.new n storage engine).performAll acts).2
    let w := (session n storage engine acts).2
    let w' := (w.perform (Watched.act act)).2
    (w.perform (Watched.act act)).1 = (s.perform act).1 ∧
      ((s.perform act).1.failed → (s.perform act).2.table.slots = s.table.slots ∧
        w'.table.slots = w.table.slots ∧ ∀ slot file, w.table.slots.get slot = some file →
          w'.table.storage.events.given file.handle.ticket =
            w.table.storage.events.given file.handle.ticket) ∧
      (w.ReadFails (Watched.act act) → (s.perform act).1 = .reply (.data (.ok [])) ∧
        ∃ slot file handle, w.table.slots.get slot = some file ∧
          w'.table.slots = w.table.slots.set slot (some { file with handle }) slot.isLt ∧
          handle.ticket = file.handle.ticket ∧ ∀ ticket,
            w'.table.storage.events.given ticket = w.table.storage.events.given ticket) ∧
      ∀ (Alike : Multiset (η × η) → σ → σ → Prop) (replan : σ → σ),
        Storage.Traceless Alike replan → Alike 0 storage storage → FileAct.KeepAlike Alike acts →
        (s.perform act).1.failed ∨ s.ReadFails act →
        ∀ (other : ε) (later : List (FileAct σ)), FileAct.KeepAlike Alike later →
          ({ (s.perform act).2 with engine := other }.performAll (.change replan :: later)).1 =
            ({ s with engine := other }.performAll (.change replan :: later)).1 := by
  intro s w w'
  obtain ⟨-, hsession⟩ := session_in_step n storage engine acts
  have hreply : (s.perform act).1 = (w.perform (Watched.act act)).1 :=
    (hsession.perform coupling fun f _ _ _ _ h => h.lift f).1
  refine ⟨hreply.symm, fun hfailed => ?_, fun hfails => ?_, ?_⟩
  · obtain ⟨hslots, -⟩ := FileSession.perform_of_failed hfailed
    rw [hreply] at hfailed
    obtain ⟨hslots', hprobed⟩ := FileSession.perform_of_failed hfailed
    refine ⟨hslots, hslots', fun slot file hheld => ?_⟩
    exact (given_of_probed hprobed).2 _ (ticket_lt_of_inStep hsession.table hheld)
  · obtain ⟨hanswer, hkept⟩ := perform_of_read_fails hfails
    exact ⟨hreply.trans hanswer, hkept⟩
  · intro Alike replan htraceless hstorage hacts hfail other later hlater
    have hself : s.InStep (fun files => Alike (files.map OpenFile.handle)) s :=
      FileSession.inStep_self htraceless.coupling hstorage engine hacts
    exact FileSession.performAll_after_failure htraceless hself hfail other hlater

/-- The file is gone when a move back is to open it anew, and there again later. -/
theorem session_failure_changes_nothing_reopen :
    let storage : Faulty Shelf := { storage := { files := [("a", [1, 2, 3])], most := 2 } }
    let fd : Descriptor := ⟨10⟩
    let remove (f : Faulty Shelf) : Faulty Shelf :=
      { f with storage := { f.storage with files := [] } }
    let restore (f : Faulty Shelf) : Faulty Shelf := { f with storage := storage.storage }
    let acts : List (FileAct (Faulty Shelf)) :=
      [.call (.openFile "a"), .call (.read fd 2), .change remove]
    let later : List (FileAct (Faulty Shelf)) :=
      [.change restore, .call (.read fd 2), .call (.seek fd 0 .start), .call (.seek fd 0 .start)]
    let s := ((FileSession.new 1 storage true).performAll acts).2
    let r := s.perform (.call (.seek fd 0 .start))
    r.1.failed ∧ r.2.table.slots = s.table.slots ∧
      (r.2.performAll (.change (Faulty.replan [true] []) :: later)).1 =
        (s.performAll (.change (Faulty.replan [true] []) :: later)).1 := by
  intro storage fd remove restore acts later s r
  have hfailed : r.1.failed := by decide +kernel
  have htraceless : Storage.Traceless (Faulty.AlikeBy Shelf.Alike) (Faulty.replan [true] []) :=
    Faulty.traceless Shelf.traceless [true] []
  have hstorage : Faulty.AlikeBy Shelf.Alike 0 storage storage :=
    ⟨⟨rfl, by simp⟩, rfl, rfl⟩
  -- Shelves that are alike are equal, so no change tells them apart.
  have hkeep (acts : List (FileAct (Faulty Shelf))) :
      FileAct.KeepAlike (Faulty.AlikeBy Shelf.Alike) acts := by
    rintro f - handles ⟨s, opens, reads⟩ ⟨_, _, _⟩ ⟨⟨rfl, hsame⟩, rfl, rfl⟩
    exact ⟨⟨rfl, hsame⟩, rfl, rfl⟩
  obtain ⟨-, hslots, -, hsame⟩ :=
    session_failure_changes_nothing 1 storage true acts (.call (.seek fd 0 .start))
  exact ⟨hfailed, (hslots hfailed).1,
    hsame _ _ htraceless hstorage (hkeep acts) (.inl hfailed) true later (hkeep later)⟩

end Watched

end Patchbay
