import Patchbay.Proofs.Files.Watched
/-!
# Handles are neither lost nor closed twice

Whatever storage does and whatever is done to a table, the handles that are out are those in its
slots, one for each open file. A table whose files have all been closed has given every handle back.
-/

namespace Patchbay

variable {σ η ε : Type} {n : Nat}

namespace FileTable

/-- Two slots that hold files of one multiset hold two of them. -/
theorem slot_eq_of_nodup {κ : Type} {f : OpenFile η → κ} {slots : Vector (Option (OpenFile η)) n}
    (hnodup : ((held slots).map f).Nodup) {slot slot' : Fin n} {file file' : OpenFile η}
    (hslot : slots.get slot = some file) (hslot' : slots.get slot' = some file')
    (heq : f file = f file') : slot = slot' := by
  by_contra hne
  obtain ⟨others, hheld, hset⟩ := held_split slots slot
  -- With the one slot emptied, the other still holds its file.
  have hother : file' ∈ others := by
    have hmem : file' ∈ held (slots.set slot none) := by
      refine mem_held.2 ⟨slot', ?_⟩
      rw [get_set, if_neg (Ne.symm hne), hslot']
    rwa [hset] at hmem
  rw [hheld, hslot, Option.elim_some, Multiset.map_cons, Multiset.nodup_cons] at hnodup
  exact hnodup.1 (heq ▸ Multiset.mem_map_of_mem f hother)

end FileTable

namespace Watched

/-- What a watched table holds is what is out, and each handle that is out has a slot of its own. -/
structure Balanced (t : FileTable (Watched σ) (Ticketed η) n) : Prop where
  lawful : t.storage.events.Lawful
  balance : t.storage.events.opens = t.storage.events.closes + t.openCount
  out_iff : ∀ ticket, t.storage.events.Out ticket ↔
    ∃ slot file, t.slots.get slot = some file ∧ file.handle.ticket = ticket
  distinct : ∀ {slot slot' file file'}, t.slots.get slot = some file →
    t.slots.get slot' = some file' → file.handle.ticket = file'.handle.ticket → slot = slot'

theorem balanced_of_inStep {t : FileTable σ η n} {u : FileTable (Watched σ) (Ticketed η) n}
    {earlier : History} (h : t.InStep (Follows earlier) u) : Balanced u := by
  have hledger := ledger_of_inStep h
  have hticket : OpenFile.handle ∘ byTicket = fun file : OpenFile (Ticketed η) =>
    file.handle.ticket := rfl
  have hnodup := hledger.nodup
  rw [Multiset.map_map, hticket] at hnodup
  refine ⟨hledger.lawful, ?_, fun ticket => ?_, FileTable.slot_eq_of_nodup hnodup⟩
  · rw [hledger.balance, Multiset.card_map, FileTable.card_held]
  · rw [hledger.out_iff, Multiset.map_map, hticket, Multiset.mem_map]
    simp only [FileTable.mem_held]
    constructor
    · rintro ⟨file, ⟨slot, hslot⟩, rfl⟩
      exact ⟨slot, file, hslot, rfl⟩
    · rintro ⟨slot, file, hslot, rfl⟩
      exact ⟨file, ⟨slot, hslot⟩, rfl⟩

variable [Storage σ η] [Patch.Loader ε]

/-- No handle is lost and none is closed twice. Whatever storage does and however it changes, after
any acts on a new table: a handle was out whenever it was read or closed, the files that were opened
are those that were closed and those that are open, and the handles that are out are the ones in the
slots, no two in one. Once all files are closed, as many were closed as were opened. The watch that
tells all this changes no outcome. -/
theorem session_balanced (n : Nat) (storage : σ) (engine : ε) (acts : List (FileAct σ)) :
    let watched := session n storage engine acts
    ((FileSession.new n storage engine).performAll acts).1 = watched.1 ∧
      Balanced watched.2.table ∧ Balanced watched.2.table.closeAll ∧
      watched.2.table.closeAll.storage.events.opens =
        watched.2.table.closeAll.storage.events.closes := by
  obtain ⟨houtcomes, htable, -⟩ := session_in_step n storage engine acts
  have hclosed := balanced_of_inStep (htable.closeAll coupling)
  have hnone : (session n storage engine acts).2.table.closeAll.openCount = 0 := by
    rw [← FileTable.card_held]
    exact congrArg Multiset.card FileTable.held_replicate_none
  refine ⟨houtcomes, balanced_of_inStep htable, hclosed, ?_⟩
  rw [hclosed.balance, hnone, Nat.add_zero]

end Watched

end Patchbay
