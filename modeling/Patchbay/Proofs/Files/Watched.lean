import Patchbay.Proofs.Files.Coupling
import Patchbay.Proofs.Files.History
/-!
# Watched storage

Any storage can be watched: every handle gets a ticket when it is opened, and what is done through
it goes into a history. A table over watched storage answers as it does over the storage alone, and
the history agrees with the files that it holds.
-/

namespace Patchbay

variable {σ η ε : Type} {n : Nat}

/-- A handle and the ticket it got. -/
structure Ticketed (η : Type) where
  ticket : Nat
  handle : η
deriving DecidableEq, Repr

/-- Storage and what it has seen. -/
structure Watched (σ : Type) where
  storage : σ
  events : History := []
deriving DecidableEq, Repr

namespace Watched

instance [Storage σ η] : Storage (Watched σ) (Ticketed η) where
  openFile name w :=
    match Storage.openFile name w.storage with
    | (none, storage) => (none, { storage, events := .missed name :: w.events })
    | (some handle, storage) =>
      let ticket := w.events.opens
      (some { ticket, handle }, { storage, events := .opened ticket name :: w.events })
  read h count w :=
    match Storage.read h.handle count w.storage with
    | (none, handle, storage) =>
      (none, { h with handle }, { storage, events := .failed h.ticket :: w.events })
    | (some data, handle, storage) =>
      (some data, { h with handle }, { storage, events := .gave h.ticket data :: w.events })
  close h w :=
    { storage := Storage.close h.handle w.storage, events := .closed h.ticket :: w.events }

section Equations

variable [Storage σ η] {name : String} {count : Nat} {s : σ} {w : Watched σ}

theorem openFile_of_missed (h : Storage.openFile name w.storage = ((none : Option η), s)) :
    Storage.openFile name w =
      ((none : Option (Ticketed η)), { storage := s, events := .missed name :: w.events }) := by
  simp only [Storage.openFile, h]

theorem openFile_of_opened {handle : η} (h : Storage.openFile name w.storage = (some handle, s)) :
    Storage.openFile name w = (some { ticket := w.events.opens, handle },
      { storage := s, events := .opened w.events.opens name :: w.events }) := by
  simp only [Storage.openFile, h]

theorem read_of_failed {ticketed : Ticketed η} {handle : η}
    (h : Storage.read ticketed.handle count w.storage = (none, handle, s)) :
    Storage.read ticketed count w = (none, { ticketed with handle },
      { storage := s, events := .failed ticketed.ticket :: w.events }) := by
  simp only [Storage.read, h]

theorem read_of_gave {ticketed : Ticketed η} {handle : η} {data : List UInt8}
    (h : Storage.read ticketed.handle count w.storage = (some data, handle, s)) :
    Storage.read ticketed count w = (some data, { ticketed with handle },
      { storage := s, events := .gave ticketed.ticket data :: w.events }) := by
  simp only [Storage.read, h]

theorem missed_events {w' : Watched σ}
    (h : Storage.openFile name w = ((none : Option (Ticketed η)), w')) :
    w'.events = .missed name :: w.events := by
  obtain ⟨handle?, s, hopen⟩ : ∃ handle? s, Storage.openFile name w.storage = (handle?, s) :=
    ⟨_, _, rfl⟩
  cases handle? with
  | none =>
    rw [openFile_of_missed hopen] at h
    obtain ⟨-, rfl⟩ := h
    rfl
  | some handle =>
    rw [openFile_of_opened hopen] at h
    cases h

theorem openFile_events {handle : Ticketed η} {w' : Watched σ}
    (h : Storage.openFile name w = (some handle, w')) :
    handle.ticket = w.events.opens ∧ w'.events = .opened w.events.opens name :: w.events := by
  obtain ⟨handle?, s, hopen⟩ : ∃ handle? s, Storage.openFile name w.storage = (handle?, s) :=
    ⟨_, _, rfl⟩
  cases handle? with
  | none =>
    rw [openFile_of_missed hopen] at h
    cases h
  | some handle =>
    rw [openFile_of_opened hopen] at h
    obtain ⟨rfl, rfl⟩ := h
    exact ⟨rfl, rfl⟩

theorem read_events (ticketed : Ticketed η) (count : Nat) (w : Watched σ) :
    let r := Storage.read ticketed count w
    r.2.1.ticket = ticketed.ticket ∧
      (r.1 = none ∧ r.2.2.events = .failed ticketed.ticket :: w.events ∨
        ∃ data, r.1 = some data ∧ r.2.2.events = .gave ticketed.ticket data :: w.events) := by
  obtain ⟨data?, handle, s, hread⟩ :
      ∃ data? handle s, Storage.read ticketed.handle count w.storage = (data?, handle, s) :=
    ⟨_, _, _, rfl⟩
  cases data? with
  | none =>
    rw [read_of_failed hread]
    exact ⟨rfl, .inl ⟨rfl, rfl⟩⟩
  | some data =>
    rw [read_of_gave hread]
    exact ⟨rfl, .inr ⟨data, rfl, rfl⟩⟩

end Equations

/-- A change of the storage that is watched. -/
def lift (f : σ → σ) (w : Watched σ) : Watched σ := { w with storage := f w.storage }

/-! ## Watching changes nothing -/

/-- A file known by its ticket. -/
def byTicket (file : OpenFile (Ticketed η)) : OpenFile Nat := file.map Ticketed.ticket

/-- A storage and the same storage watched: the handles are the same but for their tickets, and the
history agrees with the files that are open. It goes on from an earlier one. -/
structure Follows (earlier : History) (files : Multiset (OpenFile (η × Ticketed η))) (s : σ)
    (w : Watched σ) : Prop where
  storage : w.storage = s
  handle : ∀ file ∈ files, file.handle.2.handle = file.handle.1
  ledger : w.events.Ledger (files.map fun file => byTicket (file.map Prod.snd))
  goesOn : earlier <:+ w.events

variable {earlier : History}

theorem Follows.new (s : σ) : Follows (η := η) [] 0 s { storage := s } := by
  refine ⟨rfl, by simp, ?_, List.nil_suffix⟩
  rw [Multiset.map_zero]
  exact .empty

theorem Follows.lift {files : Multiset (OpenFile (η × Ticketed η))} {s : σ} {w : Watched σ}
    (h : Follows earlier files s w) (f : σ → σ) : Follows earlier files (f s) (Watched.lift f w) :=
  ⟨congrArg f h.storage, h.handle, h.ledger, h.goesOn⟩

theorem coupling [Storage σ η] : Storage.Coupling (Follows (σ := σ) (η := η) earlier) where
  openFile := by
    rintro files s w name ⟨rfl, hhandle, hledger, hgoesOn⟩
    obtain ⟨handle?, s', hopen⟩ : ∃ handle? s', Storage.openFile name w.storage = (handle?, s') :=
      ⟨_, _, rfl⟩
    cases handle? with
    | none =>
      exact .inl ⟨_, _, hopen, openFile_of_missed hopen, rfl, hhandle, hledger.missed name,
        hgoesOn.trans (List.suffix_cons _ _)⟩
    | some handle =>
      refine .inr ⟨(handle, _), _, _, hopen, openFile_of_opened hopen, fun size =>
        ⟨rfl, ?_, ?_, hgoesOn.trans (List.suffix_cons _ _)⟩⟩
      · exact Multiset.forall_mem_cons.2 ⟨rfl, hhandle⟩
      · rw [Multiset.map_cons]
        exact hledger.opened name size
  read := by
    rintro files s w count file ⟨rfl, hhandle, hledger, hgoesOn⟩ -
    obtain ⟨hfile, hothers⟩ := Multiset.forall_mem_cons.1 hhandle
    obtain ⟨data?, handle, s', hread⟩ :
        ∃ data? handle s', Storage.read file.handle.1 count w.storage = (data?, handle, s') :=
      ⟨_, _, _, rfl⟩
    have hread' := hread
    rw [← hfile] at hread'
    rw [Multiset.map_cons] at hledger
    cases data? with
    | none =>
      refine ⟨none, (handle, _), _, _, hread, read_of_failed hread', rfl, ?_, ?_,
        hgoesOn.trans (List.suffix_cons _ _)⟩
      · exact Multiset.forall_mem_cons.2 ⟨rfl, hothers⟩
      · rw [Multiset.map_cons]
        exact hledger.failed
    | some data =>
      refine ⟨some data, (handle, _), _, _, hread, read_of_gave hread', rfl, ?_, ?_,
        hgoesOn.trans (List.suffix_cons _ _)⟩
      · exact Multiset.forall_mem_cons.2 ⟨rfl, hothers⟩
      · rw [Multiset.map_cons]
        exact hledger.gave data
  close := by
    rintro files s w file ⟨rfl, hhandle, hledger, hgoesOn⟩
    obtain ⟨hfile, hothers⟩ := Multiset.forall_mem_cons.1 hhandle
    rw [Multiset.map_cons] at hledger
    refine ⟨?_, hothers, hledger.closed, hgoesOn.trans (List.suffix_cons _ _)⟩
    exact congrArg (Storage.close · w.storage) hfile

/-- The history of a watched table agrees with the files in its slots. -/
theorem ledger_of_inStep {t : FileTable σ η n} {u : FileTable (Watched σ) (Ticketed η) n}
    (h : t.InStep (Follows earlier) u) :
    u.storage.events.Ledger ((FileTable.held u.slots).map byTicket) := by
  obtain ⟨both, -, hu, hfollows⟩ := h
  rw [hu, FileTable.held_map, Multiset.map_map]
  exact hfollows.ledger

theorem byTicket_mem {slots : Vector (Option (OpenFile (Ticketed η))) n} {slot : Fin n}
    {file : OpenFile (Ticketed η)} (hheld : slots.get slot = some file) :
    byTicket file ∈ (FileTable.held slots).map byTicket :=
  Multiset.mem_map_of_mem _ (FileTable.mem_held.2 ⟨slot, hheld⟩)

/-- A held handle has a ticket that was given out. -/
theorem ticket_lt_of_inStep {t : FileTable σ η n} {u : FileTable (Watched σ) (Ticketed η) n}
    (h : t.InStep (Follows earlier) u) {slot : Fin n} {file : OpenFile (Ticketed η)}
    (hheld : u.slots.get slot = some file) : file.handle.ticket < u.storage.events.opens := by
  have hledger := ledger_of_inStep h
  exact hledger.ticket_lt (hledger.named (byTicket_mem hheld))

/-- A table and the same table watched go on from where they are. -/
theorem inStep_from_here {t : FileTable σ η n} {u : FileTable (Watched σ) (Ticketed η) n}
    (h : t.InStep (Follows earlier) u) : t.InStep (Follows u.storage.events) u := by
  obtain ⟨both, ht, hu, hfollows⟩ := h
  exact ⟨both, ht, hu, hfollows.storage, hfollows.handle, hfollows.ledger, List.suffix_rfl⟩

theorem goesOn_of_inStep {t : FileTable σ η n} {u : FileTable (Watched σ) (Ticketed η) n}
    (h : t.InStep (Follows earlier) u) : earlier <:+ u.storage.events := by
  obtain ⟨_, _, _, hfollows⟩ := h
  exact hfollows.goesOn

/-! ## Watched sessions -/

/-- The same act over watched storage. -/
def act : FileAct σ → FileAct (Watched σ) := FileAct.map lift

theorem call_mem_map_act {call : FileCall} {acts : List (FileAct σ)} :
    .call call ∈ acts.map act ↔ .call call ∈ acts := by
  rw [List.mem_map]
  constructor
  · rintro ⟨a, ha, heq⟩
    cases a with
    | call =>
      cases heq
      exact ha
    | load => cases heq
    | find => cases heq
    | change => cases heq
  · intro hcall
    exact ⟨.call call, hcall, rfl⟩

variable [Storage σ η] [Patch.Loader ε]

/-- A session over watched storage. -/
def session (n : Nat) (storage : σ) (engine : ε) (acts : List (FileAct σ)) :
    List FileOutcome × FileSession (Watched σ) (Ticketed η) ε n :=
  (FileSession.new n { storage } engine).performAll (acts.map act)

/-- A session comes out alike with and without a watch. -/
theorem session_in_step (n : Nat) (storage : σ) (engine : ε) (acts : List (FileAct σ)) :
    let plain := (FileSession.new n storage engine).performAll acts
    plain.1 = (session n storage engine acts).1 ∧
      plain.2.InStep (Follows []) (session n storage engine acts).2 :=
  FileSession.InStep.performAll coupling ⟨.empty (.new storage), rfl⟩ lift
    fun f _ _ _ _ h => h.lift f

theorem session_append (n : Nat) (storage : σ) (engine : ε) (acts more : List (FileAct σ)) :
    (session n storage engine (acts ++ more)).2 =
      ((session n storage engine acts).2.performAll (more.map act)).2 := by
  rw [session, session, List.map_append, FileSession.performAll, runAll_append]
  rfl

/-- The history of a longer session goes on from that of a shorter one. -/
theorem session_goesOn (n : Nat) (storage : σ) (engine : ε) (acts more : List (FileAct σ)) :
    (session n storage engine acts).2.table.storage.events <:+
      (session n storage engine (acts ++ more)).2.table.storage.events := by
  obtain ⟨-, htable, hengine⟩ := session_in_step n storage engine acts
  have hmore := FileSession.InStep.performAll coupling ⟨inStep_from_here htable, hengine⟩
    lift fun f (_ : .change f ∈ more) _ _ _ h => h.lift f
  rw [session_append]
  exact goesOn_of_inStep hmore.2.table

end Watched

end Patchbay
