import Patchbay.Proofs.Files.Faulty
import Patchbay.Proofs.Files.Watched
/-!
# Positions

The position of an open file is the number of bytes that its handle has given, whatever went wrong
on the way: a file that could not be opened anew, a move that stopped early, a read that failed. So
the next read gives what comes at that position. The size was counted in the same way, by the handle
that measured the file, which bounds the position if both handles have the same content.
-/

namespace Patchbay

variable {σ η ε : Type} {n : Nat} [Storage σ η]

namespace Watched

/-! ## The pass that measures a file -/

/-- Skipping counts what it is given, and stops before `count` only at a failure or at the end. -/
theorem skipFrom_events (passed count : Nat) (ticketed : Ticketed η) (w : Watched σ) :
    let r := Storage.skipFrom passed count ticketed w
    r.2.1.ticket = ticketed.ticket ∧
      r.1 + (w.events.given ticketed.ticket).length =
        passed + (r.2.2.events.given ticketed.ticket).length ∧
      (.failed ticketed.ticket ∈ r.2.2.events ∨ .gave ticketed.ticket [] ∈ r.2.2.events ∨
        count ≤ r.1) := by
  induction passed, ticketed, w using Storage.skipFrom_induct (σ := Watched σ) count with
  | done passed ticketed w hle =>
    rw [Storage.skipFrom_of_le hle]
    exact ⟨rfl, rfl, .inr (.inr hle)⟩
  | next passed ticketed w data? ticketed' w' hlt hwant hread ih =>
    obtain ⟨hticket, hevents⟩ := read_events ticketed (min (count - passed) Storage.skipBytes) w
    rw [hread] at hticket hevents
    rw [Storage.skipFrom_of_read hlt hread]
    obtain ⟨rfl, (hevents : w'.events = _)⟩ | ⟨data, rfl, (hevents : w'.events = _)⟩ := hevents
    · simp only [Option.getD_none, if_true, hevents, History.given_failed]
      exact ⟨hticket, trivial, .inl List.mem_cons_self⟩
    · simp only [Option.getD_some] at ih ⊢
      rcases eq_or_ne data [] with rfl | hmore
      · simp only [if_true, hevents, History.given_gave_self, List.append_nil]
        exact ⟨hticket, trivial, .inr (.inl List.mem_cons_self)⟩
      · obtain ⟨hsame, hlength, hend⟩ := ih hmore
        rw [hticket] at hsame hlength hend
        rw [if_neg hmore]
        refine ⟨hsame, ?_, hend⟩
        rw [hevents, History.given_gave_self, List.length_append] at hlength
        omega

/-- What a history says of the handle that measured a file: it is closed, the size is what it gave,
and it stopped at a failure, at the end, or at the most that a size can be. -/
structure Measured (events : History) (probe size : Nat) : Prop where
  closed : .closed probe ∈ events
  given : (events.given probe).length = size
  stopped : .failed probe ∈ events ∨ .gave probe [] ∈ events ∨ FileTable.maxFileBytes ≤ size

theorem measured_of_measure {w w' : Watched σ} {files : Multiset (OpenFile Nat)}
    (hledger : w.events.Ledger files) {name : String} {size : Nat}
    (h : FileTable.measure name w = (some size, w')) :
    Measured w'.events w.events.opens size := by
  rw [FileTable.measure] at h
  split at h
  · cases h
  · next probe w₁ hopen =>
    obtain ⟨hticket, hevents⟩ := openFile_events hopen
    obtain ⟨hsame, hlength, hend⟩ := skipFrom_events 0 FileTable.maxFileBytes probe w₁
    change (some (Storage.skip FileTable.maxFileBytes probe w₁).1, _) = _ at h
    obtain ⟨rfl, rfl⟩ := h
    simp only [Storage.skip]
    generalize Storage.skipFrom 0 FileTable.maxFileBytes probe w₁ = r at hsame hlength hend ⊢
    have hclosed : (Storage.close r.2.1 r.2.2).events = .closed w.events.opens :: r.2.2.events := by
      rw [← hticket, ← hsame]
      rfl
    rw [hticket] at hlength hend
    rw [hevents, History.given_opened, hledger.given_next, List.length_nil] at hlength
    rw [hclosed]
    refine ⟨List.mem_cons_self, ?_, ?_⟩
    · rw [History.given_closed]
      omega
    · exact hend.imp (List.mem_cons_of_mem _) (Or.imp_left (List.mem_cons_of_mem _))

section Measured

variable {events earlier : History} {probe size : Nat}

/-- The handle that measured a file is closed, so nothing that happens later is about it. -/
theorem Measured.later (h : Measured earlier probe size) (hlawful : events.Lawful)
    (hearlier : earlier <:+ events) : Measured events probe size := by
  refine ⟨hearlier.mem h.closed, ?_, ?_⟩
  · rw [hlawful.given_of_closed hearlier h.closed]
    exact h.given
  · exact h.stopped.imp hearlier.mem (Or.imp_left hearlier.mem)

/-- Unless a read failed, the size counts all of the content, as far as a size can count. -/
theorem Measured.le_size (h : Measured events probe size) {content : Nat → List UInt8}
    (hhonest : events.Honest content) (hfailed : .failed probe ∉ events) {count : Nat}
    (hcontent : count ≤ (content probe).length) (hmost : count ≤ FileTable.maxFileBytes) :
    count ≤ size := by
  rcases h.stopped with hfail | hend | hlarge
  · exact absurd hfail hfailed
  · rwa [← hhonest.given_eq hend, h.given] at hcontent
  · exact hmost.trans hlarge

end Measured

theorem measured_of_openFile {t : FileTable (Watched σ) (Ticketed η) n}
    {files : Multiset (OpenFile Nat)} (hledger : t.storage.events.Ledger files) {path : String}
    {slot : Fin n} (hopen : (t.openFile path).value.1 = .ok (FileTable.descriptor slot)) :
    ∃ file measured, (t.openFile path).value.2.slots.get slot = some file ∧
      measured <:+ (t.openFile path).value.2.storage.events ∧
      Measured measured t.storage.events.opens file.size := by
  obtain ⟨e, s', hvalue, -⟩ | ⟨slot', size, handle, s₁, s₂, -, hmeasure, hopened, hvalue⟩ :=
    t.openFile_cases path
  · rw [hvalue] at hopen
    cases hopen
  · rw [hvalue] at hopen ⊢
    obtain rfl := FileTable.descriptor_injective (Except.ok.inj hopen)
    refine ⟨{ handle, size, position := 0, name := Path.normalize path }, s₁.events, ?_, ?_,
      measured_of_measure hledger hmeasure⟩
    · rw [FileTable.put, FileTable.get_set, if_pos rfl]
    · change s₁.events <:+ s₂.events
      rw [(openFile_events hopened).2]
      exact List.suffix_cons _ _

/-! ## Sessions -/

variable [Patch.Loader ε]

/-- The size of an open file is what was measured when it was opened. -/
theorem session_measured {storage : σ} {engine : ε} {before later : List (FileAct σ)} {path : String}
    {slot : Fin n} {file : OpenFile (Ticketed η)}
    (hopens : (FileSession.new n storage engine).Opens before path later
      (FileTable.descriptor slot)) :
    let s := (session n storage engine (before ++ .call (.openFile path) :: later)).2
    s.table.slots.get slot = some file →
    Measured s.table.storage.events (session n storage engine before).2.table.storage.events.opens
      file.size := by
  intro s hheld
  obtain ⟨-, hbefore, -⟩ := session_in_step n storage engine before
  have hanswer := hopens.answer
  rw [(hbefore.openFile coupling path).1] at hanswer
  obtain ⟨opened, measured, hopened, hearlier, hmeasured⟩ :=
    measured_of_openFile (ledger_of_inStep hbefore) hanswer
  -- The session goes on from the one that ends with the file just opened.
  have hsplit : before ++ .call (.openFile path) :: later =
      before ++ [.call (.openFile path)] ++ later := by simp
  have hmid : (session n storage engine (before ++ [.call (.openFile path)])).2.table =
      ((session n storage engine before).2.table.openFile path).value.2 := by
    rw [session_append]
    rfl
  have hsize : ∃ file, s.table.slots.get slot = some file ∧ file.size = opened.size := by
    rw [show s = _ from congrArg (fun acts => (session n storage engine acts).2) hsplit,
      session_append]
    apply FileSession.performAll_size_kept
    · rw [call_mem_map_act]
      exact hopens.close_not_mem
    · rw [call_mem_map_act]
      exact hopens.closeAll_not_mem
    · rw [hmid]
      exact ⟨opened, hopened, rfl⟩
  obtain ⟨file', hheld', hsize⟩ := hsize
  obtain rfl := Option.some.inj (hheld'.symm.trans hheld)
  rw [hsize]
  obtain ⟨-, hafter, -⟩ :=
    session_in_step n storage engine (before ++ .call (.openFile path) :: later)
  apply hmeasured.later (ledger_of_inStep hafter).lawful
  have hgoesOn := session_goesOn n storage engine (before ++ [.call (.openFile path)]) later
  rw [← hsplit, hmid] at hgoesOn
  exact hearlier.trans hgoesOn

theorem read_after_given {t : FileTable (Watched σ) (Ticketed η) n} {fd : Descriptor} {slot : Fin n}
    {file : OpenFile (Ticketed η)} (hfind : t.find? fd = some (slot, file))
    (hposition : file.position = (t.storage.events.given file.handle.ticket).length) {count : Nat}
    (hcount : 0 < count) :
    let given := t.storage.events.given file.handle.ticket
    let events := (t.read fd count).2.storage.events
    ∃ data, (t.read fd count).1 = .ok data ∧
      (t.read fd count).2.position fd = .ok (given.length + data.length) ∧
      (events = .failed file.handle.ticket :: t.storage.events ∧ data = [] ∨
        events = .gave file.handle.ticket data :: t.storage.events ∧
          ∀ content, events.Honest content →
            data <+: (content file.handle.ticket).drop given.length ∧
              (data = [] → given = content file.handle.ticket)) := by
  obtain ⟨rfl, -⟩ := FileTable.find?_eq_some.1 hfind
  obtain ⟨-, hread⟩ := read_events file.handle count t.storage
  rw [FileTable.read_of_find? hfind hcount]
  generalize Storage.read file.handle count t.storage = r at hread
  refine ⟨_, rfl, ?_, ?_⟩
  · simp only [FileTable.position, FileTable.put, FileTable.find?_set, if_true, Option.map_some,
      hposition]
  · obtain ⟨hnone, hevents⟩ | ⟨data, hdata, hevents⟩ := hread
    · simp only [hnone, Option.getD_none]
      exact .inl ⟨hevents, trivial⟩
    · simp only [hdata, Option.getD_some]
      refine .inr ⟨hevents, fun content hhonest => ?_⟩
      change r.2.2.events.Honest content at hhonest
      rw [hevents] at hhonest
      obtain ⟨⟨rest, hrest⟩, hend⟩ := hhonest.1
      refine ⟨⟨rest, ?_⟩, hend⟩
      rw [← hrest, List.append_assoc, List.drop_left]

/-- The position of every open file is truthful, whatever storage does and whatever happened to the
table. It is the number of bytes that the current handle has given, and a read from storage either
fails and gives nothing or gives what comes next in the content of that handle. The file was opened
by some act and has not been closed since. If no read failed while it was measured, and the content
of its handle is still the one that was measured, then the position is at most the size, as far as
a size can count. -/
theorem session_position_truthful (n : Nat) (storage : σ) (engine : ε) (acts : List (FileAct σ))
    {fd : Descriptor} {slot : Fin n} {file : OpenFile (Ticketed η)}
    (hfind : (session n storage engine acts).2.table.find? fd = some (slot, file)) :
    let t := (session n storage engine acts).2.table
    let ticket := file.handle.ticket
    let given := t.storage.events.given ticket
    ((FileSession.new n storage engine).performAll acts).1 = (session n storage engine acts).1 ∧
      t.position fd = .ok given.length ∧
      (∀ count, 0 < count →
        let events := (t.read fd count).2.storage.events
        ∃ data, (t.read fd count).1 = .ok data ∧
          (t.read fd count).2.position fd = .ok (given.length + data.length) ∧
          (events = .failed ticket :: t.storage.events ∧ data = [] ∨
            events = .gave ticket data :: t.storage.events ∧
              ∀ content, events.Honest content →
                data <+: (content ticket).drop given.length ∧
                  (data = [] → given = content ticket))) ∧
      (∃ before path later, acts = before ++ .call (.openFile path) :: later ∧
        (FileSession.new n storage engine).Opens before path later fd) ∧
      ∀ before path later, acts = before ++ .call (.openFile path) :: later →
        (FileSession.new n storage engine).Opens before path later fd →
        let probe := (session n storage engine before).2.table.storage.events.opens
        .failed probe ∉ t.storage.events → ∀ content, t.storage.events.Honest content →
          content ticket = content probe → given.length ≤ FileTable.maxFileBytes →
            given.length ≤ file.size := by
  obtain ⟨rfl, hheld⟩ := FileTable.find?_eq_some.1 hfind
  obtain ⟨houtcomes, htable, -⟩ := session_in_step n storage engine acts
  have hposition : file.position =
      ((session n storage engine acts).2.table.storage.events.given file.handle.ticket).length :=
    (ledger_of_inStep htable).position (byTicket_mem hheld)
  refine ⟨houtcomes, ?_, fun count hcount => ?_, ?_, ?_⟩
  · simp only [FileTable.position, hfind, hposition]
  · exact read_after_given hfind hposition hcount
  · apply FileSession.exists_opens
    · exact fun slot => FileTable.get_replicate none slot
    · intro hnone
      obtain ⟨-, hfind'⟩ | ⟨_, _, -, hfind', -⟩ :=
        htable.find?_cases (FileTable.descriptor slot)
      · rw [hfind] at hfind'
        cases hfind'
      · rw [FileTable.find?_descriptor, hnone] at hfind'
        cases hfind'
  · rintro before path later rfl hopens probe hfailed content hhonest hsame hmost
    have hmeasured := session_measured hopens hheld
    apply hmeasured.le_size hhonest hfailed _ hmost
    rw [← hsame]
    exact hhonest.given_prefix.length_le

/-- Two faults: a move forward that stops at a failed read, and a move back that cannot open the file
anew. -/
theorem session_position_truthful_faulty :
    let storage : Faulty Shelf :=
      { storage := { files := [("a", [1, 2, 3])], most := 2 }
        opens := [false, false, true]
        reads := [false, false, false, false, true] }
    let fd : Descriptor := ⟨10⟩
    let later : List (FileAct (Faulty Shelf)) :=
      [.call (.read fd 2), .call (.seek fd 3 .start), .call (.seek fd 0 .start)]
    let content : Nat → List UInt8 := fun _ => [1, 2, 3]
    let t := (session 1 storage true (.call (.openFile "/a") :: later)).2.table
    let file : OpenFile (Ticketed (List UInt8)) :=
      { handle := { ticket := 1, handle := [3] }, size := 3, position := 2, name := "a" }
    t.find? fd = some (0, file) ∧
      t.position fd = .ok (t.storage.events.given file.handle.ticket).length ∧
      t.storage.events.Honest content ∧
      (t.storage.events.given file.handle.ticket).length ≤ file.size := by
  intro storage fd later content t file
  have hfind : t.find? fd = some (0, file) := by decide +kernel
  have hhonest : t.storage.events.Honest content := by decide +kernel
  have hfailed : .failed 0 ∉ t.storage.events := by decide +kernel
  have hopens : (FileSession.new 1 storage true).Opens [] "/a" later fd :=
    ⟨by decide +kernel, by simp [later], by simp [later]⟩
  have hmost : (t.storage.events.given file.handle.ticket).length ≤ FileTable.maxFileBytes := by
    decide +kernel
  have ht : (session 1 storage true (.call (.openFile "/a") :: later)).2.table = t := rfl
  obtain ⟨-, hposition, -, -, hbounded⟩ :=
    session_position_truthful 1 storage true (.call (.openFile "/a") :: later) hfind
  rw [ht] at hposition hbounded
  exact ⟨hfind, hposition, hhonest,
    hbounded [] "/a" later rfl hopens hfailed content hhonest rfl hmost⟩

end Watched

end Patchbay
