import Patchbay.Proofs.Files.Effect
import Patchbay.Proofs.Files.Seekable
/-!
# Finding a patch

Over steady storage the search for a patch comes to this: of the default patch and the files of the
listing, those that can be loaded are offered to the engine in order, until it accepts one. The
table is used on the way, but keeps its open files.
-/

namespace Patchbay

/-! ## Names of patches -/

/-- A name is that of a patch if it ends in `.pd`, in whatever case, and does not begin there. -/
theorem Path.isPatchFile_iff (name : String) :
    isPatchFile name ↔ ∃ stem ending, name.toList = stem ++ ending ∧ stem ≠ [] ∧
      Text.asciiLower ending = ".pd".toList := by
  have hreverse : isPatchFile name ↔
      ∃ c rest, (Text.asciiLower name.toList).reverse = 'd' :: 'p' :: '.' :: c :: rest := by
    unfold isPatchFile
    split
    · next c rest heq => exact iff_of_true rfl ⟨c, rest, heq⟩
    · next hother => exact iff_of_false Bool.false_ne_true fun ⟨c, rest, heq⟩ => hother c rest heq
  rw [hreverse]
  constructor
  · rintro ⟨c, rest, heq⟩
    have hlower : Text.asciiLower name.toList = (c :: rest).reverse ++ ".pd".toList := by
      rw [← List.reverse_reverse (Text.asciiLower name.toList), heq]
      simp
    obtain ⟨stem, ending, hname, hstem, hending⟩ := List.map_eq_append_iff.1 hlower
    refine ⟨stem, ending, hname, ?_, hending⟩
    rintro rfl
    simp at hstem
  · rintro ⟨stem, ending, hname, hstem, hending⟩
    obtain ⟨c, rest, hcons⟩ := List.exists_cons_of_ne_nil
      (show (Text.asciiLower stem).reverse ≠ [] by simpa [Text.asciiLower] using hstem)
    refine ⟨c, rest, ?_⟩
    rw [hname, Text.asciiLower, List.map_append, List.reverse_append]
    change (Text.asciiLower ending).reverse ++ (Text.asciiLower stem).reverse = _
    rw [hending, hcons]
    rfl

namespace Patch

/-! ## Offers -/

/-- Where a patch lies. -/
def place (patch : Patch) : Path.Place := { file := patch.file, directory := patch.directory }

/-- An engine, and what it has been offered and how it answered, oldest first. -/
structure Noted (ε : Type) where
  engine : ε
  offers : List (Path.Place × Bool) := []
deriving DecidableEq, Repr

instance {ε : Type} [Loader ε] : Loader (Noted ε) where
  openPatch place noted :=
    let r := Loader.openPatch place noted.engine
    (r.1, { engine := r.2, offers := noted.offers ++ [(place, r.1)] })

section Offer

variable {ε : Type} [Loader ε]

/-- Offers patches to an engine, one after another, until it accepts one. -/
def offer : List Patch → ε → Option Patch × ε
  | [], engine => (none, engine)
  | patch :: rest, engine =>
    let r := Loader.openPatch patch.place engine
    if r.1 then (some patch, r.2) else offer rest r.2

theorem offer_singleton (patch : Patch) (engine : ε) :
    offer [patch] engine =
      (if (Loader.openPatch patch.place engine).1 then some patch else none,
        (Loader.openPatch patch.place engine).2) := by
  simp only [offer]
  split <;> rfl

/-- What follows is offered if nothing before it was accepted. -/
theorem offer_append (patches more : List Patch) (engine : ε) :
    offer (patches ++ more) engine =
      match offer patches engine with
      | (some patch, engine) => (some patch, engine)
      | (none, engine) => offer more engine := by
  induction patches generalizing engine with
  | nil => rfl
  | cons patch rest ih =>
    simp only [List.cons_append, offer]
    split
    · rfl
    · exact ih _

/-- Noting the offers changes none of the answers. -/
theorem offer_noted (patches : List Patch) (noted : Noted ε) :
    (offer patches noted).1 = (offer patches noted.engine).1 ∧
      (offer patches noted).2.engine = (offer patches noted.engine).2 := by
  induction patches generalizing noted with
  | nil => exact ⟨rfl, rfl⟩
  | cons patch rest ih =>
    simp only [offer]
    cases hanswer : (Loader.openPatch patch.place noted.engine).1 with
    | true => simp [Loader.openPatch, hanswer]
    | false => simpa [Loader.openPatch, hanswer] using ih (Loader.openPatch patch.place noted).2

/-- Either all patches are offered and refused, or they are offered up to the first that is
accepted. -/
theorem offers_offer (patches : List Patch) (noted : Noted ε) :
    ((offer patches noted).1 = none ∧
      (offer patches noted).2.offers = noted.offers ++ patches.map fun patch => (patch.place, false)) ∨
    ∃ refused patch rest, patches = refused ++ patch :: rest ∧
      (offer patches noted).1 = some patch ∧
      (offer patches noted).2.offers =
        noted.offers ++ (refused.map fun patch => (patch.place, false)) ++ [(patch.place, true)] := by
  induction patches generalizing noted with
  | nil => exact .inl ⟨rfl, by simp [offer]⟩
  | cons patch rest ih =>
    have hoffers : (Loader.openPatch patch.place noted).2.offers =
        noted.offers ++ [(patch.place, (Loader.openPatch patch.place noted).1)] := rfl
    cases hanswer : (Loader.openPatch patch.place noted).1 with
    | true =>
      rw [hanswer] at hoffers
      refine .inr ⟨[], patch, rest, rfl, ?_, ?_⟩
      · simp [offer, hanswer]
      · simp [offer, hanswer, hoffers]
    | false =>
      rw [hanswer] at hoffers
      have hoffer : offer (patch :: rest) noted = offer rest (Loader.openPatch patch.place noted).2 := by
        simp [offer, hanswer]
      rw [hoffer]
      obtain ⟨hnone, hall⟩ | ⟨refused, accepted, later, rfl, hsome, hsofar⟩ :=
        ih (Loader.openPatch patch.place noted).2
      · refine .inl ⟨hnone, ?_⟩
        rw [hall, hoffers]
        simp
      · refine .inr ⟨patch :: refused, accepted, later, rfl, hsome, ?_⟩
        rw [hsofar, hoffers]
        simp

end Offer

/-! ## Steady storage -/

section Steady

variable {σ η ε : Type} {n : Nat} [Storage σ η] [Loader ε]
  {files : String → Option (List UInt8)} {Owes : σ → Multiset (η × List UInt8) → Prop}
  (steady : Storage.Steady files Owes) {t : FileTable σ η n}
  {account : Multiset (η × List UInt8)} (howes : Owes t.storage account)

variable (files) in
/-- The patch that a path leads to, if its name is short enough to be kept and the file is neither
empty nor too large. -/
def candidate? (path : String) : Option Patch :=
  let name := Path.normalize path
  match files name with
  | none => none
  | some content =>
    if name.utf8ByteSize ≤ Limits.maxPathBytes ∧ 0 < content.length ∧
        content.length ≤ Limits.maxPatchBytes then
      some { file := (Path.split name).file, directory := (Path.split name).directory,
             size := content.length }
    else none

/-- The names of a listing that are tried, besides the default patch. -/
def besides (listing : List String) : List String :=
  listing.filter fun name => Path.isPatchFile name && name ≠ Limits.defaultPatch

variable (files) in
/-- The patches that are tried for a listing, in order. -/
def trials (listing : List String) : List Patch :=
  (Limits.defaultPatch :: besides listing).filterMap (candidate? files)

omit [Storage σ η] [Loader ε] in
theorem filterMap_candidate?_cons (name : String) (rest : List String) :
    (name :: rest).filterMap (candidate? files) =
      (candidate? files name).toList ++ rest.filterMap (candidate? files) := by
  rw [List.filterMap_eq_flatMap_toList, List.flatMap_cons, ← List.filterMap_eq_flatMap_toList]

/-- What is found when patches were offered. -/
def found (accepted? : Option Patch) : Except PatchError Patch :=
  accepted?.elim (.error .noneFound) .ok

omit [Storage σ η] [Loader ε] in
theorem candidate?_of_unopened {path : String}
    (h : Limits.maxPathBytes < (Path.normalize path).utf8ByteSize ∨
      files (Path.normalize path) = none) : candidate? files path = none := by
  cases hname : files (Path.normalize path) with
  | none => simp only [candidate?, hname]
  | some content =>
    have hlong := h.resolve_right (by simp [hname])
    simp only [candidate?, hname, Nat.not_le_of_lt hlong, false_and, if_false]

omit [Storage σ η] [Loader ε] in
theorem candidate?_of_content {path : String} {content : List UInt8}
    (hname : files (Path.normalize path) = some content)
    (hshort : (Path.normalize path).utf8ByteSize ≤ Limits.maxPathBytes) :
    candidate? files path =
      if content.length = 0 then none
      else if Limits.maxPatchBytes < content.length then none
      else
        let place := Path.split (Path.normalize path)
        some { file := place.file, directory := place.directory, size := content.length } := by
  unfold candidate?
  simp only [hname]
  split_ifs <;> first | rfl | omega

include steady howes in
/-- Over steady storage with a slot to spare, a path is measured if its name is short enough and
there is such a file. The other files stay as they are. -/
theorem measure_of_steady (hfree : t.freeSlot? ≠ none) (path : String) :
    let name := Path.normalize path
    ∃ result storage, (measure path t).value = (result, { t with storage }) ∧ Owes storage account ∧
      ((∃ e, result = .error e) ∧ (Limits.maxPathBytes < name.utf8ByteSize ∨ files name = none) ∨
        ∃ content, files name = some content ∧ name.utf8ByteSize ≤ Limits.maxPathBytes ∧
          result = .ok content.length) := by
  intro name
  obtain ⟨slot, hslot⟩ := Option.ne_none_iff_exists'.1 hfree
  by_cases hlong : Limits.maxPathBytes < name.utf8ByteSize
  · have hopen : (t.openFile path).value = (.error .pathTooLong, t) := by
      simp only [FileTable.openFile, hslot, if_pos hlong, Logged.value_pure, name]
    exact ⟨_, t.storage, measure_of_error hopen, howes, .inl ⟨⟨_, rfl⟩, .inl hlong⟩⟩
  · obtain ⟨s₁, hmeasure, howes₁⟩ := FileTable.measure_of_steady name steady howes
    cases hname : files name with
    | none =>
      rw [hname, Option.map_none] at hmeasure
      have hopen : (t.openFile path).value = (.error .notFound, { t with storage := s₁ }) := by
        simp only [FileTable.openFile, hslot, if_neg hlong, hmeasure, name, Logged.value_bind,
          Logged.value_pure]
      exact ⟨_, s₁, measure_of_error hopen, howes₁, .inl ⟨⟨_, rfl⟩, .inr rfl⟩⟩
    | some content =>
      rw [hname, Option.map_some] at hmeasure
      obtain ⟨handle, s₂, hopened, howes₂⟩ := steady.opened howes₁ hname
      have hopen : (t.openFile path).value = (.ok (FileTable.descriptor slot),
          t.put slot { handle, size := content.length, position := 0, name } s₂) := by
        simp only [FileTable.openFile, hslot, if_neg hlong, hmeasure, hopened, name,
          Logged.value_bind, Logged.value_pure]
      have hfreed := (FileTable.freeSlot?_eq_some.1 hslot).1
      exact ⟨_, _, measure_of_ok hfreed hopen, steady.closed howes₂,
        .inr ⟨content, rfl, Nat.le_of_not_lt hlong, rfl⟩⟩

include steady howes in
/-- The patch that a path leads to is offered to the engine, if there is one. -/
theorem load_of_steady (hfree : t.freeSlot? ≠ none) (path : String) (engine : ε) :
    let offered := offer (candidate? files path).toList engine
    ∃ result storage, (load path t engine).value = (result, { t with storage }, offered.2) ∧
      result.toOption = offered.1 ∧ Owes storage account := by
  obtain ⟨result, storage, hmeasure, howes', hresult⟩ := measure_of_steady steady howes hfree path
  simp only [load, Logged.value_bind, hmeasure]
  obtain ⟨⟨e, rfl⟩, hunopened⟩ | ⟨content, hname, hshort, rfl⟩ := hresult
  · rw [candidate?_of_unopened hunopened]
    exact ⟨_, storage, rfl, rfl, howes'⟩
  · rw [candidate?_of_content hname hshort]
    by_cases hempty : content.length = 0
    · simp only [if_pos hempty]
      exact ⟨_, storage, rfl, rfl, howes'⟩
    · by_cases hlarge : Limits.maxPatchBytes < content.length
      · simp only [if_neg hempty, if_pos hlarge]
        exact ⟨_, storage, rfl, rfl, howes'⟩
      · simp only [if_neg hempty, if_neg hlarge, Option.toList_some]
        rw [offer_singleton]
        change ∃ _ _, _ ∧ Except.toOption _ =
          (if (Loader.openPatch (Path.split (Path.normalize path)) engine).1 then some _ else none) ∧ _
        split
        · exact ⟨_, storage, rfl, rfl, howes'⟩
        · exact ⟨_, storage, rfl, rfl, howes'⟩

include steady howes in
/-- A path is tried, and the search goes on if no patch came of it. -/
theorem loadOr_of_steady (hfree : t.freeSlot? ≠ none) (path : String) (engine : ε)
    (others : FileTable σ η n → ε → Logged (Except PatchError Patch × FileTable σ η n × ε))
    {patches : List Patch}
    (hothers : ∀ storage engine, Owes storage account →
      let offered := offer patches engine
      ∃ storage', (others { t with storage } engine).value =
        (found offered.1, { t with storage := storage' }, offered.2) ∧ Owes storage' account) :
    let offered := offer ((candidate? files path).toList ++ patches) engine
    ∃ storage, (load path t engine >>= fun (loaded, files, engine) =>
        match loaded with
        | .ok patch => pure (.ok patch, files, engine)
        | .error _ => others files engine).value =
          (found offered.1, { t with storage }, offered.2) ∧ Owes storage account := by
  obtain ⟨result, s₁, hload, hresult, howes₁⟩ := load_of_steady steady howes hfree path engine
  rw [offer_append]
  simp only [Logged.value_bind, hload]
  generalize offer (candidate? files path).toList engine = offered at hresult
  obtain ⟨accepted?, engine'⟩ := offered
  cases result with
  | ok patch =>
    obtain rfl : some patch = accepted? := hresult
    exact ⟨s₁, rfl, howes₁⟩
  | error e =>
    obtain rfl : none = accepted? := hresult
    exact hothers s₁ engine' howes₁

include steady howes in
theorem loadFirst_of_steady (hfree : t.freeSlot? ≠ none) (listing : List String) (engine : ε) :
    let offered := offer ((besides listing).filterMap (candidate? files)) engine
    ∃ storage, (loadFirst listing t engine).value =
        (found offered.1, { t with storage }, offered.2) ∧ Owes storage account := by
  induction listing generalizing t engine with
  | nil => exact ⟨t.storage, rfl, howes⟩
  | cons name rest ih =>
    by_cases hskip : !Path.isPatchFile name || name = Limits.defaultPatch
    · have hbesides : besides (name :: rest) = besides rest := by
        rw [besides, List.filter_cons_of_neg, besides]
        simpa [imp_iff_not_or] using hskip
      rw [hbesides, loadFirst, if_pos hskip]
      exact ih howes hfree engine
    · have hbesides : besides (name :: rest) = name :: besides rest := by
        rw [besides, List.filter_cons_of_pos, besides]
        simpa using hskip
      rw [hbesides, filterMap_candidate?_cons, loadFirst, if_neg hskip]
      refine loadOr_of_steady steady howes hfree name engine (loadFirst rest) ?_
      intro storage engine howes'
      exact ih (t := { t with storage }) howes' hfree engine

include steady howes in
theorem find_of_steady (hfree : t.freeSlot? ≠ none) (listing : List String) (engine : ε) :
    let offered := offer (trials files listing) engine
    ∃ storage, (find listing t engine).value =
        (found offered.1, { t with storage }, offered.2) ∧ Owes storage account := by
  rw [trials, filterMap_candidate?_cons, find]
  refine loadOr_of_steady steady howes hfree Limits.defaultPatch engine
    (fun files engine => do
      Log.info "searching for .pd files"
      loadFirst listing files engine) ?_
  intro storage engine howes'
  rw [Logged.value_bind]
  exact loadFirst_of_steady steady (t := { t with storage }) howes' hfree listing engine

include steady howes in
/-- The search finds the first patch that can be loaded and that the engine accepts, and offers none
after it. Over steady storage and with a slot to spare, the patches that can be loaded, of the
default one and those of the listing, are offered in order. Either the engine refuses them all and
none is found, or it refuses some and accepts the next, which is found with its true size. The open
files stay as they are, and so does what storage owes to them. An engine that notes its offers is
led the same way as the engine alone. -/
theorem find_offers (hfree : t.freeSlot? ≠ none) (listing : List String) (engine : ε) :
    let plain := (find listing t engine).value
    let noted := (find listing t ({ engine } : Noted ε)).value
    (∀ name, Path.isPatchFile name ↔ ∃ stem ending, name.toList = stem ++ ending ∧ stem ≠ [] ∧
        Text.asciiLower ending = ".pd".toList) ∧
      plain.1 = noted.1 ∧ plain.2.2 = noted.2.2.engine ∧ plain.2.1.slots = t.slots ∧
      Owes plain.2.1.storage account ∧
      (noted.1 = .error .noneFound ∧
          noted.2.2.offers = (trials files listing).map (fun patch => (patch.place, false)) ∨
        ∃ refused patch rest, trials files listing = refused ++ patch :: rest ∧
          noted.1 = .ok patch ∧
          noted.2.2.offers =
            refused.map (fun patch => (patch.place, false)) ++ [(patch.place, true)]) := by
  intro plain noted
  obtain ⟨storage, hplain, howes'⟩ := find_of_steady steady howes hfree listing engine
  obtain ⟨storage', hnoted, -⟩ :=
    find_of_steady steady howes hfree listing ({ engine } : Noted ε)
  obtain ⟨hanswer, hengine⟩ := offer_noted (trials files listing) ({ engine } : Noted ε)
  have hplain : plain = _ := hplain
  have hnoted : noted = _ := hnoted
  rw [hplain, hnoted]
  refine ⟨Path.isPatchFile_iff, congrArg found hanswer.symm, hengine.symm, rfl, howes', ?_⟩
  obtain ⟨hnone, hall⟩ | ⟨refused, patch, rest, hsplit, hsome, hoffers⟩ :=
    offers_offer (trials files listing) ({ engine } : Noted ε)
  · exact .inl ⟨congrArg found hnone, hall⟩
  · exact .inr ⟨refused, patch, rest, hsplit, congrArg found hsome, hoffers⟩

end Steady

/-- An engine that refuses so many patches and then accepts every other. -/
structure Picky where
  refusals : Nat
deriving DecidableEq, Repr

instance : Loader Picky where
  openPatch _ engine := (engine.refusals == 0, { refusals := engine.refusals - 1 })

/-- Four files, of which a read gives one byte at most. -/
def fourFiles : Shelf :=
  { files := [("main.pd", []), ("a.pd", [1]), ("kit/b.PD", [2, 3]), ("c.pd", [4])], most := 1 }

/-- One of them is open. -/
def oneOpen : FileTable Shelf (List UInt8) 2 :=
  ((FileTable.ofStorage fourFiles).openFile "a.pd").value.2

/-- Another kind of file, the default patch and a name without a stem among the patches. -/
def mixedListing : List String := ["a.txt", "a.pd", "main.pd", ".pd", "./kit/b.PD", "c.pd"]

/-- The default patch is empty, one patch is refused, and the next one is loaded. -/
theorem find_offers_third :
    let plain := (find mixedListing oneOpen ({ refusals := 1 } : Picky)).value
    let noted := (find mixedListing oneOpen ({ engine := { refusals := 1 } } : Noted Picky)).value
    Storage.Steady fourFiles.content fourFiles.Owes ∧
      fourFiles.Owes oneOpen.storage {([1], [1])} ∧ oneOpen.freeSlot? ≠ none ∧
      plain.1 = .ok { file := "b.PD", directory := "kit", size := 2 } ∧
      noted.2.2.offers =
        [({ file := "a.pd", directory := "." }, false), ({ file := "b.PD", directory := "kit" }, true)] ∧
      plain.1 = noted.1 ∧ plain.2.1.slots = oneOpen.slots := by
  intro plain noted
  have steady : Storage.Steady fourFiles.content fourFiles.Owes :=
    fourFiles.steady (by decide) (by decide)
  have howes : fourFiles.Owes oneOpen.storage {([1], [1])} := ⟨by decide +kernel, by simp⟩
  have hfree : oneOpen.freeSlot? ≠ none := by decide +kernel
  obtain ⟨-, hanswer, -, hslots, -, -⟩ :=
    find_offers steady howes hfree mixedListing ({ refusals := 1 } : Picky)
  exact ⟨steady, howes, hfree, by decide +kernel, by decide +kernel, hanswer, hslots⟩

end Patch

end Patchbay
