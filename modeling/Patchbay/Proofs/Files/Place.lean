import Patchbay.Proofs.Files.Discovery
import Patchbay.Proofs.Text.Cuts
/-!
# The way back to a patch

An engine is offered a patch as a file of a directory, and reads it back through the table under the
path that the two make together (`Path.Place.path`). A path loses a leading `./` or `/` when it is
opened, so this one leads back to the file that was measured only if there is nothing to lose, or if
splitting has put it there (`Path.normalize_path_split`). `Patch.load_leads_back` says the same of
what tables open.
-/

namespace Patchbay

/-! ## Names and their parts -/

namespace Path

/-- The path to a file of a directory. -/
def Place.path (place : Place) : String := place.directory ++ "/" ++ place.file

/-- A name that begins with nothing that `normalize` drops. -/
structure Plain (name : String) : Prop where
  not_slash : ¬ "/".toList <+: name.toList
  not_dotSlash : ¬ "./".toList <+: name.toList

/-- A name without a separator but a leading one. -/
def Rooted (name : String) : Prop := ∃ file, name = "/" ++ file ∧ '/' ∉ file.toList

theorem plain_of_not_mem {name : String} (h : '/' ∉ name.toList) : Plain name where
  not_slash := fun hfront => h (hfront.subset (by simp))
  not_dotSlash := fun hfront => h (hfront.subset (by simp))

theorem normalize_slash (rest : String) : normalize ("/" ++ rest) = rest := by
  simp [normalize]

theorem normalize_dotSlash (rest : String) : normalize ("./" ++ rest) = rest := by
  simp [normalize]

/-- A path from which something is dropped becomes shorter. -/
theorem normalize_eq_self {name : String} : normalize name = name ↔ Plain name := by
  unfold normalize
  split
  · next rest heq =>
    refine iff_of_false (fun h => ?_) fun h => h.not_dotSlash (by simp [heq])
    have hlength : rest.length = name.toList.length := by rw [← h, String.toList_ofList]
    simp only [heq, List.length_cons] at hlength
    omega
  · next rest heq =>
    refine iff_of_false (fun h => ?_) fun h => h.not_slash (by simp [heq])
    have hlength : rest.length = name.toList.length := by rw [← h, String.toList_ofList]
    simp only [heq, List.length_cons] at hlength
    omega
  · next hdot hslash =>
    refine iff_of_true rfl ⟨?_, ?_⟩
    · rintro ⟨rest, heq⟩
      exact hslash rest heq.symm
    · rintro ⟨rest, heq⟩
      exact hdot rest heq.symm

/-- What the parts of a name make together: the name itself, unless the directory is one of the two
that stand for none. -/
theorem split_cases (name : String) :
    ('/' ∉ name.toList ∧ (split name).path = "./" ++ name) ∨
    (Rooted name ∧ (split name).path = "/" ++ name) ∨
    (¬ Rooted name ∧ (split name).path = name) := by
  unfold split
  cases hcut : Text.cutLast '/' name.toList with
  | none => exact .inl ⟨Text.cutLast_eq_none.1 hcut, rfl⟩
  | some parts =>
    obtain ⟨directory, file⟩ := parts
    obtain ⟨hname, hfile⟩ := Text.of_cutLast_eq_some hcut
    cases directory with
    | nil =>
      have hrooted : name = "/" ++ String.ofList file := by
        rw [← String.toList_inj, hname]
        simp
      refine .inr (.inl ⟨⟨_, hrooted, by simpa using hfile⟩, ?_⟩)
      rw [hrooted]
      rfl
    | cons c directory =>
      refine .inr (.inr ⟨?_, ?_⟩)
      · rintro ⟨rest, hrest, hnone⟩
        have hcons : '/' :: rest.toList = c :: (directory ++ '/' :: file) := by
          rw [← List.cons_append, ← hname, hrest, String.toList_append]
          rfl
        obtain ⟨-, htail⟩ := List.cons.inj hcons
        exact hnone (by simp [htail])
      · rw [← String.toList_inj, hname]
        simp [Place.path]

theorem normalize_path_split {name : String} :
    normalize (split name).path = name ↔ Plain name ∨ Rooted name := by
  obtain ⟨hnone, hpath⟩ | ⟨hrooted, hpath⟩ | ⟨hnot, hpath⟩ := split_cases name
  · rw [hpath, normalize_dotSlash]
    exact iff_of_true rfl (.inl (plain_of_not_mem hnone))
  · rw [hpath, normalize_slash]
    exact iff_of_true rfl (.inr hrooted)
  · rw [hpath, normalize_eq_self, or_iff_left hnot]

end Path

/-! ## Opening a file again -/

namespace FileTable

variable {σ η : Type} {n : Nat}

/-- The name under which storage knows the open file of a descriptor. -/
def nameOf? (fd : Descriptor) (t : FileTable σ η n) : Option String :=
  (t.find? fd).map fun found => found.2.name

variable [Storage σ η] {t t' : FileTable σ η n} {path other : String} {fd : Descriptor}

/-- A path matters by its name only. -/
theorem openFile_congr (h : Path.normalize other = Path.normalize path) (t : FileTable σ η n) :
    t.openFile other = t.openFile path := by
  simp only [openFile, h]

theorem nameOf?_openFile (h : (t.openFile path).value = (.ok fd, t')) :
    t'.nameOf? fd = some (Path.normalize path) := by
  obtain ⟨e, s', hopen, -⟩ | ⟨slot, size, handle, s₁, s₂, -, -, -, hopen⟩ := openFile_cases t path
  · rw [hopen] at h
    cases h
  · rw [hopen] at h
    obtain ⟨rfl, rfl⟩ := h
    rw [nameOf?, find?_put, Option.map_some]

end FileTable

namespace Patch

variable {σ η ε : Type} {n : Nat} [Storage σ η] [Loader ε]

/-- An engine is offered nothing but the place of the file that was measured. -/
theorem place_of_mem_offers {path : String} {t : FileTable σ η n} {engine : ε}
    {offered : Path.Place × Bool}
    (h : offered ∈ (load path t ({ engine } : Noted ε)).value.2.2.offers) :
    offered.1 = Path.split (Path.normalize path) := by
  obtain ⟨size, files, hmeasure⟩ : ∃ size files, (measure path t).value = (size, files) :=
    ⟨_, _, rfl⟩
  simp only [load, Logged.value_bind, hmeasure] at h
  cases size with
  | error e => cases h
  | ok size =>
    simp only at h
    split at h
    · cases h
    · split at h
      · cases h
      · split at h
        all_goals
          obtain rfl : offered = (Path.split (Path.normalize path), _) := List.mem_singleton.1 h
          rfl

variable (σ ε n) in
/-- The place that an engine is offered leads back to the file that was measured, just if the name
of the file begins with neither `/` nor `./`, or has a leading separator and no other. Then it makes
no difference to any table which of the two paths is opened. Otherwise the files that the two open
have different names. -/
theorem load_leads_back (path : String) :
    let name := Path.normalize path
    let place := Path.split name
    let back := Path.Plain name ∨ Path.Rooted name
    (Path.normalize place.path = name ↔ back) ∧
    (∀ (t : FileTable σ η n) (engine : ε),
      ∀ offered ∈ (load path t ({ engine } : Noted ε)).value.2.2.offers, offered.1 = place) ∧
    (back → ∀ t : FileTable σ η n, t.openFile place.path = t.openFile path) ∧
    ∀ (t t' u u' : FileTable σ η n) (fd fd' : Descriptor),
      (t.openFile path).value = (.ok fd, t') → (u.openFile place.path).value = (.ok fd', u') →
        (u'.nameOf? fd' = t'.nameOf? fd ↔ back) := by
  intro name place back
  have hback : Path.normalize place.path = name ↔ back := Path.normalize_path_split
  refine ⟨hback, ?_, ?_, ?_⟩
  · intro t engine offered h
    exact place_of_mem_offers h
  · intro h t
    exact FileTable.openFile_congr (hback.2 h) t
  · intro t t' u u' fd fd' hfirst hagain
    rw [FileTable.nameOf?_openFile hfirst, FileTable.nameOf?_openFile hagain, Option.some.injEq]
    exact hback

/-- Files with a separator in front of their names, and without. -/
def kits : Shelf :=
  { files := [("/b.pd", [1]), ("/kit/b.pd", [2]), ("kit/b.pd", [3, 4])], most := 1 }

/-- A leading separator is kept if it is the only one, and dropped otherwise: the file that was
offered as `b.pd` of `/` is opened again, the one that would be offered as `b.pd` of `/kit` is
not. -/
theorem load_leads_back_kits :
    let t : FileTable Shelf (List UInt8) 1 := FileTable.ofStorage kits
    let loaded := (load ".//b.pd" t ({ engine := { refusals := 0 } } : Noted Picky)).value
    let place : Path.Place := { file := "b.pd", directory := "/" }
    let first := (t.openFile "//kit/b.pd").value
    let again := (t.openFile "/kit/b.pd").value
    (place, true) ∈ loaded.2.2.offers ∧ place = Path.split (Path.normalize ".//b.pd") ∧
      Path.Rooted "/b.pd" ∧ t.openFile "//b.pd" = t.openFile ".//b.pd" ∧
      first.1 = .ok ⟨10⟩ ∧ again.1 = .ok ⟨10⟩ ∧ again.2.nameOf? ⟨10⟩ ≠ first.2.nameOf? ⟨10⟩ := by
  intro t loaded place first again
  have hoffers : (place, true) ∈ loaded.2.2.offers := by decide +kernel
  have hrooted : Path.Rooted "/b.pd" := ⟨"b.pd", by decide, by decide⟩
  have hfirst : first.1 = .ok ⟨10⟩ := by decide +kernel
  have hagain : again.1 = .ok ⟨10⟩ := by decide +kernel
  obtain ⟨-, hplace, hopen, -⟩ := load_leads_back Shelf Picky 1 ".//b.pd"
  obtain ⟨-, -, -, hnames⟩ := load_leads_back Shelf Picky 1 "//kit/b.pd"
  have hlost : ¬ (Path.Plain "/kit/b.pd" ∨ Path.Rooted "/kit/b.pd") := by
    rw [← Path.normalize_path_split]
    decide +kernel
  refine ⟨hoffers, hplace t _ _ hoffers, hrooted, hopen (.inr hrooted) t, hfirst, hagain, ?_⟩
  intro hsame
  exact hlost ((hnames t first.2 t again.2 ⟨10⟩ ⟨10⟩ (Prod.ext hfirst rfl)
    (Prod.ext hagain rfl)).1 hsame)

end Patch

end Patchbay
