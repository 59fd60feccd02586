import Patchbay.Proofs.Files.Steady
/-!
# A shelf of files

A small steady storage: its files are a list, a handle is what is still unread of a file, and a read
gives at most a fixed number of bytes.
-/

namespace Patchbay

/-- Files by name, and the most bytes that one read gives. -/
structure Shelf where
  files : List (String × List UInt8)
  most : Nat
deriving DecidableEq, Repr

namespace Shelf

instance : Storage Shelf (List UInt8) where
  openFile name shelf := (shelf.files.lookup name, shelf)
  read unread count shelf :=
    let given := min count shelf.most
    (some (unread.take given), unread.drop given, shelf)
  close _ shelf := shelf

/-- The content of a file. -/
def content (shelf : Shelf) (name : String) : Option (List UInt8) := shelf.files.lookup name

/-- The shelf stays as it is, and every handle owes what it holds. -/
def Owes (shelf now : Shelf) (account : Multiset (List UInt8 × List UInt8)) : Prop :=
  now = shelf ∧ ∀ entry ∈ account, entry.1 = entry.2

theorem owes_zero (shelf : Shelf) : shelf.Owes shelf 0 := by
  simp [Owes]

/-- A shelf is steady storage if its reads make progress. -/
theorem steady (shelf : Shelf) (hmost : 0 < shelf.most)
    (hlength : ∀ file ∈ shelf.files, (file.2.length : Int) ≤ Int64.maxValue.toInt) :
    Storage.Steady shelf.content shelf.Owes where
  opened := by
    rintro _ account name content ⟨rfl, haccount⟩ hname
    refine ⟨content, _, Prod.ext hname rfl, rfl, ?_⟩
    rintro entry hentry
    rcases Multiset.mem_cons.1 hentry with rfl | hentry
    · rfl
    · exact haccount entry hentry
  missing := by
    rintro _ account name ⟨rfl, haccount⟩ hname
    exact ⟨_, Prod.ext hname rfl, rfl, haccount⟩
  read := by
    rintro _ account handle owed count ⟨rfl, haccount⟩ hcount
    obtain rfl : handle = owed := haccount _ (Multiset.mem_cons_self _ _)
    refine ⟨_, _, _, _, rfl, (List.take_append_drop _ _).symm, ?_, ?_, rfl, ?_⟩
    · rw [List.length_take]
      omega
    · intro hnil
      rw [List.take_eq_nil_iff] at hnil
      rcases hnil with hzero | rfl
      · omega
      · simp
    · rintro entry hentry
      rcases Multiset.mem_cons.1 hentry with rfl | hentry
      · rfl
      · exact haccount entry (Multiset.mem_cons_of_mem hentry)
  closed := by
    rintro _ account handle owed ⟨rfl, haccount⟩
    exact ⟨rfl, fun entry hentry => haccount entry (Multiset.mem_cons_of_mem hentry)⟩
  length_le := by
    rintro name content hname
    obtain ⟨file, hfile, rfl⟩ : ∃ file ∈ shelf.files, file.2 = content := by
      obtain ⟨l₁, l₂, hsplit, -⟩ := List.lookup_eq_some_iff.1 hname
      exact ⟨(name, content), by simp [hsplit], rfl⟩
    exact hlength file hfile

end Shelf

end Patchbay
