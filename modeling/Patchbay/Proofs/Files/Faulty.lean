import Patchbay.Proofs.Files.Effect
import Patchbay.Proofs.Files.Shelf
/-!
# Storage with faults

Any storage can be made faulty by a plan that says which opens and which reads are to fail. A call
that fails by the plan does not reach the storage itself.

Storage is *traceless* when nothing but its plan can tell whether it was probed. Faults keep storage
traceless, and a shelf of files is so.
-/

namespace Patchbay

variable {σ η : Type}

/-- Storage, and which of the next opens and reads fail. After that none does. -/
structure Faulty (σ : Type) where
  storage : σ
  opens : List Bool := []
  reads : List Bool := []
deriving DecidableEq, Repr

namespace Faulty

instance [Storage σ η] : Storage (Faulty σ) η where
  openFile name f :=
    if f.opens.headD false then (none, { f with opens := f.opens.tail })
    else
      let r := Storage.openFile name f.storage
      (r.1, { f with storage := r.2, opens := f.opens.tail })
  read handle count f :=
    if f.reads.headD false then (none, handle, { f with reads := f.reads.tail })
    else
      let r := Storage.read handle count f.storage
      (r.1, r.2.1, { f with storage := r.2.2, reads := f.reads.tail })
  close handle f := { f with storage := Storage.close handle f.storage }

/-- The same storage with other faults to come. -/
def replan (opens reads : List Bool) (f : Faulty σ) : Faulty σ := { f with opens, reads }

end Faulty

namespace Storage

variable [Storage σ η] {Alike : Multiset (η × η) → σ → σ → Prop} {replan : σ → σ}
  {handles : Multiset (η × η)} {s t t' : σ}

/-- The rule of storage on which what failed, and a file that was open for a while, leave no trace but
in the faults that are to come. Storages that are alike behave alike towards the handles that are
open in both; `replan` puts new faults in the place of those to come. -/
structure Traceless (Alike : Multiset (η × η) → σ → σ → Prop) (replan : σ → σ) : Prop where
  coupling : Coupling fun files => Alike (files.map OpenFile.handle)
  replanned : ∀ {handles s t}, Alike handles s t → Alike handles (replan s) (replan t)
  missed : ∀ {handles s t t' name}, Alike handles (replan s) (replan t) →
    openFile name t = ((none : Option η), t') → Alike handles (replan s) (replan t')
  visited : ∀ {handles s t t₁ t₂ name} {handle handle' : η}, Alike handles (replan s) (replan t) →
    openFile name t = (some handle, t₁) →
    Relation.ReflTransGen ReadOnce (handle, t₁) (handle', t₂) →
    Alike handles (replan s) (replan (close handle' t₂))
  failed : ∀ {handles s t t' count} {other handle handle' : η},
    Alike ((other, handle) ::ₘ handles) (replan s) (replan t) →
    read handle count t = (none, handle', t') →
    Alike ((other, handle') ::ₘ handles) (replan s) (replan t')

theorem Traceless.probed (h : Traceless Alike replan) (halike : Alike handles s s)
    (hprobed : Probed s t) : Alike handles (replan s) (replan t) := by
  induction hprobed with
  | refl => exact h.replanned halike
  | tail _ hglance ih =>
    cases hglance with
    | missed hopen => exact h.missed ih hopen
    | visited hopen hread => exact h.visited ih hopen hread

end Storage

namespace Faulty

variable [Storage σ η] {f f' g : Faulty σ} {name : String} {handle handle' : η}

theorem openFile_of_fault (h : f.opens.headD false) :
    Storage.openFile name f = ((none : Option η), { f with opens := f.opens.tail }) :=
  if_pos h

theorem openFile_of_no_fault (h : ¬f.opens.headD false) :
    Storage.openFile name f =
      let r := Storage.openFile (η := η) name f.storage
      (r.1, { f with storage := r.2, opens := f.opens.tail }) :=
  if_neg h

theorem read_of_fault {count : Nat} (h : f.reads.headD false) :
    Storage.read handle count f = (none, handle, { f with reads := f.reads.tail }) :=
  if_pos h

theorem read_of_no_fault {count : Nat} (h : ¬f.reads.headD false) :
    Storage.read handle count f =
      let r := Storage.read handle count f.storage
      (r.1, r.2.1, { f with storage := r.2.2, reads := f.reads.tail }) :=
  if_neg h

/-- Reads of faulty storage are reads of the storage itself, less those that fail by the plan. -/
theorem reads_storage {a b : η × Faulty σ} (h : Relation.ReflTransGen Storage.ReadOnce a b) :
    Relation.ReflTransGen Storage.ReadOnce (a.1, a.2.storage) (b.1, b.2.storage) := by
  induction h with
  | refl => exact .refl
  | tail _ hread ih =>
    cases hread with
    | @read handle f count hcount =>
      by_cases hfault : f.reads.headD false
      · rw [read_of_fault hfault]
        exact ih
      · rw [read_of_no_fault hfault]
        exact ih.tail (.read handle f.storage hcount)

/-- Faulty storages are alike when they are alike and have the same faults to come. -/
structure AlikeBy (Alike : Multiset (η × η) → σ → σ → Prop) (handles : Multiset (η × η))
    (f g : Faulty σ) : Prop where
  storage : Alike handles f.storage g.storage
  opens : f.opens = g.opens
  reads : f.reads = g.reads

variable {Alike : Multiset (η × η) → σ → σ → Prop}

theorem coupling (h : Storage.Coupling fun files => Alike (files.map OpenFile.handle)) :
    Storage.Coupling fun files => AlikeBy Alike (files.map OpenFile.handle) where
  openFile := by
    rintro files f g name ⟨halike, hopens, hreads⟩
    by_cases hfault : f.opens.headD false
    · have hfault' := hfault
      rw [hopens] at hfault'
      exact .inl ⟨_, _, openFile_of_fault hfault, openFile_of_fault hfault', halike,
        congrArg List.tail hopens, hreads⟩
    · have hfault' := hfault
      rw [hopens] at hfault'
      rw [openFile_of_no_fault hfault, openFile_of_no_fault hfault']
      obtain ⟨s', t', hopen, hopen', halike'⟩ | ⟨handle, s', t', hopen, hopen', halike'⟩ :=
        h.openFile name halike
      · rw [hopen, hopen']
        exact .inl ⟨_, _, rfl, rfl, halike', congrArg List.tail hopens, hreads⟩
      · rw [hopen, hopen']
        exact .inr ⟨handle, _, _, rfl, rfl, fun size =>
          ⟨halike' size, congrArg List.tail hopens, hreads⟩⟩
  read := by
    rintro files f g count file ⟨halike, hopens, hreads⟩ hcount
    by_cases hfault : f.reads.headD false
    · have hfault' := hfault
      rw [hreads] at hfault'
      exact ⟨none, file.handle, _, _, read_of_fault hfault, read_of_fault hfault', halike, hopens,
        congrArg List.tail hreads⟩
    · have hfault' := hfault
      rw [hreads] at hfault'
      obtain ⟨data?, handle, s', t', hread, hread', halike'⟩ := h.read halike hcount
      rw [read_of_no_fault hfault, read_of_no_fault hfault', hread, hread']
      exact ⟨data?, handle, _, _, rfl, rfl, halike', hopens, congrArg List.tail hreads⟩
  close := by
    rintro files f g file ⟨halike, hopens, hreads⟩
    exact ⟨h.close halike, hopens, hreads⟩

theorem traceless (h : Storage.Traceless Alike id) (opens reads : List Bool) :
    Storage.Traceless (AlikeBy Alike) (replan opens reads) where
  coupling := coupling h.coupling
  replanned := by
    rintro handles f g halike
    exact ⟨halike.storage, rfl, rfl⟩
  missed := by
    rintro handles f g g' name halike hopen
    refine ⟨?_, rfl, rfl⟩
    by_cases hfault : g.opens.headD false
    · rw [openFile_of_fault hfault] at hopen
      obtain ⟨-, rfl⟩ := hopen
      exact halike.storage
    · rw [openFile_of_no_fault hfault] at hopen
      obtain ⟨hnone, rfl⟩ := Prod.mk.inj hopen
      exact h.missed halike.storage (Prod.ext hnone rfl)
  visited := by
    rintro handles f g g₁ g₂ name handle handle' halike hopen hread
    refine ⟨?_, rfl, rfl⟩
    by_cases hfault : g.opens.headD false
    · rw [openFile_of_fault hfault] at hopen
      cases hopen
    · rw [openFile_of_no_fault hfault] at hopen
      obtain ⟨hsome, rfl⟩ := Prod.mk.inj hopen
      exact h.visited halike.storage (Prod.ext hsome rfl) (reads_storage hread)
  failed := by
    rintro handles f g g' count other handle handle' halike hread
    refine ⟨?_, rfl, rfl⟩
    by_cases hfault : g.reads.headD false
    · rw [read_of_fault hfault] at hread
      obtain ⟨-, rfl, rfl⟩ := hread
      exact halike.storage
    · rw [read_of_no_fault hfault] at hread
      obtain ⟨hnone, hsame⟩ := Prod.mk.inj hread
      obtain ⟨rfl, rfl⟩ := Prod.mk.inj hsame
      exact h.failed halike.storage (Prod.ext hnone rfl)

end Faulty

namespace Shelf

/-- Two views of one shelf, in which the same handles are open. -/
def Alike (handles : Multiset (List UInt8 × List UInt8)) (s t : Shelf) : Prop :=
  s = t ∧ ∀ handle ∈ handles, handle.1 = handle.2

theorem traceless : Storage.Traceless Alike id where
  coupling := by
    refine ⟨?_, ?_, ?_⟩
    · rintro files s _ name ⟨rfl, hsame⟩
      cases hlookup : s.files.lookup name with
      | none => exact .inl ⟨s, s, Prod.ext hlookup rfl, Prod.ext hlookup rfl, rfl, hsame⟩
      | some content =>
        refine .inr ⟨(content, content), s, s, Prod.ext hlookup rfl, Prod.ext hlookup rfl,
          fun size => ⟨rfl, ?_⟩⟩
        rw [Multiset.map_cons]
        exact Multiset.forall_mem_cons.2 ⟨rfl, hsame⟩
    · rintro files s _ count file ⟨rfl, hsame⟩ -
      rw [Multiset.map_cons] at hsame
      obtain ⟨hfile, hothers⟩ := Multiset.forall_mem_cons.1 hsame
      rw [← hfile]
      refine ⟨_, (_, _), s, s, rfl, rfl, rfl, ?_⟩
      rw [Multiset.map_cons]
      exact Multiset.forall_mem_cons.2 ⟨rfl, hothers⟩
    · rintro files s _ file ⟨rfl, hsame⟩
      rw [Multiset.map_cons] at hsame
      exact ⟨rfl, (Multiset.forall_mem_cons.1 hsame).2⟩
  replanned := fun halike => halike
  missed := by
    rintro handles s t t' name halike hopen
    obtain ⟨-, rfl⟩ := Prod.mk.inj hopen
    exact halike
  visited := by
    rintro handles s t t₁ t₂ name handle handle' halike hopen hread
    obtain ⟨-, rfl⟩ := Prod.mk.inj hopen
    have hstays : ∀ {a b : List UInt8 × Shelf}, Relation.ReflTransGen Storage.ReadOnce a b →
        b.2 = a.2 := by
      intro a b hread
      induction hread with
      | refl => rfl
      | tail _ hread ih =>
        cases hread with
        | read => exact ih
    obtain rfl : t₂ = t := hstays hread
    exact halike
  failed := by
    rintro handles s t t' count other handle handle' - hread
    cases hread

end Shelf

end Patchbay
