import Mathlib.Data.Multiset.AddSub
import Patchbay.Proofs.Files.Skip
/-!
# Steady storage

Storage is *steady* when its files do not change and no open or read of it fails; its reads may
still give any part of what they are asked for. A driver keeps the progress of a handle where it
likes, in the handle or in its own state, so the rule is stated against an account `Owes`: the
handles that are out, each with the bytes that it has still to give. Whoever holds a handle owns one
entry of the account, and what is done with it leaves all other entries alone.

`Steady.skip` is what the file table needs besides the rule itself: skipping passes over as many
bytes as are left, up to the number asked for, however short the single reads are.
-/

namespace Patchbay.Storage

variable {σ η : Type} [Storage σ η]

/-- The rule of steady storage over fixed files. -/
structure Steady (files : String → Option (List UInt8))
    (Owes : σ → Multiset (η × List UInt8) → Prop) : Prop where
  /-- Opening a file that exists adds a handle that owes all of it. -/
  opened : ∀ {storage account name content}, Owes storage account → files name = some content →
    ∃ handle storage', Storage.openFile name storage = (some handle, storage') ∧
      Owes storage' ((handle, content) ::ₘ account)
  /-- A file that does not exist is not opened. -/
  missing : ∀ {storage account name}, Owes storage account → files name = none →
    ∃ storage', Storage.openFile name storage = (none, storage') ∧ Owes storage' account
  /-- A read gives the next bytes owed, and none only when none are owed. -/
  read : ∀ {storage account handle owed count}, Owes storage ((handle, owed) ::ₘ account) →
    0 < count → ∃ data rest handle' storage',
      Storage.read handle count storage = (some data, handle', storage') ∧
      owed = data ++ rest ∧ data.length ≤ count ∧ (data = [] → rest = []) ∧
      Owes storage' ((handle', rest) ::ₘ account)
  /-- Closing takes a handle off the account. -/
  closed : ∀ {storage account handle owed}, Owes storage ((handle, owed) ::ₘ account) →
    Owes (Storage.close handle storage) account
  /-- Positions are signed 64-bit integers, so a file has fewer than `2 ^ 63` bytes. -/
  length_le : ∀ {name content}, files name = some content →
    (content.length : Int) ≤ Int64.maxValue.toInt

namespace Steady

variable {files : String → Option (List UInt8)} {Owes : σ → Multiset (η × List UInt8) → Prop}
  {account : Multiset (η × List UInt8)}

/-- Skipping on from `passed` bytes stops at `count`, or where the handle owes nothing more. -/
theorem skipFrom (steady : Steady files Owes) (passed count : Nat) (handle : η) (storage : σ)
    {owed : List UInt8} (howes : Owes storage ((handle, owed) ::ₘ account)) :
    ∃ data rest handle' storage',
      Storage.skipFrom passed count handle storage = (passed + data.length, handle', storage') ∧
      owed = data ++ rest ∧ data.length = min (count - passed) owed.length ∧
      Owes storage' ((handle', rest) ::ₘ account) := by
  fun_induction Storage.skipFrom passed count handle storage generalizing owed with
  | case1 passed handle storage hlt byte more handle₁ storage₁ hread ih =>
    obtain ⟨data, rest, handle₂, storage₂, hread₂, rfl, hcount, -, howes₂⟩ :=
      steady.read howes (Nat.lt_min.2 ⟨Nat.sub_pos_of_lt hlt, skipBytes_pos⟩)
    rw [hread] at hread₂
    simp only [Prod.mk.injEq, Option.some.injEq] at hread₂
    obtain ⟨rfl, rfl, rfl⟩ := hread₂
    obtain ⟨data, rest, handle', storage', hskip, rfl, hlen, howes'⟩ := ih howes₂
    refine ⟨byte :: more ++ data, rest, handle', storage', ?_, by simp, ?_, howes'⟩
    · rw [hskip]
      simp only [List.length_append, List.length_cons, Prod.mk.injEq, and_true]
      omega
    · simp only [List.length_append, List.length_cons] at hlen hcount ⊢
      omega
  | case2 passed handle storage hlt answer handle₁ storage₁ hstop hread =>
    obtain ⟨data, rest, handle₂, storage₂, hread₂, rfl, hcount, hend, howes₂⟩ :=
      steady.read howes (Nat.lt_min.2 ⟨Nat.sub_pos_of_lt hlt, skipBytes_pos⟩)
    rw [hread] at hread₂
    simp only [Prod.mk.injEq] at hread₂
    obtain ⟨rfl, rfl, rfl⟩ := hread₂
    cases data with
    | nil =>
      obtain rfl := hend rfl
      exact ⟨[], [], _, _, rfl, rfl, by simp, howes₂⟩
    | cons byte more => exact absurd rfl (hstop byte more)
  | case3 passed handle storage hge =>
    exact ⟨[], owed, handle, storage, rfl, rfl, by simp; omega, howes⟩

/-- Skipping passes over `count` bytes, or over all that the handle owes. -/
theorem skip (steady : Steady files Owes) (count : Nat) (handle : η) (storage : σ)
    {owed : List UInt8} (howes : Owes storage ((handle, owed) ::ₘ account)) :
    ∃ data rest handle' storage',
      Storage.skip count handle storage = (data.length, handle', storage') ∧
      owed = data ++ rest ∧ data.length = min count owed.length ∧
      Owes storage' ((handle', rest) ::ₘ account) := by
  simpa [Storage.skip] using steady.skipFrom 0 count handle storage howes

end Steady

end Patchbay.Storage
