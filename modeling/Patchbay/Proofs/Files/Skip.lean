import Patchbay.Files.Storage
/-!
# Skipping

Skipping reads on until it has passed enough bytes, or until a read gives nothing. It does not tell
the end of a file from a failure, so the two are one case here, and what is proved of skipping is
proved by going through its reads.
-/

namespace Patchbay.Storage

variable {σ η : Type} [Storage σ η]

theorem skipBytes_pos : 0 < skipBytes := by
  decide

theorem skipFrom_of_le {passed count : Nat} (hle : count ≤ passed) (handle : η) (s : σ) :
    skipFrom passed count handle s = (passed, handle, s) := by
  rw [skipFrom, if_neg (Nat.not_lt_of_le hle)]

theorem skipFrom_of_read {passed count : Nat} (hlt : passed < count) {handle handle' : η} {s s' : σ}
    {data? : Option (List UInt8)}
    (hread : Storage.read handle (min (count - passed) skipBytes) s = (data?, handle', s')) :
    skipFrom passed count handle s =
      if data?.getD [] = [] then (passed, handle', s')
      else skipFrom (passed + (data?.getD []).length) count handle' s' := by
  rw [skipFrom, if_pos hlt, hread]
  rcases data? with _ | _ | ⟨byte, rest⟩
  · rfl
  · rfl
  · rfl

/-- Induction along the reads of a skip. -/
@[elab_as_elim]
theorem skipFrom_induct (count : Nat) {motive : Nat → η → σ → Prop}
    (done : ∀ passed handle s, count ≤ passed → motive passed handle s)
    (next : ∀ passed handle s data? handle' s', passed < count →
      0 < min (count - passed) skipBytes →
      Storage.read handle (min (count - passed) skipBytes) s = (data?, handle', s') →
      (data?.getD [] ≠ [] → motive (passed + (data?.getD []).length) handle' s') →
      motive passed handle s)
    (passed : Nat) (handle : η) (s : σ) : motive passed handle s := by
  induction hleft : count - passed using Nat.strongRecOn generalizing passed handle s with
  | ind rest ih =>
    rcases Nat.lt_or_ge passed count with hlt | hle
    · have hwant : 0 < min (count - passed) skipBytes :=
        Nat.lt_min.2 ⟨Nat.sub_pos_of_lt hlt, skipBytes_pos⟩
      apply next passed handle s _ _ _ hlt hwant rfl
      intro hmore
      -- Bytes were passed, so fewer are left.
      have hgiven := List.length_pos_iff.2 hmore
      apply ih _ _ _ _ _ rfl
      omega
    · exact done passed handle s hle

end Patchbay.Storage
