import Mathlib.Data.List.Basic
/-!
# UTF-8 and ASCII bytes

In the UTF-8 of a text an ASCII byte only ever stands for its own character, so a text without a
character has no such byte either.
-/

namespace Patchbay.Text

/-- The bytes of a text. -/
def bytes (s : String) : List UInt8 :=
  s.toUTF8.data.toList

theorem le_toNat_ofNat {n : Nat} (hlow : 128 ≤ n) (hhigh : n < 256) :
    128 ≤ (UInt8.ofNat n).toNat := by
  rw [UInt8.toNat_ofNat', Nat.mod_eq_of_lt hhigh]
  exact hlow

/-- Every byte of an encoding that is longer than one byte is at least 128. -/
theorem toNat_of_mem_utf8EncodeChar {c : Char} {b : UInt8} (h : b ∈ String.utf8EncodeChar c) :
    b.toNat = c.toNat ∨ 128 ≤ b.toNat := by
  revert h
  fun_cases String.utf8EncodeChar c with
  | case1 v hv =>
    intro h
    rw [List.mem_singleton.1 h, UInt8.toNat_ofNat', Nat.mod_eq_of_lt (by omega)]
    exact .inl rfl
  | case2 v =>
    intro h
    simp only [List.mem_cons, List.not_mem_nil, or_false] at h
    rcases h with rfl | rfl <;> exact .inr (le_toNat_ofNat (by omega) (by omega))
  | case3 v =>
    intro h
    simp only [List.mem_cons, List.not_mem_nil, or_false] at h
    rcases h with rfl | rfl | rfl <;> exact .inr (le_toNat_ofNat (by omega) (by omega))
  | case4 v =>
    intro h
    simp only [List.mem_cons, List.not_mem_nil, or_false] at h
    rcases h with rfl | rfl | rfl | rfl <;> exact .inr (le_toNat_ofNat (by omega) (by omega))

theorem bytes_eq_flatMap (s : String) : bytes s = s.toList.flatMap String.utf8EncodeChar := by
  rw [bytes, String.toUTF8_eq_toByteArray]
  conv_lhs => rw [← String.ofList_toList (s := s)]
  rw [String.toByteArray_ofList]
  exact List.toList_data_toByteArray

theorem bytes_append (s t : String) : bytes (s ++ t) = bytes s ++ bytes t := by
  simp [bytes_eq_flatMap]

theorem length_bytes (s : String) : (bytes s).length = s.utf8ByteSize := rfl

theorem fromUTF8?_bytes (s : String) : String.fromUTF8? ⟨(bytes s).toArray⟩ = some s := by
  unfold String.fromUTF8?
  exact dif_pos s.isValidUTF8

theorem not_mem_bytes {s : String} {c : Char} {b : UInt8} (hb : b.toNat = c.toNat)
    (hascii : c.toNat < 128) (hc : c ∉ s.toList) : b ∉ bytes s := by
  rw [bytes_eq_flatMap]
  intro h
  obtain ⟨d, hd, hmem⟩ := List.mem_flatMap.1 h
  have heq : c = d := by
    rcases toNat_of_mem_utf8EncodeChar hmem with hsame | hlarge
    · exact Char.toNat_inj.1 (hb.symm.trans hsame)
    · omega
  exact hc (heq ▸ hd)

end Patchbay.Text
