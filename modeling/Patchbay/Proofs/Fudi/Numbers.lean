import Patchbay.Proofs.Fudi.RoundTrip
import Patchbay.Proofs.Single.ReadBack
/-!
# Numbers in lines

The text of any number is a token that a line can hold, and it is heard as the same number, so every
number can be sent (`Single.sendable`).
-/

namespace Patchbay

theorem Text.not_isBlank_of_isDigit {c : Char} (h : c.isDigit = true) : isBlank c = false := by
  rw [← Bool.not_eq_true]
  intro hblank
  simp only [isBlank, Bool.or_eq_true, beq_iff_eq] at hblank
  rcases hblank with (((rfl | rfl) | rfl) | rfl) | rfl <;> exact absurd h (by decide)

/-- Neither blanks nor the mark are among the characters of finite numbers. -/
theorem Fudi.token_of_chars {s : String} (hne : s ≠ "")
    (hs : ∀ c ∈ s.toList, c.isDigit = true ∨ c = '-' ∨ c = '.') : Fudi.Token s := by
  refine ⟨⟨hne, ?_⟩, ?_⟩
  · intro c hc
    rcases hs c hc with hdigit | rfl | rfl
    · exact Text.not_isBlank_of_isDigit hdigit
    · rfl
    · rfl
  · intro hmark
    have := hs ';' hmark
    revert this
    decide

namespace Single

theorem token_text (x : Single) : Fudi.Token x.text := by
  rcases x.kinds with hnan | hinfinite | hfinite
  · rw [text_of_isNaN hnan]
    decide
  · rw [text_of_isInfinite hinfinite]
    cases x.negative <;> decide
  · refine Fudi.token_of_chars ?_ (mem_text_of_finite hfinite)
    intro hempty
    have hread := ofText?_text_of_finite hfinite
    rw [hempty] at hread
    cases hread

/-- Every number can be sent. -/
theorem sendable (x : Single) : x.Sendable := by
  refine ⟨x.token_text, ?_⟩
  rcases x.kinds with hnan | hinfinite | hfinite
  · exact ⟨nan, ofText?_text_of_isNaN hnan, .inr ⟨hnan, rfl⟩⟩
  · exact ⟨x, ofText?_text_of_isInfinite hinfinite, .inl rfl⟩
  · exact ⟨x, ofText?_text_of_finite hfinite, .inl rfl⟩

end Single

/-- A number is written as one word, which goes into a line as it is and comes out of it as it went
in. The word of a finite number has only digits, points and minus signs, and it is read as the same
number bit by bit. So are those of the infinities. A NaN is read as some NaN. -/
theorem Atom.ofWord_text_float (x : Single) :
    let word := (Atom.float x).text
    (∀ receiver, Message.payload (.float receiver x) = word) ∧
      Text.words word = [word] ∧ ';' ∉ word.toList ∧
      ((x.Finite ∧ Atom.ofWord word = .float x ∧
          ∀ c ∈ word.toList, c.isDigit = true ∨ c = '-' ∨ c = '.') ∨
        (x.isInfinite = true ∧ Atom.ofWord word = .float x ∧
          word = if x.negative then "-inf" else "inf") ∨
        (x.isNaN = true ∧ ∃ y, Atom.ofWord word = .float y ∧ y.isNaN = true)) := by
  have htoken := x.token_text
  have hwords : Text.words x.text = [x.text] := by
    rw [Text.words_eq_tokens, Text.tokens_word htoken.toIsWord]
  refine ⟨fun _ => rfl, hwords, htoken.not_mark, ?_⟩
  rcases x.kinds with hnan | hinfinite | hfinite
  · have hread := Single.ofText?_text_of_isNaN hnan
    exact .inr (.inr ⟨hnan, Single.nan, by rw [text, ofWord, hread], rfl⟩)
  · have hread := Single.ofText?_text_of_isInfinite hinfinite
    exact .inr (.inl ⟨hinfinite, by rw [text, ofWord, hread], Single.text_of_isInfinite hinfinite⟩)
  · have hread := Single.ofText?_text_of_finite hfinite
    exact .inl ⟨hfinite, by rw [text, ofWord, hread], Single.mem_text_of_finite hfinite⟩

example : (Atom.float ⟨0x7f7fffff⟩).text = "340282350000000000000000000000000000000" := by
  decide +kernel

example : (Atom.float ⟨0x80000001⟩).text =
    "-0.000000000000000000000000000000000000000000001" := by
  decide +kernel

end Patchbay
