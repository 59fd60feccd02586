import Patchbay.Text.Words
/-!
# Words as pieces between blanks

The words of a text are its pieces between blanks, without the empty ones (`tokens`). Words joined
by single spaces come apart as the same words.
-/

namespace Patchbay.Text

theorem blocks_eq_splitOnP (cs : List Char) :
    blocks cs = (cs.splitOnP isBlank).filter (!·.isEmpty) := by
  fun_induction blocks cs with
  | case1 => simp
  | case2 c rest hblank ih => simp [List.splitOnP_cons_eq_if_modifyHead, hblank, ih]
  | case3 c rest hblank ih =>
    -- The word that starts here, and what follows it.
    have hword : ∀ x ∈ c :: rest.takeWhile (!isBlank ·), isBlank x = false := by
      intro x hx
      rcases List.mem_cons.1 hx with rfl | hx
      · simpa using hblank
      · simpa using List.all_eq_true.1 List.all_takeWhile x hx
    have hcut : c :: rest = (c :: rest.takeWhile (!isBlank ·)) ++ rest.dropWhile (!isBlank ·) := by
      rw [List.cons_append, List.takeWhile_append_dropWhile]
    rw [ih, hcut]
    cases htail : rest.dropWhile (!isBlank ·) with
    | nil => simp [List.splitOnP_eq_singleton hword]
    | cons mark tail =>
      have hmark : isBlank mark = true := by
        have hhead : rest.dropWhile (!isBlank ·) ≠ [] := by simp [htail]
        simpa [htail] using List.head_dropWhile_not _ hhead
      rw [List.splitOnP_append_cons_of_forall_mem hword mark hmark]
      simp [List.splitOnP_cons_eq_if_modifyHead, hmark]

/-- The pieces of a text between ASCII blanks that are not empty. -/
def tokens (text : String) : List String :=
  ((text.toList.splitOnP isBlank).filter (!·.isEmpty)).map String.ofList

theorem words_eq_tokens (text : String) : words text = tokens text := by
  rw [words, blocks_eq_splitOnP]
  rfl

/-! ## Joined words -/

/-- A text that is a single word. -/
structure IsWord (s : String) : Prop where
  ne_empty : s ≠ ""
  not_blank : ∀ c ∈ s.toList, isBlank c = false

theorem tokens_word {w : String} (hw : IsWord w) : tokens w = [w] := by
  rw [tokens, List.splitOnP_eq_singleton hw.not_blank]
  simp [hw.ne_empty]

theorem tokens_word_append {w : String} (hw : IsWord w) (rest : String) :
    tokens (w ++ " " ++ rest) = w :: tokens rest := by
  have htext : (w ++ " " ++ rest).toList = w.toList ++ ' ' :: rest.toList := by simp
  rw [tokens, htext, List.splitOnP_append_cons_of_forall_mem hw.not_blank ' ' rfl]
  simp [hw.ne_empty, tokens]

theorem tokens_intercalate {ws : List String} (hws : ∀ w ∈ ws, IsWord w) :
    tokens (" ".intercalate ws) = ws := by
  induction ws with
  | nil => rfl
  | cons w ws ih =>
    have hw := hws w List.mem_cons_self
    have hrest := ih fun x hx => hws x (List.mem_cons_of_mem _ hx)
    cases ws with
    | nil => rw [String.intercalate_singleton, tokens_word hw]
    | cons x ws => rw [String.intercalate_cons_cons, tokens_word_append hw, hrest]

end Patchbay.Text
