import Patchbay.Settings
import Patchbay.Proofs.Text.Cuts
import Patchbay.Proofs.Text.Tokens
/-!
# The last option counts

Options are applied from the left, and one that is rejected keeps what is set. Read from the right
this is a search: the first word that chooses an output decides on it, and the first with a rate
that the platform accepts decides on the rate (`ofOptions_last`).
-/

namespace Patchbay.Settings

/-! ## Single words -/

/-- The value of a word for a key: what follows its first `=`, if the key stands before that. -/
def valueOf? (key word : String) : Option String :=
  match Text.cutFirst '=' word.toList with
  | some (before, value) => if String.ofList before = key then some (String.ofList value) else none
  | none => none

theorem valueOf?_eq_some {key word value : String} (hkey : '=' ∉ key.toList) :
    valueOf? key word = some value ↔ word = key ++ "=" ++ value := by
  constructor
  · intro h
    unfold valueOf? at h
    split at h
    · next before after hcut =>
      obtain ⟨hword, -⟩ := Text.cutFirst_eq_some.1 hcut
      simp only [Option.ite_none_right_eq_some, Option.some.injEq] at h
      obtain ⟨rfl, rfl⟩ := h
      rw [← String.toList_inj, hword]
      simp
    · cases h
  · rintro rfl
    have hcut : Text.cutFirst '=' (key ++ "=" ++ value).toList = some (key.toList, value.toList) :=
      Text.cutFirst_eq_some.2 ⟨by simp, hkey⟩
    rw [valueOf?, hcut]
    simp

/-- The output that a word chooses. -/
def outputOf? (word : String) : Option OutputKind :=
  (valueOf? "audio" word).map OutputKind.ofText

/-- The rate that a text gives, if the platform accepts it. -/
def accepted? (value : List Char) : Option Nat :=
  (Text.word32? value).filter fun rate =>
    Limits.minSampleRate ≤ rate ∧ rate ≤ Limits.maxSampleRate

/-- The rate that a word chooses, if the platform accepts it. -/
def rateOf? (word : String) : Option Nat :=
  (valueOf? "samplerate" word).bind fun value => accepted? value.toList

theorem rateOf?_eq_some {word : String} {rate : Nat} :
    rateOf? word = some rate ↔ ∃ value, word = "samplerate=" ++ value ∧
      Text.word32? value.toList = some rate ∧
      Limits.minSampleRate ≤ rate ∧ rate ≤ Limits.maxSampleRate := by
  have hvalue : ∀ value, valueOf? "samplerate" word = some value ↔ word = "samplerate=" ++ value :=
    fun value => valueOf?_eq_some (by decide)
  simp [rateOf?, accepted?, Option.bind_eq_some_iff, Option.filter_eq_some_iff, hvalue]

/-- A rate that is not accepted leaves the settings as they are. -/
theorem withRateText_toOption (s : Settings) (value : List Char) :
    (s.withRateText value).toOption =
      (accepted? value).map fun rate => { s with sampleRate := rate } := by
  unfold withRateText accepted? withRate
  cases Text.word32? value with
  | none => rfl
  | some rate =>
    by_cases h : Limits.minSampleRate ≤ rate ∧ rate ≤ Limits.maxSampleRate
    · simp [h, Except.toOption, Option.filter_some]
    · simp [h, Except.toOption, Option.filter_some]

theorem applyWord_value (s : Settings) (word : String) :
    (s.applyWord word).value =
      { output := (outputOf? word).getD s.output
        sampleRate := (rateOf? word).getD s.sampleRate } := by
  cases hcut : Text.cutFirst '=' word.toList with
  | none =>
    have hvalue : ∀ key, valueOf? key word = none := fun key => by rw [valueOf?, hcut]
    simp only [applyWord, hcut, outputOf?, rateOf?, hvalue]
    rfl
  | some parts =>
    obtain ⟨before, value⟩ := parts
    have hvalue : ∀ key, valueOf? key word =
        if String.ofList before = key then some (String.ofList value) else none :=
      fun key => by rw [valueOf?, hcut]
    simp only [applyWord, hcut, outputOf?, rateOf?, hvalue]
    split
    · next heq => simp [heq]
    · next heq =>
      have hrate := withRateText_toOption s value
      simp only [heq, if_true, Option.bind_some, String.toList_ofList]
      cases hset : s.withRateText value with
      | ok changed =>
        rw [hset] at hrate
        obtain ⟨rate, haccepted, rfl⟩ := Option.map_eq_some_iff.1 hrate.symm
        rw [haccepted]
        rfl
      | error e =>
        rw [hset] at hrate
        rw [Option.map_eq_none_iff.1 hrate.symm]
        rfl
    · next haudio hrate =>
      rw [if_neg haudio, if_neg hrate]
      rfl

/-! ## Lines -/

/-- From the right, the first word that chooses something decides. -/
theorem applyWords_value (s : Settings) (words : List String) :
    (s.applyWords words).value =
      { output := (words.reverse.findSome? outputOf?).getD s.output
        sampleRate := (words.reverse.findSome? rateOf?).getD s.sampleRate } := by
  induction words generalizing s with
  | nil => rfl
  | cons word rest ih =>
    rw [applyWords, Logged.value_bind, ih, applyWord_value]
    simp only [List.reverse_cons, List.findSome?_append, List.findSome?_singleton, Option.getD_or]

/-- A word that chooses something. -/
def chooses (word : String) : Bool := (outputOf? word).isSome || (rateOf? word).isSome

theorem applyWord_of_not_chooses {word : String} (h : ¬ chooses word) (s : Settings) :
    (s.applyWord word).value = s := by
  simp only [chooses, Bool.or_eq_true, not_or, Bool.not_eq_true, Option.isSome_eq_false_iff,
    Option.isNone_iff_eq_none] at h
  rw [applyWord_value, h.1, h.2]
  rfl

/-- The words that choose nothing may be left out. -/
theorem applyWords_filter_chooses (s : Settings) (words : List String) :
    (s.applyWords (words.filter chooses)).value = (s.applyWords words).value := by
  induction words generalizing s with
  | nil => rfl
  | cons word rest ih =>
    by_cases h : chooses word
    · rw [List.filter_cons_of_pos h, applyWords, Logged.value_bind, ih]
      rfl
    · rw [List.filter_cons_of_neg h, ih, applyWords, Logged.value_bind, applyWord_of_not_chooses h]

theorem ofOptions_value (line : String) :
    (ofOptions line).value = (applyWords {} (Text.tokens line)).value := by
  rw [← Text.words_eq_tokens]
  rfl

/-- The last word of a line that chooses an output decides on it, and the last one with a rate that
is accepted decides on the rate, which is always a rate that the platform accepts. All other words
may be left out, or stand anywhere else. -/
theorem ofOptions_last (line : String) :
    let s := (ofOptions line).value
    let words := Text.tokens line
    (Limits.minSampleRate ≤ s.sampleRate ∧ s.sampleRate ≤ Limits.maxSampleRate) ∧
    s.sampleRate = (words.reverse.findSome? rateOf?).getD Limits.defaultSampleRate ∧
    s.output = (words.reverse.findSome? outputOf?).getD .pwm ∧
    ∀ other, (Text.tokens other).filter chooses = words.filter chooses →
      (ofOptions other).value = s := by
  intro s words
  have hvalue := (ofOptions_value line).trans (applyWords_value {} words)
  have hrate : s.sampleRate = (words.reverse.findSome? rateOf?).getD Limits.defaultSampleRate :=
    congrArg sampleRate hvalue
  refine ⟨?_, hrate, congrArg output hvalue, ?_⟩
  · rw [hrate]
    cases hlast : words.reverse.findSome? rateOf? with
    | none => decide
    | some rate =>
      obtain ⟨word, -, hword⟩ := List.exists_of_findSome?_eq_some hlast
      obtain ⟨value, -, -, hlegal⟩ := rateOf?_eq_some.1 hword
      exact hlegal
  · intro other hsame
    rw [ofOptions_value, ← applyWords_filter_chooses, hsame, applyWords_filter_chooses]
    exact (ofOptions_value line).symm

/-- A rate that is no number, one that is out of range and a key without a value come after the
words that count. -/
theorem ofOptions_last_crowded :
    let line := "samplerate=96000 samplerate=+44100 audio=I2s=x samplerate=fast samplerate=9 audio"
    let other := "samplerate=96000\tsamplerate=+44100 audio=I2s=x"
    let s := (ofOptions line).value
    s.sampleRate = 44100 ∧ s.output = .i2s ∧
      (Text.tokens other).filter chooses = (Text.tokens line).filter chooses ∧
      (ofOptions other).value = s := by
  intro line other s
  have hline : Text.tokens line = ["samplerate=96000", "samplerate=+44100", "audio=I2s=x",
      "samplerate=fast", "samplerate=9", "audio"] := by
    decide +kernel
  have hother : Text.tokens other = ["samplerate=96000", "samplerate=+44100", "audio=I2s=x"] := by
    decide +kernel
  obtain ⟨-, hrate, houtput, hothers⟩ := ofOptions_last line
  have hsame : (Text.tokens other).filter chooses = (Text.tokens line).filter chooses := by
    rw [hline, hother]
    decide +kernel
  refine ⟨hrate.trans ?_, houtput.trans ?_, hsame, hothers other hsame⟩
  · rw [hline]
    decide +kernel
  · rw [hline]
    decide +kernel

end Patchbay.Settings
