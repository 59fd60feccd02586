import Mathlib.Data.List.TakeWhile
import Patchbay.Proofs.Single.Midpoint
/-!
# Numbers read back

The decimal that a number is written as reads back, as every decimal does that the search may end
with. It is laid out as digits with one point at most (`layout_cases`), which read as the same value.
So the text of a number is read as this number (`ofText?_text`).
-/

namespace Patchbay.Single

/-! ## The search -/

section Search

variable {magnitude : Nat} {d : Decimal}

/-- The exact value. -/
theorem readsBack_exact (hpos : 0 < magnitude) :
    readsBack magnitude ⟨unitsOf magnitude * Nat.pow 5 149, -149⟩ = true := by
  have hexact : Decimal.twiceUnits ⟨unitsOf magnitude * Nat.pow 5 149, -149⟩ =
      (2 * (unitsOf magnitude * 10 ^ 149), 10 ^ 149) := by
    have hwhole : powTen (-149 : Int).toNat = 1 := by decide
    have hplaces : powTen (-(-149 : Int)).toNat = 10 ^ 149 := by decide
    have hten : Nat.pow 5 149 * 2 ^ 149 = 10 ^ 149 := by decide
    rw [Decimal.twiceUnits, hwhole, hplaces, unitsPerOne_eq, Nat.mul_one, Nat.mul_assoc, hten]
  have hbelow : unitsOf (magnitude - 1) < unitsOf magnitude :=
    unitsOf_strictMono (Nat.sub_lt hpos Nat.one_pos)
  have habove : unitsOf magnitude < unitsOf (magnitude + 1) :=
    unitsOf_strictMono (Nat.lt_succ_self magnitude)
  rw [readsBack_iff, hexact]
  simp only
  omega

theorem readsBack_onGrid {exponent : Int} (h : onGrid? magnitude exponent = some d) :
    readsBack magnitude d = true := by
  simp only [onGrid?] at h
  split at h
  · next hlower hupper =>
    rw [← Option.some.inj h]
    split
    · exact hlower
    · exact hupper
  · next hlower _ =>
    rw [← Option.some.inj h]
    exact hlower
  · next _ hupper =>
    rw [← Option.some.inj h]
    exact hupper
  · cases h

theorem readsBack_firstOnGrid (hpos : 0 < magnitude) (steps : Nat) :
    readsBack magnitude (firstOnGrid magnitude steps) = true := by
  induction steps with
  | zero => exact readsBack_exact hpos
  | succ steps ih =>
    rw [firstOnGrid]
    split
    · exact readsBack_onGrid ‹_›
    · exact ih

end Search

/-! ## Numerals -/

section Numerals

variable {whole places : List Char}

theorem toLower_of_isDigit {c : Char} (h : c.isDigit = true) : c.toLower = c := by
  obtain ⟨hlow, hhigh⟩ := Char.isDigit_iff_toNat.1 h
  have hnine : '9'.toNat = 57 := rfl
  refine dif_neg ?_
  rintro ⟨hupper, -⟩
  have hletter : 65 ≤ c.toNat := hupper
  omega

/-- Digits alone. -/
theorem numeral?_whole (hne : whole ≠ []) (hwhole : ∀ c ∈ whole, c.isDigit = true) :
    numeral? whole = some ⟨Text.digitsValue whole, 0⟩ := by
  have htake : whole.takeWhile Char.isDigit = whole := List.takeWhile_eq_self_iff.2 hwhole
  have hdrop : whole.dropWhile Char.isDigit = [] := List.dropWhile_eq_nil_iff.2 hwhole
  have hsome : whole.isEmpty = false := List.isEmpty_eq_false_iff.2 hne
  simp only [numeral?, htake, hdrop, hsome, exponent?, Bool.false_and, Bool.false_eq_true, if_false,
    Option.map_some, List.append_nil, List.length_nil]
  rfl

/-- Digits on both sides of a point. -/
theorem numeral?_point (hne : whole ≠ []) (hwhole : ∀ c ∈ whole, c.isDigit = true)
    (hplaces : ∀ c ∈ places, c.isDigit = true) :
    numeral? (whole ++ '.' :: places) =
      some ⟨Text.digitsValue (whole ++ places), -places.length⟩ := by
  have htake : (whole ++ '.' :: places).takeWhile Char.isDigit = whole := by
    rw [List.takeWhile_append_of_pos hwhole]
    simp
  have hdrop : (whole ++ '.' :: places).dropWhile Char.isDigit = '.' :: places := by
    rw [List.dropWhile_append_of_pos hwhole]
    simp
  have htake' : places.takeWhile Char.isDigit = places := List.takeWhile_eq_self_iff.2 hplaces
  have hdrop' : places.dropWhile Char.isDigit = [] := List.dropWhile_eq_nil_iff.2 hplaces
  have hsome : whole.isEmpty = false := List.isEmpty_eq_false_iff.2 hne
  simp only [numeral?, htake, hdrop, htake', hdrop', hsome, exponent?, Bool.false_and,
    Bool.false_eq_true, if_false, Option.map_some]
  rw [Int.zero_sub]

/-- What begins with a digit, and has a minus before it or none, is read as a numeral. -/
theorem ofText?_of_isDigit (negative : Bool) {c : Char} {rest : List Char}
    (h : c.isDigit = true) :
    ofText? (String.ofList (if negative then '-' :: c :: rest else c :: rest)) =
      (numeral? (c :: rest)).map fun d => ofDecimal negative d.digits d.exponent := by
  have hother : ∀ mark : Char, mark.isDigit = false → c ≠ mark := by
    rintro mark hmark rfl
    rw [h] at hmark
    cases hmark
  have hsign : takeSign (if negative then '-' :: c :: rest else c :: rest) =
      (negative, c :: rest) := by
    cases negative with
    | true => rfl
    | false =>
      rw [if_neg Bool.false_ne_true, takeSign]
      · rintro tail ⟨⟩
        exact hother '-' rfl rfl
      · rintro tail ⟨⟩
        exact hother '+' rfl rfl
  have hword : ∀ {mark : Char} {tail : List Char}, mark.isDigit = false →
      String.ofList (Text.asciiLower (c :: rest)) ≠ String.ofList (mark :: tail) := by
    intro mark tail hmark heq
    have hhead := List.head_eq_of_cons_eq (String.ofList_injective heq)
    rw [toLower_of_isDigit h] at hhead
    exact hother mark hmark hhead
  have hinf : String.ofList (Text.asciiLower (c :: rest)) ≠ "inf" := hword rfl
  have hinfinity : String.ofList (Text.asciiLower (c :: rest)) ≠ "infinity" := hword rfl
  have hnan : String.ofList (Text.asciiLower (c :: rest)) ≠ "nan" := hword rfl
  simp only [ofText?, String.toList_ofList, hsign, decide_eq_false hinf, decide_eq_false hinfinity,
    if_neg hnan, Bool.or_self, Bool.false_eq_true, if_false]

end Numerals

/-! ## The layout -/

theorem isDigit_of_mem_digitChars {n : Nat} : ∀ c ∈ digitChars n, c.isDigit = true :=
  fun _ hc => Nat.isDigit_of_mem_toDigits (by decide) (by decide) hc

theorem isDigit_of_mem_zeros {n : Nat} : ∀ c ∈ List.replicate n '0', c.isDigit = true := by
  intro c hc
  rw [List.eq_of_mem_replicate hc]
  rfl

theorem digitsValue_zeros_append (zeros n : Nat) :
    Text.digitsValue (List.replicate zeros '0' ++ digitChars n) = n := by
  have hvalue := Nat.ofDigitChars_append (b := 10) (l := List.replicate zeros '0')
    (m := digitChars n) 0
  rw [Nat.ofDigitChars_replicate_zero, Nat.mul_zero, digitChars, Nat.ofDigitChars_ten_toDigits,
    Nat.ofDigitChars_eq_foldl] at hvalue
  exact hvalue

theorem digitsValue_append_zeros (zeros n : Nat) :
    Text.digitsValue (digitChars n ++ List.replicate zeros '0') = n * powTen zeros := by
  have hvalue := Nat.ofDigitChars_append (b := 10) (l := digitChars n)
    (m := List.replicate zeros '0') 0
  rw [Nat.ofDigitChars_replicate_zero, digitChars, Nat.ofDigitChars_ten_toDigits,
    Nat.ofDigitChars_eq_foldl, Nat.mul_comm] at hvalue
  exact hvalue

/-- A decimal as it is laid out: zeros up to the point are digits of it. -/
def Decimal.positional (d : Decimal) : Decimal :=
  ⟨d.digits * powTen d.exponent.toNat, min d.exponent 0⟩

theorem Decimal.twiceUnits_positional (d : Decimal) : d.positional.twiceUnits = d.twiceUnits := by
  have hwhole : powTen (min d.exponent 0).toNat = 1 := by
    rw [Int.toNat_of_nonpos (Int.min_le_right _ _)]
    rfl
  have hplaces : (-min d.exponent 0).toNat = (-d.exponent).toNat := by omega
  simp only [twiceUnits, positional, hwhole, hplaces, Nat.mul_one]

/-- A layout is a digit or more, and then a point with digits after it or nothing. -/
theorem Decimal.layout_cases (d : Decimal) :
    ∃ whole places, whole ≠ [] ∧ (∀ c ∈ whole ++ places, c.isDigit = true) ∧
      Text.digitsValue (whole ++ places) = d.positional.digits ∧
      -(places.length : Int) = d.positional.exponent ∧
      (d.layout = whole ∧ places = [] ∨ d.layout = whole ++ '.' :: places) := by
  have hdigits := isDigit_of_mem_digitChars (n := d.digits)
  by_cases hwhole : 0 ≤ d.exponent
  · refine ⟨digitChars d.digits ++ List.replicate d.exponent.toNat '0', [], ?_, ?_, ?_, ?_, ?_⟩
    · exact List.append_ne_nil_of_left_ne_nil Nat.toDigits_ne_nil _
    · rw [List.append_nil]
      exact List.forall_mem_append.2 ⟨hdigits, isDigit_of_mem_zeros⟩
    · rw [List.append_nil, digitsValue_append_zeros]
      rfl
    · simp only [positional, List.length_nil]
      omega
    · exact .inl ⟨by rw [layout, if_pos hwhole], rfl⟩
  · have hone : powTen d.exponent.toNat = 1 := by
      rw [Int.toNat_of_nonpos (by omega)]
      rfl
    by_cases hshort : (digitChars d.digits).length ≤ (-d.exponent).toNat
    · refine ⟨['0'], List.replicate ((-d.exponent).toNat - (digitChars d.digits).length) '0' ++
        digitChars d.digits, List.cons_ne_nil _ _, ?_, ?_, ?_, ?_⟩
      · refine List.forall_mem_append.2 ⟨List.forall_mem_singleton.2 rfl, ?_⟩
        exact List.forall_mem_append.2 ⟨isDigit_of_mem_zeros, hdigits⟩
      · rw [← List.append_assoc, List.singleton_append, ← List.replicate_succ,
          digitsValue_zeros_append, positional, hone, Nat.mul_one]
      · simp only [positional, List.length_append, List.length_replicate]
        omega
      · right
        simp only [layout, if_neg hwhole, if_pos hshort, List.singleton_append]
    · refine ⟨(digitChars d.digits).take ((digitChars d.digits).length - (-d.exponent).toNat),
        (digitChars d.digits).drop ((digitChars d.digits).length - (-d.exponent).toNat),
        ?_, ?_, ?_, ?_, ?_⟩
      · rw [← List.length_pos_iff, List.length_take]
        omega
      · rw [List.take_append_drop]
        exact hdigits
      · have hvalue := digitsValue_zeros_append 0 d.digits
        rw [List.take_append_drop, positional, hone, Nat.mul_one]
        exact hvalue
      · simp only [positional, List.length_drop]
        omega
      · right
        simp only [layout, if_neg hwhole, if_neg hshort]

theorem numeral?_layout (d : Decimal) : numeral? d.layout = some d.positional := by
  obtain ⟨whole, places, hne, hdigits, hvalue, hexponent, hlayout⟩ := d.layout_cases
  obtain ⟨hwhole, hplaces⟩ := List.forall_mem_append.1 hdigits
  rcases hlayout with ⟨hlayout, rfl⟩ | hlayout
  · have hzero : d.positional.exponent = 0 := hexponent.symm
    rw [List.append_nil] at hvalue
    rw [hlayout, numeral?_whole hne hwhole, hvalue, ← hzero]
  · rw [hlayout, numeral?_point hne hwhole hplaces, hvalue, hexponent]

/-! ## Any number -/

theorem ofMagnitude_self (x : Single) : ofMagnitude x.negative x.magnitude = x := by
  have hbits : x.bits.toNat < 2 * signBit := x.bits.toNat_lt
  have hsame : (if x.negative then signBit + x.magnitude else x.magnitude) = x.bits.toNat := by
    rw [negative, magnitude]
    split
    · next hnegative =>
      have hle : signBit ≤ x.bits.toNat := of_decide_eq_true hnegative
      rw [Nat.mod_eq_sub_mod hle, Nat.mod_eq_of_lt (by omega), Nat.add_sub_cancel' hle]
    · next hpositive =>
      exact Nat.mod_eq_of_lt (Nat.lt_of_not_le fun hle => hpositive (decide_eq_true hle))
  rw [ofMagnitude, hsame, UInt32.ofNat_toNat]

/-- A number is a NaN, infinite or finite. -/
theorem kinds (x : Single) : x.isNaN = true ∨ x.isInfinite = true ∨ x.Finite := by
  rcases Nat.lt_trichotomy x.magnitude infinityMagnitude with hlt | heq | hgt
  · exact .inr (.inr hlt)
  · exact .inr (.inl (decide_eq_true heq))
  · exact .inl (decide_eq_true hgt)

theorem infinity_self {x : Single} (hx : x.isInfinite = true) : infinity x.negative = x := by
  have hmagnitude : x.magnitude = infinityMagnitude := of_decide_eq_true hx
  rw [infinity, ← hmagnitude, ofMagnitude_self]

theorem text_of_isNaN {x : Single} (hx : x.isNaN = true) : x.text = "NaN" := by
  rw [text, if_pos hx]

theorem text_of_isInfinite {x : Single} (hx : x.isInfinite = true) :
    x.text = if x.negative then "-inf" else "inf" := by
  have hmagnitude : x.magnitude = infinityMagnitude := of_decide_eq_true hx
  have hnan : x.isNaN = false := decide_eq_false (by omega)
  rw [text, hnan, if_neg Bool.false_ne_true, if_pos hx]
  cases x.negative <;> rfl

section Finite

variable {x : Single} (hx : x.Finite)

include hx

/-- The text of a finite number is a layout, with a minus before it or none, of a decimal that is
read as the number. -/
theorem text_of_finite :
    ∃ d : Decimal, x.text = String.ofList (if x.negative then '-' :: d.layout else d.layout) ∧
      ofDecimal x.negative d.positional.digits d.positional.exponent = x := by
  have hself := ofMagnitude_self x
  rw [text, hx.not_isNaN, hx.not_isInfinite, if_neg Bool.false_ne_true, if_neg Bool.false_ne_true]
  rcases Nat.eq_zero_or_pos x.magnitude with hzero | hpos
  · rw [hzero] at hself
    refine ⟨⟨0, 0⟩, ?_, ?_⟩
    · rw [if_pos hzero]
      rfl
    · exact hself
  · refine ⟨shortest x.magnitude, ?_, ?_⟩
    · rw [if_neg (Nat.ne_of_gt hpos)]
    · have hreads : readsBack x.magnitude (shortest x.magnitude).positional = true := by
        rw [readsBack_congr (Decimal.twiceUnits_positional _)]
        exact readsBack_firstOnGrid hpos _
      rw [ofDecimal_of_readsBack x.negative hpos hx hreads, hself]

theorem mem_text_of_finite : ∀ c ∈ x.text.toList, c.isDigit = true ∨ c = '-' ∨ c = '.' := by
  obtain ⟨d, htext, -⟩ := text_of_finite hx
  obtain ⟨whole, places, -, hdigits, -, -, hlayout⟩ := d.layout_cases
  have hmem : ∀ c ∈ d.layout, c.isDigit = true ∨ c = '.' := by
    intro c hc
    rcases hlayout with ⟨hlayout, rfl⟩ | hlayout
    · rw [hlayout] at hc
      exact .inl (hdigits c (List.mem_append_left _ hc))
    · rw [hlayout, List.mem_append, List.mem_cons] at hc
      rcases hc with hc | rfl | hc
      · exact .inl (hdigits c (List.mem_append_left _ hc))
      · exact .inr rfl
      · exact .inl (hdigits c (List.mem_append_right _ hc))
  intro c hc
  rw [htext, String.toList_ofList] at hc
  split at hc
  · rcases List.mem_cons.1 hc with rfl | hc
    · exact .inr (.inl rfl)
    · exact (hmem c hc).imp_right .inr
  · exact (hmem c hc).imp_right .inr

theorem ofText?_text_of_finite : ofText? x.text = some x := by
  obtain ⟨d, htext, hvalue⟩ := text_of_finite hx
  obtain ⟨whole, places, hne, hdigits, -, -, hlayout⟩ := d.layout_cases
  obtain ⟨c, rest, hhead⟩ : ∃ c rest, d.layout = c :: rest ∧ c.isDigit = true := by
    obtain ⟨c, tail, rfl⟩ := List.exists_cons_of_ne_nil hne
    have hc := hdigits c List.mem_cons_self
    rcases hlayout with ⟨hlayout, -⟩ | hlayout
    · exact ⟨c, tail, hlayout, hc⟩
    · exact ⟨c, _, hlayout, hc⟩
  have hread := numeral?_layout d
  rw [hhead.1] at htext hread
  rw [htext, ofText?_of_isDigit x.negative hhead.2, hread, Option.map_some, hvalue]

end Finite

theorem ofText?_text_of_isInfinite {x : Single} (hx : x.isInfinite = true) :
    ofText? x.text = some x := by
  have hword : ∀ negative : Bool,
      ofText? (if negative then "-inf" else "inf") = some (infinity negative) := by
    decide +kernel
  rw [text_of_isInfinite hx, hword, infinity_self hx]

theorem ofText?_text_of_isNaN {x : Single} (hx : x.isNaN = true) : ofText? x.text = some nan := by
  rw [text_of_isNaN hx]
  decide +kernel

end Patchbay.Single
