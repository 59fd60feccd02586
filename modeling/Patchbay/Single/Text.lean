import Patchbay.Single.Rounding
import Patchbay.Text.Words
/-!
# Text of single-precision numbers

A number is written with the fewest digits that read back as the same number, always positionally
and without an exponent; of two candidates with that many digits the nearer one is taken, and the
upper one on an exact tie. A numeral is read as the number nearest to its exact decimal value.
-/

namespace Patchbay.Single

/-! ## Writing -/

/-- A decimal `digits * 10 ^ exponent`. -/
structure Decimal where
  digits : Nat
  exponent : Int
deriving DecidableEq, Repr

/-- Twice the value of a decimal in units, as a quotient. -/
def Decimal.twiceUnits (d : Decimal) : Nat × Nat :=
  (2 * (d.digits * powTen d.exponent.toNat * unitsPerOne), powTen (-d.exponent).toNat)

/-- Whether a decimal is nearer to the positive finite `magnitude` than to its neighbours. The
points halfway to them count when the magnitude is even, as a tie in reading goes to the even
side. -/
def readsBack (magnitude : Nat) (d : Decimal) : Bool :=
  let (num, den) := d.twiceUnits
  let low := (unitsOf (magnitude - 1) + unitsOf magnitude) * den
  let high := (unitsOf magnitude + unitsOf (magnitude + 1)) * den
  if magnitude % 2 = 0 then decide (low ≤ num ∧ num ≤ high) else decide (low < num ∧ num < high)

/-- The decimal with the given exponent that reads back as `magnitude` and is nearest to it. Only
the neighbours of the exact value on the grid of that exponent come into question. -/
def onGrid? (magnitude : Nat) (exponent : Int) : Option Decimal :=
  let num := unitsOf magnitude * powTen (-exponent).toNat
  let den := unitsPerOne * powTen exponent.toNat
  let lower : Decimal := ⟨num / den, exponent⟩
  let upper : Decimal := ⟨num / den + 1, exponent⟩
  match readsBack magnitude lower, readsBack magnitude upper with
  | true, true => some (if 2 * (num % den) < den then lower else upper)
  | true, false => some lower
  | false, true => some upper
  | false, false => none

/-- The first grid from `10 ^ (steps - 149)` downward that holds a decimal which reads back. The
last grid holds the exact value of every number. -/
def firstOnGrid (magnitude : Nat) : Nat → Decimal
  | 0 => ⟨unitsOf magnitude * Nat.pow 5 149, -149⟩
  | steps + 1 =>
    match onGrid? magnitude ((steps + 1 : Nat) - 149) with
    | some d => d
    | none => firstOnGrid magnitude steps

/-- The shortest decimal of a positive finite magnitude. The search starts above the largest
number. -/
def shortest (magnitude : Nat) : Decimal :=
  firstOnGrid magnitude (149 + 39)

/-- The decimal digits of a natural, most significant first. -/
def digitChars (n : Nat) : List Char := Nat.toDigits 10 n

/-- A decimal written out: zeros fill the places up to the point, on either side of the digits. -/
def Decimal.layout (d : Decimal) : List Char :=
  let digits := digitChars d.digits
  if 0 ≤ d.exponent then digits ++ List.replicate d.exponent.toNat '0'
  else
    let places := (-d.exponent).toNat
    if digits.length ≤ places then
      '0' :: '.' :: (List.replicate (places - digits.length) '0' ++ digits)
    else digits.take (digits.length - places) ++ '.' :: digits.drop (digits.length - places)

/-- The text of a number. -/
def text (x : Single) : String :=
  if x.isNaN then "NaN"
  else
    let body :=
      if x.isInfinite then "inf".toList
      else if x.magnitude = 0 then ['0']
      else (shortest x.magnitude).layout
    String.ofList (if x.negative then '-' :: body else body)

/-! ## Reading -/

/-- A sign, if there is one, and what follows. -/
def takeSign : List Char → Bool × List Char
  | '-' :: rest => (true, rest)
  | '+' :: rest => (false, rest)
  | rest => (false, rest)

/-- The exponent after a mantissa: nothing, or the letter `e`, a sign or none, and digits. -/
def exponent? : List Char → Option Int
  | [] => some 0
  | mark :: rest =>
    if mark.toLower = 'e' then
      let (negative, digits) := takeSign rest
      (Text.natural? digits).map fun n => if negative then -(n : Int) else n
    else none

/-- An unsigned numeral: digits with a point among or around them or none, at least one digit, and
an exponent or none. -/
def numeral? (cs : List Char) : Option Decimal :=
  let whole := cs.takeWhile Char.isDigit
  let afterWhole := cs.dropWhile Char.isDigit
  let (places, rest) := match afterWhole with
    | '.' :: tail => (tail.takeWhile Char.isDigit, tail.dropWhile Char.isDigit)
    | _ => ([], afterWhole)
  if whole.isEmpty && places.isEmpty then none
  else (exponent? rest).map fun e => ⟨Text.digitsValue (whole ++ places), e - places.length⟩

/-- Reads a number: a sign or none, and then a numeral, or the word `inf`, `infinity` or `nan` in
any case. Nothing may stand around it. -/
def ofText? (s : String) : Option Single :=
  let (negative, body) := takeSign s.toList
  let word := String.ofList (Text.asciiLower body)
  if word = "inf" || word = "infinity" then some (infinity negative)
  else if word = "nan" then some nan
  else (numeral? body).map fun d => ofDecimal negative d.digits d.exponent

end Patchbay.Single
