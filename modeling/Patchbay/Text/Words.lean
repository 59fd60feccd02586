/-!
# Blank-separated words and cuts at a mark

Control text and boot options are made of words between ASCII blanks. `words` drops the blanks and
keeps the words in order; `cutFirst` and `cutLast` split a text at one occurrence of a mark, which
belongs to neither part.
-/

namespace Patchbay.Text

/-- The ASCII blanks: space, tab, line feed, form feed and carriage return, but not vertical tab. -/
def isBlank (c : Char) : Bool :=
  c == ' ' || c == '\t' || c == '\n' || c == '\x0c' || c == '\r'

/-- The maximal runs of characters that are not blank, in order. -/
def blocks (cs : List Char) : List (List Char) :=
  match cs with
  | [] => []
  | c :: rest =>
    if isBlank c then blocks rest
    else (c :: rest.takeWhile (!isBlank ·)) :: blocks (rest.dropWhile (!isBlank ·))
termination_by cs.length
decreasing_by
  · simp
  · have := (List.dropWhile_sublist (fun x => !isBlank x) (l := rest)).length_le
    simp only [List.length_cons]
    omega

/-- The words of a text. -/
def words (s : String) : List String :=
  (blocks s.toList).map String.ofList

/-- The parts before and after the first occurrence of `mark`. -/
def cutFirst (mark : Char) : List Char → Option (List Char × List Char)
  | [] => none
  | c :: rest =>
    if c = mark then some ([], rest)
    else (cutFirst mark rest).map fun (before, after) => (c :: before, after)

/-- The parts before and after the last occurrence of `mark`. -/
def cutLast (mark : Char) : List Char → Option (List Char × List Char)
  | [] => none
  | c :: rest =>
    match cutLast mark rest with
    | some (before, after) => some (c :: before, after)
    | none => if c = mark then some ([], rest) else none

/-- Every ASCII letter in lower case; all other characters stay as they are. -/
def asciiLower (cs : List Char) : List Char :=
  cs.map Char.toLower

/-- The value of a run of decimal digits; zero for none. -/
def digitsValue (cs : List Char) : Nat :=
  cs.foldl (fun n c => 10 * n + (c.toNat - '0'.toNat)) 0

/-- Reads a decimal numeral of one digit or more. -/
def natural? (cs : List Char) : Option Nat :=
  if cs.isEmpty || !cs.all Char.isDigit then none else some (digitsValue cs)

/-- Reads a decimal numeral below `2 ^ 32`, with a plus sign or none. -/
def word32? (cs : List Char) : Option Nat :=
  let digits := match cs with
    | '+' :: rest => rest
    | _ => cs
  (natural? digits).filter (· < UInt32.size)

end Patchbay.Text
