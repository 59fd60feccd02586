import Patchbay.Single.Text
/-!
# Atoms

The typed words of a message: a word is a number when the whole of it reads as one, and a symbol
otherwise.
-/

namespace Patchbay

/-- A typed word. -/
inductive Atom where
  | float (value : Single)
  | symbol (name : String)
deriving DecidableEq, Repr

namespace Atom

/-- The atom that a word stands for. -/
def ofWord (word : String) : Atom :=
  match Single.ofText? word with
  | some value => .float value
  | none => .symbol word

/-- The word that stands for an atom. A symbol that reads as a number does not survive the way
back. -/
def text : Atom → String
  | .float value => value.text
  | .symbol name => name

end Atom

end Patchbay
