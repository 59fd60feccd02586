import Patchbay.Text.Words
/-!
# Paths

Storage knows files by name from the root. A path is brought into that form by dropping one leading
`./` or `/`; nothing else in it is interpreted. For an engine a path is split into the name of a
file and the directory that it lies in.
-/

namespace Patchbay.Path

/-- The name under which storage knows a path. -/
def normalize (path : String) : String :=
  match path.toList with
  | '.' :: '/' :: rest => String.ofList rest
  | '/' :: rest => String.ofList rest
  | _ => path

/-- A file and the directory that it lies in. -/
structure Place where
  file : String
  directory : String
deriving DecidableEq, Repr

/-- Splits a path at its last separator. The directory of a file without one is `.`, and that of a
file behind a single leading one is `/`. -/
def split (path : String) : Place :=
  match Text.cutLast '/' path.toList with
  | some ([], file) => { file := String.ofList file, directory := "/" }
  | some (directory, file) =>
    { file := String.ofList file, directory := String.ofList directory }
  | none => { file := path, directory := "." }

/-- Whether a name ends in `.pd`, in either case, with something before it. -/
def isPatchFile (name : String) : Bool :=
  match (Text.asciiLower name.toList).reverse with
  | 'd' :: 'p' :: '.' :: _ :: _ => true
  | _ => false

end Patchbay.Path
