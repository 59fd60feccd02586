import Patchbay.Files.Table
/-!
# Patches

A patch is a file that an engine loads at startup. `Patch.load` first opens the file through the
table, so that one that is missing, empty or too large never reaches the engine. `Patch.find` tries
the default patch and then every patch of a listing until the engine accepts one.
-/

namespace Patchbay

/-- A patch that the engine accepted. -/
structure Patch where
  file : String
  directory : String
  /-- The size in bytes. -/
  size : Nat
deriving DecidableEq, Repr

/-- Why no patch was loaded. -/
inductive PatchError where
  | unopened (cause : FileError)
  | empty
  | tooLarge (size : Nat)
  /-- The engine refused it. -/
  | rejected
  | noneFound
deriving DecidableEq, Repr

def PatchError.message : PatchError → String
  | .unopened cause => s!"cannot open patch: {cause.message}"
  | .empty => "patch file is empty"
  | .tooLarge size => s!"patch is {size} bytes, limit is {Limits.maxPatchBytes}"
  | .rejected => "engine rejected the patch"
  | .noneFound => "no patch found"

namespace Patch

/-- An engine that opens patches. -/
class Loader (ε : Type) where
  /-- Opens a file of a directory and says whether the engine accepted it. -/
  openPatch : Path.Place → ε → Bool × ε

variable {σ η ε : Type} {n : Nat} [Storage σ η]

/-- The size of the file at a path. It is open only meanwhile. -/
def measure (path : String) (files : FileTable σ η n) :
    Logged (Except FileError Nat × FileTable σ η n) := do
  let (opened, files) ← files.openFile path
  match opened with
  | .error e => pure (.error e, files)
  | .ok fd =>
    let info := files.fstat fd
    let (closed, files) := files.close fd
    let size : Except FileError Nat := do
      closed
      let info ← info
      pure (info.size.getD 0)
    pure (size, files)

variable [Loader ε]

/-- Loads the patch at a path. -/
def load (path : String) (files : FileTable σ η n) (engine : ε) :
    Logged (Except PatchError Patch × FileTable σ η n × ε) := do
  Log.info s!"loading patch: {path}"
  let (size, files) ← measure path files
  match size with
  | .error e => pure (.error (.unopened e), files, engine)
  | .ok size =>
    if size = 0 then
      Log.warn s!"empty patch file: {path}"
      pure (.error .empty, files, engine)
    else if Limits.maxPatchBytes < size then
      Log.warn s!"patch file too large: {path} ({size} bytes)"
      pure (.error (.tooLarge size), files, engine)
    else
      let place := Path.split (Path.normalize path)
      let (accepted, engine) := Loader.openPatch place engine
      if accepted then
        Log.info s!"patch loaded: {path} ({size} bytes)"
        pure (.ok { file := place.file, directory := place.directory, size }, files, engine)
      else
        Log.error s!"engine failed to open patch: {path}"
        pure (.error .rejected, files, engine)

/-- Loads the first patch of a listing that can be loaded. The default patch and files of other
kinds are passed over. -/
def loadFirst (listing : List String) (files : FileTable σ η n) (engine : ε) :
    Logged (Except PatchError Patch × FileTable σ η n × ε) :=
  match listing with
  | [] => do
    Log.warn "no .pd patch files found"
    pure (.error .noneFound, files, engine)
  | name :: rest =>
    if !Path.isPatchFile name || name = Limits.defaultPatch then loadFirst rest files engine
    else do
      let (loaded, files, engine) ← load name files engine
      match loaded with
      | .ok patch => pure (.ok patch, files, engine)
      | .error _ => loadFirst rest files engine

/-- Loads the default patch or else the first of a listing that can be loaded. -/
def find (listing : List String) (files : FileTable σ η n) (engine : ε) :
    Logged (Except PatchError Patch × FileTable σ η n × ε) := do
  let (loaded, files, engine) ← load Limits.defaultPatch files engine
  match loaded with
  | .ok patch => pure (.ok patch, files, engine)
  | .error _ => do
    Log.info "searching for .pd files"
    loadFirst listing files engine

end Patch

end Patchbay
