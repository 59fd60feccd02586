import Patchbay.Files.Descriptor
import Patchbay.Files.Path
import Patchbay.Files.Storage
import Patchbay.Limits
import Patchbay.Log
/-!
# The file table

A table of `n` slots gives descriptors with sizes and positions over sequential storage. Opening a
file reads it once to the end to learn its size; moving backward opens it anew and reads forward
from the start. Each occupied slot holds exactly one storage handle, and its position is the number
of bytes read through that handle.

An operation that fails leaves all slots as they were.
-/

namespace Patchbay

/-- A file that a slot holds open. -/
structure OpenFile (η : Type) where
  handle : η
  /-- The size in bytes, measured when the file was opened. -/
  size : Nat
  /-- Bytes read through the handle. -/
  position : Nat
  /-- The name under which storage knows the file. -/
  name : String
deriving DecidableEq, Repr

/-- Storage with `n` slots for open files. -/
structure FileTable (σ η : Type) (n : Nat) where
  storage : σ
  slots : Vector (Option (OpenFile η)) n

namespace FileTable

variable {σ η : Type} {n : Nat}

/-- A table without open files. -/
def ofStorage (storage : σ) : FileTable σ η n :=
  { storage, slots := Vector.replicate n none }

/-- The number of open files. -/
def openCount (t : FileTable σ η n) : Nat :=
  t.slots.toList.countP Option.isSome

/-- The first slot that is free. -/
def freeSlot? (t : FileTable σ η n) : Option (Fin n) :=
  t.slots.findFinIdx? Option.isNone

/-- The descriptor of a slot. Descriptors have 32 bits with a sign, and the sum stays within them
for tables of fewer than 2^31 - 10 slots. -/
def descriptor (slot : Fin n) : Descriptor := ⟨slot.val + Limits.firstDescriptor⟩

/-- The slot that a descriptor belongs to. -/
def slotOf? (n : Nat) (fd : Descriptor) : Option (Fin n) :=
  let index := fd.raw - Limits.firstDescriptor
  if h : 0 ≤ index ∧ index.toNat < n then some ⟨index.toNat, h.2⟩ else none

/-- The open file of a descriptor, and its slot. -/
def find? (fd : Descriptor) (t : FileTable σ η n) : Option (Fin n × OpenFile η) := do
  let slot ← slotOf? n fd
  let file ← t.slots[slot]
  pure (slot, file)

/-- Puts an open file into a slot. -/
def put (slot : Fin n) (file : OpenFile η) (storage : σ) (t : FileTable σ η n) :
    FileTable σ η n :=
  { storage, slots := t.slots.set slot (some file) }

/-- The most bytes that a file is measured to. -/
def maxFileBytes : Nat := UInt64.size - 1

variable [Storage σ η]

/-- The size of a file, found by reading it once to the end, or `none` if it cannot be opened. -/
def measure (name : String) (storage : σ) : Option Nat × σ :=
  match Storage.openFile name storage with
  | (none, storage) => (none, storage)
  | (some probe, storage) =>
    let (size, probe, storage) := Storage.skip maxFileBytes probe storage
    (some size, Storage.close probe storage)

/-- Opens a file for reading. -/
def openFile (path : String) (t : FileTable σ η n) :
    Logged (Except FileError Descriptor × FileTable σ η n) :=
  let name := Path.normalize path
  match t.freeSlot? with
  | none => do
    Log.error s!"too many open files ({n})"
    pure (.error .tooManyOpenFiles, t)
  | some slot =>
    if Limits.maxPathBytes < name.utf8ByteSize then pure (.error .pathTooLong, t)
    else
      match measure name t.storage with
      | (none, storage) => do
        Log.warn s!"cannot open: {name}"
        pure (.error .notFound, { t with storage })
      | (some size, storage) =>
        match Storage.openFile name storage with
        | (none, storage) => pure (.error .notFound, { t with storage })
        | (some handle, storage) => do
          Log.debug s!"opened: {name} ({size} bytes)"
          pure (.ok (descriptor slot), t.put slot { handle, size, position := 0, name } storage)

/-- Closes a file. On a standard stream it does nothing. -/
def close (fd : Descriptor) (t : FileTable σ η n) :
    Except FileError Unit × FileTable σ η n :=
  if fd.isStandard then (.ok (), t)
  else
    match t.find? fd with
    | none => (.error .badDescriptor, t)
    | some (slot, file) =>
      (.ok (), { storage := Storage.close file.handle t.storage, slots := t.slots.set slot none })

/-- Reads on, at most `count` bytes. The end of the file and a failure of storage both give none,
and so does a standard stream. -/
def read (fd : Descriptor) (count : Nat) (t : FileTable σ η n) :
    Except FileError (List UInt8) × FileTable σ η n :=
  if fd.isStandard then (.ok [], t)
  else
    match t.find? fd with
    | none => (.error .badDescriptor, t)
    | some (slot, file) =>
      if count = 0 then (.ok [], t)
      else
        let (data?, handle, storage) := Storage.read file.handle count t.storage
        let data := data?.getD []
        let file := { file with handle, position := file.position + data.length }
        (.ok data, t.put slot file storage)

/-- The nearest signed 64-bit integer. Positions and offsets are reckoned in these. -/
def saturate64 (value : Int) : Int :=
  max Int64.minValue.toInt (min Int64.maxValue.toInt value)

/-- The position that a seek asks for, kept between the ends of the file. -/
def target (file : OpenFile η) (offset : Int) (whence : Whence) : Nat :=
  let base : Int := match whence with
    | .start => 0
    | .current => file.position
    | .finish => file.size
  (max 0 (min (file.size : Int) (saturate64 (base + offset)))).toNat

/-- The file opened anew at its start, or `none` if that fails. The old handle is given back after
the new one has been opened. -/
def rewind (file : OpenFile η) (storage : σ) : Option (OpenFile η) × σ :=
  match Storage.openFile file.name storage with
  | (none, storage) => (none, storage)
  | (some handle, storage) =>
    (some { file with handle, position := 0 }, Storage.close file.handle storage)

/-- The file with its position moved forward to a target, or as far as storage reads on. -/
def advance (target : Nat) (file : OpenFile η) (storage : σ) : OpenFile η × σ :=
  let (passed, handle, storage) := Storage.skip (target - file.position) file.handle storage
  ({ file with handle, position := file.position + passed }, storage)

/-- Moves the position of a file and answers where it came to be. -/
def seek (fd : Descriptor) (offset : Int) (whence : Whence) (t : FileTable σ η n) :
    Logged (Except FileError Nat × FileTable σ η n) :=
  if fd.isStandard then pure (.error .unsupported, t)
  else
    match t.find? fd with
    | none => pure (.error .badDescriptor, t)
    | some (slot, file) =>
      let goal := target file offset whence
      let (start?, storage) :=
        if goal < file.position then rewind file t.storage else (some file, t.storage)
      match start? with
      | none => do
        Log.warn s!"cannot reopen: {file.name}"
        pure (.error .reopenFailed, { t with storage })
      | some start =>
        let (file, storage) := advance goal start storage
        pure (.ok file.position, t.put slot file storage)

/-- Finds out whether a file exists by opening it. -/
def stat (path : String) (t : FileTable σ η n) : Except FileError FileInfo × FileTable σ η n :=
  match Storage.openFile (Path.normalize path) t.storage with
  | (none, storage) => (.error .notFound, { t with storage })
  | (some handle, storage) => (.ok .regular, { t with storage := Storage.close handle storage })

/-- What is known of an open file. -/
def fstat (fd : Descriptor) (t : FileTable σ η n) : Except FileError FileInfo :=
  if fd.isStandard then .ok .device
  else
    match t.find? fd with
    | none => .error .badDescriptor
    | some (_, file) => .ok { FileInfo.regular with size := some file.size }

/-- The position of an open file. -/
def position (fd : Descriptor) (t : FileTable σ η n) : Except FileError Nat :=
  match t.find? fd with
  | none => .error .badDescriptor
  | some (_, file) => .ok file.position

/-- Gives back the handles of the files that a list of slots holds, in order. -/
def closeEach (slots : List (Option (OpenFile η))) (storage : σ) : σ :=
  slots.foldl
    (fun storage slot => match slot with
      | some file => Storage.close file.handle storage
      | none => storage)
    storage

/-- Closes all files in the order of their slots. -/
def closeAll (t : FileTable σ η n) : FileTable σ η n :=
  { storage := closeEach t.slots.toList t.storage, slots := Vector.replicate n none }

end FileTable

end Patchbay
