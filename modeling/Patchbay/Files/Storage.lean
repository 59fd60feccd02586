/-!
# Sequential storage

The driver below the file table can open a file by name, read on from where it is and close; it can
neither seek nor tell a size. `skip` reads on without keeping the data, which serves both to measure
a file and to move forward in it.
-/

namespace Patchbay

/-- A storage driver with handles of type `η`. -/
class Storage (σ : Type) (η : outParam Type) where
  /-- A fresh handle at the start of the named file, or `none` if it cannot be opened. -/
  openFile : String → σ → Option η × σ
  /-- At most the given number of bytes, or `none` for a failure. No bytes mean the end. -/
  read : η → Nat → σ → Option (List UInt8) × η × σ
  /-- Gives a handle back. -/
  close : η → σ → σ

namespace Storage

variable {σ η : Type} [Storage σ η]

/-- Bytes asked for at a time while skipping. -/
def skipBytes : Nat := 512

/-- Reads on until `count` bytes have passed, of which `passed` already have, and answers how many
have in the end. The end of the file and a failure both stop it early. -/
def skipFrom (passed count : Nat) (handle : η) (storage : σ) : Nat × η × σ :=
  if passed < count then
    match Storage.read handle (min (count - passed) skipBytes) storage with
    | (some (_ :: rest), handle, storage) =>
      skipFrom (passed + (rest.length + 1)) count handle storage
    | (_, handle, storage) => (passed, handle, storage)
  else (passed, handle, storage)
termination_by count - passed

/-- Reads on past `count` bytes, or to the end, and answers how many passed. -/
def skip (count : Nat) (handle : η) (storage : σ) : Nat × η × σ :=
  skipFrom 0 count handle storage

end Storage

end Patchbay
