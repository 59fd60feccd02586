/-!
# Descriptors

Numbers that stand for open files, where a seek starts from, what is known of a file, and how file
operations fail.
-/

namespace Patchbay

/-- The number of a file. It need not stand for an open one. -/
structure Descriptor where
  raw : Int
deriving DecidableEq, Repr

namespace Descriptor

def stdin : Descriptor := ⟨0⟩

def stdout : Descriptor := ⟨1⟩

def stderr : Descriptor := ⟨2⟩

/-- Whether the number belongs to a standard stream. -/
def isStandard (fd : Descriptor) : Bool := decide (0 ≤ fd.raw ∧ fd.raw < 3)

end Descriptor

/-- How a file operation fails. -/
inductive FileError where
  /-- Every slot of the table is taken. -/
  | tooManyOpenFiles
  | notFound
  | badDescriptor
  /-- The name is too long to be kept. -/
  | pathTooLong
  /-- The operation does not apply to this descriptor. -/
  | unsupported
  /-- A move backward could not open the file again; the descriptor is as it was. -/
  | reopenFailed
deriving DecidableEq, Repr

def FileError.message : FileError → String
  | .tooManyOpenFiles => "too many open files"
  | .notFound => "no such file"
  | .badDescriptor => "bad file descriptor"
  | .pathTooLong => "path too long"
  | .unsupported => "operation not supported"
  | .reopenFailed => "cannot reopen file"

/-- The point that an offset counts from. -/
inductive Whence where
  | start
  | current
  | finish
deriving DecidableEq, Repr

/-- The point that a code stands for. -/
def Whence.ofCode : Int → Except FileError Whence
  | 0 => .ok .start
  | 1 => .ok .current
  | 2 => .ok .finish
  | _ => .error .unsupported

/-- What is known of a file: its mode, and the size if it is open. -/
structure FileInfo where
  mode : Nat
  size : Option Nat := none
deriving DecidableEq, Repr

namespace FileInfo

/-- The mode bits that tell the type of a file. -/
def typeMask : Nat := 0xf000

/-- The type of a regular file. -/
def regularType : Nat := 0x8000

/-- The type of a character device. -/
def deviceType : Nat := 0x2000

/-- A regular file that its owner may write and everyone may read. -/
def regular : FileInfo := { mode := regularType + 0x1a4 }

/-- A standard stream. -/
def device : FileInfo := { mode := deviceType }

def isRegular (info : FileInfo) : Bool := info.mode &&& typeMask == regularType

end FileInfo

end Patchbay
