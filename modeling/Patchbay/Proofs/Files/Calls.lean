import Patchbay.Files.Table
import Patchbay.Proofs.Run
/-!
# Calls on the file table

The operations of the file table as data, so that what is said of any sequence of calls can be said
of a list.
-/

namespace Patchbay

/-- One call on the file table. -/
inductive FileCall where
  | openFile (path : String)
  | read (fd : Descriptor) (count : Nat)
  | seek (fd : Descriptor) (offset : Int) (whence : Whence)
  | close (fd : Descriptor)
  | stat (path : String)
  | fstat (fd : Descriptor)
  | position (fd : Descriptor)
  | closeAll
deriving DecidableEq, Repr

/-- The descriptor that a call is about, if it is about one. -/
def FileCall.descriptor? : FileCall → Option Descriptor
  | .read fd _ | .seek fd _ _ | .close fd | .fstat fd | .position fd => some fd
  | .openFile _ | .stat _ | .closeAll => none

/-- What a call answers. -/
inductive FileReply where
  | opened (result : Except FileError Descriptor)
  | data (result : Except FileError (List UInt8))
  | position (result : Except FileError Nat)
  | info (result : Except FileError FileInfo)
  | done (result : Except FileError Unit)
deriving DecidableEq, Repr

namespace FileTable

variable {σ η : Type} {n : Nat} [Storage σ η]

/-- Makes one call. -/
def perform (t : FileTable σ η n) : FileCall → FileReply × FileTable σ η n
  | .openFile path => let r := (t.openFile path).value; (.opened r.1, r.2)
  | .read fd count => let r := t.read fd count; (.data r.1, r.2)
  | .seek fd offset whence => let r := (t.seek fd offset whence).value; (.position r.1, r.2)
  | .close fd => let r := t.close fd; (.done r.1, r.2)
  | .stat path => let r := t.stat path; (.info r.1, r.2)
  | .fstat fd => (.info (t.fstat fd), t)
  | .position fd => (.position (t.position fd), t)
  | .closeAll => (.done (.ok ()), t.closeAll)

/-- Makes calls one after another. -/
def performAll (t : FileTable σ η n) (calls : List FileCall) :
    List FileReply × FileTable σ η n :=
  runAll perform t calls

end FileTable

end Patchbay
