import Mathlib.Logic.Function.Basic
import Patchbay.Proofs.Files.Calls
/-!
# Cursors

What a program sees of open files: each descriptor is a cursor, which is the content of a file and a
position in it. `Cursors.Step` says of every call what it may answer and what becomes of the
cursors. It knows nothing of storage, handles and slots, and it leaves two things open: how many
bytes a read gives, and which free descriptor an open file gets.
-/

namespace Patchbay

/-- An open file: what it holds, and where the next read starts. -/
structure Cursor where
  content : List UInt8
  position : Nat
deriving DecidableEq, Repr

namespace Cursor

/-- The bytes from the position on. -/
def rest (c : Cursor) : List UInt8 := c.content.drop c.position

/-- Where a seek leads: base and offset are added as whole numbers, and the sum is brought between
the ends of the content. -/
def goal (c : Cursor) (offset : Int) (whence : Whence) : Nat :=
  let base : Int := match whence with
    | .start => 0
    | .current => c.position
    | .finish => c.content.length
  (max 0 (min (c.content.length : Int) (base + offset))).toNat

theorem goal_le (c : Cursor) (offset : Int) (whence : Whence) :
    c.goal offset whence ≤ c.content.length := by
  simp only [goal]
  omega

end Cursor

/-- The open files by their descriptors. -/
abbrev Cursors := Descriptor → Option Cursor

namespace Cursors

/-- No open files. -/
def closed : Cursors := fun _ => none

/-- The cursors with another one, or none, under a descriptor. -/
def put (s : Cursors) (fd : Descriptor) (cursor? : Option Cursor) : Cursors :=
  Function.update s fd cursor?

/-- Whether a descriptor can be given to an open file of a table with `n` slots. -/
def InTable (n : Nat) (fd : Descriptor) : Prop :=
  Limits.firstDescriptor ≤ fd.raw ∧ fd.raw < Limits.firstDescriptor + n

/-- Opening gives a cursor at the start of the named file, unless all descriptors are taken, the
name is too long or there is no such file. -/
def Opens (files : String → Option (List UInt8)) (n : Nat) (path : String) (s : Cursors)
    (result : Except FileError Descriptor) (s' : Cursors) : Prop :=
  let name := Path.normalize path
  let full := ∀ fd, InTable n fd → s fd ≠ none
  let long := Limits.maxPathBytes < name.utf8ByteSize
  match result with
  | .error .tooManyOpenFiles => full ∧ s' = s
  | .error .pathTooLong => ¬full ∧ long ∧ s' = s
  | .error .notFound => ¬full ∧ ¬long ∧ files name = none ∧ s' = s
  | .error _ => False
  | .ok fd =>
    ¬long ∧ InTable n fd ∧ s fd = none ∧
      ∃ content, files name = some content ∧ s' = s.put fd (some { content, position := 0 })

/-- A read gives bytes of the content from the position on and moves the position past them. It
gives none only when none are asked for or the position is at the end. -/
def Reads (fd : Descriptor) (count : Nat) (s : Cursors) (result : Except FileError (List UInt8))
    (s' : Cursors) : Prop :=
  if fd.isStandard then result = .ok [] ∧ s' = s
  else
    match s fd with
    | none => result = .error .badDescriptor ∧ s' = s
    | some c =>
      ∃ given, given ≤ count ∧ c.position + given ≤ c.content.length ∧
        (given = 0 ↔ count = 0 ∨ c.position = c.content.length) ∧
        result = .ok (c.rest.take given) ∧
        s' = s.put fd (some { c with position := c.position + given })

/-- A seek moves the position to its goal and answers it. -/
def Seeks (fd : Descriptor) (offset : Int) (whence : Whence) (s : Cursors)
    (result : Except FileError Nat) (s' : Cursors) : Prop :=
  if fd.isStandard then result = .error .unsupported ∧ s' = s
  else
    match s fd with
    | none => result = .error .badDescriptor ∧ s' = s
    | some c =>
      result = .ok (c.goal offset whence) ∧
        s' = s.put fd (some { c with position := c.goal offset whence })

/-- Closing takes a cursor away. -/
def Closes (fd : Descriptor) (s : Cursors) (result : Except FileError Unit) (s' : Cursors) : Prop :=
  if fd.isStandard then result = .ok () ∧ s' = s
  else
    match s fd with
    | none => result = .error .badDescriptor ∧ s' = s
    | some _ => result = .ok () ∧ s' = s.put fd none

/-- The status of a descriptor holds the length of the content. -/
def status (s : Cursors) (fd : Descriptor) : Except FileError FileInfo :=
  if fd.isStandard then .ok .device
  else
    match s fd with
    | none => .error .badDescriptor
    | some c => .ok { FileInfo.regular with size := some c.content.length }

/-- What a call on open files of a table with `n` slots may answer, and what becomes of them. -/
def Step (files : String → Option (List UInt8)) (n : Nat) (s : Cursors) :
    FileCall → FileReply → Cursors → Prop
  | .openFile path, .opened result, s' => Opens files n path s result s'
  | .read fd count, .data result, s' => Reads fd count s result s'
  | .seek fd offset whence, .position result, s' => Seeks fd offset whence s result s'
  | .close fd, .done result, s' => Closes fd s result s'
  | .stat path, .info result, s' =>
    s' = s ∧
      result = if (files (Path.normalize path)).isSome then .ok .regular else .error .notFound
  | .fstat fd, .info result, s' => result = s.status fd ∧ s' = s
  | .position fd, .position result, s' =>
    result = ((s fd).elim (.error .badDescriptor) fun c => .ok c.position) ∧ s' = s
  | .closeAll, .done result, s' => result = .ok () ∧ s' = closed
  | _, _, _ => False

/-- Calls one after another. -/
inductive Run (files : String → Option (List UInt8)) (n : Nat) :
    Cursors → List FileCall → List FileReply → Cursors → Prop
  | nil (s : Cursors) : Run files n s [] [] s
  | cons {s mid s' : Cursors} {call : FileCall} {reply : FileReply} {calls : List FileCall}
      {replies : List FileReply} (first : Step files n s call reply mid)
      (more : Run files n mid calls replies s') :
      Run files n s (call :: calls) (reply :: replies) s'

theorem put_other {s : Cursors} {fd other : Descriptor} {cursor? : Option Cursor}
    (h : other ≠ fd) : s.put fd cursor? other = s other := by
  rw [put, Function.update_of_ne h]

/-- A call leaves all cursors alone but the one that it is about. -/
theorem Step.other {files : String → Option (List UInt8)} {n : Nat} {s s' : Cursors}
    {call : FileCall} {reply : FileReply} (h : Step files n s call reply s') {fd : Descriptor}
    {c : Cursor} (hfd : s fd = some c) (hcall : call ≠ .closeAll)
    (hother : call.descriptor? ≠ some fd) : s' fd = some c := by
  have hput {fd' : Descriptor} {cursor? : Option Cursor} (hne : some fd' ≠ some fd) :
      s.put fd' cursor? fd = some c := by
    rw [put_other fun heq => hne (congrArg some heq.symm), hfd]
  cases call <;> cases reply <;> simp only [Step] at h
  case openFile.opened path result =>
    cases result with
    | error e => cases e <;> simp only [Opens] at h <;> simp [h, hfd]
    | ok fd' =>
      obtain ⟨-, -, hfree, content, -, rfl⟩ := h
      exact hput fun heq => by simp [Option.some.inj heq, hfd] at hfree
  case read.data fd' count result =>
    simp only [Reads] at h
    split at h
    · simp [h, hfd]
    · split at h
      · simp [h, hfd]
      · obtain ⟨given, -, -, -, -, rfl⟩ := h
        exact hput hother
  case seek.position fd' offset whence result =>
    simp only [Seeks] at h
    split at h
    · simp [h, hfd]
    · split at h
      · simp [h, hfd]
      · rw [h.2]
        exact hput hother
  case close.done fd' result =>
    simp only [Closes] at h
    split at h
    · simp [h, hfd]
    · split at h
      · simp [h, hfd]
      · rw [h.2]
        exact hput hother
  case stat.info => rw [h.1, hfd]
  case fstat.info => rw [h.2, hfd]
  case position.position => rw [h.2, hfd]
  case closeAll.done => exact absurd rfl hcall

end Cursors

end Patchbay
