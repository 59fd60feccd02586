import Patchbay.Files.Patch
import Patchbay.Proofs.Files.Calls
import Patchbay.Proofs.Run
/-!
# Acts

Everything that can happen to a file table: calls on it, the loading of patches through it, and
changes of the storage under it that it has no part in. A session is a table together with the
engine that its patches go to.
-/

namespace Patchbay

/-- One thing that happens to a file table. -/
inductive FileAct (σ : Type) where
  | call (call : FileCall)
  | load (path : String)
  | find (listing : List String)
  /-- The storage changes by itself: a file comes, goes or turns into another. -/
  | change (f : σ → σ)

/-- What comes of an act. -/
inductive FileOutcome where
  | reply (reply : FileReply)
  | patch (result : Except PatchError Patch)
  | changed

/-- Whether a call failed. -/
def FileReply.failed : FileReply → Bool
  | .opened result => !result.isOk
  | .data result => !result.isOk
  | .position result => !result.isOk
  | .info result => !result.isOk
  | .done result => !result.isOk

/-- Whether an act failed. -/
def FileOutcome.failed : FileOutcome → Bool
  | .reply r => r.failed
  | .patch result => !result.isOk
  | .changed => false

/-- The same act over another storage, where its changes are others. -/
def FileAct.map {σ τ : Type} (lift : (σ → σ) → τ → τ) : FileAct σ → FileAct τ
  | .call c => .call c
  | .load path => .load path
  | .find listing => .find listing
  | .change f => .change (lift f)

theorem FileAct.map_id {σ : Type} (act : FileAct σ) : act.map id = act := by
  cases act with
  | _ => rfl

theorem FileAct.list_map_id {σ : Type} (acts : List (FileAct σ)) : acts.map (.map id) = acts := by
  rw [List.map_congr_left fun act _ => act.map_id, List.map_id']

/-- An engine that accepts every patch or none. -/
instance : Patch.Loader Bool where
  openPatch _ accepts := (accepts, accepts)

/-- A file table and the engine that patches are loaded into. -/
structure FileSession (σ η ε : Type) (n : Nat) where
  table : FileTable σ η n
  engine : ε

namespace FileSession

variable {σ η ε : Type} {n : Nat}

/-- A session with no open files. -/
def new (n : Nat) (storage : σ) (engine : ε) : FileSession σ η ε n :=
  { table := .ofStorage storage, engine }

variable [Storage σ η] [Patch.Loader ε]

/-- Does one act. -/
def perform (s : FileSession σ η ε n) : FileAct σ → FileOutcome × FileSession σ η ε n
  | .call call => let r := s.table.perform call; (.reply r.1, { s with table := r.2 })
  | .load path =>
    let r := (Patch.load path s.table s.engine).value
    (.patch r.1, { table := r.2.1, engine := r.2.2 })
  | .find listing =>
    let r := (Patch.find listing s.table s.engine).value
    (.patch r.1, { table := r.2.1, engine := r.2.2 })
  | .change f => (.changed, { s with table := { s.table with storage := f s.table.storage } })

/-- Does acts one after another. -/
def performAll (s : FileSession σ η ε n) (acts : List (FileAct σ)) :
    List FileOutcome × FileSession σ η ε n :=
  runAll perform s acts

end FileSession

end Patchbay
