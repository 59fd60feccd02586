/-!
# Log records as values

Nothing here writes a log: an operation that has something to report returns its result together
with the records it made, oldest first, as a `Logged` value. Sequencing two of them joins their
records in order.
-/

namespace Patchbay

/-- How serious a record is. -/
inductive Log.Level where
  | error
  | warn
  | info
  | debug
deriving DecidableEq, Repr

/-- One log record. Records about the console of the engine carry a target, all others none. -/
structure Log.Record where
  level : Log.Level
  target : String := ""
  text : String
deriving DecidableEq, Repr

/-- A value with the records made on the way to it, oldest first. -/
structure Logged (α : Type) where
  value : α
  records : List Log.Record := []
deriving DecidableEq, Repr

namespace Logged

variable {α β : Type}

instance : Monad Logged where
  pure a := { value := a }
  bind x f := { value := (f x.value).value, records := x.records ++ (f x.value).records }

@[simp] theorem value_pure (a : α) : (pure a : Logged α).value = a := rfl

@[simp] theorem records_pure (a : α) : (pure a : Logged α).records = [] := rfl

@[simp] theorem value_bind (x : Logged α) (f : α → Logged β) :
    (x >>= f).value = (f x.value).value := rfl

@[simp] theorem records_bind (x : Logged α) (f : α → Logged β) :
    (x >>= f).records = x.records ++ (f x.value).records := rfl

end Logged

namespace Log

/-- A single record without a target. -/
def record (level : Level) (text : String) : Logged Unit :=
  { value := (), records := [{ level, text }] }

def error (text : String) : Logged Unit := record .error text

def warn (text : String) : Logged Unit := record .warn text

def info (text : String) : Logged Unit := record .info text

def debug (text : String) : Logged Unit := record .debug text

@[simp] theorem value_record (level : Level) (text : String) : (record level text).value = () := rfl

end Log

end Patchbay
