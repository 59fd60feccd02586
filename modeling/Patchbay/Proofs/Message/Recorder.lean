import Patchbay.Message.Basic
/-!
# Recorded deliveries

A target that behaves as another one and keeps the messages that were delivered to it.
-/

namespace Patchbay.Message

structure Recorder (τ : Type) where
  target : τ
  /-- What was delivered, oldest first. -/
  calls : List Message := []
deriving DecidableEq, Repr

instance {τ : Type} [Target τ] : Target (Recorder τ) where
  deliver m r :=
    let (accepted, target) := Target.deliver m r.target
    (accepted, { target, calls := r.calls ++ [m] })

end Patchbay.Message
