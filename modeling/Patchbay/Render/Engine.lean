import Patchbay.Single.Basic
/-!
# The audio side of an engine

An engine runs in ticks of a fixed block of frames. It reads interleaved input and produces
interleaved output, of which it is told the length.
-/

namespace Patchbay

/-- An engine that produces audio. -/
class Engine (ε : Type) where
  /-- Runs some ticks on an input and answers as many samples as it is asked for. -/
  process (ticks : Nat) (input : List Single) (count : Nat) : ε → Vector Single count × ε

end Patchbay
