import Patchbay.Message.Atom
/-!
# Messages

A message goes to a named receiver and carries a bang, one number, one symbol, or a selector with
atoms. `ofWords?` types the words of a line, and `payload` writes what follows the receiver.

A `Message.Target` is whatever messages are delivered to. It may refuse a message, and its state may
change either way.
-/

namespace Patchbay

inductive Message where
  | bang (receiver : String)
  | float (receiver : String) (value : Single)
  | symbol (receiver : String) (name : String)
  | list (receiver selector : String) (atoms : List Atom)
deriving DecidableEq, Repr

namespace Message

/-- Something that takes messages by receiver. -/
class Target (τ : Type) where
  /-- Whether the message was accepted, and the target afterwards. -/
  deliver : Message → τ → Bool × τ

def receiver : Message → String
  | .bang receiver => receiver
  | .float receiver _ => receiver
  | .symbol receiver _ => receiver
  | .list receiver _ _ => receiver

/-- The message that the words of a line stand for; no words stand for none. The word `bang` is a
bang only when nothing follows it. -/
def ofWords? : List String → Option Message
  | [] => none
  | [receiver] => some (.bang receiver)
  | [receiver, word] =>
    if word = "bang" then some (.bang receiver)
    else
      match Atom.ofWord word with
      | .float value => some (.float receiver value)
      | .symbol name => some (.symbol receiver name)
  | receiver :: selector :: args => some (.list receiver selector (args.map Atom.ofWord))

/-- The words after the receiver, each but the first after one space. -/
def payload : Message → String
  | .bang _ => "bang"
  | .float _ value => value.text
  | .symbol _ name => name
  | .list _ selector atoms => atoms.foldl (fun text atom => text ++ " " ++ atom.text) selector

end Message

end Patchbay
