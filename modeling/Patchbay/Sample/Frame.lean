/-!
# Stereo frames

A frame is a pair of 16-bit samples that play together. Samples are interleaved, left before right,
and a frame packs into one 32-bit word with the left sample in the low half.
-/

namespace Patchbay

/-- One sample for each of two channels. -/
structure Frame where
  left : Int16
  right : Int16
deriving DecidableEq, Repr, Inhabited

namespace Frame

def silent : Frame := ⟨0, 0⟩

/-- The samples of a frame, left before right. -/
def samples (f : Frame) : List Int16 := [f.left, f.right]

/-- The frames of interleaved samples. A last sample without a partner is left out. -/
def ofSamples : List Int16 → List Frame
  | left :: right :: rest => ⟨left, right⟩ :: ofSamples rest
  | _ => []

/-- The word that holds a frame. -/
def toWord (f : Frame) : UInt32 :=
  UInt32.ofNat (f.left.toUInt16.toNat + UInt16.size * f.right.toUInt16.toNat)

/-- The frame that a word holds. -/
def ofWord (word : UInt32) : Frame where
  left := (UInt16.ofNat (word.toNat % UInt16.size)).toInt16
  right := (UInt16.ofNat (word.toNat / UInt16.size)).toInt16

/-- The words of interleaved samples, one for each frame. -/
def pack (samples : List Int16) : List UInt32 :=
  (ofSamples samples).map toWord

/-- The interleaved samples of words. -/
def unpack (words : List UInt32) : List Int16 :=
  words.flatMap fun word => (ofWord word).samples

end Frame

end Patchbay
