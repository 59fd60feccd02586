/-!
# Platform limits

The fixed numbers and names of the platform: sizes of buffers and tables, accepted rates, and the
patch that is tried first.
-/

namespace Patchbay.Limits

/-- Frames of one engine tick when the engine does not say otherwise. -/
def engineBlock : Nat := 64

/-- Output sample rate in Hz when the boot options name none. -/
def defaultSampleRate : Nat := 48000

/-- Lowest accepted sample rate in Hz. -/
def minSampleRate : Nat := 22050

/-- Highest accepted sample rate in Hz. -/
def maxSampleRate : Nat := 192000

/-- Frames per chunk of the outputs that pull. -/
def defaultChunkFrames : Nat := 384 * 4

/-- Depth of a pushed queue, in milliseconds of audio. -/
def defaultQueueDepthMs : Nat := 20

/-- Longest line of control text in bytes. Reading does not count the terminator, writing does. -/
def maxLineBytes : Nat := 256

/-- Most words kept of one line of control text. -/
def maxLineWords : Nat := 32

/-- Slots of the file table. -/
def maxOpenFiles : Nat := 8

/-- Descriptor of the first slot; 0 to 2 are the standard streams. -/
def firstDescriptor : Nat := 10

/-- Longest normalized path, in bytes, that the file table stores. -/
def maxPathBytes : Nat := 64

/-- Largest patch in bytes. -/
def maxPatchBytes : Nat := 256 * 1024

/-- The patch tried first at startup. -/
def defaultPatch : String := "main.pd"

end Patchbay.Limits
