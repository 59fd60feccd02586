import Patchbay.Sample.Range
/-!
# Stored samples

The integer types in which devices keep their samples. A value beyond the width of the type wraps
around; a device whose range fits its type never stores such a value.
-/

namespace Patchbay

/-- An integer type that samples are kept in. -/
class StoredSample (α : Type) where
  /-- The stored form of an integer, modulo the width. -/
  ofInt : Int → α

instance : StoredSample Int16 where
  ofInt := Int16.ofInt

instance : StoredSample UInt16 where
  ofInt := UInt16.ofInt

instance : StoredSample Int32 where
  ofInt := Int32.ofInt

namespace SampleRange

variable {α : Type} [StoredSample α]

/-- The stored form of one converted sample. -/
def store (r : SampleRange) (sample : Single) : α :=
  StoredSample.ofInt (r.convert sample)

/-- The stored form of silence. -/
def storedSilence (r : SampleRange) : α :=
  StoredSample.ofInt r.silence

end SampleRange

end Patchbay
