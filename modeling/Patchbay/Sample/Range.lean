import Patchbay.Single.Arithmetic
/-!
# Sample ranges

A device takes integers from a range: either a biased one with silence in the middle, such as the
duty cycles of a PWM channel, or a symmetric one around zero. `convert` clips a signal to the range
from minus one to one and maps it into the range, with single precision in every step.

The bounds are signed 32-bit integers, and so is the distance between them.
-/

namespace Patchbay

/-- The integers that a device takes. -/
inductive SampleRange where
  /-- All integers between two bounds, with silence in the middle. -/
  | biased (low high : Int)
  /-- All integers up to a greatest absolute value. -/
  | signed (fullScale : Int)
deriving DecidableEq, Repr

namespace SampleRange

/-- Signed 16-bit samples. -/
def signed16 : SampleRange := .signed 32767

/-- The duty cycles of a PWM channel with the given greatest duty. -/
def pwm (maxDuty : UInt16) : SampleRange := .biased 0 maxDuty.toNat

/-- The least member. -/
def low : SampleRange → Int
  | .biased low _ => low
  | .signed fullScale => -fullScale

/-- The greatest member. -/
def high : SampleRange → Int
  | .biased _ high => high
  | .signed fullScale => fullScale

instance : Membership Int SampleRange where
  mem r value := r.low ≤ value ∧ value ≤ r.high

instance (value : Int) (r : SampleRange) : Decidable (value ∈ r) :=
  inferInstanceAs (Decidable (r.low ≤ value ∧ value ≤ r.high))

/-- A range that a device can use: it has more than one member. -/
def Valid : SampleRange → Prop
  | .biased low high => low < high
  | .signed fullScale => 0 < fullScale

instance (r : SampleRange) : Decidable r.Valid := by
  cases r <;> exact inferInstanceAs (Decidable (_ < _))

/-- The value of a device at rest. The middle of an odd span is rounded toward the lower bound. -/
def silence : SampleRange → Int
  | .biased low high => low + (high - low).tdiv 2
  | .signed _ => 0

/-- The nearest signed 32-bit integer. -/
def saturate32 (value : Int) : Int :=
  max Int32.minValue.toInt (min Int32.maxValue.toInt value)

/-- The member of the range for one sample of a signal.

In a biased range half the span is the amplitude, and the result is rounded and kept within the
bounds; in a symmetric range it is cut off toward zero. -/
def convert (r : SampleRange) (sample : Single) : Int :=
  let sample := sample.clip
  match r with
  | .biased low high =>
    let amplitude := Single.ofInt (high - low) * Single.half
    let value := Single.ofInt low + amplitude + sample * amplitude
    max low (min high (saturate32 value.roundHalfAway))
  | .signed fullScale => saturate32 (sample * Single.ofInt fullScale).trunc

/-- Converts a sample, or refuses when the bounds of the range are in the wrong order, so that no
value lies within them. -/
def convert? (r : SampleRange) (sample : Single) : Option Int :=
  match r with
  | .biased low high => if high < low then none else some (r.convert sample)
  | .signed _ => some (r.convert sample)

/-- The range as log records show it. -/
def describe : SampleRange → String
  | .biased low high => "Biased \x7b min: " ++ toString low ++ ", max: " ++ toString high ++ " \x7d"
  | .signed fullScale => "Signed \x7b full_scale: " ++ toString fullScale ++ " \x7d"

end SampleRange

end Patchbay
