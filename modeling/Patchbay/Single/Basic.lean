/-!
# Single-precision numbers

A `Single` is a binary floating-point number of 32 bits: a sign, eight bits of exponent and 23 bits
of fraction. Its bits without the sign are its *magnitude*; larger magnitudes are larger numbers,
and the infinities and the NaNs come last.

Every finite number is a whole multiple of the least positive one, `2 ^ (-149)`. `units` gives that
multiple, so values are compared, added and multiplied as integers, with nothing lost.
-/

namespace Patchbay

/-- A single-precision number, given by its bits. -/
structure Single where
  bits : UInt32
deriving DecidableEq, Repr, Inhabited

namespace Single

/-- The sign bit, `2 ^ 31`. -/
def signBit : Nat := 0x80000000

/-- The fractions of one exponent: `2 ^ 23` magnitudes. -/
def fractions : Nat := 0x800000

/-- The magnitude of the infinities. NaNs lie above it, finite numbers below. -/
def infinityMagnitude : Nat := 0x7f800000

/-- The number with the given sign and magnitude. -/
def ofMagnitude (negative : Bool) (magnitude : Nat) : Single :=
  ⟨UInt32.ofNat (if negative then signBit + magnitude else magnitude)⟩

/-- Whether the sign bit is set, also on a zero or a NaN. -/
def negative (x : Single) : Bool := decide (signBit ≤ x.bits.toNat)

/-- All bits but the sign. -/
def magnitude (x : Single) : Nat := x.bits.toNat % signBit

def isNaN (x : Single) : Bool := decide (infinityMagnitude < x.magnitude)

def isInfinite (x : Single) : Bool := decide (x.magnitude = infinityMagnitude)

def zero (negative : Bool) : Single := ofMagnitude negative 0

def infinity (negative : Bool) : Single := ofMagnitude negative infinityMagnitude

/-- A NaN; which one never shows. -/
def nan : Single := ⟨0x7fc00000⟩

def one : Single := ⟨0x3f800000⟩

def minusOne : Single := ⟨0xbf800000⟩

/-- The units in one: `2 ^ 149` of them make the number 1. -/
def unitsPerOne : Nat := 1 <<< 149

/-- The value of a magnitude in units. Below `2 ^ 23` it is the magnitude itself; above, the
fraction has a leading bit and is scaled by the exponent. -/
def unitsOf (magnitude : Nat) : Nat :=
  let exponent := magnitude / fractions
  if exponent = 0 then magnitude
  else (fractions + magnitude % fractions) <<< (exponent - 1)

/-- The value in units. An infinity counts as `2 ^ 128`, the first power beyond the finite numbers;
a NaN has no meaningful value. -/
def units (x : Single) : Int :=
  if x.negative then -(unitsOf x.magnitude : Int) else unitsOf x.magnitude

end Single

end Patchbay
