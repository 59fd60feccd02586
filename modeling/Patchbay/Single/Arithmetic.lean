import Patchbay.Single.Rounding
/-!
# Arithmetic on single-precision numbers

Sum and product are the exact results in units, rounded once by `nearest`; `trunc` and
`roundHalfAway` give whole numbers and lose nothing else. `clip` brings a signal into the range from
minus one to one.
-/

namespace Patchbay.Single

/-- The number nearest to an integer. -/
def ofInt (i : Int) : Single :=
  ofMagnitude (decide (i < 0)) (nearest (i.natAbs * unitsPerOne) 1)

/-- The sum. An exact zero is positive unless both terms are negative zeros. -/
def add (x y : Single) : Single :=
  if x.isNaN || y.isNaN then nan
  else if x.isInfinite then
    if y.isInfinite && x.negative != y.negative then nan else x
  else if y.isInfinite then y
  else
    let sum := x.units + y.units
    if sum = 0 then zero (x.negative && y.negative)
    else ofMagnitude (decide (sum < 0)) (nearest sum.natAbs 1)

/-- The product. Its sign is negative when exactly one factor's is. -/
def mul (x y : Single) : Single :=
  let negative := x.negative != y.negative
  if x.isNaN || y.isNaN then nan
  else if x.isInfinite || y.isInfinite then
    if x.magnitude = 0 || y.magnitude = 0 then nan else infinity negative
  else ofMagnitude negative (nearest (unitsOf x.magnitude * unitsOf y.magnitude) unitsPerOne)

instance : Add Single where
  add := add

instance : Mul Single where
  mul := mul

/-- One half, the factor that halves a number. -/
def half : Single := ⟨0x3f000000⟩

/-- The integer part, toward zero; zero for a NaN. -/
def trunc (x : Single) : Int :=
  if x.isNaN then 0 else x.units.tdiv unitsPerOne

/-- The nearest integer, a half away from zero; zero for a NaN. -/
def roundHalfAway (x : Single) : Int :=
  if x.isNaN then 0
  else
    let whole : Int := ((2 * unitsOf x.magnitude + unitsPerOne) / (2 * unitsPerOne) : Nat)
    if x.negative then -whole else whole

/-- The number clipped to the range from minus one to one. A NaN is silence, and a zero keeps its
sign. -/
def clip (x : Single) : Single :=
  if x.isNaN then zero false
  else if x.units < minusOne.units then minusOne
  else if one.units < x.units then one
  else x

end Patchbay.Single
