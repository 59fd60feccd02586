import Patchbay.Single.Basic
/-!
# Rounding to the nearest single-precision number

Every operation is computed exactly and rounded once, by `nearest`, which takes a quotient of
naturals in units. `ofDecimal` reads a decimal that way. Ties go to the even neighbour, and what is
nearer to `2 ^ 128` than to the largest finite number becomes an infinity.
-/

namespace Patchbay.Single

/-- The quotient rounded to the nearest natural, a half to the even one. -/
def roundHalfEven (num den : Nat) : Nat :=
  let quotient := num / den
  let rest := num % den
  if 2 * rest < den then quotient
  else if den < 2 * rest then quotient + 1
  else quotient + quotient % 2

/-- The magnitude nearest to `num / den` units.

With `24` bits kept, the number is `m * 2 ^ shift` units. Then `shift * 2 ^ 23 + m` is its
magnitude: the leading bit of `m` adds the one by which the exponent field exceeds `shift`, and when
rounding carries `m` to `2 ^ 24` the sum moves on to the next exponent by itself. -/
def nearest (num den : Nat) : Nat :=
  let shift := Nat.log2 (num / den) - 23
  min (shift * fractions + roundHalfEven num (den <<< shift)) infinityMagnitude

/-- A power of ten. -/
def powTen (n : Nat) : Nat := Nat.pow 10 n

/-- The number nearest to `digits * 10 ^ exponent`.

The first two tests only spare the work on powers that cannot matter: beyond `10 ^ 50` everything
is infinite, and below `10 ^ (-60)` everything is zero. -/
def ofDecimal (negative : Bool) (digits : Nat) (exponent : Int) : Single :=
  if digits = 0 then zero negative
  else if 50 < exponent then infinity negative
  else if exponent + (Nat.log2 digits + 1 : Nat) < -60 then zero negative
  else
    ofMagnitude negative <|
      nearest (digits * powTen exponent.toNat * unitsPerOne) (powTen (-exponent).toNat)

end Patchbay.Single
