import Mixdown.Text.Integer

/-!
# Decimals read by scaling

A quick reading of decimals: the digits that fit in a word are taken as a double,
which is then multiplied or divided by a power of ten.  Both steps round, so the
result can lie next to the nearest double.
-/

namespace Mixdown.Decimal

/-- Appends digits to a number as long as it fits in a word of 64 bits; gives the
number and the digits that are left over. -/
def takeDigits (value : Nat) : List Char → Nat × List Char
  | [] => (value, [])
  | digit :: rest =>
      let longer := value * 10 + Text.digitsValue [digit]
      if longer < UInt64.size then takeDigits longer rest else (value, digit :: rest)

/-- The double nearest to a power of ten. -/
def powerOfTen (power : Nat) : Float :=
  Float.ofScientific 1 false power

/-- The greatest power of ten among the doubles. -/
def greatestPower : Nat := 308

/-- Divides by a power of ten, in several steps when it is beyond the doubles.
Two such steps leave nothing of a word of 64 bits, so four are enough. -/
def divideByPower : Nat → Float → Nat → Float
  | 0, value, _ => value
  | steps + 1, value, power =>
      if power ≤ greatestPower then
        value / powerOfTen power
      else
        divideByPower steps (value / powerOfTen greatestPower) (power - greatestPower)

/-- A whole number times a power of ten, unless that is infinite. -/
def scale? (significand : UInt64) (power : Int) : Option Float :=
  let value := significand.toFloat
  if power < 0 then
    some (divideByPower 4 value power.natAbs)
  else if power ≤ greatestPower then
    let scaled := value * powerOfTen power.toNat
    if scaled.isInf then none else some scaled
  else if significand = 0 then
    some value
  else
    none

/-- The number `±whole.fraction * 10 ^ power`, given by its digits.  Digits beyond
a word are dropped: those of the whole part count for the scale, and those of the
fraction for nothing. -/
def ofDigitsByScaling? (negative : Bool) (whole fraction : List Char) (power : Int) :
    Option Float :=
  let (leading, dropped) := takeDigits 0 whole
  let (significand, ignored) := takeDigits leading fraction
  let places := fraction.length - ignored.length
  (scale? (UInt64.ofNat significand) (power + dropped.length - places)).map fun value =>
    if negative then -value else value

end Mixdown.Decimal
