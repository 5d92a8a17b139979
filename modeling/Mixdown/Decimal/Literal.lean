import Mixdown.Text.Integer

/-!
# Decimal literals

The double nearest to a decimal, with the decimals beyond all doubles refused.
-/

namespace Mixdown.Decimal

/-- The double nearest to `±digits * 10 ^ power`, unless that is infinite.
Decimals far outside the range of doubles are settled by their leading digit. -/
def nearest? (negative : Bool) (digits : Nat) (power : Int) : Option Float :=
  let leading := power + (toString digits).length
  let magnitude :=
    if digits = 0 ∨ leading < -400 then
      some 0.0
    else if 400 < leading then
      none
    else
      let value := Float.ofScientific digits (decide (power < 0)) power.natAbs
      if value.isFinite then some value else none
  magnitude.map fun value => if negative then -value else value

/-- The double nearest to `±whole.fraction * 10 ^ power`, given by its digits. -/
def ofDigits? (negative : Bool) (whole fraction : List Char) (power : Int) : Option Float :=
  nearest? negative (Text.digitsValue (whole ++ fraction)) (power - fraction.length)

/-- An integer as the nearest double. -/
def ofInteger (value : Int) : Float :=
  let magnitude := value.natAbs.toUInt64.toFloat
  if value < 0 then -magnitude else magnitude

end Mixdown.Decimal
