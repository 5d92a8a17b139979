/-!
# The exact value of a double

A finite double is a whole number times a power of two.
-/

namespace Mixdown.Decimal

/-- A double taken apart: `finite` stands for `±mantissa * 2 ^ exponent`. -/
inductive Double where
  | notANumber
  | infinite (negative : Bool)
  | finite (negative : Bool) (mantissa : Nat) (exponent : Int)
deriving DecidableEq, Repr

/-- The exponent of the numbers below the smallest normal one. -/
def leastExponent : Int := -1074

/-- The mantissa of a power of two, where doubles below are twice as dense. -/
def leastNormalMantissa : Nat := 1 <<< 52

def Double.ofBits (bits : Nat) : Double :=
  let negative := bits.testBit 63
  let scale : Nat := bits / leastNormalMantissa % 2048
  let fraction : Nat := bits % leastNormalMantissa
  if scale = 2047 then
    if fraction = 0 then .infinite negative else .notANumber
  else if scale = 0 then
    .finite negative fraction leastExponent
  else
    .finite negative (leastNormalMantissa + fraction) ((scale : Int) - 1075)

def Double.ofFloat (value : Float) : Double :=
  .ofBits value.toBits.toNat

end Mixdown.Decimal
