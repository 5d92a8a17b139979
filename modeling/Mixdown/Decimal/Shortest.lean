import Mixdown.Decimal.Double

/-!
# The shortest decimal that reads back

Every double is the nearest one to a whole interval of numbers.  The coarsest
decimal grid with a point in that interval gives the shortest decimal; of two
such points the nearer one is taken.
-/

namespace Mixdown.Decimal

/-- Which neighbour a number half-way between two takes. -/
inductive Tie where
  | toEven
  | up
deriving DecidableEq, Repr

/-- The decimal `digits * 10 ^ power`. -/
structure Digits where
  digits : Nat
  power : Int
deriving DecidableEq, Repr

/-- A power as a factor above and a factor below a fraction line. -/
def powerOver (base : Nat) (power : Int) : Nat × Nat :=
  (base.pow power.toNat, base.pow (-power).toNat)

/-- The best point on the grid of step `10 ^ power` among the numbers that read
back as `mantissa * 2 ^ exponent`.  All are measured in a common unit, with the
value itself at `4 * mantissa` quarter steps of its binade. -/
def gridPoint? (tie : Tie) (mantissa : Nat) (exponent power : Int) : Option Digits :=
  let (twos, twosBelow) := powerOver 2 (exponent - 2)
  let (tens, tensBelow) := powerOver 10 power
  let quarter := twos * tensBelow
  let step := tens * twosBelow
  let reach := if mantissa = leastNormalMantissa ∧ exponent ≠ leastExponent then 1 else 2
  let value := 4 * mantissa * quarter
  let low := (4 * mantissa - reach) * quarter
  let high := (4 * mantissa + 2) * quarter
  let readsBack := fun point : Nat =>
    if mantissa % 2 = 0 then
      decide (low ≤ point * step ∧ point * step ≤ high)
    else
      decide (low < point * step ∧ point * step < high)
  let below := value / step
  let above := below + 1
  let belowReads := readsBack below
  let aboveReads := readsBack above
  let fromBelow := value - below * step
  let toAbove := above * step - value
  let preferBelow :=
    fromBelow < toAbove || (fromBelow = toAbove && tie = .toEven && below % 2 = 0)
  if belowReads && (!aboveReads || preferBelow) then
    some ⟨below, power⟩
  else if aboveReads then
    some ⟨above, power⟩
  else
    none

/-- A power of ten above `mantissa * 2 ^ exponent`, at most two places above
its leading digit. -/
def powerAbove (mantissa : Nat) (exponent : Int) : Int :=
  (Nat.log2 mantissa + 1 + exponent) * 30103 / 100000 + 1

/-- Looks for a point on ever finer grids. -/
def searchGrids (tie : Tie) (mantissa : Nat) (exponent : Int) : Nat → Int → Digits
  | 0, power => ⟨mantissa, power⟩
  | steps + 1, power =>
      match gridPoint? tie mantissa exponent power with
      | some found => found
      | none => searchGrids tie mantissa exponent steps (power - 1)

/-- The shortest decimal that reads back as `mantissa * 2 ^ exponent`, which is
not zero.  Seventeen digits always suffice, so twenty grids do. -/
def shortest (tie : Tie) (mantissa : Nat) (exponent : Int) : Digits :=
  searchGrids tie mantissa exponent 20 (powerAbove mantissa exponent)

end Mixdown.Decimal
