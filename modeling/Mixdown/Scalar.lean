/-!
# The arithmetic of lengths

Clip and track lengths are computed in a `Scalar`.  Running programs use
doubles; the same rules read over the rationals are exact.
-/

namespace Mixdown

/-- Numbers that lengths, bounds and volumes are computed in. -/
class Scalar (α : Type) extends Zero α, Add α, Sub α, Mul α, Div α, LT α, LE α where
  /-- What a running total starts from. -/
  origin : α
  /-- A count of clips as a number to divide by. -/
  ofCount : Nat → α
  /-- A total up to this size is too small to divide by. -/
  negligible : α
  abs : α → α
  isFinite : α → Bool
  decidableLT : DecidableLT α
  decidableLE : DecidableLE α

namespace Scalar

variable {α : Type} [Scalar α]

instance : DecidableLT α := decidableLT

instance : DecidableLE α := decidableLE

/-- The total of a list, added from the left. -/
def sum (values : List α) : α :=
  values.foldl (· + ·) origin

/-- The smaller of two numbers; one that is not a number loses. -/
def lesser (left right : α) : α :=
  if left < right then left else if right ≤ right then right else left

/-- The larger of two numbers; one that is not a number loses. -/
def greater (left right : α) : α :=
  if right < left then left else if right ≤ right then right else left

end Scalar

/-- Doubles: the running total starts from negative zero, which leaves the
sign of every sum as it is. -/
instance : Scalar Float where
  zero := 0.0
  origin := -0.0
  ofCount := fun count => count.toUInt64.toFloat
  negligible := Float.ofScientific 2220446049250313 true 31
  abs := Float.abs
  isFinite := Float.isFinite
  decidableLT := inferInstance
  decidableLE := inferInstance

instance : Scalar Rat where
  zero := 0
  origin := 0
  ofCount := fun count => count
  negligible := mkRat 1 4503599627370496
  abs := Rat.abs
  isFinite := fun _ => true
  decidableLT := inferInstance
  decidableLE := inferInstance

end Mixdown
