import Mixdown.Decimal.Shortest

/-!
# Numbers as text

A `Layout` fixes how the shortest digits of a number are laid out.  `fixed`
writes a given number of places instead.
-/

namespace Mixdown.Decimal

/-- How a number is laid out. -/
structure Layout where
  /-- Numbers whose leading digit stands between these powers of ten are
  written without an exponent; `none` means all numbers are. -/
  plainFrom : Option (Int × Int)
  /-- Whether a whole number in plain form ends in `.0`. -/
  wholePart : Bool
  /-- Which way equally near shortest decimals go. -/
  tie : Tie
deriving DecidableEq, Repr

def zeros (count : Nat) : String :=
  String.ofList (List.replicate count '0')

/-- Digits in plain form, with the point `power` places from their right end. -/
def Layout.plain (style : Layout) (digits : String) (power : Int) : String :=
  let places := (-power).toNat
  if places = 0 then
    digits ++ zeros power.toNat ++ (if style.wholePart then ".0" else "")
  else if places < digits.length then
    let whole := digits.length - places
    String.ofList (digits.toList.take whole) ++ "." ++ String.ofList (digits.toList.drop whole)
  else
    "0." ++ zeros (places - digits.length) ++ digits

/-- Digits with one before the point, and the power of ten after an `e`. -/
def scientific (digits : String) (leading : Int) : String :=
  let mantissa :=
    match digits.toList with
    | [] => ""
    | [single] => String.ofList [single]
    | first :: rest => String.ofList (first :: '.' :: rest)
  let sign := if leading < 0 then "-" else "+"
  mantissa ++ "e" ++ sign ++ toString leading.natAbs

/-- The text of a number. -/
def Layout.write (style : Layout) (value : Float) : String :=
  match Double.ofFloat value with
  | .notANumber => "NaN"
  | .infinite negative => (if negative then "-" else "") ++ "inf"
  | .finite negative mantissa exponent =>
      let sign := if negative then "-" else ""
      if mantissa = 0 then
        sign ++ style.plain "0" 0
      else
        let found := shortest style.tie mantissa exponent
        let digits := toString found.digits
        let leading := found.power + digits.length - 1
        let isPlain :=
          match style.plainFrom with
          | none => true
          | some (least, greatest) => decide (least ≤ leading ∧ leading ≤ greatest)
        sign ++ if isPlain then style.plain digits found.power else scientific digits leading

/-- Numbers in messages and filter options: never an exponent, and no `.0`. -/
def spoken : Layout := ⟨none, false, .up⟩

/-- Numbers in documents: plain from `0.00001` up to sixteen digits before the
point, and always visibly not an integer. -/
def written : Layout := ⟨some (-5, 15), true, .toEven⟩

/-- The quotient to the nearest whole number; a half goes to the even one. -/
def divideToEven (numerator denominator : Nat) : Nat :=
  let quotient := numerator / denominator
  let twice := 2 * (numerator % denominator)
  if denominator < twice ∨ (twice = denominator ∧ quotient % 2 = 1) then
    quotient + 1
  else
    quotient

/-- The text of a number with exactly `places` digits after the point. -/
def fixed (places : Nat) (value : Float) : String :=
  match Double.ofFloat value with
  | .notANumber => "NaN"
  | .infinite negative => (if negative then "-" else "") ++ "inf"
  | .finite negative mantissa exponent =>
      let (twos, twosBelow) := powerOver 2 exponent
      let one := Nat.pow 10 places
      let units := divideToEven (mantissa * twos * one) twosBelow
      let fraction := toString (units % one)
      (if negative then "-" else "") ++ toString (units / one) ++ "." ++
        zeros (places - fraction.length) ++ fraction

end Mixdown.Decimal
