import Mixdown.Datum.Basic
import Mixdown.Decimal.Literal
import Mixdown.Text.Hex

/-!
# Numbers

An integer is admitted by its first characters and its underscores alone, so a
document may hold integers without a value; they are unreadable.  Numbers with a
point or an exponent are looked at to their end.
-/

namespace Mixdown.Toml.Number

/-! ## Underscores -/

/-- Whether every underscore stands between two digits. -/
def marksFit (isDigit : Char → Bool) : List Char → Bool
  | [] => true
  | '_' :: _ => false
  | c :: '_' :: rest => isDigit c && rest.head?.any isDigit && marksFit isDigit rest
  | _ :: rest => marksFit isDigit rest

def withoutMarks (text : List Char) : List Char :=
  text.filter fun c => c ≠ '_'

def isDigitOrMark (c : Char) : Bool :=
  c.isDigit || c = '_'

/-! ## Signs -/

def isSign (c : Char) : Bool :=
  c = '-' || c = '+'

/-- A number without its sign, and whether that is a minus. -/
def signed : List Char → Bool × List Char
  | '-' :: rest => (true, rest)
  | '+' :: rest => (false, rest)
  | text => (false, text)

/-- As `marksFit`, but an underscore may also stand between the sign of a number and
its first digit. -/
def signedMarksFit (isDigit : Char → Bool) : List Char → Bool
  | c :: '_' :: rest =>
      if isSign c then
        rest.head?.any isDigit && marksFit isDigit rest
      else
        marksFit isDigit (c :: '_' :: rest)
  | text => marksFit isDigit text

/-! ## Integers -/

/-- An integer, which has no value beyond words of 128 bits. -/
def ofInt (value : Int) : Datum :=
  if -((1 <<< 127 : Nat) : Int) ≤ value ∧ value < (1 <<< 128 : Nat) then
    .integer value
  else
    .unreadable

/-- The value of digits in a base. -/
def valueIn (base : Nat) (digits : List Char) : Nat :=
  digits.foldl (fun value digit => value * base + (Text.hexValue? digit).getD 0) 0

/-- The digits of an integer in a base after the mark of the base; without digits it
has no value. -/
def inBase? (base : Nat) (text : List Char) : Option Datum :=
  let isDigit := fun c => (Text.hexValue? c).any fun value => value < base
  let digits := withoutMarks text
  if digits.all isDigit ∧ marksFit isDigit text then
    some (if digits.isEmpty then .unreadable else ofInt (valueIn base digits))
  else
    none

/-- An integer in decimal digits.  After its first underscore there may be anything,
if only no underscore is out of place; as it is not known yet in which base the
digits are, those of all bases count. -/
def decimal? (text : List Char) : Option Datum :=
  let (negative, body) := signed text
  let leadingZero := body.head? = some '0' && body ≠ ['0']
  let begun := body ≠ [] && (body.dropWhile Char.isDigit).head?.all (· = '_')
  if begun && !leadingZero && signedMarksFit (fun c => (Text.hexValue? c).isSome) text then
    let digits := withoutMarks body
    if digits.all Char.isDigit then
      let value := Text.digitsValue digits
      some (ofInt (if negative then -value else value))
    else
      some .unreadable
  else
    none

/-! ## Fractions and exponents -/

def isExponentMark (c : Char) : Bool :=
  c = 'e' || c = 'E'

/-- Whether a text is written as a number with a point or an exponent. -/
def hasFloatForm (text : List Char) : Bool :=
  text.any fun c => c = '.' || isExponentMark c

/-- Decimal digits among underscores. -/
def isRun (text : List Char) : Bool :=
  text.all isDigitOrMark && text.any Char.isDigit

/-- Digits before a point or an exponent, of which a zero leads no others. -/
def isWhole (text : List Char) : Bool :=
  isRun text && (text.head? ≠ some '0' || (withoutMarks text).length = 1)

/-- A number with a point or an exponent. -/
def float? (text : List Char) : Option Datum :=
  let (negative, body) := signed text
  let mantissa := body.takeWhile fun c => !isExponentMark c
  let whole := mantissa.takeWhile (· ≠ '.')
  let fraction? := (mantissa.dropWhile (· ≠ '.')).tail?
  let exponent? := (body.dropWhile fun c => !isExponentMark c).tail?
  let (exponentNegative, exponent) := signed (exponent?.getD ['0'])
  if isWhole whole && fraction?.all isRun && isRun exponent &&
      signedMarksFit Char.isDigit text then
    let power : Int := Text.digitsValue (withoutMarks exponent)
    match Decimal.ofDigits? negative (withoutMarks whole) (withoutMarks (fraction?.getD []))
        (if exponentNegative then -power else power) with
    | some value => some (.number value)
    | none => some .unreadable
  else
    none

/-- One of the numbers that have no digits. -/
def special? (text : List Char) : Option Datum :=
  let (negative, body) := signed text
  if body = ['i', 'n', 'f'] then
    some (.number (if negative then -1.0 / 0.0 else 1.0 / 0.0))
  else if body = ['n', 'a', 'n'] then
    some (.number (0.0 / 0.0))
  else
    none

/-! ## Numbers of all forms -/

/-- The number that a text is. -/
def datum? (text : List Char) : Option Datum :=
  match text with
  | '0' :: 'x' :: digits => inBase? 16 digits
  | '0' :: 'o' :: digits => inBase? 8 digits
  | '0' :: 'b' :: digits => inBase? 2 digits
  | _ =>
      if hasFloatForm text then float? text
      else special? text <|> decimal? text

end Mixdown.Toml.Number
