import Mixdown.Datum.Basic
import Mixdown.Decimal.Scaling
import Mixdown.Text.Hex

/-!
# Reading JSON

`Json.read?` accepts exactly the texts of the JSON grammar.  A value that no
reader could hold is well formed all the same and becomes `Datum.unreadable`, so
that it can still be ignored.
-/

namespace Mixdown.Json

/-- How many lists and records may be open at once. -/
def deepest : Nat := 127

def isSpace (c : Char) : Bool :=
  c = ' ' || c = '\n' || c = '\t' || c = '\r'

def skipSpace (text : List Char) : List Char :=
  text.dropWhile isSpace

/-! ## Strings -/

/-- One element of a string: a character, or an escaped UTF-16 unit. -/
inductive Element where
  | char (c : Char)
  | unit (value : Nat)
deriving DecidableEq, Repr

def escaped? : Char → Option Char
  | '"' => some '"'
  | '\\' => some '\\'
  | '/' => some '/'
  | 'b' => some '\x08'
  | 'f' => some '\x0c'
  | 'n' => some '\n'
  | 'r' => some '\r'
  | 't' => some '\t'
  | _ => none

/-- The elements up to the closing quote, and the text after it. -/
def elements : List Char → Option (List Element × List Char)
  | [] => none
  | '"' :: rest => some ([], rest)
  | '\\' :: 'u' :: a :: b :: c :: d :: rest => do
      let value ← Text.hex? [a, b, c, d]
      let (others, rest) ← elements rest
      return (.unit value :: others, rest)
  | '\\' :: letter :: rest => do
      let c ← escaped? letter
      let (others, rest) ← elements rest
      return (.char c :: others, rest)
  | c :: rest =>
      if c.toNat < 0x20 || c = '\\' then
        none
      else do
        let (others, rest) ← elements rest
        return (.char c :: others, rest)

/-- The text of a string, unless it holds half a surrogate pair. -/
def joinUnits : List Element → Option (List Char)
  | [] => some []
  | .char c :: rest => (joinUnits rest).map (c :: ·)
  | .unit high :: .unit low :: rest =>
      if 0xd800 ≤ high ∧ high < 0xdc00 then
        if 0xdc00 ≤ low ∧ low < 0xe000 then
          let code := 0x10000 + (high - 0xd800) * 0x400 + (low - 0xdc00)
          (joinUnits rest).map (Char.ofNat code :: ·)
        else
          none
      else if 0xdc00 ≤ high ∧ high < 0xe000 then
        none
      else
        (joinUnits (.unit low :: rest)).map (Char.ofNat high :: ·)
  | .unit value :: rest =>
      if 0xd800 ≤ value ∧ value < 0xe000 then
        none
      else
        (joinUnits rest).map (Char.ofNat value :: ·)

/-- A string after its opening quote; its text is missing when unreadable. -/
def string (text : List Char) : Option (Option String × List Char) :=
  (elements text).map fun (found, rest) => ((joinUnits found).map String.ofList, rest)

/-! ## Numbers -/

/-- At least one digit, and what follows the digits. -/
def digits (text : List Char) : Option (List Char × List Char) :=
  let found := text.takeWhile Char.isDigit
  if found.isEmpty then none else some (found, text.dropWhile Char.isDigit)

/-- Digits without a leading zero, unless it is the only one. -/
def wholeDigits (text : List Char) : Option (List Char × List Char) := do
  let (found, rest) ← digits text
  if found.head? = some '0' ∧ 1 < found.length then none else return (found, rest)

/-- The digits after a point, if there is one. -/
def fractionDigits : List Char → Option (Option (List Char) × List Char)
  | '.' :: rest => (digits rest).map fun (found, rest) => (some found, rest)
  | text => some (none, text)

/-- The power of ten after a mark, if there is one. -/
def exponentPart (text : List Char) : Option (Option Int × List Char) :=
  let signed := fun (text : List Char) =>
    match text with
    | '-' :: rest => (digits rest).map fun (found, rest) =>
        (some (-(Text.digitsValue found : Int)), rest)
    | '+' :: rest => (digits rest).map fun (found, rest) =>
        (some (Text.digitsValue found : Int), rest)
    | _ => (digits text).map fun (found, rest) => (some (Text.digitsValue found : Int), rest)
  match text with
  | 'e' :: rest => signed rest
  | 'E' :: rest => signed rest
  | _ => some (none, text)

/-- The value of a numeral.  Without point and exponent it is an integer, if that
fits in a word of 64 bits and is not negative zero. -/
def numeralValue (negative : Bool) (whole : List Char) (fraction : Option (List Char))
    (exponent : Option Int) : Datum :=
  let magnitude := Text.digitsValue whole
  let value : Int := if negative then -magnitude else magnitude
  let isInteger := fraction.isNone && exponent.isNone && !(negative && magnitude = 0) &&
    decide (Int64.minValue.toInt ≤ value ∧ value < UInt64.size)
  if isInteger then
    .integer value
  else
    match Decimal.ofDigitsByScaling? negative whole (fraction.getD []) (exponent.getD 0) with
    | some number => .number number
    | none => .unreadable

/-- A numeral after its sign. -/
def numeral (negative : Bool) (text : List Char) : Option (Datum × List Char) := do
  let (whole, rest) ← wholeDigits text
  let (fraction, rest) ← fractionDigits rest
  let (exponent, rest) ← exponentPart rest
  return (numeralValue negative whole fraction exponent, rest)

/-! ## Values -/

/-- A record, unless one of its keys is unreadable. -/
def recordOf (fields : List (Option String × Datum)) : Datum :=
  match fields.mapM fun field => field.1.map fun key => (key, field.2) with
  | some fields => .record fields
  | none => .unreadable

mutual

/-- One value at the start of a text, and the rest.  `room` lists and records may
still be opened, and `fuel` bounds the values to be read. -/
def value (fuel room : Nat) (text : List Char) : Option (Datum × List Char) :=
  match fuel with
  | 0 => none
  | fuel + 1 =>
      match skipSpace text with
      | 'n' :: 'u' :: 'l' :: 'l' :: rest => some (.null, rest)
      | 't' :: 'r' :: 'u' :: 'e' :: rest => some (.bool true, rest)
      | 'f' :: 'a' :: 'l' :: 's' :: 'e' :: rest => some (.bool false, rest)
      | '"' :: rest =>
          (string rest).map fun (found, rest) =>
            (match found with
              | some text => .text text
              | none => .unreadable, rest)
      | '[' :: rest => do
          let (found, rest) ←
            match skipSpace rest with
            | ']' :: rest => some ([], rest)
            | rest => items fuel (room - 1) rest
          return (if room = 0 then .unreadable else .list found, rest)
      | '{' :: rest => do
          let (found, rest) ←
            match skipSpace rest with
            | '}' :: rest => some ([], rest)
            | rest => fields fuel (room - 1) rest
          return (if room = 0 then .unreadable else recordOf found, rest)
      | '-' :: rest => numeral true rest
      | rest => numeral false rest

/-- Values separated by commas, up to the closing bracket. -/
def items (fuel room : Nat) (text : List Char) : Option (List Datum × List Char) :=
  match fuel with
  | 0 => none
  | fuel + 1 => do
      let (first, rest) ← value fuel room text
      match skipSpace rest with
      | ']' :: rest => return ([first], rest)
      | ',' :: rest => do
          let (others, rest) ← items fuel room rest
          return (first :: others, rest)
      | _ => none

/-- Keys with their values, separated by commas, up to the closing brace. -/
def fields (fuel room : Nat) (text : List Char) :
    Option (List (Option String × Datum) × List Char) :=
  match fuel with
  | 0 => none
  | fuel + 1 =>
      match skipSpace text with
      | '"' :: rest => do
          let (key, rest) ← string rest
          match skipSpace rest with
          | ':' :: rest => do
              let (first, rest) ← value fuel room rest
              match skipSpace rest with
              | '}' :: rest => return ([(key, first)], rest)
              | ',' :: rest => do
                  let (others, rest) ← fields fuel room rest
                  return ((key, first) :: others, rest)
              | _ => none
          | _ => none
      | _ => none

end

/-- The value a text consists of.  Every value and every list or record that is
entered takes at least one character, which bounds the recursion. -/
def read? (text : List Char) : Option Datum :=
  match value (2 * text.length + 2) deepest text with
  | some (found, rest) => if (skipSpace rest).isEmpty then some found else none
  | none => none

/-- The value that bytes consist of, which must be UTF-8. -/
def readBytes? (bytes : ByteArray) : Option Datum :=
  (String.fromUTF8? bytes).bind fun text => read? text.toList

end Mixdown.Json
