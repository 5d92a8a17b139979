import Mixdown.Text.Integer

/-!
# Dates

The written forms of a day, of a time of day, and of both together.  Each function
gives the text after the part that it is named for.
-/

namespace Mixdown.Toml.Date

/-- A number of so many digits, and the text after it. -/
def number? (count : Nat) (text : List Char) : Option (Nat × List Char) :=
  let digits := text.take count
  if digits.length = count ∧ digits.all Char.isDigit then
    some (Text.digitsValue digits, text.drop count)
  else
    none

def mark? (mark : Char) : List Char → Option (List Char)
  | [] => none
  | c :: rest => if c = mark then some rest else none

/-! ## Days -/

def isLeap (year : Nat) : Bool :=
  year % 4 = 0 && (year % 100 ≠ 0 || year % 400 = 0)

def daysIn (year month : Nat) : Nat :=
  if month = 2 then
    if isLeap year then 29 else 28
  else if month = 4 ∨ month = 6 ∨ month = 9 ∨ month = 11 then
    30
  else
    31

def day? (text : List Char) : Option (List Char) := do
  let (year, rest) ← number? 4 text
  let (month, rest) ← number? 2 (← mark? '-' rest)
  let (day, rest) ← number? 2 (← mark? '-' rest)
  if 1 ≤ month ∧ month ≤ 12 ∧ 1 ≤ day ∧ day ≤ daysIn year month then some rest else none

/-! ## Times -/

/-- Parts of a second, which may be missing. -/
def fraction? : List Char → Option (List Char)
  | '.' :: rest =>
      if rest.head?.any Char.isDigit then some (rest.dropWhile Char.isDigit) else none
  | rest => some rest

/-- Seconds, which may be missing; a minute may have one more than sixty. -/
def seconds? : List Char → Option (List Char)
  | ':' :: rest => do
      let (second, rest) ← number? 2 rest
      if second ≤ 60 then fraction? rest else none
  | rest => some rest

def hourAndMinute? (text : List Char) : Option (List Char) := do
  let (hour, rest) ← number? 2 text
  let (minute, rest) ← number? 2 (← mark? ':' rest)
  if hour ≤ 23 ∧ minute ≤ 59 then some rest else none

def time? (text : List Char) : Option (List Char) :=
  (hourAndMinute? text).bind seconds?

/-- What a time is ahead of or behind the time of the prime meridian, which may be
missing. -/
def offset? : List Char → Option (List Char)
  | 'Z' :: rest => some rest
  | 'z' :: rest => some rest
  | '+' :: rest => hourAndMinute? rest
  | '-' :: rest => hourAndMinute? rest
  | rest => some rest

/-! ## Dates -/

/-- Whether a text is a day and nothing else. -/
def isDay (text : List Char) : Bool :=
  day? text = some []

/-- Whether a text begins as dates do: with digits and the mark after them. -/
def looksLikeDate (text : List Char) : Bool :=
  text.head?.any Char.isDigit &&
    (text.dropWhile Char.isDigit).head?.any fun c => c = '-' || c = ':'

/-- Whether a text is a day, a time of day, or a day and a time with or without an
offset. -/
def isDate (text : List Char) : Bool :=
  match day? text with
  | none => time? text = some []
  | some [] => true
  | some (c :: rest) =>
      (c = 'T' || c = 't' || c = ' ') && (time? rest).bind offset? = some []

end Mixdown.Toml.Date
