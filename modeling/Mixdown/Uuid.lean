import Mixdown.Datum.Reading
import Mixdown.Text.Hex

/-!
# Universally unique identifiers

An identifier is sixteen bytes, written as 32 hexadecimal digits in five groups.
-/

namespace Mixdown

structure Uuid where
  bytes : List UInt8
  length_bytes : bytes.length = 16
deriving DecidableEq

namespace Uuid

instance : Repr Uuid where
  reprPrec identifier precedence := reprPrec identifier.bytes precedence

def zero : Uuid := ⟨List.replicate 16 0, rfl⟩

instance : Inhabited Uuid := ⟨zero⟩

def ofBytes? (bytes : List UInt8) : Option Uuid :=
  if length_bytes : bytes.length = 16 then some ⟨bytes, length_bytes⟩ else none

/-- Puts hyphens after the 8th, 12th, 16th and 20th of some digits. -/
def hyphenated (digits : List Char) : List Char :=
  digits.take 8 ++ '-' :: (digits.drop 8).take 4 ++ '-' :: (digits.drop 12).take 4 ++
    '-' :: (digits.drop 16).take 4 ++ '-' :: digits.drop 20

def display (identifier : Uuid) : String :=
  String.ofList (hyphenated (Text.hexBytes identifier.bytes))

/-- The identifier of digits in one run or in the usual groups. -/
def ofDigits? (text : List Char) : Option Uuid :=
  let digits := text.filter fun c => c ≠ '-'
  if text = digits ∨ text = hyphenated digits then
    (Text.bytesOfHex? digits).bind ofBytes?
  else
    none

/-- Reads an identifier; one in groups may stand in braces or behind a scheme. -/
def ofText? (text : String) : Option Uuid :=
  let characters := text.toList
  let grouped := fun characters : List Char =>
    if characters.length = 36 then ofDigits? characters else none
  match characters with
  | '\x7b' :: rest => if rest.getLast? = some '\x7d' then grouped rest.dropLast else none
  | 'u' :: 'r' :: 'n' :: ':' :: 'u' :: 'u' :: 'i' :: 'd' :: ':' :: rest => grouped rest
  | characters => ofDigits? characters

def toDatum (identifier : Uuid) : Datum :=
  .text identifier.display

def ofDatum? (datum : Datum) : Option Uuid :=
  datum.text?.bind ofText?

end Uuid

end Mixdown
