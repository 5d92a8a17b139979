import Mixdown.Datum.Basic
import Mixdown.Decimal.Layout
import Mixdown.Text.Hex

/-!
# Writing JSON

A datum in its compact form, or in a form with one item or field a line.
-/

namespace Mixdown.Json

/-! ## Strings -/

/-- A character inside a string.  Only quotes, backslashes and controls below the
space are escaped. -/
def escape (c : Char) : List Char :=
  match c with
  | '"' => ['\\', '"']
  | '\\' => ['\\', '\\']
  | '\x08' => ['\\', 'b']
  | '\x0c' => ['\\', 'f']
  | '\n' => ['\\', 'n']
  | '\r' => ['\\', 'r']
  | '\t' => ['\\', 't']
  | c =>
      if c.toNat < 0x20 then
        ['\\', 'u', '0', '0', Text.hexDigit (c.toNat / 16), Text.hexDigit (c.toNat % 16)]
      else
        [c]

def quoted (text : String) : String :=
  String.ofList ('"' :: text.toList.flatMap escape ++ ['"'])

/-- The text of a value that has no parts. -/
def leaf : Datum → String
  | .bool true => "true"
  | .bool false => "false"
  | .integer value => toString value
  | .number value => Decimal.written.write value
  | .text value => quoted value
  | _ => "null"

/-! ## Compact text -/

mutual

def compact : Datum → String
  | .list [] => "[]"
  | .list (first :: rest) => "[" ++ compact first ++ compactItems rest ++ "]"
  | .record [] => "\x7b\x7d"
  | .record ((key, value) :: rest) =>
      "\x7b" ++ quoted key ++ ":" ++ compact value ++ compactFields rest ++ "\x7d"
  | datum => leaf datum

def compactItems : List Datum → String
  | [] => ""
  | item :: rest => "," ++ compact item ++ compactItems rest

def compactFields : List (String × Datum) → String
  | [] => ""
  | (key, value) :: rest =>
      "," ++ quoted key ++ ":" ++ compact value ++ compactFields rest

end

/-! ## Text with one item a line -/

/-- A new line, indented by two spaces a level. -/
def newLine (level : Nat) : String :=
  "\n" ++ String.ofList (List.replicate (2 * level) ' ')

mutual

def prettyAt (level : Nat) : Datum → String
  | .list [] => "[]"
  | .list (first :: rest) =>
      "[" ++ newLine (level + 1) ++ prettyAt (level + 1) first ++
        prettyItems (level + 1) rest ++ newLine level ++ "]"
  | .record [] => "\x7b\x7d"
  | .record ((key, value) :: rest) =>
      "\x7b" ++ newLine (level + 1) ++ quoted key ++ ": " ++ prettyAt (level + 1) value ++
        prettyFields (level + 1) rest ++ newLine level ++ "\x7d"
  | datum => leaf datum

def prettyItems (level : Nat) : List Datum → String
  | [] => ""
  | item :: rest => "," ++ newLine level ++ prettyAt level item ++ prettyItems level rest

def prettyFields (level : Nat) : List (String × Datum) → String
  | [] => ""
  | (key, value) :: rest =>
      "," ++ newLine level ++ quoted key ++ ": " ++ prettyAt level value ++
        prettyFields level rest

end

def pretty (datum : Datum) : String :=
  prettyAt 0 datum

end Mixdown.Json
