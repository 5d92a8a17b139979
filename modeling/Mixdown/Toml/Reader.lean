import Mixdown.Toml.Date
import Mixdown.Toml.Number
import Mixdown.Toml.Tree

/-!
# Reading TOML

A document is a sequence of key/value pairs and headers, one a line.
-/

namespace Mixdown.Toml

/-! ## Space -/

def isSpace (c : Char) : Bool :=
  c = ' ' || c = '\t'

def skipSpace (text : List Char) : List Char :=
  text.dropWhile isSpace

/-- Characters that may not stand in comments and strings. -/
def isControl (c : Char) : Bool :=
  (c.toNat < 0x20 && c ≠ '\t') || c.toNat = 0x7f

/-- The text after the end of a line. -/
def newline? : List Char → Option (List Char)
  | '\n' :: rest => some rest
  | '\r' :: '\n' :: rest => some rest
  | _ => none

/-- Skips a comment, up to the end of its line. -/
def comment : List Char → Option (List Char)
  | [] => some []
  | c :: rest =>
      if (newline? (c :: rest)).isSome then some (c :: rest)
      else if isControl c then none
      else comment rest

/-- Skips spaces and a comment. -/
def skipToLineEnd (text : List Char) : Option (List Char) :=
  match skipSpace text with
  | '#' :: rest => comment rest
  | rest => some rest

/-- Skips spaces, comments and line ends; each of `fuel` steps ends a line. -/
def skipLines : Nat → List Char → Option (List Char)
  | 0, text => some text
  | fuel + 1, text => do
      let rest ← skipToLineEnd text
      match newline? rest with
      | some rest => skipLines fuel rest
      | none => return rest

/-- Skips all that may stand between the items of a list. -/
def skipBetween (text : List Char) : Option (List Char) :=
  skipLines text.length text

/-! ## Strings -/

/-- The character with a code of some hexadecimal digits. -/
def scalar? (digits : List Char) : Option Char := do
  let code ← Text.hex? digits
  if code < 0xd800 ∨ (0xdfff < code ∧ code < 0x110000) then return Char.ofNat code else none

/-- An escape after its backslash, and the rest. -/
def escape : List Char → Option (Char × List Char)
  | 'b' :: rest => some ('\x08', rest)
  | 't' :: rest => some ('\t', rest)
  | 'n' :: rest => some ('\n', rest)
  | 'f' :: rest => some ('\x0c', rest)
  | 'r' :: rest => some ('\r', rest)
  | 'e' :: rest => some ('\x1b', rest)
  | '"' :: rest => some ('"', rest)
  | '\\' :: rest => some ('\\', rest)
  | 'x' :: a :: b :: rest => (scalar? [a, b]).map fun c => (c, rest)
  | 'u' :: a :: b :: c :: d :: rest => (scalar? [a, b, c, d]).map fun c => (c, rest)
  | 'U' :: a :: b :: c :: d :: e :: f :: g :: h :: rest =>
      (scalar? [a, b, c, d, e, f, g, h]).map fun c => (c, rest)
  | _ => none

/-- A string of one line after its opening quote. -/
def basicString : Nat → List Char → Option (List Char × List Char)
  | 0, _ => none
  | fuel + 1, text =>
      match text with
      | '"' :: rest => some ([], rest)
      | '\\' :: rest => do
          let (c, rest) ← escape rest
          let (others, rest) ← basicString fuel rest
          return (c :: others, rest)
      | c :: rest =>
          if isControl c then
            none
          else do
            let (others, rest) ← basicString fuel rest
            return (c :: others, rest)
      | [] => none

/-- A string without escapes after its opening quote. -/
def literalString : List Char → Option (List Char × List Char)
  | [] => none
  | c :: rest =>
      if c = '\'' then
        some ([], rest)
      else if isControl c then
        none
      else do
        let (others, rest) ← literalString rest
        return (c :: others, rest)

/-- The quotes that close a long string, with up to two more before them that belong
to it. -/
def closingQuotes (quote : Char) (text : List Char) : Option (List Char × List Char) :=
  let run := (text.takeWhile (· = quote)).length
  if 3 ≤ run then
    let more := min (run - 3) 2
    some (List.replicate more quote, text.drop (more + 3))
  else
    none

/-- Skips spaces and line ends. -/
def skipBlanks : List Char → List Char
  | [] => []
  | '\n' :: rest => skipBlanks rest
  | '\r' :: '\n' :: rest => skipBlanks rest
  | c :: rest => if isSpace c then skipBlanks rest else c :: rest

/-- Skips a backslash at the end of a line with all blanks up to the next text. -/
def lineContinuation? (text : List Char) : Option (List Char) :=
  (newline? (skipSpace text)).map skipBlanks

/-- A string of several lines after its opening quotes. -/
def longString (quote : Char) (escapes : Bool) :
    Nat → List Char → Option (List Char × List Char)
  | 0, _ => none
  | fuel + 1, text =>
      match closingQuotes quote text with
      | some closed => some closed
      | none =>
          match text with
          | [] => none
          | c :: rest =>
              if escapes ∧ c = '\\' then
                match lineContinuation? rest with
                | some rest => longString quote escapes fuel rest
                | none => do
                    let (c, rest) ← escape rest
                    let (others, rest) ← longString quote escapes fuel rest
                    return (c :: others, rest)
              else if isControl c ∧ (newline? text).isNone then
                none
              else do
                let (others, rest) ← longString quote escapes fuel rest
                return (c :: others, rest)

/-- A line end right after the opening quotes of a long string does not count. -/
def afterOpening (text : List Char) : List Char :=
  (newline? text).getD text

/-- A string of any kind. -/
def string (text : List Char) : Option (List Char × List Char) :=
  match text with
  | '"' :: '"' :: '"' :: rest => longString '"' true (rest.length + 1) (afterOpening rest)
  | '\'' :: '\'' :: '\'' :: rest => longString '\'' false (rest.length + 1) (afterOpening rest)
  | '"' :: rest => basicString (rest.length + 1) rest
  | '\'' :: rest => literalString rest
  | _ => none

/-! ## Keys -/

def isBare (c : Char) : Bool :=
  c.isAlphanum || c = '_' || c = '-'

/-- A key that is not dotted. -/
def simpleKey (text : List Char) : Option (String × List Char) :=
  match text with
  | '"' :: rest =>
      (basicString (rest.length + 1) rest).map fun (key, rest) => (String.ofList key, rest)
  | '\'' :: rest => (literalString rest).map fun (key, rest) => (String.ofList key, rest)
  | _ =>
      let key := text.takeWhile isBare
      if key.isEmpty then none else some (String.ofList key, text.dropWhile isBare)

/-- A key with dots: the keys that lead to its last part, and that part. -/
def dottedKey : Nat → List Char → Option ((List String × String) × List Char)
  | 0, _ => none
  | fuel + 1, text => do
      let (key, rest) ← simpleKey (skipSpace text)
      match skipSpace rest with
      | '.' :: rest => do
          let ((path, last), rest) ← dottedKey fuel rest
          return ((key :: path, last), rest)
      | rest => return (([], key), rest)

/-- How deep lists and tables in braces may lie in each other, and how many parts a
key may have. -/
def maxDepth : Nat := 80

def key (text : List Char) : Option ((List String × String) × List Char) := do
  let ((path, last), rest) ← dottedKey (text.length + 1) text
  if path.length < maxDepth then some ((path, last), rest) else none

/-! ## Atoms -/

/-- A date, which takes the form of a record that has no field in common with any
that is read. -/
def date? (text : List Char) : Option Datum :=
  if Date.isDate text then some (.record [("date", .text (String.ofList text))]) else none

/-- What a value may consist of that is no string and has no parts. -/
def isAtom (c : Char) : Bool :=
  !"=,[]\x7b\x7d \t#\r\n".toList.contains c

/-- The value of a whole atom. -/
def atom (text : List Char) : Option Datum :=
  if text = ['t', 'r', 'u', 'e'] then some (.bool true)
  else if text = ['f', 'a', 'l', 's', 'e'] then some (.bool false)
  else if Date.looksLikeDate text then date? text
  else Number.datum? text

/-- The atom at the start of a text, and the text after it; a time may stand a space
after its day. -/
def splitAtom (text : List Char) : List Char × List Char :=
  let found := text.takeWhile isAtom
  match text.dropWhile isAtom with
  | ' ' :: rest =>
      let time := rest.takeWhile isAtom
      if Date.isDay found ∧ time ≠ [] then
        (found ++ ' ' :: time, rest.dropWhile isAtom)
      else
        (found, ' ' :: rest)
  | rest => (found, rest)

/-! ## Values -/

mutual

/-- A value at the start of a text.  Lists and tables in it may lie `depth` deep in
each other; `fuel` bounds the values to be read. -/
def value (fuel depth : Nat) (text : List Char) : Option (Datum × List Char) :=
  match fuel with
  | 0 => none
  | fuel + 1 =>
      match text with
      | '[' :: rest =>
          if depth = 0 then
            none
          else do
            let (items, rest) ← items fuel (depth - 1) (← skipBetween rest)
            return (.list items, rest)
      | '\x7b' :: rest =>
          if depth = 0 then
            none
          else do
            let (table, rest) ← inlineTable fuel (depth - 1) [] (← skipBetween rest)
            return (.record (fieldsToData table), rest)
      | '"' :: _ => (string text).map fun (found, rest) => (.text (String.ofList found), rest)
      | '\'' :: _ => (string text).map fun (found, rest) => (.text (String.ofList found), rest)
      | _ =>
          let (found, rest) := splitAtom text
          (atom found).map fun datum => (datum, rest)

/-- The items of a list up to its closing bracket, before which a comma may stand. -/
def items (fuel depth : Nat) (text : List Char) : Option (List Datum × List Char) :=
  match fuel with
  | 0 => none
  | fuel + 1 =>
      match text with
      | ']' :: rest => some ([], rest)
      | _ => do
          let (first, rest) ← value fuel depth text
          match ← skipBetween rest with
          | ',' :: rest => do
              let (others, rest) ← items fuel depth (← skipBetween rest)
              return (first :: others, rest)
          | ']' :: rest => return ([first], rest)
          | _ => none

/-- The fields of a table in braces, added to those read before.  Between its parts
lines may end, but not within a key. -/
def inlineTable (fuel depth : Nat) (table : Table) (text : List Char) :
    Option (Table × List Char) :=
  match fuel with
  | 0 => none
  | fuel + 1 =>
      match text with
      | '\x7d' :: rest => some (table, rest)
      | _ => do
          let ((path, last), rest) ← key text
          match ← skipBetween rest with
          | '=' :: rest => do
              let (datum, rest) ← value fuel depth (← skipBetween rest)
              let table ← define path last datum table
              match ← skipBetween rest with
              | ',' :: rest => inlineTable fuel depth table (← skipBetween rest)
              | '\x7d' :: rest => return (table, rest)
              | _ => none
          | _ => none

end

/-! ## Documents -/

/-- A document in the making: all tables, and the path to the one that is open. -/
structure Reading where
  table : Table
  opened : List String

/-- A header after its first bracket. -/
def header (reading : Reading) (text : List Char) : Option (Reading × List Char) :=
  match text with
  | '[' :: rest => do
      let ((path, last), rest) ← key rest
      match skipSpace rest with
      | ']' :: ']' :: rest =>
          let table ← openElement path last reading.table
          return (⟨table, path ++ [last]⟩, rest)
      | _ => none
  | _ => do
      let ((path, last), rest) ← key text
      match skipSpace rest with
      | ']' :: rest =>
          let table ← openTable path last reading.table
          return (⟨table, path ++ [last]⟩, rest)
      | _ => none

/-- A key with its value, which belong to the open table. -/
def pair (reading : Reading) (text : List Char) : Option (Reading × List Char) := do
  let ((path, last), rest) ← key text
  match skipSpace rest with
  | '=' :: rest =>
      let (datum, rest) ← value (2 * rest.length + 2) maxDepth (skipSpace rest)
      let table ← inTable (define path last datum) reading.opened reading.table
      return (⟨table, reading.opened⟩, rest)
  | _ => none

/-- Reads lines up to the end of the document; each of `fuel` steps is a line. -/
def lines : Nat → Reading → List Char → Option Table
  | 0, _, _ => none
  | fuel + 1, reading, text => do
      let (reading, rest) ←
        match skipSpace text with
        | [] => some (reading, [])
        | '#' :: rest => some (reading, '#' :: rest)
        | '\n' :: rest => some (reading, '\n' :: rest)
        | '\r' :: rest => some (reading, '\r' :: rest)
        | '[' :: rest => header reading rest
        | text => pair reading text
      match ← skipToLineEnd rest with
      | [] => return reading.table
      | rest => lines fuel reading (← newline? rest)

/-- The table that a document consists of; a mark of the byte order before it does
not count. -/
def read? (text : List Char) : Option Datum :=
  let text := if text.head? = some '\ufeff' then text.tail else text
  (lines (text.length + 1) ⟨[], []⟩ text).map fun table => .record (fieldsToData table)

end Mixdown.Toml
