import Mixdown.Datum.Basic
import Mixdown.Decimal.Literal
import Mixdown.Text.Integer

/-!
# Reading data into types

A reading either gives a value or fails; why it fails is not reported.  A record
may be given by its field names or as the list of its fields in their declared
order, so a record type is read once, through `FieldReader`, for both forms.
-/

namespace Mixdown.Datum

/-! ## Scalars -/

def bool? : Datum → Option Bool
  | .bool value => some value
  | _ => none

def text? : Datum → Option String
  | .text value => some value
  | _ => none

/-- A number; an integer of 64 bits stands for the nearest double. -/
def float? : Datum → Option Float
  | .integer value =>
      if Int64.minValue.toInt ≤ value ∧ value < UInt64.size then
        some (Decimal.ofInteger value)
      else
        none
  | .number value => some value
  | _ => none

def integer? : Datum → Option Int
  | .integer value => some value
  | _ => none

def unsigned64? (datum : Datum) : Option UInt64 :=
  datum.integer?.bind Text.unsigned64?

def unsigned32? (datum : Datum) : Option UInt32 :=
  datum.integer?.bind Text.unsigned32?

def signed64? (datum : Datum) : Option Int64 :=
  datum.integer?.bind Text.signed64?

/-- A count, which fits in an unsigned word of 64 bits. -/
def count? (datum : Datum) : Option Nat :=
  datum.unsigned64?.map UInt64.toNat

/-! ## Composites -/

variable {β γ : Type}

/-- Null is no value. -/
def optional? (read : Datum → Option β) : Datum → Option (Option β)
  | .null => some none
  | datum => (read datum).map some

def list? (read : Datum → Option β) : Datum → Option (List β)
  | .list items => items.mapM read
  | _ => none

/-- A list of values, or one value standing for a list of one; null is the empty
list.  A list that cannot be read item by item is tried as a single value. -/
def oneOrMany? (read : Datum → Option β) (datum : Datum) : Option (List β) :=
  match datum with
  | .null => some []
  | datum =>
      if datum.readable then
        list? read datum <|> (read datum).map fun value => [value]
      else
        none

/-- Values under text keys; of repeated keys the last wins. -/
def keyed? (read : Datum → Option β) : Datum → Option (Keyed β)
  | .record fields => do
      let entries ← fields.mapM fun field => (read field.2).map fun value => (field.1, value)
      return Keyed.ofList entries
  | _ => none

/-- One of a few words; a word may also be the only key of a record without
content, where `empties` says what counts as no content. -/
def word? (words : List (String × β)) (empties : Datum → Bool) : Datum → Option β
  | .text word => words.lookup word
  | .record [(word, content)] => if empties content then words.lookup word else none
  | _ => none

def isNull : Datum → Bool
  | .null => true
  | _ => false

/-- Null, or a record without fields. -/
def isVoid : Datum → Bool
  | .null => true
  | .record [] => true
  | _ => false

/-! ## Records -/

/-- The fields of a record that are still to be read. -/
inductive Fields where
  | named (fields : List (String × Datum))
  | ordered (items : List Datum)
deriving Repr

/-- Reads the fields of one record in their declared order. -/
abbrev FieldReader (β : Type) := StateT Fields Option β

/-- The value of the next field, which goes by any of the names `key :: aliases`;
a field that is given twice cannot be read. -/
def nextField (key : String) (aliases : List String) : FieldReader (Option Datum) := fun fields =>
  match fields with
  | .named fields =>
      let (own, others) :=
        fields.partition fun field => field.1 = key || aliases.contains field.1
      match own with
      | [] => some (none, .named others)
      | [(_, datum)] => some (some datum, .named others)
      | _ => none
  | .ordered [] => some (none, .ordered [])
  | .ordered (datum :: rest) => some (some datum, .ordered rest)

/-- A field that must be given. -/
def required (key : String) (read : Datum → Option β) : FieldReader β := do
  match ← nextField key [] with
  | some datum => (read datum : Option β)
  | none => failure

/-- A field that has a value when it is not given. -/
def defaulted (key : String) (aliases : List String) (missing : β) (read : Datum → Option β) :
    FieldReader β := do
  match ← nextField key aliases with
  | some datum => (read datum : Option β)
  | none => pure missing

/-- The formats of documents. -/
inductive Format where
  | json
  | toml
deriving DecidableEq, Repr

/-- What may be left of a record when all its fields are read.  In JSON unknown names
are passed over, whatever they hold, while a list of fields must not be too long;
in TOML what unknown names hold must be readable, while surplus items are passed
over. -/
def Format.admits : Format → Fields → Bool
  | .json, .named _ => true
  | .json, .ordered items => items.isEmpty
  | .toml, .named fields => fieldsReadable fields
  | .toml, .ordered _ => true

/-- The fields read completely. -/
def readFields? (format : Format) (reader : FieldReader β) (fields : Fields) : Option β :=
  match reader.run fields with
  | some (value, left) => if format.admits left then some value else none
  | none => none

/-- A record in a document of some format. -/
def recordIn? (format : Format) (reader : FieldReader β) : Datum → Option β
  | .record fields => readFields? format reader (.named fields)
  | .list items => readFields? format reader (.ordered items)
  | _ => none

/-- A record in JSON. -/
def record? (reader : FieldReader β) : Datum → Option β :=
  recordIn? .json reader

/-- A record in JSON of one of several kinds: the field `key`, or the first item of a
list, names the kind, which says how to read the other fields. -/
def tagged? (key : String) (kinds : List (String × FieldReader β)) (datum : Datum) : Option β :=
  if datum.readable then
    match datum with
    | .record fields => do
        let (own, others) := fields.partition fun field => field.1 = key
        match own with
        | [(_, tag)] =>
            let reader ← kinds.lookup (← tag.text?)
            readFields? .json reader (.named others)
        | _ => none
    | .list (tag :: items) => do
        let reader ← kinds.lookup (← tag.text?)
        readFields? .json reader (.ordered items)
    | _ => none
  else
    none

end Mixdown.Datum
