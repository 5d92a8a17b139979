import Mixdown.Keyed

/-!
# Untyped data

A `Datum` is what a document in any of the supported formats holds before it is
read as a recipe, a plan or settings.  Records keep their fields in the order of
the text, repeated keys included.
-/

namespace Mixdown

inductive Datum where
  | null
  | bool (value : Bool)
  | integer (value : Int)
  | number (value : Float)
  | text (value : String)
  | list (items : List Datum)
  | record (fields : List (String × Datum))
  /-- Admitted in its document, but nothing that can be read: a number that has no
  value or is beyond all words or doubles, half a surrogate pair, or too deep a
  nesting. -/
  | unreadable
deriving Repr, Inhabited

namespace Datum

/-! ## Plain values -/

mutual

/-- Whether nothing inside is unreadable. -/
def readable : Datum → Bool
  | .list items => itemsReadable items
  | .record fields => fieldsReadable fields
  | .unreadable => false
  | _ => true

def itemsReadable : List Datum → Bool
  | [] => true
  | item :: rest => item.readable && itemsReadable rest

def fieldsReadable : List (String × Datum) → Bool
  | [] => true
  | (_, value) :: rest => value.readable && fieldsReadable rest

end

mutual

/-- Fields in key order at every depth; of fields with one key the last wins. -/
def collapse : Datum → Datum
  | .list items => .list (collapseItems items)
  | .record fields => .record (collapseFields [] fields)
  | datum => datum

def collapseItems : List Datum → List Datum
  | [] => []
  | item :: rest => item.collapse :: collapseItems rest

def collapseFields (collected : List (String × Datum)) :
    List (String × Datum) → List (String × Datum)
  | [] => collected
  | (key, value) :: rest => collapseFields (insertKey key value.collapse collected) rest

end

/-! ## Writing values as data -/

/-- A number; one that is not finite has no text in a document and becomes null. -/
def ofFloat (value : Float) : Datum :=
  if value.isFinite then .number value else .null

def ofNat (value : Nat) : Datum :=
  .integer value

/-- A field that is left out when it has no value. -/
def fieldIfSome (key : String) (value : Option Datum) : List (String × Datum) :=
  value.toList.map fun datum => (key, datum)

/-- A list field that is left out when the list is empty. -/
def fieldIfAny (key : String) (items : List Datum) : List (String × Datum) :=
  if items.isEmpty then [] else [(key, .list items)]

def ofKeyed {β : Type} (write : β → Datum) (keyed : Keyed β) : Datum :=
  .record (keyed.entries.map fun entry => (entry.1, write entry.2))

end Datum

end Mixdown
