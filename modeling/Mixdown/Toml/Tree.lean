import Mixdown.Datum.Basic

/-!
# Tables in the making

A TOML document defines its tables bit by bit.  A `Node` remembers how far a
table has been defined, so that nothing is defined twice.
-/

namespace Mixdown.Toml

/-- How a table came about. -/
inductive Origin where
  /-- As a part of the name of another table. -/
  | implied
  /-- As a part of a dotted key. -/
  | dotted
  /-- By a header of its own. -/
  | header
deriving DecidableEq, Repr

inductive Node where
  /-- A complete value. -/
  | value (datum : Datum)
  | table (origin : Origin) (fields : List (String × Node))
  /-- An array of tables, the latest first. -/
  | tables (elements : List (List (String × Node)))
deriving Repr, Inhabited

abbrev Table := List (String × Node)

/-! ## Changing a table -/

/-- Replaces what a key stands for, or adds the key at the end. -/
def put (key : String) (node : Node) : Table → Table
  | [] => [(key, node)]
  | (other, kept) :: rest =>
      if other = key then (key, node) :: rest else (other, kept) :: put key node rest

/-- Changes the table that a node stands for; of an array of tables the latest is
meant. -/
def Node.change (change : Table → Option Table) : Node → Option Node
  | .table origin fields => (change fields).map (Node.table origin)
  | .tables (latest :: earlier) =>
      (change latest).map fun latest => .tables (latest :: earlier)
  | _ => none

/-- Changes the table that a key stands for, if it may be entered.  A missing table
is made, with the given origin. -/
def within (made : Origin) (enters : Node → Bool) (key : String)
    (change : Table → Option Table) (table : Table) : Option Table :=
  match table.lookup key with
  | none => (change []).map fun inner => put key (.table made inner) table
  | some node =>
      if enters node then (node.change change).map fun node => put key node table else none

/-- Changes the table at the end of a path of tables that may be entered. -/
def along (made : Origin) (enters : Node → Bool) (change : Table → Option Table) :
    List String → Table → Option Table
  | [], table => change table
  | key :: path, table => within made enters key (along made enters change path) table

/-- Changes the table of a header, or the one at the end of the path to it. -/
def inTable (change : Table → Option Table) : List String → Table → Option Table :=
  along .implied (fun _ => true) change

/-! ## Definitions -/

def Node.isOpened : Node → Bool
  | .table .header _ => true
  | _ => false

def Node.isDotted : Node → Bool
  | .table .dotted _ => true
  | _ => false

/-- Gives a key its value, which it must not have yet. -/
def assign (key : String) (datum : Datum) (table : Table) : Option Table :=
  if (table.lookup key).isSome then none else some (put key (.value datum) table)

/-- Gives a key its value; the keys before it lead there.  They do not lead through
tables that a header has opened, and the last of them stands for a table that
only dotted keys have made. -/
def define (path : List String) (key : String) (datum : Datum) : Table → Option Table :=
  match path.getLast? with
  | none => assign key datum
  | some last =>
      along .dotted (fun node => !node.isOpened)
        (within .dotted Node.isDotted last (assign key datum)) path.dropLast

/-- Opens the table of a header. -/
def openTable (path : List String) (key : String) : Table → Option Table :=
  inTable
    (fun table =>
      match table.lookup key with
      | none => some (put key (.table .header []) table)
      | some (.table .implied fields) => some (put key (.table .header fields) table)
      | some _ => none)
    path

/-- Opens one more table of an array of tables. -/
def openElement (path : List String) (key : String) : Table → Option Table :=
  inTable
    (fun table =>
      match table.lookup key with
      | none => some (put key (.tables [[]]) table)
      | some (.tables elements) => some (put key (.tables ([] :: elements)) table)
      | some _ => none)
    path

/-! ## As data -/

mutual

def Node.toDatum : Node → Datum
  | .value datum => datum
  | .table _ fields => .record (fieldsToData fields)
  | .tables elements => .list (elementsToData [] elements)

def fieldsToData : List (String × Node) → List (String × Datum)
  | [] => []
  | (key, node) :: rest => (key, node.toDatum) :: fieldsToData rest

/-- The tables of an array, given the latest first, before some others. -/
def elementsToData (later : List Datum) : List (List (String × Node)) → List Datum
  | [] => later
  | fields :: earlier => elementsToData (.record (fieldsToData fields) :: later) earlier

end

end Mixdown.Toml
