/-!
# Signal labels

Every signal in a filter graph has a label of its own.  A `LabelPool` hands them
out and never hands one out twice.
-/

namespace Mixdown

/-- The labels handed out so far, the latest first. -/
structure LabelPool where
  reserved : List String
deriving DecidableEq, Repr

namespace LabelPool

def empty : LabelPool := ⟨[]⟩

def isReserved (pool : LabelPool) (label : String) : Bool :=
  pool.reserved.contains label

/-- What stands in for `requested` when it and fewer numbers are taken. -/
def numbered (requested : String) (number : Nat) : String :=
  requested ++ "_" ++ toString number

/-- The first free one of `requested_n`, `requested_(n + 1)` and so on, of which
`attempts + 1` are considered. -/
def firstFree (pool : LabelPool) (requested : String) : Nat → Nat → String
  | 0, number => numbered requested number
  | attempts + 1, number =>
      if pool.isReserved (numbered requested number) then
        firstFree pool requested attempts (number + 1)
      else
        numbered requested number

/-- The label that a request gets: itself when it is free, and otherwise with the
least number that makes it free.  As many labels as are reserved cannot take all
of one number more. -/
def pick (pool : LabelPool) (requested : String) : String :=
  if pool.isReserved requested then
    firstFree pool requested pool.reserved.length 1
  else
    requested

/-- The label that a request gets, now reserved. -/
def reserve (pool : LabelPool) (requested : String) : String × LabelPool :=
  let label := pool.pick requested
  (label, ⟨label :: pool.reserved⟩)

/-! ## Names by place -/

/-- Letters and digits of ASCII, in their order. -/
def alphanumerics (text : String) : String :=
  String.ofList (text.toList.filter Char.isAlphanum)

/-- A place in a recipe as part of a label. -/
def place (track : UInt64) (position : Nat) : String :=
  "t" ++ toString track ++ "c" ++ toString position

/-- What the sound of a file is called before it is told from other files. -/
def fileBase (filename : String) (track : UInt64) (position : Nat) : String :=
  let name := alphanumerics filename
  "in_" ++ if name.isEmpty then place track position else name

/-- The label of a file clip; when its base is taken its place is added. -/
def reserveFile (pool : LabelPool) (filename : String) (track : UInt64) (position : Nat) :
    String × LabelPool :=
  let base := fileBase filename track position
  pool.reserve (if pool.isReserved base then base ++ "_" ++ place track position else base)

def reserveSilence (pool : LabelPool) (track : UInt64) (position : Nat) : String × LabelPool :=
  pool.reserve ("silence_" ++ place track position)

/-- The label of a signal made from the one called `parent`. -/
def reserveDerived (pool : LabelPool) (parent suffix : String) : String × LabelPool :=
  pool.reserve (parent ++ "_" ++ suffix)

/-- What the signals of a whole track are called. -/
def trackBase (track : UInt64) : String :=
  "track" ++ toString track

def reserveTrack (pool : LabelPool) (track : UInt64) (suffix : String) : String × LabelPool :=
  pool.reserveDerived (trackBase track) suffix

end LabelPool

end Mixdown
