import Mixdown.Host

/-!
# A machine as a value

A `Machine` holds files and says how its encoder behaves.  Commands run on it
without touching anything else.
-/

namespace Mixdown

/-- What a name stands for. -/
inductive Entry where
  | file (bytes : ByteArray)
  | directory (contents : List (String × Entry))
deriving Inhabited

structure Machine where
  /-- What is in the working directory.  The directory above it goes by `..` there,
  and the root by a slash. -/
  entries : List (String × Entry)
  /-- How the encoder exits; `none` when there is no encoder. -/
  encoderStatus : Option Nat
  /-- The arguments of the encoder's runs, the latest first. -/
  encoderRuns : List (List String)
  printed : String

namespace Machine

/-- A machine with no file but the null device. -/
def bare : Machine where
  entries := [("/", .directory [("dev", .directory [("null", .file .empty)])])]
  encoderStatus := none
  encoderRuns := []
  printed := ""

/-! ## Names -/

/-- Whether a path can stand for anything: it is neither empty nor overlong, and
has no null character in it. -/
def isPath (path : String) : Bool :=
  !path.isEmpty && path.utf8ByteSize < 4096 && path.toList.all (· ≠ '\x00')

/-- Whether a name is short enough for something to go by it. -/
def isShort (name : String) : Bool :=
  name.utf8ByteSize ≤ 255

/-- Whether something can be made under a name. -/
def isName (name : String) : Bool :=
  isShort name && name ≠ "" && name ≠ "." && name ≠ ".."

/-- Names of directories that are always there. -/
def isGiven (name : String) : Bool :=
  name = ".." || name = "/"

/-! ## Entries -/

/-- What ends a way before its end. -/
inductive Obstacle where
  /-- A name that stands for nothing. -/
  | missing
  /-- A name that stands for a file, or is overlong. -/
  | blocked

/-- What some names lead to, one after the other. -/
def find : List String → Entry → Except Obstacle Entry
  | [], entry => .ok entry
  | _ :: _, .file _ => .error .blocked
  | name :: rest, .directory contents =>
      if !isShort name then
        .error .blocked
      else
        match contents.lookup name with
        | some entry => find rest entry
        | none => if isGiven name then find rest (.directory []) else .error .missing

/-- Puts an entry where some names lead to, one after the other. -/
def put (entry : Entry) : List String → List (String × Entry) → List (String × Entry)
  | [], contents => contents
  | [name], contents => insertKey name entry contents
  | name :: rest, contents =>
      let inner :=
        match contents.lookup name with
        | some (.directory inner) => inner
        | _ => []
      insertKey name (.directory (put entry rest inner)) contents

/-! ## Places -/

/-- The names on the way to something, the last first. -/
abbrev Place := List String

def entry (machine : Machine) (place : Place) : Except Obstacle Entry :=
  find place.reverse (.directory machine.entries)

def putEntry (machine : Machine) (place : Place) (entry : Entry) : Machine :=
  { machine with entries := put entry place.reverse machine.entries }

/-- Where a piece of a path leads from a place. -/
def step (place : Place) (piece : String) : Place :=
  if piece = "" ∨ piece = "." then
    place
  else if piece = ".." then
    match place with
    | [] => [".."]
    | ".." :: _ => ".." :: place
    | ["/"] => ["/"]
    | _ :: outer => outer
  else
    piece :: place

/-- A place at which there is a directory. -/
def directoryAt (machine : Machine) (place : Place) : Except Obstacle Place := do
  match ← machine.entry place with
  | .directory _ => return place
  | .file _ => throw .blocked

/-- Goes where a piece of a path leads; a directory that is left for the one above it
must be there. -/
def follow (machine : Machine) (place : Place) (piece : String) : Except Obstacle Place :=
  if piece = ".." then
    (machine.directoryAt place).map fun place => step place piece
  else
    .ok (step place piece)

/-- The directory to which the first pieces of a path lead. -/
def walk (machine : Machine) (path : String) (pieces : List String) : Except Obstacle Place :=
  if isPath path then do
    let start := if isAbsolute path then ["/"] else []
    machine.directoryAt (← pieces.foldlM machine.follow start)
  else
    .error .blocked

/-! ## Directories -/

def isDirectory (machine : Machine) (path : String) : Bool :=
  (machine.walk path (pathPieces path)).isOk

/-- Makes one directory; slashes after its name do not count. -/
def makeDirectory (machine : Machine) (path : String) : Making × Machine :=
  if machine.isDirectory path then
    (.there, machine)
  else
    let pieces := ((pathPieces path).reverse.dropWhile (· = "")).reverse
    match machine.walk path pieces.dropLast, pieces.getLast? with
    | .error .missing, _ => (.astray, machine)
    | .ok place, some name =>
        match machine.entry (name :: place) with
        | .error .missing =>
            if isName name then
              (.there, machine.putEntry (name :: place) (.directory []))
            else
              (.refused, machine)
        | _ => (.refused, machine)
    | _, _ => (.refused, machine)

/-! ## Files -/

/-- The place of a file, where there may be nothing yet, or a directory. -/
def filePlace? (machine : Machine) (path : String) : Option Place :=
  let pieces := pathPieces path
  match machine.walk path pieces.dropLast, pieces.getLast? with
  | .ok place, some name => if isName name then some (name :: place) else none
  | _, _ => none

def fileBytes? (machine : Machine) (path : String) : Option ByteArray := do
  match machine.entry (← machine.filePlace? path) with
  | .ok (.file bytes) => some bytes
  | _ => none

/-- Puts bytes into a file, whose directory must be there. -/
def putFile (machine : Machine) (path : String) (bytes : ByteArray) : Option Machine := do
  let place ← machine.filePlace? path
  match machine.entry place with
  | .ok (.directory _) => none
  | _ => some (machine.putEntry place (.file bytes))

/-- Makes an empty file, unless there is a file already. -/
def openFile (machine : Machine) (path : String) : Option Machine :=
  if (machine.fileBytes? path).isSome then some machine else machine.putFile path .empty

/-! ## As a host -/

/-- Changes the machine, if the change is possible; whether it was. -/
def attempt (change : Machine → Option Machine) : StateM Machine Bool :=
  modifyGet fun machine =>
    match change machine with
    | some machine => (true, machine)
    | none => (false, machine)

/-- The machine as the place where commands run.  Its identifiers, seeds and stamps
are all zero, and its environment names nothing. -/
def host : Host (StateM Machine) where
  readFile path := return (← get).fileBytes? path
  makeDirectory path := modifyGet (·.makeDirectory path)
  openFile path := attempt (·.openFile path)
  replaceFile path text := attempt (·.putFile path text.toUTF8)
  namedSettings := return none
  freshId := return .zero
  freshSeed := return 0
  logStamp := return "00000000-000000"
  runEncoder _ arguments :=
    modifyGet fun machine =>
      match machine.encoderStatus with
      | some status =>
          (.exited status, { machine with encoderRuns := arguments :: machine.encoderRuns })
      | none => (.notStarted, machine)
  print text := modify fun machine => { machine with printed := machine.printed ++ text }

end Machine

end Mixdown
