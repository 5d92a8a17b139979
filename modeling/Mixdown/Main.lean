import Mixdown.Command.Run

/-!
# The program
-/

namespace Mixdown

def randomBytes (count : Nat) : IO (List UInt8) := do
  let bytes ← IO.getRandomBytes count.toUSize
  return bytes.toList

/-- A random identifier, marked as such by its version and variant. -/
def randomId : IO Uuid := do
  let bytes ← randomBytes 16
  let marked := bytes.mapIdx fun place byte =>
    if place = 6 then (byte &&& 0x0f) ||| 0x40
    else if place = 8 then (byte &&& 0x3f) ||| 0x80
    else byte
  return (Uuid.ofBytes? marked).getD .zero

def randomSeed : IO UInt64 := do
  let bytes ← randomBytes 8
  return bytes.foldl (fun seed byte => (seed <<< 8) ||| byte.toUInt64) 0

/-- Whether an action ends without an error. -/
def succeeds (action : IO Unit) : IO Bool := do
  match ← action.toBaseIO with
  | .ok () => return true
  | .error _ => return false

/-- Makes one directory.  One that cannot be made is there already if nothing is left
to be made on the way along its path. -/
def makeDirectory (path : String) : IO Making := do
  match ← (IO.FS.createDir path).toBaseIO with
  | .ok () => return .there
  | .error (.noFileOrDirectory ..) => return .astray
  | .error _ => if ← succeeds (IO.FS.createDirAll path) then return .there else return .refused

/-- Writes a file beside the one meant and then takes it there. -/
def replaceFile (path text : String) : IO Unit := do
  let draft := joinPath (parentPath path) (".draft-" ++ (← randomId).display)
  IO.FS.writeFile draft text
  IO.FS.rename draft path

/-- The machine that the program runs on.  It has no way to start the encoder, so
mixes are rendered by the call that a dry run prints. -/
def thisMachine : Host IO where
  readFile path := do
    match ← (IO.FS.readBinFile path).toBaseIO with
    | .ok bytes => return some bytes
    | .error _ => return none
  makeDirectory path := makeDirectory path
  openFile path := succeeds (IO.FS.withFile path .append fun _ => pure ())
  replaceFile path text := succeeds (replaceFile path text)
  namedSettings := IO.getEnv Settings.pathVariable
  freshId := randomId
  freshSeed := randomSeed
  logStamp := return String.ofList ((← randomId).display.toList.take 15)
  runEncoder _ _ := return .notStarted
  print text := IO.print text

end Mixdown

open Mixdown in
def main (arguments : List String) : IO UInt32 := do
  let ending ← Command.execute thisMachine arguments
  match ending with
  | .done => pure ()
  | .failed failure => IO.eprintln ("Error: " ++ failure.message)
  | .badUsage => IO.eprintln "error: expected plan, render or demo with their options"
  return ending.status
