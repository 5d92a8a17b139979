import Mixdown.Json.Reader
import Mixdown.Json.Writer
import Mixdown.Path
import Mixdown.Plan.Arguments
import Mixdown.Plan.Encoding
import Mixdown.Recipe.Loading
import Mixdown.Settings.Loading

/-!
# Files and the encoder

What commands ask of the machine they run on, and what they do with it: saving
and loading recipes and plans, and rendering mixes.
-/

namespace Mixdown

/-- How a run of the encoder came out. -/
inductive EncoderRun where
  | notStarted
  | exited (status : Nat)
deriving DecidableEq, Repr

/-- How an attempt to make a directory comes out. -/
inductive Making where
  /-- The directory is there, made now or before. -/
  | there
  /-- A directory on the way to it is missing. -/
  | astray
  | refused
deriving DecidableEq, Repr

/-- A machine, with steps of a kind `m`. -/
structure Host (m : Type → Type) where
  /-- What a file holds; nothing if there is no such file. -/
  readFile : String → m (Option ByteArray)
  /-- Makes one directory. -/
  makeDirectory : String → m Making
  /-- Opens a file to write at its end, and makes it when missing; whether that went
  well. -/
  openFile : String → m Bool
  /-- Puts a text into a file at once, in place of what was there; whether that
  went well. -/
  replaceFile : String → String → m Bool
  /-- The settings file that the environment names. -/
  namedSettings : m (Option String)
  freshId : m Uuid
  freshSeed : m UInt64
  /-- Fifteen characters that tell the log of one run from those of others. -/
  logStamp : m String
  runEncoder : String → List String → m EncoderRun
  print : String → m Unit

namespace Host

variable {m : Type → Type} [Monad m]

/-! ## Directories -/

/-- Makes a directory, after those it lies in if they are missing; whether it is there
then.  The innermost of those comes first. -/
def makeAlong (host : Host m) (path : String) : List String → m Bool
  | [] => return (← host.makeDirectory path) = .there
  | parent :: above => do
      match ← host.makeDirectory path with
      | .there => return true
      | .refused => return false
      | .astray =>
          if ← host.makeAlong parent above then
            return (← host.makeDirectory path) = .there
          else
            return false

/-- Makes a directory and those it lies in; whether it is there then.  An empty path
stands for the working directory. -/
def makeDirectories (host : Host m) (path : String) : m Bool :=
  if path.isEmpty then return true else host.makeAlong path (pathsAbove path)

/-- Starts the log of a run in a directory; whether that went well. -/
def openLog (host : Host m) (directory : String) (log : LogSettings) : m Bool := do
  let path := joinPath directory (log.filePrefix ++ "-" ++ (← host.logStamp) ++ ".log")
  if ← host.openFile path then
    return true
  else if ← host.makeDirectories (parentPath path) then
    host.openFile path
  else
    return false

/-! ## Saving and loading -/

/-- Writes a text to a file, whose directory is made when missing. -/
def save (host : Host m) (path text : String) : m Bool := do
  if ← host.makeDirectories (parentPath path) then
    host.replaceFile path text
  else
    return false

def saveRecipe (host : Host m) (path : String) (recipe : Recipe Float) : m Bool :=
  host.save path (Json.pretty recipe.toDocument.toDatum)

def loadRecipe (host : Host m) (path : String) : m (Except MixError (Recipe Float)) := do
  match ← host.readFile path with
  | some bytes => return (Recipe.ofBytes bytes).mapError .recipe
  | none => return .error (.storage ("failed to read recipe: " ++ path))

def savePlan (host : Host m) (path : String) (plan : Plan) : m Bool :=
  host.save path (Json.pretty plan.toDatum)

def loadPlan (host : Host m) (path : String) : m (Except MixError Plan) := do
  match ← host.readFile path with
  | some bytes =>
      match (Json.readBytes? bytes).bind Plan.ofDatum? with
      | some plan => return .ok plan
      | none => return .error (.storage "invalid plan json")
  | none => return .error (.storage ("failed to read plan: " ++ path))

/-! ## Settings -/

/-- What the settings files hold that may be meant when none is named: that of
the environment, that of the working directory, and that of the directory above. -/
def settingsFiles (host : Host m) : m (List (Option ByteArray)) := do
  let named := (← host.namedSettings).toList
  (named ++ [Settings.fileName, joinPath ".." Settings.fileName]).mapM host.readFile

end Host

/-! ## Rendering -/

inductive RenderError where
  | noDirectory (directory : String)
  | notStarted (encoder : String)
  | failed (status : Nat) (mixId : Uuid)
deriving DecidableEq, Repr

def RenderError.message : RenderError → String
  | .noDirectory directory => "failed to create mix output directory: " ++ directory
  | .notStarted encoder => "failed to spawn ffmpeg: " ++ encoder
  | .failed status mixId =>
      "ffmpeg exited with status exit status: " ++ toString status ++ " while rendering mix " ++
        mixId.display

/-- Renders a plan into a directory; gives the path of the mix. -/
def Host.render {m : Type → Type} [Monad m] (host : Host m) (settings : Settings) (plan : Plan)
    (directory : String) : m (Except RenderError String) := do
  if ← host.makeDirectories directory then
    let path := plan.outputPath settings.output directory
    match ← host.runEncoder settings.encoder (plan.arguments settings.output path) with
    | .notStarted => return .error (.notStarted settings.encoder)
    | .exited 0 => return .ok path
    | .exited status => return .error (.failed status plan.mixId)
  else
    return .error (.noDirectory directory)

end Mixdown
