import Mixdown.Command.Line
import Mixdown.Command.Shell
import Mixdown.Host
import Mixdown.Recipe.Demo

/-!
# Running commands

A command ends with a status: 0 when it was carried out, 1 when it failed, 2 when
its arguments made no sense, and 101 when its log could not be started or it came
upon numbers that balancing cannot work with.
-/

namespace Mixdown

namespace Command

/-- Why a command was not carried out. -/
inductive Failure where
  | settings (error : SettingsError)
  | noLogDirectory (directory : String)
  | noLog (directory : String)
  | mix (error : MixError)
  | render (error : RenderError)
  | notSaved (path : String)
  /-- Balancing came upon numbers it cannot work with. -/
  | arithmetic (fault : Timing.Fault)
deriving DecidableEq, Repr

def Failure.message : Failure → String
  | .settings error => error.message
  | .noLogDirectory directory => "failed to create log directory: " ++ directory
  | .noLog directory => "failed to start a log in " ++ directory
  | .mix error => error.message
  | .render error => error.message
  | .notSaved path => "failed to write " ++ path
  | .arithmetic .unboundedDraw => "cannot draw a length from an unbounded range"
  | .arithmetic .crossedBounds => "cannot keep a length within crossed bounds"

/-- The seed of the plan of the recipe to try things on. -/
def demoSeed : UInt64 := 7

section Steps

variable {m : Type → Type} [Monad m] (host : Host m)

/-- A step of a command. -/
abbrev Step (m : Type → Type) := ExceptT Failure m

def settingsFor (named : Option String) : Step m Settings := do
  let found ←
    match named with
    | some path => Settings.ofFile <$> (host.readFile path : m _)
    | none => Settings.findOrStandard <$> host.settingsFiles
  match found with
  | .ok settings => return settings
  | .error error => throw (.settings error)

def planRecipe (settings : Settings) (seed : UInt64) (recipe : Recipe Float) : Step m Plan := do
  let mixId ← (host.freshId : m _)
  match Plan.ofRecipe settings mixId seed recipe with
  | .ok (.ok plan) => return plan
  | .ok (.error error) => throw (.mix error)
  | .error fault => throw (.arithmetic fault)

/-- Plans the recipe of a file; without a seed a fresh one is taken. -/
def planFile (settings : Settings) (path : String) (seed : Option UInt64) : Step m Plan := do
  match ← (host.loadRecipe path : m _) with
  | .error error => throw (.mix error)
  | .ok recipe =>
      let seed ←
        match seed with
        | some seed => pure seed
        | none => (host.freshSeed : m _)
      planRecipe host settings seed recipe

def saved (path : String) (done : m Bool) : Step m Unit := do
  if !(← (done : m _)) then throw (.notSaved path)

def carryOut (settings : Settings) : Action → Step m Unit
  | .plan recipe seed output => do
      let plan ← planFile host settings recipe seed
      match output with
      | some path => saved path (host.savePlan path plan)
      | none => host.print (Json.pretty plan.toDatum ++ "\n")
  | .render recipe seed outputDir dryRun => do
      let plan ← planFile host settings recipe seed
      let directory := outputDir.getD settings.content.mixDir
      if dryRun then
        let path := plan.outputPath settings.output directory
        host.print
          (settings.encoder ++ " " ++ Shell.line (plan.arguments settings.output path) ++ "\n")
      else
        match ← (host.render settings plan directory : m _) with
        | .ok path => host.print (path ++ "\n")
        | .error error => throw (.render error)
  | .demo outputDir => do
      let recipePath := joinPath outputDir "demo.recipe.json"
      saved recipePath (host.saveRecipe recipePath Recipe.demo)
      let plan ← planRecipe host settings demoSeed Recipe.demo
      let planPath := joinPath outputDir "demo.plan.json"
      saved planPath (host.savePlan planPath plan)

/-- Carries out a command. -/
def run (command : Command) : Step m Unit := do
  let settings ← settingsFor host command.settings
  if !(← (host.makeDirectories command.logDir : m _)) then
    throw (.noLogDirectory command.logDir)
  if !(← (host.openLog command.logDir settings.log : m _)) then
    throw (.noLog command.logDir)
  carryOut host settings command.action

end Steps

/-- How the program ends. -/
inductive Ending where
  | done
  | failed (failure : Failure)
  | badUsage
deriving DecidableEq, Repr

def Ending.status : Ending → UInt32
  | .done => 0
  | .failed (.noLog _) => 101
  | .failed (.arithmetic _) => 101
  | .failed _ => 1
  | .badUsage => 2

/-- Carries out the command that arguments ask for. -/
def execute {m : Type → Type} [Monad m] (host : Host m) (arguments : List String) : m Ending := do
  match ofArguments arguments with
  | none => return .badUsage
  | some command =>
      match ← (run host command).run with
      | .ok () => return .done
      | .error failure => return .failed failure

end Command

end Mixdown
