import Mixdown.Text.Integer

/-!
# Command lines

A command line is a command with options before and after it.  An option takes
the next argument as its value, or the text after an equals sign.
-/

namespace Mixdown

/-- What is to be done. -/
inductive Action where
  /-- Plans a recipe and prints the plan, or saves it. -/
  | plan (recipe : String) (seed : Option UInt64) (output : Option String)
  /-- Plans a recipe and renders it, or prints how the encoder would be called. -/
  | render (recipe : String) (seed : Option UInt64) (outputDir : Option String) (dryRun : Bool)
  /-- Saves the recipe to try things on, and its plan. -/
  | demo (outputDir : String)
deriving DecidableEq, Repr

structure Command where
  settings : Option String
  logDir : String
  action : Action
deriving DecidableEq, Repr

namespace Command

/-! ## Options -/

/-- The options that were given, each with its value; a switch has none. -/
abbrev Given := List (String × Option String)

/-- The options that may be given, and whether they take a value. -/
abbrev Known := List (String × Bool)

/-- Options for every command, before or after its name. -/
def everywhere : Known := [("config", true), ("log-dir", true)]

def knownTo : String → Option Known
  | "plan" => some (everywhere ++ [("recipe", true), ("seed", true), ("output", true)])
  | "render" =>
      some (everywhere ++
        [("recipe", true), ("seed", true), ("output-dir", true), ("dry-run", false)])
  | "demo" => some (everywhere ++ [("output-dir", true)])
  | _ => none

/-- The name of an option, and its value when that stands in the same argument. -/
def splitOption (argument : List Char) : Option (String × Option String) :=
  match argument with
  | '-' :: '-' :: rest =>
      let name := rest.takeWhile (· ≠ '=')
      let value := (rest.dropWhile (· ≠ '=')).tail?
      if name.isEmpty then none else some (String.ofList name, value.map String.ofList)
  | _ => none

/-- Whether an argument can be the value of the option before it: all can that do
not look like options themselves. -/
def canBeValue (argument : String) : Bool :=
  argument = "-" || argument.toList.head? ≠ some '-'

/-- Adds an option, which may be given only once. -/
def addOption (given : Given) (name : String) (value : Option String) : Option Given :=
  if (given.lookup name).isSome then none else some (given ++ [(name, value)])

/-- Reads options up to the first argument that is none; gives what is left.  Two
dashes on their own end the options. -/
def options (known : Known) (given : Given) : List String → Option (Given × List String)
  | [] => some (given, [])
  | argument :: rest =>
      if argument = "--" then
        some (given, argument :: rest)
      else if canBeValue argument then
        some (given, argument :: rest)
      else
        match splitOption argument.toList with
        | none => none
        | some (name, value) =>
            match known.lookup name, value, rest with
            | some true, some value, rest =>
                (addOption given name (some value)).bind fun given => options known given rest
            | some true, none, value :: rest =>
                if canBeValue value then
                  (addOption given name (some value)).bind fun given => options known given rest
                else
                  none
            | some false, none, rest =>
                (addOption given name none).bind fun given => options known given rest
            | _, _, _ => none

/-! ## Values -/

/-- The path that an option gives, if it is given; it must not be empty. -/
def path? (given : Given) (name : String) : Option (Option String) :=
  match given.lookup name with
  | some (some path) => if path.isEmpty then none else some (some path)
  | some none => none
  | none => some none

def seed? (given : Given) : Option (Option UInt64) :=
  match given.lookup "seed" with
  | some (some text) =>
      match text.toList with
      | '-' :: _ => none
      | digits => ((Text.integer? digits).bind Text.unsigned64?).map some
  | some none => none
  | none => some none

/-! ## Commands -/

def action? (name : String) (given : Given) : Option Action := do
  match name with
  | "plan" => return .plan (← ← path? given "recipe") (← seed? given) (← path? given "output")
  | "render" =>
      return .render (← ← path? given "recipe") (← seed? given) (← path? given "output-dir")
        (given.lookup "dry-run").isSome
  | "demo" => return .demo ((← path? given "output-dir").getD "data/demo")
  | _ => none

/-- The command of a list of arguments; none when they make no sense.  Of an
option before and after the command's name the later one counts. -/
def ofArguments (arguments : List String) : Option Command := do
  match ← options everywhere [] arguments with
  | (before, name :: rest) =>
      let known ← knownTo name
      let (after, rest) ← options known [] rest
      if rest ≠ [] ∧ rest ≠ ["--"] then
        none
      else
        let action ← action? name after
        let settingsBefore ← path? before "config"
        let settingsAfter ← path? after "config"
        let logDirBefore ← path? before "log-dir"
        let logDirAfter ← path? after "log-dir"
        return {
          settings := settingsAfter <|> settingsBefore
          logDir := (logDirAfter <|> logDirBefore).getD "logs"
          action }
  | _ => none

end Command

end Mixdown
