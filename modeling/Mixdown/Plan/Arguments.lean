import Mixdown.Plan.Basic
import Mixdown.Text.Blank

/-!
# Calling the encoder
-/

namespace Mixdown.Plan

/-- All arguments of the encoder for rendering a plan to a file. -/
def arguments (plan : Plan) (output : OutputSettings) (path : String) : List String :=
  ["-y", "-hide_banner", "-loglevel", "error"] ++
    plan.inputs.flatMap (fun input => ["-i", input.path]) ++
    ["-filter_complex", graphText plan.stages,
      "-map", bracketed plan.finalLabel,
      "-codec:a", output.codec,
      "-b:a", output.bitrate,
      "-ac", toString output.channels,
      "-ar", toString output.sampleRate,
      path]

/-! ## The name of a mix -/

/-- A character that the name of a mix keeps, or keeps in its way. -/
def isKept (c : Char) : Bool :=
  c.isAlphanum || ['_', '-', '(', ')', '.', ' '].contains c || Text.isBlank c

/-- Each run of blanks as one underscore; `inBlanks` says whether one was just
written. -/
def joinBlanks (inBlanks : Bool) : List Char → List Char
  | [] => []
  | c :: rest =>
      if Text.isBlank c then
        if inBlanks then joinBlanks true rest else '_' :: joinBlanks true rest
      else
        c :: joinBlanks false rest

/-- The file name of a mix: its identifier and its title, as far as they are safe
in file names, and the format as extension. -/
def fileName (mixId : Uuid) (title format : String) : String :=
  let kept := (mixId.display ++ "_" ++ title).toList.filter isKept
  String.ofList (joinBlanks false kept) ++ "." ++ format

/-- Where a plan is rendered to. -/
def outputPath (plan : Plan) (output : OutputSettings) (directory : String) : String :=
  joinPath directory (fileName plan.mixId plan.title output.format)

end Mixdown.Plan
