import Mixdown.Signal.Stage
import Mixdown.Text.Quoted

/-!
# Filter graphs as text

The encoder takes a filter graph as chains separated by semicolons; a chain is a
filter with its options between the labels of its inputs and its output, such as
`[a][b]concat=a=1:n=2:v=0[c]`.
-/

namespace Mixdown

/-- Characters that mean something to the encoder's reader. -/
def optionMarks : List Char :=
  [',', ';', '[', ']', ':', '=', '\'', ' ', '\\']

/-- The value of an option, quoted when it holds a mark. -/
def optionText (value : String) : String :=
  if value.toList.any optionMarks.contains then
    String.ofList (Text.singleQuoted value.toList)
  else
    value

def bracketed (label : String) : String :=
  "[" ++ label ++ "]"

/-- Options in key order. -/
def optionList (params : Keyed ParamValue) : String :=
  String.intercalate ":" <|
    params.entries.map fun entry => entry.1 ++ "=" ++ optionText entry.2.display

namespace Stage

/-- What a chain holds between its labels and its output. -/
def body (stage : Stage) : String :=
  match stage.filter, stage.inputIndex? with
  | none, some index => bracketed (toString index.toInt ++ ":a") ++ "anull"
  | none, none => "anull"
  | some filter, _ =>
      String.join (stage.inputs.map bracketed) ++ filter ++
        if stage.params.isEmpty then "" else "=" ++ optionList stage.params

def chain (stage : Stage) : String :=
  stage.body ++ bracketed stage.output

end Stage

/-- The filter graph of some stages. -/
def graphText (stages : List Stage) : String :=
  String.intercalate ";" (stages.map Stage.chain)

end Mixdown
