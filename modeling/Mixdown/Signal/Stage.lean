import Mixdown.Signal.Param

/-!
# Stages

A stage makes one labelled signal: it takes in an input file, or runs a filter
over earlier signals.
-/

namespace Mixdown

structure Stage where
  inputs : List String
  /-- A stage without a filter takes in a file. -/
  filter : Option String
  params : Keyed ParamValue
  output : String
deriving DecidableEq, Repr

namespace Stage

/-- Takes in the file that is the encoder's input number `index`. -/
def ingest (index : Nat) (path output : String) : Stage where
  inputs := []
  filter := none
  params := .ofList [("input", .ofCount index), ("path", .text path)]
  output := output

def isIngest (stage : Stage) : Bool :=
  stage.filter.isNone

/-- The number of the encoder's input that is taken in. -/
def inputIndex? (stage : Stage) : Option Int64 :=
  match stage.isIngest, stage.params.get? "input" with
  | true, some (.integer index) => some index
  | _, _ => none

def toDatum (stage : Stage) : Datum :=
  .record
    ([("inputs", .list (stage.inputs.map .text))] ++
      Datum.fieldIfSome "filter" (stage.filter.map .text) ++
      (if stage.params.isEmpty then []
        else [("params", .ofKeyed ParamValue.toDatum stage.params)]) ++
      [("output", .text stage.output)])

open Datum in
def ofDatum? : Datum → Option Stage :=
  record? do
    let inputs ← required "inputs" (list? text?)
    let filter ← defaulted "filter" [] none (optional? text?)
    let params ← defaulted "params" [] Keyed.empty (keyed? ParamValue.ofDatum?)
    let output ← required "output" text?
    return { inputs, filter, params, output }

end Stage

end Mixdown
