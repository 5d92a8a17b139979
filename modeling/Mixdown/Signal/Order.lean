import Mixdown.Signal.Stage

/-!
# The order of stages

In a filter graph every label is made once, and used only by later stages.
-/

namespace Mixdown

inductive GraphError where
  /-- A label is made a second time. -/
  | labelCollision (label : String)
  /-- The stage at a position uses a label that no earlier stage makes. -/
  | danglingLabel (position : Nat) (label : String)
deriving DecidableEq, Repr

def GraphError.message : GraphError → String
  | .labelCollision label => "label produced twice: " ++ label
  | .danglingLabel position label =>
      "stage " ++ toString position ++ " consumes unknown label: " ++ label

/-- The first input of a stage that is not among the labels made before it. -/
def Stage.missingInput? (stage : Stage) (made : List String) : Option String :=
  stage.inputs.find? fun label => !made.contains label

/-! ## Whole lists -/

/-- Checks the stages from `position` on against the labels made before them. -/
def checkOrderFrom (position : Nat) (made : List String) : List Stage → Except GraphError Unit
  | [] => .ok ()
  | stage :: rest =>
      match stage.missingInput? made with
      | some label => .error (.danglingLabel position label)
      | none =>
          if made.contains stage.output then
            .error (.labelCollision stage.output)
          else
            checkOrderFrom (position + 1) (stage.output :: made) rest

/-- Goes through the stages in order, up to the first that breaks a rule. -/
def checkOrder (stages : List Stage) : Except GraphError Unit :=
  checkOrderFrom 0 [] stages

/-! ## Growing graphs -/

/-- Stages in the order in which they were accepted. -/
structure FilterGraph where
  stages : List Stage
deriving DecidableEq, Repr

namespace FilterGraph

def empty : FilterGraph := ⟨[]⟩

def labels (graph : FilterGraph) : List String :=
  graph.stages.map Stage.output

/-- Accepts one more stage at the end, whose label must be new and whose inputs
must be labels already made. -/
def push (graph : FilterGraph) (stage : Stage) : Except GraphError FilterGraph :=
  if graph.labels.contains stage.output then
    .error (.labelCollision stage.output)
  else
    match stage.missingInput? graph.labels with
    | some label => .error (.danglingLabel graph.stages.length label)
    | none => .ok ⟨graph.stages ++ [stage]⟩

/-- Pushes a stage onto a graph that is kept: gives the label of a stage that is accepted,
and the rule that a refused one breaks. -/
def offer (stage : Stage) : StateM FilterGraph (Except GraphError String) := do
  let graph ← get
  match graph.push stage with
  | .ok grown =>
      set grown
      return .ok stage.output
  | .error error => return .error error

def toDatum (graph : FilterGraph) : Datum :=
  .record [("stages", .list (graph.stages.map Stage.toDatum))]

open Datum in
/-- A graph is read as it was written, without checking its order. -/
def ofDatum? : Datum → Option FilterGraph :=
  record? (FilterGraph.mk <$> required "stages" (list? Stage.ofDatum?))

end FilterGraph

end Mixdown
