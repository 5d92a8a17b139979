import Mixdown.Effect.Steps
import Mixdown.MixError
import Mixdown.Path
import Mixdown.Recipe.Admission
import Mixdown.Signal.Label
import Mixdown.Signal.MixGraph

/-!
# The filter graph of a recipe

Every clip becomes a chain of stages from its source through its gain and its
effects; the clips of a track are joined and run through the track's gain and
effects; all tracks are mixed in the last stage.
-/

namespace Mixdown

/-- Where files are looked for, and the wave presets that effects can name.  The directory
is a text, so that one whose name is not valid UTF-8 is left out. -/
structure Surroundings where
  contentDir : String
  presets : Keyed WavePreset
deriving DecidableEq, Repr

namespace Surroundings

def standard : Surroundings := ⟨"content", WavePreset.builtin⟩

end Surroundings

/-! ## Building -/

/-- A graph in the making. -/
structure Draft where
  graph : FilterGraph
  labels : LabelPool
  inputs : List InputFile
deriving DecidableEq, Repr

namespace Draft

def empty : Draft := ⟨.empty, .empty, []⟩

end Draft

/-- A step of building a graph. -/
abbrev Build := StateT Draft (Except MixError)

namespace Build

/-- Takes a label from the pool. -/
def label (take : LabelPool → String × LabelPool) : Build String :=
  modifyGet fun draft =>
    let (found, labels) := take draft.labels
    (found, { draft with labels })

/-- Adds a stage; gives the label of its output. -/
def emit (stage : Stage) : Build String := do
  let draft ← get
  match draft.graph.push stage with
  | .ok graph =>
      set { draft with graph }
      return stage.output
  | .error error => throw (.graph error)

/-- Adds a filter over earlier signals. -/
def filter (inputs : List String) (name : String) (params : List (String × ParamValue))
    (output : String) : Build String :=
  emit { inputs, filter := some name, params := .ofList params, output }

/-! ### Chains -/

/-- Adds a gain, unless the volume is that of unity. -/
def gain (base signal : String) (volume : Option Float) : Build String :=
  match gain? volume with
  | none => pure signal
  | some factor => do
      let output ← label (·.reserveDerived base "volume")
      filter [signal] "volume" [("volume", .number factor)] output

/-- Adds one filter of an effect. -/
def step (base signal : String) (step : FilterStep) : Build String := do
  let output ← label (·.reserveDerived base step.suffix)
  emit { inputs := [signal], filter := some step.filter, params := step.params, output }

/-- Runs a signal through effects, in their order. -/
def effects (presets : Keyed WavePreset) (base signal : String) (effects : List Effect) :
    Build String :=
  (effects.flatMap (Effect.steps presets)).foldlM (step base) signal

/-! ### Clips -/

/-- Takes in the file of a clip. -/
def ingest (contentDir : String) (track : UInt64) (position : Nat) (filename : String) :
    Build String := do
  let path := joinPath contentDir filename
  let index := (← get).inputs.length
  let output ← label (·.reserveFile filename track position)
  let signal ← emit (.ingest index path output)
  modify fun draft =>
    { draft with
      inputs := draft.inputs ++ [⟨UInt64.ofNat index, path, track, UInt64.ofNat position⟩] }
  return signal

/-- The source of a clip: the label that names its chain, and its signal so far. -/
def source (contentDir : String) (track : UInt64) (position : Nat) (clip : Clip Float) :
    Build (String × String) :=
  let duration := clip.timing.duration
  match clip.source with
  | .silence => do
      let base ← label (·.reserveSilence track position)
      let signal ← filter [] "aevalsrc"
        [("exprs", .integer 0), ("duration", .number duration)] base
      return (base, signal)
  | .file filename => do
      let base ← ingest contentDir track position filename
      if clip.timing.isElastic then
        let output ← label (·.reserveDerived base "trim")
        let signal ← filter [base] "atrim" [("duration", .number duration)] output
        return (base, signal)
      else
        return (base, base)

/-- The chain of a clip, which must last some time: a filter takes no time for
no end. -/
def clip (surroundings : Surroundings) (track : UInt64) (position : Nat) (clip : Clip Float) :
    Build String := do
  if clip.timing.duration ≤ 0 then
    throw (.recipe (.invalid (.ofClip track position) (.unplayable clip.timing.duration)))
  let (base, signal) ← source surroundings.contentDir track position clip
  let signal ← gain base signal clip.volume
  effects surroundings.presets base signal clip.effects

/-- The chains of the clips of a track from `position` on. -/
def clips (surroundings : Surroundings) (track : UInt64) (position : Nat) :
    List (Clip Float) → Build (List String)
  | [] => pure []
  | first :: rest => do
      let signal ← clip surroundings track position first
      let signals ← clips surroundings track (position + 1) rest
      return signal :: signals

/-! ### Tracks and the mix -/

def track (surroundings : Surroundings) (track : Track Float) : Build String := do
  let signals ← clips surroundings track.index 0 track.clips
  let output ← label (·.reserveTrack track.index "concat")
  let joined ← filter signals "concat"
    [("n", .ofCount track.clips.length), ("v", .integer 0), ("a", .integer 1)] output
  let base := LabelPool.trackBase track.index
  let signal ← gain base joined track.volume
  effects surroundings.presets base signal track.effects

def tracks (surroundings : Surroundings) : List (Track Float) → Build (List String)
  | [] => pure []
  | first :: rest => do
      let signal ← track surroundings first
      let signals ← tracks surroundings rest
      return signal :: signals

/-- What the signal of the whole mix is asked to be called. -/
def finalLabel : String := "out"

def mix (surroundings : Surroundings) (recipe : Recipe Float) : Build MixGraph := do
  let signals ← tracks surroundings recipe.tracks
  let output ← label (·.reserve finalLabel)
  let _ ← filter signals "amix"
    [("inputs", .ofCount recipe.tracks.length), ("duration", .text recipe.endRule.word)] output
  let draft ← get
  return {
    stages := draft.graph.stages
    finalLabel := output
    inputs := draft.inputs
    endRule := recipe.endRule }

end Build

namespace MixGraph

/-- The filter graph of a recipe with the lengths its clips have now. -/
def ofRecipe (surroundings : Surroundings) (recipe : Recipe Float) : Except MixError MixGraph := do
  recipe.check.mapError .recipe
  let (graph, _) ← (Build.mix surroundings recipe).run .empty
  (checkOrder graph.stages).mapError .graph
  return graph

end MixGraph

end Mixdown
