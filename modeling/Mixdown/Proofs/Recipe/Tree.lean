import Mathlib.Algebra.GroupWithZero.Nat
import Mixdown.Proofs.Recipe.EndRule
import Mixdown.Proofs.Signal.Unfolding
import Mixdown.Signal.Assembly

/-!
# The tree of a recipe

What a mix is made of, told from the recipe alone: the mix of its tracks, each
joined from its clips, each made from its source.  Trees name no labels.
-/

namespace Mixdown

namespace SignalTree

/-- A filter with some options over some signals. -/
def filtered
    (name : String) (params : List (String × ParamValue)) (sources : List SignalTree) :
    SignalTree :=
  .made (some name) (.ofList params) sources

/-- The encoder's input number `number`, which is the file at `path`. -/
def ingested (number : Nat) (path : String) : SignalTree :=
  .made none (.ofList [("input", .ofCount number), ("path", .text path)]) []

/-- A signal at a volume in percent, when one is given that is not just that of
the signal itself. -/
def amplified (volume : Option Float) (signal : SignalTree) : SignalTree :=
  match volume with
  | none => signal
  | some percent =>
      if 1e-9 < Float.abs (percent - 100.0) then
        filtered "volume" [("volume", .number (percent / 100.0))] [signal]
      else
        signal

/-- A signal run through one filter of an effect. -/
def through (signal : SignalTree) (step : FilterStep) : SignalTree :=
  .made (some step.filter) step.params [signal]

/-- A signal run through effects, the first of them first. -/
def processed
    (presets : Keyed WavePreset) (effects : List Effect) (signal : SignalTree) :
    SignalTree :=
  (effects.flatMap (Effect.steps presets)).foldl through signal

end SignalTree

open SignalTree

/-! ## Clips -/

namespace Clip

/-- How many files the encoder takes in for a clip. -/
def fileCount (clip : Clip Float) : Nat :=
  if clip.source.isSilence then 0 else 1

/-- The source of a clip, where `number` files are taken in before it. -/
def sourceTree (contentDir : String) (number : Nat) (clip : Clip Float) : SignalTree :=
  match clip.source, clip.timing with
  | .silence, timing =>
      filtered "aevalsrc" [("exprs", .integer 0), ("duration", .number timing.duration)] []
  | .file filename, .fixed _ => ingested number (joinPath contentDir filename)
  | .file filename, .elastic _ _ duration =>
      filtered "atrim" [("duration", .number duration)]
        [ingested number (joinPath contentDir filename)]

def tree (surroundings : Surroundings) (number : Nat) (clip : Clip Float) : SignalTree :=
  ((clip.sourceTree surroundings.contentDir number).amplified clip.volume).processed
    surroundings.presets clip.effects

end Clip

/-! ## Tracks -/

namespace Track

/-- The trees of clips that follow each other. -/
def clipTrees (surroundings : Surroundings) (number : Nat) :
    List (Clip Float) → List SignalTree
  | [] => []
  | clip :: rest =>
      clip.tree surroundings number ::
        clipTrees surroundings (number + clip.fileCount) rest

/-- How many files the encoder takes in for the clips of a track. -/
def fileCount (track : Track Float) : Nat :=
  (track.clips.map Clip.fileCount).sum

def joinTree (surroundings : Surroundings) (number : Nat) (track : Track Float) :
    SignalTree :=
  filtered "concat"
    [("n", .ofCount track.clips.length), ("v", .integer 0), ("a", .integer 1)]
    (clipTrees surroundings number track.clips)

def tree (surroundings : Surroundings) (number : Nat) (track : Track Float) : SignalTree :=
  ((track.joinTree surroundings number).amplified track.volume).processed
    surroundings.presets track.effects

end Track

/-! ## Recipes -/

namespace Recipe

/-- The trees of tracks that sound together. -/
def trackTrees (surroundings : Surroundings) (number : Nat) :
    List (Track Float) → List SignalTree
  | [] => []
  | track :: rest =>
      track.tree surroundings number ::
        trackTrees surroundings (number + track.fileCount) rest

/-- The tree of a mix that ends by `rule`. -/
def tree (surroundings : Surroundings) (rule : EndRule) (recipe : Recipe Float) :
    SignalTree :=
  filtered "amix"
    [("inputs", .ofCount recipe.tracks.length), ("duration", .text rule.word)]
    (trackTrees surroundings 0 recipe.tracks)

end Recipe

end Mixdown
