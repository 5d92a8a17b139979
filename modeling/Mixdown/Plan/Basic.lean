import Mixdown.Plan.Fingerprint
import Mixdown.Random.Uniform
import Mixdown.Settings.Basic
import Mixdown.Timing.Balance
import Mixdown.Uuid

/-!
# Plans

A plan holds all that the encoder needs for a mix, and the timing behind it.
-/

namespace Mixdown

inductive ClipKind where
  | fixed
  | elastic
  | silence
deriving DecidableEq, Repr

structure ClipReport where
  position : UInt64
  filename : Option String
  kind : ClipKind
  duration : Float
  minLength : Float
  maxLength : Float
deriving DecidableEq, Repr

structure TrackReport where
  index : UInt64
  duration : Float
  minLength : Float
  maxLength : Float
  /-- Whether the track sets the length of the mix. -/
  isReference : Bool
  clips : List ClipReport
deriving DecidableEq, Repr

structure Plan where
  mixId : Uuid
  title : String
  /-- What all lengths were drawn from. -/
  seed : UInt64
  mixDuration : Float
  endRule : EndRule
  inputs : List InputFile
  stages : List Stage
  finalLabel : String
  timing : List TrackReport
  warnings : List String
  fingerprint : String
deriving DecidableEq, Repr

/-! ## Timing -/

def Clip.kind (clip : Clip Float) : ClipKind :=
  match clip.source, clip.timing with
  | .silence, _ => .silence
  | .file _, .fixed _ => .fixed
  | .file _, .elastic _ _ _ => .elastic

def ClipReport.ofClip (position : Nat) (clip : Clip Float) : ClipReport where
  position := UInt64.ofNat position
  filename := clip.source.filename?
  kind := clip.kind
  duration := clip.timing.duration
  minLength := clip.timing.minLength
  maxLength := clip.timing.maxLength

def TrackReport.ofTrack (reference position : Nat) (track : Track Float) : TrackReport where
  index := track.index
  duration := track.duration
  minLength := track.minLength
  maxLength := track.maxLength
  isReference := position == reference
  clips := track.clips.mapIdx ClipReport.ofClip

/-! ## Planning -/

namespace Plan

/-- The plan of a balanced recipe. -/
def ofBalanced (surroundings : Surroundings) (mixId : Uuid) (seed : UInt64)
    (report : Timing.Report Float) (recipe : Recipe Float) : Except MixError Plan := do
  let graph ← MixGraph.ofRecipe surroundings recipe
  return {
    mixId
    title := recipe.title
    seed
    mixDuration := report.mixDuration
    endRule := graph.endRule
    inputs := graph.inputs
    stages := graph.stages
    finalLabel := graph.finalLabel
    timing := recipe.tracks.mapIdx (TrackReport.ofTrack report.reference)
    warnings := report.warnings.map Timing.Warning.display
    fingerprint := Mixdown.fingerprint graph.stages graph.inputs graph.finalLabel }

/-- Balances a recipe with draws from a seed and plans its mix. -/
def ofRecipe (settings : Settings) (mixId : Uuid) (seed : UInt64) (recipe : Recipe Float) :
    Except Timing.Fault (Except MixError Plan) := do
  let balanced ← Timing.balance Random.uniform settings.balance recipe (Random.Pcg.ofSeed seed)
  return do
    let report ← balanced.outcome.mapError .recipe
    ofBalanced settings.surroundings mixId seed report balanced.recipe

/-- The fingerprint of what a plan holds now. -/
def refingerprint (plan : Plan) : String :=
  Mixdown.fingerprint plan.stages plan.inputs plan.finalLabel

end Plan

end Mixdown
