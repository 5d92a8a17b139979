import Mixdown.Effect.Basic
import Mixdown.Scalar

/-!
# Recipes

A recipe is a list of tracks, and a track a list of clips that follow each
other.  A clip plays a file or is silent; its length is fixed, or elastic within
bounds.  All tracks sound together.

Lengths and volumes are of a type `α`: doubles when the program runs.
-/

namespace Mixdown

variable {α : Type}

/-! ## Clips -/

inductive ClipSource where
  | file (filename : String)
  | silence
deriving DecidableEq, Repr

namespace ClipSource

def isSilence : ClipSource → Bool
  | .silence => true
  | .file _ => false

def filename? : ClipSource → Option String
  | .file filename => some filename
  | .silence => none

end ClipSource

/-- How long a clip lasts, in seconds. -/
inductive ClipTiming (α : Type) where
  | fixed (duration : α)
  /-- May last from `minLength` to `maxLength`, and lasts `duration` for now. -/
  | elastic (minLength maxLength duration : α)
deriving DecidableEq, Repr

namespace ClipTiming

/-- An elastic timing starts at its least length. -/
def elasticFrom (minLength maxLength : α) : ClipTiming α :=
  .elastic minLength maxLength minLength

def duration : ClipTiming α → α
  | .fixed duration => duration
  | .elastic _ _ duration => duration

def minLength : ClipTiming α → α
  | .fixed duration => duration
  | .elastic minLength _ _ => minLength

def maxLength : ClipTiming α → α
  | .fixed duration => duration
  | .elastic _ maxLength _ => maxLength

def isElastic : ClipTiming α → Bool
  | .fixed _ => false
  | .elastic _ _ _ => true

end ClipTiming

structure Clip (α : Type) where
  source : ClipSource
  timing : ClipTiming α
  /-- A percentage; none leaves the sound as it is. -/
  volume : Option α
  effects : List Effect
deriving DecidableEq, Repr

/-! ## Tracks -/

structure Track (α : Type) where
  index : UInt64
  clips : List (Clip α)
  volume : Option α
  effects : List Effect
  /-- What the lengths of the clips add up to, as last measured. -/
  duration : α
  minLength : α
  maxLength : α
deriving DecidableEq, Repr

namespace Track

variable [Scalar α]

/-- Adds up the lengths and bounds of the clips. -/
def measure (track : Track α) : Track α :=
  { track with
    duration := Scalar.sum (track.clips.map fun clip => clip.timing.duration)
    minLength := Scalar.sum (track.clips.map fun clip => clip.timing.minLength)
    maxLength := Scalar.sum (track.clips.map fun clip => clip.timing.maxLength) }

/-- A measured track of the given clips. -/
def ofClips (index : UInt64) (clips : List (Clip α)) (volume : Option α)
    (effects : List Effect) : Track α :=
  measure { index, clips, volume, effects, duration := 0, minLength := 0, maxLength := 0 }

/-- How much longer than its least length the track can get. -/
def slack (track : Track α) : α :=
  Scalar.greater (track.maxLength - track.minLength) 0

def elasticCount (track : Track α) : Nat :=
  track.clips.countP fun clip => clip.timing.isElastic

end Track

/-! ## Recipes -/

structure Recipe (α : Type) where
  title : String
  tracks : List (Track α)
deriving DecidableEq, Repr

namespace Recipe

def clips (recipe : Recipe α) : List (Clip α) :=
  recipe.tracks.flatMap Track.clips

def clipCount (recipe : Recipe α) : Nat :=
  recipe.clips.length

def fileClipCount (recipe : Recipe α) : Nat :=
  recipe.clips.countP fun clip => !clip.source.isSilence

/-! ## When the mix ends -/

def hasLoop (recipe : Recipe α) : Bool :=
  recipe.tracks.any fun track =>
    track.effects.any Effect.isLoop || track.clips.any fun clip => clip.effects.any Effect.isLoop

/-- The rules that tracks state, in track order. -/
def statedRules (recipe : Recipe α) : List EndRule :=
  recipe.tracks.flatMap fun track =>
    track.effects.filterMap fun effect =>
      match effect with
      | .mixDuration rule => some rule
      | _ => none

/-- The last rule that a track states; else a recipe with a loop ends with its
shortest track, and any other with its longest. -/
def endRule (recipe : Recipe α) : EndRule :=
  recipe.statedRules.getLast?.getD (if recipe.hasLoop then .shortest else .longest)

end Recipe

/-! ## Volumes -/

/-- The volume in percent that leaves a sound as it is. -/
def unityVolume : Float := 100.0

/-- The factor that a volume multiplies a sound by, when it is not that of unity. -/
def gain? (volume : Option Float) : Option Float :=
  (volume.filter fun percent => decide (1e-9 < Float.abs (percent - unityVolume))).map
    fun percent => percent / unityVolume

end Mixdown
