import Mixdown.Recipe.Basic
import Mixdown.Recipe.Problem

/-!
# Admission

A recipe is admitted before it is balanced or turned into a filter graph.  The
checks go through it in order and stop at the first that fails.
-/

namespace Mixdown

variable {α : Type} [Scalar α]

/-- A volume, when given, is finite and not negative. -/
def checkVolume : Option α → Except (Reason α) Unit
  | some volume =>
      if Scalar.isFinite volume = false ∨ volume < 0 then .error (.badVolume volume) else .ok ()
  | none => .ok ()

def checkSource : ClipSource → Except (Reason α) Unit
  | .file filename =>
      if (Text.trim filename.toList).isEmpty then .error .noFilename else .ok ()
  | .silence => .ok ()

/-- A fixed length is positive; elastic bounds are ordered, and allow one. -/
def checkTiming : ClipTiming α → Except (Reason α) Unit
  | .fixed duration =>
      if Scalar.isFinite duration = false ∨ duration ≤ 0 then
        .error (.badDuration duration)
      else
        .ok ()
  | .elastic minLength maxLength _ =>
      if Scalar.isFinite minLength = false ∨ minLength < 0 then
        .error (.badMinLength minLength)
      else if Scalar.isFinite maxLength = false ∨ maxLength < minLength then
        .error (.badMaxLength maxLength minLength)
      else if maxLength ≤ 0 then
        .error .zeroMaxLength
      else
        .ok ()

def checkClip (clip : Clip α) : Except (Reason α) Unit := do
  checkSource clip.source
  checkTiming clip.timing
  checkVolume clip.volume

/-- Checks the clips of a track from `position` on. -/
def checkClips (track : UInt64) (position : Nat) : List (Clip α) → Except (RecipeError α) Unit
  | [] => .ok ()
  | clip :: rest =>
      match checkClip clip with
      | .error reason => .error (.invalid (.ofClip track position) reason)
      | .ok () => checkClips track (position + 1) rest

/-- Checks a track; `earlier` are the indices of the tracks before it. -/
def checkTrack (earlier : List UInt64) (track : Track α) : Except (RecipeError α) Unit :=
  if earlier.contains track.index then
    .error (.invalid (.ofTrack track.index) .duplicateIndex)
  else if track.clips.isEmpty then
    .error (.noClips track.index)
  else
    match checkVolume track.volume with
    | .error reason => .error (.invalid (.ofTrack track.index) reason)
    | .ok () => checkClips track.index 0 track.clips

def checkTracks (earlier : List UInt64) : List (Track α) → Except (RecipeError α) Unit
  | [] => .ok ()
  | track :: rest => do
      checkTrack earlier track
      checkTracks (track.index :: earlier) rest

/-- Whether a recipe can be balanced and turned into a filter graph, and if not,
the first thing that is wrong with it. -/
def Recipe.check (recipe : Recipe α) : Except (RecipeError α) Unit :=
  if recipe.tracks.isEmpty then .error .noTracks else checkTracks [] recipe.tracks

end Mixdown
