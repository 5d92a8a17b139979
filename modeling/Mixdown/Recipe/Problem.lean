import Mixdown.Effect.Text
import Mixdown.Decimal.Layout

/-!
# Problems with recipes

Why a recipe, or the document it is read from, cannot be used.
-/

namespace Mixdown

variable {α : Type}

/-- Where in a recipe something is wrong: at a clip of a track, at a track, or
nowhere in particular. -/
structure Place where
  track : Option UInt64
  clip : Option Nat
deriving DecidableEq, Repr

namespace Place

def whole : Place := ⟨none, none⟩

def ofTrack (track : UInt64) : Place := ⟨some track, none⟩

def ofClip (track : UInt64) (clip : Nat) : Place := ⟨some track, some clip⟩

def display : Place → String
  | ⟨some track, some clip⟩ => "track " ++ toString track ++ ", clip " ++ toString clip
  | ⟨some track, none⟩ => "track " ++ toString track
  | ⟨none, some clip⟩ => "clip " ++ toString clip
  | ⟨none, none⟩ => "recipe"

end Place

/-- What is wrong at a place. -/
inductive Reason (α : Type) where
  | notJson
  | notDocument
  | notTrackRecord
  | duplicateIndex
  | noFilename
  | noTiming
  | halfBounds
  | effect (error : EffectError)
  | endRuleOnClip
  | badDuration (duration : α)
  | badMinLength (minLength : α)
  | badMaxLength (maxLength minLength : α)
  | zeroMaxLength
  | badVolume (volume : α)
  | unplayable (duration : α)
  /-- A reason given in words. -/
  | stated (text : String)
deriving DecidableEq, Repr

def Reason.message : Reason Float → String
  | .notJson => "invalid recipe json"
  | .notDocument => "invalid recipe document"
  | .notTrackRecord => "invalid track record"
  | .duplicateIndex => "duplicate track index"
  | .noFilename => "clip has no filename"
  | .noTiming => "clip needs a duration or a minLength/maxLength pair"
  | .halfBounds => "elastic clip needs both minLength and maxLength"
  | .effect error => error.message
  | .endRuleOnClip => "mix duration effects are only valid on tracks"
  | .badDuration duration =>
      "duration must be positive, got " ++ Decimal.spoken.write duration
  | .badMinLength minLength =>
      "minLength must be non-negative, got " ++ Decimal.spoken.write minLength
  | .badMaxLength maxLength minLength =>
      "maxLength " ++ Decimal.spoken.write maxLength ++ " must not be below minLength " ++
        Decimal.spoken.write minLength
  | .zeroMaxLength => "maxLength must be positive"
  | .badVolume volume =>
      "volume must be a non-negative percentage, got " ++ Decimal.spoken.write volume
  | .unplayable duration =>
      "clip resolved to a non-positive duration " ++ Decimal.spoken.write duration
  | .stated text => text

inductive RecipeError (α : Type) where
  | noTracks
  | noClips (track : UInt64)
  | invalid (place : Place) (reason : Reason α)
deriving DecidableEq, Repr

def RecipeError.message : RecipeError Float → String
  | .noTracks => "recipe has no tracks"
  | .noClips track => "track " ++ toString track ++ " has no clips"
  | .invalid place reason =>
      "invalid recipe at " ++ place.display ++ ": " ++ reason.message

end Mixdown
