import Mixdown.Recipe.Basic

/-!
# Comparing recipes

Recipes are compared with their numbers taken as numbers and not as bits.
-/

namespace Mixdown

/-- Whether two lists have as many items and each pair of them is alike. -/
def allAlike {β : Type} (alike : β → β → Bool) : List β → List β → Bool
  | [], [] => true
  | left :: lefts, right :: rights => alike left right && allAlike alike lefts rights
  | _, _ => false

/-- Whether two volumes are both missing, or equal as numbers. -/
def sameVolume (left right : Option Float) : Bool :=
  match left, right with
  | none, none => true
  | some left, some right => left == right
  | _, _ => false

def ClipTiming.sameAs : ClipTiming Float → ClipTiming Float → Bool
  | .fixed left, .fixed right => left == right
  | .elastic minLeft maxLeft left, .elastic minRight maxRight right =>
      minLeft == minRight && maxLeft == maxRight && left == right
  | _, _ => false

def Clip.sameAs (left right : Clip Float) : Bool :=
  decide (left.source = right.source) && left.timing.sameAs right.timing &&
    sameVolume left.volume right.volume && decide (left.effects = right.effects)

def Track.sameAs (left right : Track Float) : Bool :=
  left.index == right.index && allAlike Clip.sameAs left.clips right.clips &&
    sameVolume left.volume right.volume && decide (left.effects = right.effects) &&
    left.duration == right.duration && left.minLength == right.minLength &&
    left.maxLength == right.maxLength

/-- Whether two recipes are the same, with their numbers compared as numbers: the
two zeros are equal, and what is no number is not equal to itself. -/
def Recipe.sameAs (left right : Recipe Float) : Bool :=
  left.title == right.title && allAlike Track.sameAs left.tracks right.tracks

end Mixdown
