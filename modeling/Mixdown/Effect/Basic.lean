import Mixdown.Datum.Reading

/-!
# Effects

What a recipe may ask to be done to the sound of a clip or a track.
-/

namespace Mixdown

/-- When a mix ends: with its longest, its shortest or its first track. -/
inductive EndRule where
  | longest
  | shortest
  | first
deriving DecidableEq, Repr

namespace EndRule

def word : EndRule → String
  | .longest => "longest"
  | .shortest => "shortest"
  | .first => "first"

def words : List (String × EndRule) :=
  [("longest", .longest), ("shortest", .shortest), ("first", .first)]

def toDatum (rule : EndRule) : Datum :=
  .text rule.word

end EndRule

inductive Effect where
  /-- Plays `count` more times; `-1` never stops. -/
  | loop (count : Int64)
  | reverse
  | faraway (withVolume : Bool)
  | wave (preset : String)
  /-- Says when the whole mix ends and leaves the sound alone. -/
  | mixDuration (rule : EndRule)
deriving DecidableEq, Repr

namespace Effect

def endless : Int64 := -1

/-- The wave preset that is meant when none, or an unknown one, is named. -/
def defaultPreset : String := "default"

def isMixDuration : Effect → Bool
  | .mixDuration _ => true
  | _ => false

def isLoop : Effect → Bool
  | .loop _ => true
  | _ => false

def toDatum : Effect → Datum
  | .loop count => .record [("name", .text "loop"), ("count", .integer count.toInt)]
  | .reverse => .record [("name", .text "reverse")]
  | .faraway withVolume =>
      .record [("name", .text "faraway"), ("with_volume", .bool withVolume)]
  | .wave preset => .record [("name", .text "wave"), ("preset", .text preset)]
  | .mixDuration rule => .record [("name", .text "mix_duration"), ("mode", rule.toDatum)]

open Datum in
def ofDatum? : Datum → Option Effect :=
  tagged? "name"
    [("loop", loop <$> required "count" signed64?),
      ("reverse", pure reverse),
      ("faraway", faraway <$> required "with_volume" bool?),
      ("wave", wave <$> required "preset" text?),
      ("mix_duration", mixDuration <$> required "mode" (word? EndRule.words isVoid))]

end Effect

end Mixdown
