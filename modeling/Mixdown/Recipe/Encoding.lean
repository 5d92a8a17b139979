import Mixdown.Recipe.Basic

/-!
# Recipes as data

The exact form of a recipe, in which every field of the types is written out.
Documents that people write are read by `Mixdown.Recipe.Document` instead.
-/

namespace Mixdown

open Datum

def ClipSource.toDatum : ClipSource → Datum
  | .file filename => .record [("kind", .text "file"), ("filename", .text filename)]
  | .silence => .record [("kind", .text "silence")]

def ClipSource.ofDatum? : Datum → Option ClipSource :=
  tagged? "kind"
    [("file", ClipSource.file <$> required "filename" text?),
      ("silence", pure .silence)]

def ClipTiming.toDatum : ClipTiming Float → Datum
  | .fixed duration => .record [("kind", .text "fixed"), ("duration", .ofFloat duration)]
  | .elastic minLength maxLength duration =>
      .record
        [("kind", .text "elastic"), ("minLength", .ofFloat minLength),
          ("maxLength", .ofFloat maxLength), ("duration", .ofFloat duration)]

def ClipTiming.ofDatum? : Datum → Option (ClipTiming Float) :=
  tagged? "kind"
    [("fixed", ClipTiming.fixed <$> required "duration" float?),
      ("elastic", ClipTiming.elastic <$> required "minLength" float? <*>
        required "maxLength" float? <*> required "duration" float?)]

def Clip.toDatum (clip : Clip Float) : Datum :=
  .record
    ([("source", clip.source.toDatum), ("timing", clip.timing.toDatum)] ++
      fieldIfSome "volume" (clip.volume.map .ofFloat) ++
      fieldIfAny "effects" (clip.effects.map Effect.toDatum))

def Clip.ofDatum? : Datum → Option (Clip Float) :=
  record? do
    let source ← required "source" ClipSource.ofDatum?
    let timing ← required "timing" ClipTiming.ofDatum?
    let volume ← defaulted "volume" [] none (optional? float?)
    let effects ← defaulted "effects" [] [] (list? Effect.ofDatum?)
    return { source, timing, volume, effects }

def Track.toDatum (track : Track Float) : Datum :=
  .record
    ([("index", .ofNat track.index.toNat), ("clips", .list (track.clips.map Clip.toDatum))] ++
      fieldIfSome "volume" (track.volume.map .ofFloat) ++
      fieldIfAny "effects" (track.effects.map Effect.toDatum) ++
      [("duration", .ofFloat track.duration), ("minLength", .ofFloat track.minLength),
        ("maxLength", .ofFloat track.maxLength)])

def Track.ofDatum? : Datum → Option (Track Float) :=
  record? do
    let index ← required "index" unsigned64?
    let clips ← required "clips" (list? Clip.ofDatum?)
    let volume ← defaulted "volume" [] none (optional? float?)
    let effects ← defaulted "effects" [] [] (list? Effect.ofDatum?)
    let duration ← defaulted "duration" [] 0.0 float?
    let minLength ← defaulted "minLength" [] 0.0 float?
    let maxLength ← defaulted "maxLength" [] 0.0 float?
    return { index, clips, volume, effects, duration, minLength, maxLength }

def Recipe.toDatum (recipe : Recipe Float) : Datum :=
  .record [("title", .text recipe.title), ("tracks", .list (recipe.tracks.map Track.toDatum))]

def Recipe.ofDatum? : Datum → Option (Recipe Float) :=
  record? do
    let title ← required "title" text?
    let tracks ← required "tracks" (list? Track.ofDatum?)
    return { title, tracks }

end Mixdown
