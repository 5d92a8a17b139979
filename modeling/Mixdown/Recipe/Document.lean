import Mixdown.Datum.Reading

/-!
# Recipe documents

A recipe as people write it down: nearly everything may be left out, many fields
have a second name, and a list of one may be written without its brackets.
-/

namespace Mixdown

structure ClipEntry where
  filename : Option String
  classification : List String
  duration : Option Float
  minLength : Option Float
  maxLength : Option Float
  volume : Option Float
  effects : List String
  /-- Lengths noted by other programs, in any form; they say nothing here. -/
  clipLength : List Datum
deriving Repr

structure TrackEntry where
  track : Option UInt64
  index : Option UInt64
  clips : List ClipEntry
  volume : Option Float
  effects : List String
deriving Repr

structure Document where
  title : String
  tracks : List TrackEntry
deriving Repr

/-! ## Reading -/

open Datum

/-- Any value, in its plain form. -/
def Datum.plain? (datum : Datum) : Option Datum :=
  if datum.readable then some datum.collapse else none

def ClipEntry.ofDatum? : Datum → Option ClipEntry :=
  record? do
    let filename ← defaulted "filename" [] none (optional? text?)
    let classification ← defaulted "classification" ["classifications"] [] (oneOrMany? text?)
    let duration ← defaulted "duration" [] none (optional? float?)
    let minLength ← defaulted "minLength" ["min_length"] none (optional? float?)
    let maxLength ← defaulted "maxLength" ["max_length"] none (optional? float?)
    let volume ← defaulted "volume" [] none (optional? float?)
    let effects ← defaulted "effects" ["effect"] [] (oneOrMany? text?)
    let clipLength ← defaulted "clipLength" ["length"] [] (oneOrMany? plain?)
    return { filename, classification, duration, minLength, maxLength, volume, effects, clipLength }

def TrackEntry.ofDatum? : Datum → Option TrackEntry :=
  record? do
    let track ← defaulted "track" [] none (optional? unsigned64?)
    let index ← defaulted "index" [] none (optional? unsigned64?)
    let clips ← defaulted "clips" ["clip"] [] (oneOrMany? ClipEntry.ofDatum?)
    let volume ← defaulted "volume" [] none (optional? float?)
    let effects ← defaulted "effects" ["effect"] [] (oneOrMany? text?)
    return { track, index, clips, volume, effects }

def Document.ofDatum? : Datum → Option Document :=
  record? do
    let title ← defaulted "title" [] "" text?
    let tracks ← defaulted "tracks" ["track"] [] (oneOrMany? TrackEntry.ofDatum?)
    return { title, tracks }

/-! ## Writing -/

def ClipEntry.toDatum (entry : ClipEntry) : Datum :=
  .record
    (fieldIfSome "filename" (entry.filename.map .text) ++
      fieldIfAny "classification" (entry.classification.map .text) ++
      fieldIfSome "duration" (entry.duration.map .ofFloat) ++
      fieldIfSome "minLength" (entry.minLength.map .ofFloat) ++
      fieldIfSome "maxLength" (entry.maxLength.map .ofFloat) ++
      fieldIfSome "volume" (entry.volume.map .ofFloat) ++
      fieldIfAny "effects" (entry.effects.map .text) ++
      fieldIfAny "clipLength" entry.clipLength)

def TrackEntry.toDatum (entry : TrackEntry) : Datum :=
  .record
    (fieldIfSome "track" (entry.track.map fun track => .ofNat track.toNat) ++
      fieldIfSome "index" (entry.index.map fun index => .ofNat index.toNat) ++
      [("clips", .list (entry.clips.map ClipEntry.toDatum))] ++
      fieldIfSome "volume" (entry.volume.map .ofFloat) ++
      fieldIfAny "effects" (entry.effects.map .text))

def Document.toDatum (document : Document) : Datum :=
  .record
    [("title", .text document.title),
      ("tracks", .list (document.tracks.map TrackEntry.toDatum))]

end Mixdown
