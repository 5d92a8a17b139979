import Mixdown.Effect.Basic
import Mixdown.Signal.Chain

/-!
# Mix graphs

A mix graph is the filter graph of a whole recipe, with the files that the
encoder takes in for it.
-/

namespace Mixdown

/-- A file that the encoder takes in, from a path that is valid UTF-8, and the clip it is
for. -/
structure InputFile where
  index : UInt64
  path : String
  track : UInt64
  clip : UInt64
deriving DecidableEq, Repr

/-- A whole filter graph with the files it takes in. -/
structure MixGraph where
  stages : List Stage
  finalLabel : String
  inputs : List InputFile
  endRule : EndRule
deriving DecidableEq, Repr

namespace MixGraph

def text (graph : MixGraph) : String :=
  graphText graph.stages

end MixGraph

/-! ## As data -/

open Datum

def InputFile.toDatum (input : InputFile) : Datum :=
  .record
    [("index", .ofNat input.index.toNat), ("path", .text input.path),
      ("track", .ofNat input.track.toNat), ("clip", .ofNat input.clip.toNat)]

def InputFile.ofDatum? : Datum → Option InputFile :=
  record? do
    let index ← required "index" unsigned64?
    let path ← required "path" text?
    let track ← required "track" unsigned64?
    let clip ← required "clip" unsigned64?
    return { index, path, track, clip }

/-- An end rule as a field of a record. -/
def EndRule.ofDatum? : Datum → Option EndRule :=
  word? EndRule.words isNull

def MixGraph.toDatum (graph : MixGraph) : Datum :=
  .record
    [("stages", .list (graph.stages.map Stage.toDatum)),
      ("finalLabel", .text graph.finalLabel),
      ("inputs", .list (graph.inputs.map InputFile.toDatum)),
      ("durationMode", graph.endRule.toDatum)]

def MixGraph.ofDatum? : Datum → Option MixGraph :=
  record? do
    let stages ← required "stages" (list? Stage.ofDatum?)
    let finalLabel ← required "finalLabel" text?
    let inputs ← required "inputs" (list? InputFile.ofDatum?)
    let endRule ← required "durationMode" EndRule.ofDatum?
    return { stages, finalLabel, inputs, endRule }

end Mixdown
