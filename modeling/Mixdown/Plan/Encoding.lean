import Mixdown.Plan.Basic

/-!
# Plans as data
-/

namespace Mixdown

open Datum

namespace ClipKind

def word : ClipKind → String
  | .fixed => "fixed"
  | .elastic => "elastic"
  | .silence => "silence"

def words : List (String × ClipKind) :=
  [("fixed", .fixed), ("elastic", .elastic), ("silence", .silence)]

end ClipKind

def ClipReport.toDatum (report : ClipReport) : Datum :=
  .record
    ([("position", .ofNat report.position.toNat)] ++
      fieldIfSome "filename" (report.filename.map .text) ++
      [("kind", .text report.kind.word), ("duration", .ofFloat report.duration),
        ("minLength", .ofFloat report.minLength), ("maxLength", .ofFloat report.maxLength)])

def ClipReport.ofDatum? : Datum → Option ClipReport :=
  record? do
    let position ← required "position" unsigned64?
    let filename ← defaulted "filename" [] none (optional? text?)
    let kind ← required "kind" (word? ClipKind.words isNull)
    let duration ← required "duration" float?
    let minLength ← required "minLength" float?
    let maxLength ← required "maxLength" float?
    return { position, filename, kind, duration, minLength, maxLength }

def TrackReport.toDatum (report : TrackReport) : Datum :=
  .record
    [("index", .ofNat report.index.toNat), ("duration", .ofFloat report.duration),
      ("minLength", .ofFloat report.minLength), ("maxLength", .ofFloat report.maxLength),
      ("reference", .bool report.isReference),
      ("clips", .list (report.clips.map ClipReport.toDatum))]

def TrackReport.ofDatum? : Datum → Option TrackReport :=
  record? do
    let index ← required "index" unsigned64?
    let duration ← required "duration" float?
    let minLength ← required "minLength" float?
    let maxLength ← required "maxLength" float?
    let isReference ← required "reference" bool?
    let clips ← required "clips" (list? ClipReport.ofDatum?)
    return { index, duration, minLength, maxLength, isReference, clips }

namespace Plan

/-- The fields of a plan after its identifier. -/
def fields (plan : Plan) : List (String × Datum) :=
  [("title", .text plan.title),
    ("seed", .ofNat plan.seed.toNat),
    ("mixDuration", .ofFloat plan.mixDuration),
    ("durationMode", plan.endRule.toDatum),
    ("inputs", .list (plan.inputs.map InputFile.toDatum)),
    ("stages", .list (plan.stages.map Stage.toDatum)),
    ("finalLabel", .text plan.finalLabel),
    ("timing", .list (plan.timing.map TrackReport.toDatum)),
    ("warnings", .list (plan.warnings.map .text)),
    ("fingerprint", .text plan.fingerprint)]

def toDatum (plan : Plan) : Datum :=
  .record (("mixId", plan.mixId.toDatum) :: plan.fields)

def ofDatum? : Datum → Option Plan :=
  record? do
    let mixId ← required "mixId" Uuid.ofDatum?
    let title ← required "title" text?
    let seed ← required "seed" unsigned64?
    let mixDuration ← required "mixDuration" float?
    let endRule ← required "durationMode" EndRule.ofDatum?
    let inputs ← required "inputs" (list? InputFile.ofDatum?)
    let stages ← required "stages" (list? Stage.ofDatum?)
    let finalLabel ← required "finalLabel" text?
    let timing ← required "timing" (list? TrackReport.ofDatum?)
    let warnings ← required "warnings" (list? text?)
    let fingerprint ← required "fingerprint" text?
    return { mixId, title, seed, mixDuration, endRule, inputs, stages, finalLabel, timing,
             warnings, fingerprint }

end Plan

end Mixdown
