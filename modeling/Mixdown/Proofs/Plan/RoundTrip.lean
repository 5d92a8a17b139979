import Mixdown.Plan.Encoding
import Mixdown.Proofs.Datum.Written
import Mixdown.Proofs.Uuid

/-!
# Plans read back

A plan whose numbers are finite reads back from the data that are written for it.
-/

namespace Mixdown

open Datum

/-! ## Numbers that have a text -/

def ParamValue.IsFinite : ParamValue → Prop
  | .number value => value.isFinite = true
  | _ => True

def Stage.IsFinite (stage : Stage) : Prop :=
  ∀ entry ∈ stage.params.entries, entry.2.IsFinite

structure ClipReport.IsFinite (report : ClipReport) : Prop where
  duration : report.duration.isFinite = true
  minLength : report.minLength.isFinite = true
  maxLength : report.maxLength.isFinite = true

structure TrackReport.IsFinite (report : TrackReport) : Prop where
  duration : report.duration.isFinite = true
  minLength : report.minLength.isFinite = true
  maxLength : report.maxLength.isFinite = true
  clips : ∀ clip ∈ report.clips, clip.IsFinite

/-- All numbers of a plan are finite. -/
structure Plan.IsFinite (plan : Plan) : Prop where
  mixDuration : plan.mixDuration.isFinite = true
  stages : ∀ stage ∈ plan.stages, stage.IsFinite
  timing : ∀ report ∈ plan.timing, report.IsFinite

instance (value : ParamValue) : Decidable value.IsFinite :=
  match value with
  | .integer _ => .isTrue trivial
  | .number value => inferInstanceAs (Decidable (value.isFinite = true))
  | .text _ => .isTrue trivial

instance (stage : Stage) : Decidable stage.IsFinite :=
  inferInstanceAs (Decidable (∀ entry ∈ stage.params.entries, entry.2.IsFinite))

instance (report : ClipReport) : Decidable report.IsFinite :=
  decidable_of_iff
    (report.duration.isFinite = true ∧ report.minLength.isFinite = true ∧
      report.maxLength.isFinite = true)
    ⟨fun ⟨duration, minLength, maxLength⟩ => ⟨duration, minLength, maxLength⟩,
      fun finite => ⟨finite.duration, finite.minLength, finite.maxLength⟩⟩

instance (report : TrackReport) : Decidable report.IsFinite :=
  decidable_of_iff
    (report.duration.isFinite = true ∧ report.minLength.isFinite = true ∧
      report.maxLength.isFinite = true ∧ ∀ clip ∈ report.clips, clip.IsFinite)
    ⟨fun ⟨duration, minLength, maxLength, clips⟩ => ⟨duration, minLength, maxLength, clips⟩,
      fun finite => ⟨finite.duration, finite.minLength, finite.maxLength, finite.clips⟩⟩

instance (plan : Plan) : Decidable plan.IsFinite :=
  decidable_of_iff
    (plan.mixDuration.isFinite = true ∧ (∀ stage ∈ plan.stages, stage.IsFinite) ∧
      ∀ report ∈ plan.timing, report.IsFinite)
    ⟨fun ⟨mixDuration, stages, timing⟩ => ⟨mixDuration, stages, timing⟩,
      fun finite => ⟨finite.mixDuration, finite.stages, finite.timing⟩⟩

/-! ## Stages and inputs -/

/-- A parameter reads back as the same kind of value. -/
theorem ParamValue.ofDatum?_toDatum {value : ParamValue} (finite : value.IsFinite) :
    ofDatum? value.toDatum = some value := by
  cases value with
  | integer value =>
      have word : signed64? (.integer value.toInt) = some value := Text.signed64?_toInt value
      rw [toDatum, ofDatum?, word]
      rfl
  | number value =>
      have double : float? (.ofFloat value) = some value := float?_ofFloat finite
      have noWord : signed64? (.ofFloat value) = none := by
        rw [ofFloat]
        split <;> rfl
      rw [toDatum, ofDatum?, noWord, double]
      rfl
  | text value => rfl

def Stage.slots (stage : Stage) : List (String × Option Datum) :=
  [("inputs", some (.list (stage.inputs.map .text))),
    ("filter", stage.filter.map .text),
    ("params",
      if stage.params.isEmpty then none else some (.ofKeyed ParamValue.toDatum stage.params)),
    ("output", some (.text stage.output))]

theorem Stage.toDatum_eq (stage : Stage) : stage.toDatum = .record (fieldsOf stage.slots) := by
  obtain ⟨inputs, filter, params, output⟩ := stage
  rw [toDatum, slots]
  cases filter <;> split <;> rfl

theorem Stage.reads_params {stage : Stage} (finite : stage.IsFinite) :
    (if stage.params.isEmpty then none
      else some (ofKeyed ParamValue.toDatum stage.params)).elim (some Keyed.empty)
        (keyed? ParamValue.ofDatum?) = some stage.params := by
  split
  next noParams =>
    obtain ⟨inputs, filter, ⟨entries, increase⟩, output⟩ := stage
    cases List.isEmpty_iff.mp noParams
    rfl
  next =>
    exact keyed?_ofKeyed fun entry member => ParamValue.ofDatum?_toDatum (finite entry member)

theorem Stage.ofDatum?_toDatum {stage : Stage} (finite : stage.IsFinite) :
    ofDatum? stage.toDatum = some stage := by
  rw [toDatum_eq, ofDatum?, record?, recordIn?, readFields?, slots]
  rw [run_required_bind (by simp) (list?_texts _),
    run_defaulted_bind (by simp) (elim_optional?_text _),
    run_defaulted_bind (by simp) (reads_params finite),
    run_required_bind (by simp) (text?_text _)]
  rfl

theorem InputFile.ofDatum?_toDatum (input : InputFile) : ofDatum? input.toDatum = some input := by
  change record? _ (.record (fieldsOf
    [("index", some (.ofNat input.index.toNat)), ("path", some (.text input.path)),
      ("track", some (.ofNat input.track.toNat)), ("clip", some (.ofNat input.clip.toNat))])) = _
  rw [record?, recordIn?, readFields?]
  rw [run_required_bind (by simp) (unsigned64?_ofNat_toNat _),
    run_required_bind (by simp) (text?_text _),
    run_required_bind (by simp) (unsigned64?_ofNat_toNat _),
    run_required_bind (by simp) (unsigned64?_ofNat_toNat _)]
  rfl

theorem EndRule.ofDatum?_toDatum (rule : EndRule) : ofDatum? rule.toDatum = some rule := by
  cases rule <;> rfl

/-! ## Reports -/

theorem ClipKind.word?_words_word (kind : ClipKind) :
    word? words isNull (.text kind.word) = some kind := by
  cases kind <;> rfl

def ClipReport.slots (report : ClipReport) : List (String × Option Datum) :=
  [("position", some (.ofNat report.position.toNat)),
    ("filename", report.filename.map .text),
    ("kind", some (.text report.kind.word)),
    ("duration", some (.ofFloat report.duration)),
    ("minLength", some (.ofFloat report.minLength)),
    ("maxLength", some (.ofFloat report.maxLength))]

theorem ClipReport.toDatum_eq (report : ClipReport) :
    report.toDatum = .record (fieldsOf report.slots) := by
  obtain ⟨position, filename, kind, duration, minLength, maxLength⟩ := report
  cases filename <;> rfl

theorem ClipReport.ofDatum?_toDatum {report : ClipReport} (finite : report.IsFinite) :
    ofDatum? report.toDatum = some report := by
  rw [toDatum_eq, ofDatum?, record?, recordIn?, readFields?, slots]
  rw [run_required_bind (by simp) (unsigned64?_ofNat_toNat _),
    run_defaulted_bind (by simp) (elim_optional?_text _),
    run_required_bind (by simp) (ClipKind.word?_words_word _),
    run_required_bind (by simp) (float?_ofFloat finite.duration),
    run_required_bind (by simp) (float?_ofFloat finite.minLength),
    run_required_bind (by simp) (float?_ofFloat finite.maxLength)]
  rfl

theorem TrackReport.ofDatum?_toDatum {report : TrackReport} (finite : report.IsFinite) :
    ofDatum? report.toDatum = some report := by
  have clips :
      list? ClipReport.ofDatum? (.list (report.clips.map ClipReport.toDatum)) =
        some report.clips :=
    list?_map fun clip member => ClipReport.ofDatum?_toDatum (finite.clips clip member)
  change record? _ (.record (fieldsOf
    [("index", some (.ofNat report.index.toNat)), ("duration", some (.ofFloat report.duration)),
      ("minLength", some (.ofFloat report.minLength)),
      ("maxLength", some (.ofFloat report.maxLength)),
      ("reference", some (.bool report.isReference)),
      ("clips", some (.list (report.clips.map ClipReport.toDatum)))])) = _
  rw [record?, recordIn?, readFields?]
  rw [run_required_bind (by simp) (unsigned64?_ofNat_toNat _),
    run_required_bind (by simp) (float?_ofFloat finite.duration),
    run_required_bind (by simp) (float?_ofFloat finite.minLength),
    run_required_bind (by simp) (float?_ofFloat finite.maxLength),
    run_required_bind (by simp) (bool?_bool _),
    run_required_bind (by simp) clips]
  rfl

/-! ## Plans -/

namespace Plan

def slots (plan : Plan) : List (String × Option Datum) :=
  [("mixId", some plan.mixId.toDatum),
    ("title", some (.text plan.title)),
    ("seed", some (.ofNat plan.seed.toNat)),
    ("mixDuration", some (.ofFloat plan.mixDuration)),
    ("durationMode", some plan.endRule.toDatum),
    ("inputs", some (.list (plan.inputs.map InputFile.toDatum))),
    ("stages", some (.list (plan.stages.map Stage.toDatum))),
    ("finalLabel", some (.text plan.finalLabel)),
    ("timing", some (.list (plan.timing.map TrackReport.toDatum))),
    ("warnings", some (.list (plan.warnings.map .text))),
    ("fingerprint", some (.text plan.fingerprint))]

theorem toDatum_eq (plan : Plan) : plan.toDatum = .record (fieldsOf plan.slots) :=
  rfl

theorem ofDatum?_toDatum {plan : Plan} (finite : plan.IsFinite) :
    ofDatum? plan.toDatum = some plan := by
  have inputs :
      list? InputFile.ofDatum? (.list (plan.inputs.map InputFile.toDatum)) =
        some plan.inputs :=
    list?_map fun input _ => InputFile.ofDatum?_toDatum input
  have stages :
      list? Stage.ofDatum? (.list (plan.stages.map Stage.toDatum)) = some plan.stages :=
    list?_map fun stage member => Stage.ofDatum?_toDatum (finite.stages stage member)
  have timing :
      list? TrackReport.ofDatum? (.list (plan.timing.map TrackReport.toDatum)) =
        some plan.timing :=
    list?_map fun report member => TrackReport.ofDatum?_toDatum (finite.timing report member)
  rw [toDatum_eq, ofDatum?, record?, recordIn?, readFields?, slots]
  rw [run_required_bind (by simp) (Uuid.ofDatum?_toDatum _),
    run_required_bind (by simp) (text?_text _),
    run_required_bind (by simp) (unsigned64?_ofNat_toNat _),
    run_required_bind (by simp) (float?_ofFloat finite.mixDuration),
    run_required_bind (by simp) (EndRule.ofDatum?_toDatum _),
    run_required_bind (by simp) inputs,
    run_required_bind (by simp) stages,
    run_required_bind (by simp) (text?_text _),
    run_required_bind (by simp) timing,
    run_required_bind (by simp) (list?_texts _),
    run_required_bind (by simp) (text?_text _)]
  rfl

end Plan

end Mixdown
