import Mixdown.Proofs.Recipe.Retimed
import Mixdown.Proofs.Signal.Steps

/-!
# Graphs of retimed recipes

Building tells only two filters how long a clip lasts: the one that makes silence and
the one that cuts a file.  Two steps of building that differ in nothing else take
drafts that differ in nothing else to such drafts, with the same labels.
-/

namespace Mixdown

/-! ## Retimed graphs -/

/-- The same parameter, or a duration with another number. -/
inductive ParamRetimed : String × ParamValue → String × ParamValue → Prop
  | same (entry : String × ParamValue) : ParamRetimed entry entry
  | duration (before after : Float) :
      ParamRetimed ("duration", .number before) ("duration", .number after)

/-- The same stage, but for how long it lasts if it makes silence or cuts a file. -/
structure Stage.Retimed (stage other : Stage) : Prop where
  inputs : stage.inputs = other.inputs
  filter : stage.filter = other.filter
  output : stage.output = other.output
  params :
    stage.params = other.params ∨
      (stage.filter = some "atrim" ∨ stage.filter = some "aevalsrc") ∧
        List.Forall₂ ParamRetimed stage.params.entries other.params.entries

theorem Stage.Retimed.refl (stage : Stage) : stage.Retimed stage :=
  ⟨rfl, rfl, rfl, Or.inl rfl⟩

structure MixGraph.Retimed (graph other : MixGraph) : Prop where
  stages : List.Forall₂ Stage.Retimed graph.stages other.stages
  finalLabel : graph.finalLabel = other.finalLabel
  inputs : graph.inputs = other.inputs
  endRule : graph.endRule = other.endRule

structure Draft.Retimed (draft other : Draft) : Prop where
  stages : List.Forall₂ Stage.Retimed draft.graph.stages other.graph.stages
  labels : draft.labels = other.labels
  inputs : draft.inputs = other.inputs

/-! ## Steps that agree -/

namespace Build

/-- Two steps agree when, from drafts that differ only in durations, they can only end
with related results and such drafts. -/
def Agree {β : Type} (related : β → β → Prop) (build other : Build β) : Prop :=
  ∀ ⦃draft otherDraft result otherResult after otherAfter⦄,
    draft.Retimed otherDraft →
    build.run draft = .ok (result, after) →
    other.run otherDraft = .ok (otherResult, otherAfter) →
    related result otherResult ∧ after.Retimed otherAfter

section Agree

variable {β γ : Type} {related : β → β → Prop} {final : γ → γ → Prop}

theorem agree_pure {result other : β} (holds : related result other) :
    Agree related (pure result) (pure other) := by
  intro draft otherDraft _ _ _ _ retimed ran otherRan
  cases ran
  cases otherRan
  exact ⟨holds, retimed⟩

theorem agree_throw (error : MixError) (other : Build β) :
    Agree related (throw error) other := by
  intro _ _ _ _ _ _ _ ran
  cases ran

theorem agree_throw_right (error : MixError) (build : Build β) :
    Agree related build (throw error) := by
  intro _ _ _ _ _ _ _ _ ran
  cases ran

theorem Agree.bind
    {build other : Build β} {next otherNext : β → Build γ}
    (first : Agree related build other)
    (rest : ∀ result otherResult, related result otherResult →
      Agree final (next result) (otherNext otherResult)) :
    Agree final (build >>= next) (other >>= otherNext) := by
  intro draft otherDraft _ _ _ _ retimed ran otherRan
  obtain ⟨⟨result, middle⟩, firstRan, restRan⟩ := bind_eq_ok_iff.mp ran
  obtain ⟨⟨otherResult, otherMiddle⟩, otherFirstRan, otherRestRan⟩ :=
    bind_eq_ok_iff.mp otherRan
  obtain ⟨holds, stillRetimed⟩ := first retimed firstRan otherFirstRan
  exact rest result otherResult holds stillRetimed restRan otherRestRan

end Agree

/-! ## Single stages -/

theorem agree_get : Agree Draft.Retimed get get := by
  intro _ _ _ _ _ _ retimed ran otherRan
  cases ran
  cases otherRan
  exact ⟨retimed, retimed⟩

theorem agree_label (take : LabelPool → String × LabelPool) :
    Agree Eq (label take) (label take) := by
  intro draft otherDraft _ _ _ _ retimed ran otherRan
  cases ran
  cases otherRan
  rw [retimed.labels]
  exact ⟨rfl, retimed.stages, rfl, retimed.inputs⟩

theorem agree_emit {stage other : Stage} (retimed : stage.Retimed other) :
    Agree Eq (emit stage) (emit other) := by
  unfold emit
  refine agree_get.bind ?_
  intro draft otherDraft drafts
  split
  next graph pushed =>
    split
    next otherGraph otherPushed =>
      intro _ _ _ _ _ _ _ ran otherRan
      cases ran
      cases otherRan
      refine ⟨retimed.output, ?_, drafts.labels, drafts.inputs⟩
      change List.Forall₂ _ graph.stages otherGraph.stages
      rw [FilterGraph.stages_of_push pushed, FilterGraph.stages_of_push otherPushed]
      exact List.rel_append drafts.stages (.cons retimed .nil)
    next error _ => exact agree_throw_right _ _
  next error _ => exact agree_throw _ _

theorem agree_filter
    (inputs : List String) (name : String) (params : List (String × ParamValue))
    (output : String) :
    Agree Eq (filter inputs name params output) (filter inputs name params output) :=
  agree_emit (.refl _)

/-! ## Chains -/

theorem agree_step (base signal : String) (step : FilterStep) :
    Agree Eq (Build.step base signal step) (Build.step base signal step) := by
  unfold Build.step
  refine (agree_label _).bind ?_
  rintro output _ rfl
  exact agree_emit (.refl _)

theorem agree_gain (base signal : String) (volume : Option Float) :
    Agree Eq (gain base signal volume) (gain base signal volume) := by
  unfold gain
  split
  next => exact agree_pure rfl
  next factor _ =>
    refine (agree_label _).bind ?_
    rintro output _ rfl
    exact agree_filter _ _ _ _

theorem agree_effects
    (presets : Keyed WavePreset) (base signal : String) (effects : List Effect) :
    Agree Eq (Build.effects presets base signal effects)
      (Build.effects presets base signal effects) := by
  unfold Build.effects
  -- The filters of the effects do not depend on the draft, so they go one by one.
  generalize effects.flatMap (Effect.steps presets) = steps
  induction steps generalizing signal with
  | nil => exact agree_pure rfl
  | cons step rest inductionHypothesis =>
      rw [List.foldlM_cons]
      refine (agree_step base signal step).bind ?_
      rintro made _ rfl
      exact inductionHypothesis made

/-! ## Clips -/

theorem agree_ingest
    (contentDir : String) (track : UInt64) (position : Nat) (filename : String) :
    Agree Eq (ingest contentDir track position filename)
      (ingest contentDir track position filename) := by
  unfold ingest
  refine agree_get.bind ?_
  intro draft otherDraft drafts
  rw [drafts.inputs]
  refine (agree_label _).bind ?_
  rintro output _ rfl
  refine (agree_emit (.refl _)).bind ?_
  rintro made _ rfl
  intro before otherBefore _ _ _ _ retimed ran otherRan
  cases ran
  cases otherRan
  exact ⟨rfl, retimed.stages, retimed.labels, congrArg (· ++ _) retimed.inputs⟩

/-- The filter that makes silence may last differently. -/
theorem agree_silence (before after : Float) (output : String) :
    Agree Eq
      (filter [] "aevalsrc" [("exprs", .integer 0), ("duration", .number before)] output)
      (filter [] "aevalsrc" [("exprs", .integer 0), ("duration", .number after)] output) := by
  have entries (duration : Float) :
      (Keyed.ofList [("exprs", ParamValue.integer 0), ("duration", .number duration)]).entries =
        [("duration", .number duration), ("exprs", .integer 0)] :=
    if_pos (by decide : "duration" < "exprs")
  refine agree_emit ⟨rfl, rfl, rfl, Or.inr ⟨Or.inr rfl, ?_⟩⟩
  rw [entries, entries]
  exact .cons (.duration before after) (.cons (.same _) .nil)

/-- The filter that cuts a file may last differently. -/
theorem agree_trim (signal : String) (before after : Float) (output : String) :
    Agree Eq
      (filter [signal] "atrim" [("duration", .number before)] output)
      (filter [signal] "atrim" [("duration", .number after)] output) :=
  agree_emit ⟨rfl, rfl, rfl, Or.inr ⟨Or.inl rfl, .cons (ParamRetimed.duration before after) .nil⟩⟩

variable {clip other : Clip Float}

theorem agree_source
    (contentDir : String) (track : UInt64) (position : Nat) (retimed : clip.Retimed other) :
    Agree Eq (source contentDir track position clip)
      (source contentDir track position other) := by
  unfold source
  rw [← retimed.source, ← retimed.timing.isElastic_eq]
  cases clip.source with
  | silence =>
      refine (agree_label _).bind ?_
      rintro base _ rfl
      refine (agree_silence _ _ base).bind ?_
      rintro signal _ rfl
      exact agree_pure rfl
  | file filename =>
      refine (agree_ingest contentDir track position filename).bind ?_
      rintro base _ rfl
      split
      next =>
        refine (agree_label _).bind ?_
        rintro output _ rfl
        refine (agree_trim base _ _ output).bind ?_
        rintro signal _ rfl
        exact agree_pure rfl
      next => exact agree_pure rfl

theorem agree_clip
    (surroundings : Surroundings) (track : UInt64) (position : Nat)
    (retimed : clip.Retimed other) :
    Agree Eq (Build.clip surroundings track position clip)
      (Build.clip surroundings track position other) := by
  unfold Build.clip
  split
  next => exact agree_throw _ _
  next =>
    split
    next => exact agree_throw_right _ _
    next =>
      rw [← retimed.volume, ← retimed.effects]
      refine (agree_source surroundings.contentDir track position retimed).bind ?_
      rintro ⟨base, signal⟩ _ rfl
      refine (agree_gain base signal clip.volume).bind ?_
      rintro amplified _ rfl
      exact agree_effects surroundings.presets base amplified clip.effects

theorem agree_clips
    (surroundings : Surroundings) (track : UInt64) (position : Nat)
    {clips others : List (Clip Float)} (retimed : List.Forall₂ Clip.Retimed clips others) :
    Agree Eq (Build.clips surroundings track position clips)
      (Build.clips surroundings track position others) := by
  induction retimed generalizing position with
  | nil => exact agree_pure rfl
  | cons head _ inductionHypothesis =>
      refine (agree_clip surroundings track position head).bind ?_
      rintro signal _ rfl
      refine (inductionHypothesis (position + 1)).bind ?_
      rintro signals _ rfl
      exact agree_pure rfl

/-! ## Tracks and the mix -/

theorem agree_track
    (surroundings : Surroundings) {track other : Track Float} (retimed : track.Retimed other) :
    Agree Eq (Build.track surroundings track) (Build.track surroundings other) := by
  unfold Build.track
  rw [← retimed.index, ← retimed.volume, ← retimed.effects, ← retimed.clips.length_eq]
  refine (agree_clips surroundings track.index 0 retimed.clips).bind ?_
  rintro signals _ rfl
  refine (agree_label _).bind ?_
  rintro output _ rfl
  refine (agree_filter _ _ _ _).bind ?_
  rintro joined _ rfl
  refine (agree_gain _ _ _).bind ?_
  rintro amplified _ rfl
  exact agree_effects _ _ _ _

theorem agree_tracks
    (surroundings : Surroundings) {tracks others : List (Track Float)}
    (retimed : List.Forall₂ Track.Retimed tracks others) :
    Agree Eq (Build.tracks surroundings tracks) (Build.tracks surroundings others) := by
  induction retimed with
  | nil => exact agree_pure rfl
  | cons head _ inductionHypothesis =>
      refine (agree_track surroundings head).bind ?_
      rintro signal _ rfl
      refine inductionHypothesis.bind ?_
      rintro signals _ rfl
      exact agree_pure rfl

theorem agree_mix
    (surroundings : Surroundings) {recipe other : Recipe Float} (retimed : recipe.Retimed other) :
    Agree MixGraph.Retimed (mix surroundings recipe) (mix surroundings other) := by
  unfold mix
  rw [← retimed.endRule_eq, ← retimed.tracks.length_eq]
  refine (agree_tracks surroundings retimed.tracks).bind ?_
  rintro signals _ rfl
  refine (agree_label _).bind ?_
  rintro output _ rfl
  refine (agree_filter _ _ _ _).bind ?_
  rintro made _ rfl
  refine agree_get.bind ?_
  intro draft otherDraft drafts
  exact agree_pure ⟨drafts.stages, rfl, drafts.inputs, rfl⟩

end Build

namespace MixGraph

variable {surroundings : Surroundings} {recipe other : Recipe Float} {graph otherGraph : MixGraph}

theorem retimed_of_ofRecipe
    (retimed : recipe.Retimed other) (compiled : ofRecipe surroundings recipe = .ok graph)
    (otherCompiled : ofRecipe surroundings other = .ok otherGraph) :
    graph.Retimed otherGraph := by
  obtain ⟨_, draft, mixed⟩ := mix_of_ofRecipe compiled
  obtain ⟨_, otherDraft, otherMixed⟩ := mix_of_ofRecipe otherCompiled
  have fresh : Draft.Retimed .empty .empty := ⟨.nil, rfl, rfl⟩
  exact (Build.agree_mix surroundings retimed fresh mixed otherMixed).1

end MixGraph

end Mixdown
