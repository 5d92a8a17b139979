import Mathlib.Data.Prod.Basic
import Mixdown.Proofs.Signal.Forms
import Mixdown.Proofs.Signal.MixGraph
import Mixdown.Proofs.Signal.Opening

/-!
# What building opens

Building goes through the clips in their order and opens each of them.  Gains, effects,
joints and the mix add no opening, and the label that stands for the silence of a place
is free until the clip in that place is reached.
-/

namespace Mixdown

/-! ## Drafts -/

/-- The draft holds the openings of the clips gone through; of the labels of silence
only those of their places are taken. -/
structure Draft.HasOpened (contentDir : String) (draft : Draft) (cues : List Cue) : Prop where
  opened : Opened contentDir 0 cues (draft.graph.stages.filter Stage.isOpening) draft.inputs
  silences : ∀ track position,
    LabelPool.silenceLabel track position ∈ draft.labels.reserved →
      (track, position) ∈ cues.map Cue.place

namespace Draft

variable {contentDir : String} {draft after : Draft} {cue : Cue} {cues : List Cue}

theorem empty_hasOpened : empty.HasOpened contentDir [] where
  opened := .nil 0
  silences := nofun

theorem HasOpened.extended
    {stage : Stage} (has : draft.HasOpened contentDir cues)
    (noOpening : stage.isOpening = false) : (draft.extended stage).HasOpened contentDir cues where
  opened := by
    have same : (draft.extended stage).graph.stages.filter Stage.isOpening =
        draft.graph.stages.filter Stage.isOpening := by
      simp [Draft.extended, noOpening]
    rw [same]
    exact has.opened
  silences := has.silences

theorem HasOpened.reserving
    {label : String} {pool : LabelPool} (has : draft.HasOpened contentDir cues)
    (apart : LabelPool.IsApart label) (reserved : pool.reserved = label :: draft.labels.reserved) :
    { draft with labels := pool }.HasOpened contentDir cues where
  opened := has.opened
  silences := by
    intro track position taken
    dsimp only at taken
    rw [reserved, List.mem_cons] at taken
    rcases taken with same | before
    · exact absurd same.symm (apart track position)
    · exact has.silences track position before

/-- One more clip is opened. -/
theorem HasOpened.opening
    {own : List Stage} {files : List InputFile} (has : draft.HasOpened contentDir cues)
    (opens : cue.Opens contentDir draft.inputs.length own files)
    (stages : after.graph.stages = draft.graph.stages ++ own)
    (inputs : after.inputs = draft.inputs ++ files)
    (reserved : ∀ label ∈ after.labels.reserved, label ∈ draft.labels.reserved ∨
      LabelPool.IsApart label ∨ label = LabelPool.silenceLabel cue.track cue.position) :
    after.HasOpened contentDir (cues ++ [cue]) where
  opened := by
    rw [stages, inputs, List.filter_append, List.filter_eq_self.mpr opens.isOpening]
    exact has.opened.append (.singleton (by rwa [Nat.zero_add]))
  silences := by
    intro track position taken
    rw [List.map_append, List.mem_append]
    rcases reserved _ taken with before | apart | own
    · exact Or.inl (has.silences track position before)
    · exact absurd rfl (apart track position)
    · obtain ⟨rfl, rfl⟩ := LabelPool.silenceLabel_inj own
      exact Or.inr List.mem_cons_self

end Draft

/-! ## Steps -/

namespace Build

variable {surroundings : Surroundings} {contentDir : String} {draft : Draft} {cues : List Cue}

/-- A filter that opens no clip, with a label that is apart from those of silence. -/
theorem leaves_filter
    {take : LabelPool → String × LabelPool} {stage : String → Stage}
    (has : draft.HasOpened contentDir cues) (fresh : LabelPool.TakesFresh take)
    (apart : ∀ pool, LabelPool.IsApart (take pool).1)
    (noOpening : ∀ output, (stage output).isOpening = false) :
    Leaves (do let output ← label take; emit (stage output)) draft
      fun _ after => after.HasOpened contentDir cues := by
  refine (leaves_label take).bind ?_
  rintro output reserving ⟨rfl, rfl⟩
  refine (leaves_emit _).mono ?_
  rintro made emitted ⟨_, rfl⟩
  exact (has.reserving (apart draft.labels) (fresh draft.labels).2).extended (noOpening _)

/-! ### Chains -/

theorem leaves_gain
    {base : String} (signal : String) (volume : Option Float)
    (has : draft.HasOpened contentDir cues) (isBase : LabelPool.IsBase base) :
    Leaves (gain base signal volume) draft fun _ after => after.HasOpened contentDir cues := by
  unfold gain
  split
  next => exact leaves_pure has
  next =>
    exact leaves_filter has (LabelPool.takesFresh_reserveDerived base "volume")
      (fun _ => LabelPool.isApart_reserveDerived isBase "volume") fun _ => rfl

theorem isOpening_of_mem_steps
    {presets : Keyed WavePreset} {effect : Effect} {step : FilterStep}
    (member : step ∈ effect.steps presets) (inputs : List String) (output : String) :
    Stage.isOpening ⟨inputs, some step.filter, step.params, output⟩ = false := by
  have all : ∀ name ∈ effectFilters, Stage.isOpening ⟨inputs, some name, step.params, output⟩ =
      false := by
    intro name named
    simp only [effectFilters, List.mem_cons, List.not_mem_nil, or_false] at named
    rcases named with rfl | rfl | rfl | rfl | rfl <;> rfl
  exact all _ (filter_mem_effectFilters member)

theorem leaves_effects
    {base : String} (signal : String) (presets : Keyed WavePreset) (effects : List Effect)
    (has : draft.HasOpened contentDir cues) (isBase : LabelPool.IsBase base) :
    Leaves (Build.effects presets base signal effects) draft
      fun _ after => after.HasOpened contentDir cues := by
  refine leaves_steps ?_ has
  intro step member signal draft has
  obtain ⟨effect, _, within⟩ := List.mem_flatMap.mp member
  exact leaves_filter has (LabelPool.takesFresh_reserveDerived base step.suffix)
    (fun _ => LabelPool.isApart_reserveDerived isBase step.suffix)
    fun _ => isOpening_of_mem_steps within _ _

/-! ### Clips -/

theorem leaves_source
    {track : UInt64} {position : Nat} {clip : Clip Float}
    (has : draft.HasOpened contentDir cues) (unreached : (track, position) ∉ cues.map Cue.place) :
    Leaves (source contentDir track position clip) draft fun found after =>
      after.HasOpened contentDir (cues ++ [⟨track, position, clip⟩]) ∧
        LabelPool.IsBase found.1 := by
  have free : LabelPool.silenceLabel track position ∉ draft.labels.reserved :=
    fun taken => unreached (has.silences track position taken)
  unfold source
  cases isSource : clip.source with
  | silence =>
      refine (leaves_label _).bind ?_
      rintro base reserving ⟨rfl, rfl⟩
      rw [LabelPool.reserveSilence_eq free]
      refine (leaves_emit _).bind ?_
      rintro made emitted ⟨rfl, rfl⟩
      refine leaves_pure ⟨has.opening (.silence isSource) rfl (List.append_nil _).symm ?_, ?_⟩
      · intro label taken
        rcases List.mem_cons.mp taken with rfl | before
        · exact Or.inr (Or.inr rfl)
        · exact Or.inl before
      · exact .silence track position
  | file filename =>
      refine (leaves_ingest contentDir track position filename).bind ?_
      rintro base after ⟨labelled, stages, inputs, labels⟩
      have starts : LabelPool.StartsApart base :=
        labelled ▸ LabelPool.startsApart_reserveFile filename track position
      have isBase : LabelPool.IsBase base := .other starts
      have reserved : after.labels.reserved = base :: draft.labels.reserved := by
        obtain ⟨_, nowReserved⟩ :=
          LabelPool.takesFresh_reserveFile filename track position draft.labels
        rw [labels, nowReserved, labelled]
      split
      next elastic =>
        refine (leaves_label _).bind ?_
        rintro output reserving ⟨labelledCut, rfl⟩
        refine (leaves_emit _).bind ?_
        rintro made emitted ⟨rfl, rfl⟩
        have opens : Cue.Opens contentDir draft.inputs.length ⟨track, position, clip⟩
            [.ingest draft.inputs.length (joinPath contentDir filename) base,
              .trim base clip.timing.duration made] _ :=
          .cut isSource elastic
        refine leaves_pure ⟨has.opening opens ?_ inputs ?_, isBase⟩
        · exact (congrArg (· ++ _) stages).trans (List.append_assoc _ _ _)
        · obtain ⟨_, nowReserved⟩ := LabelPool.takesFresh_reserveDerived base "trim" after.labels
          intro label taken
          rw [Draft.extended, nowReserved, reserved, ← labelledCut] at taken
          rcases List.mem_cons.mp taken with rfl | taken
          · rw [labelledCut]
            exact Or.inr (Or.inl (LabelPool.isApart_reserveDerived isBase "trim"))
          · exact (List.mem_cons.mp taken).elim
              (fun same => Or.inr (Or.inl (same ▸ starts.isApart))) Or.inl
      next whole =>
        refine leaves_pure ⟨has.opening (.whole isSource (by simpa using whole)) stages inputs ?_,
          isBase⟩
        intro label taken
        rw [reserved] at taken
        rcases List.mem_cons.mp taken with rfl | before
        · exact Or.inr (Or.inl starts.isApart)
        · exact Or.inl before

theorem leaves_clip
    {track : UInt64} {position : Nat} {clip : Clip Float}
    (has : draft.HasOpened surroundings.contentDir cues)
    (unreached : (track, position) ∉ cues.map Cue.place) :
    Leaves (Build.clip surroundings track position clip) draft fun _ after =>
      after.HasOpened surroundings.contentDir (cues ++ [⟨track, position, clip⟩]) := by
  unfold Build.clip
  split
  next => exact leaves_throw _
  next =>
    refine (leaves_source has unreached).bind ?_
    rintro ⟨base, signal⟩ sourced ⟨sourcedHas, isBase⟩
    refine (leaves_gain signal clip.volume sourcedHas isBase).bind ?_
    intro amplified gained gainedHas
    exact leaves_effects amplified surroundings.presets clip.effects gainedHas isBase

theorem leaves_clips
    {track : UInt64} {position : Nat} {clips : List (Clip Float)}
    (has : draft.HasOpened surroundings.contentDir cues)
    (distinct : ((cues ++ cuesFrom track position clips).map Cue.place).Nodup) :
    Leaves (Build.clips surroundings track position clips) draft fun _ after =>
      after.HasOpened surroundings.contentDir (cues ++ cuesFrom track position clips) := by
  induction clips generalizing draft cues position with
  | nil =>
      refine leaves_pure ?_
      rwa [cuesFrom, List.zipIdx_nil, List.map_nil, List.append_nil]
  | cons clip rest inductionHypothesis =>
      rw [cuesFrom_cons] at distinct ⊢
      refine (leaves_clip has (not_mem_map_of_nodup distinct)).bind ?_
      intro signal after afterHas
      rw [List.append_cons] at distinct ⊢
      refine (inductionHypothesis afterHas distinct).bind ?_
      intro signals last lastHas
      exact leaves_pure lastHas

/-! ### Tracks and the mix -/

theorem leaves_track
    {track : Track Float} (has : draft.HasOpened surroundings.contentDir cues)
    (distinct : ((cues ++ track.cues).map Cue.place).Nodup) :
    Leaves (Build.track surroundings track) draft fun _ after =>
      after.HasOpened surroundings.contentDir (cues ++ track.cues) := by
  have isBase : LabelPool.IsBase (LabelPool.trackBase track.index) :=
    .other (LabelPool.startsApart_trackBase track.index)
  unfold Build.track
  refine (leaves_clips has distinct).bind ?_
  intro signals clipped clippedHas
  refine (leaves_label _).bind ?_
  rintro output reserving ⟨labelled, rfl⟩
  refine (leaves_emit _).bind ?_
  rintro joined emitted ⟨rfl, rfl⟩
  have joinedHas := clippedHas.reserving
    (LabelPool.isApart_reserveDerived isBase "concat")
    (LabelPool.takesFresh_reserveTrack track.index "concat" clipped.labels).2
  refine (leaves_gain _ track.volume (joinedHas.extended rfl) isBase).bind ?_
  intro amplified gained gainedHas
  exact leaves_effects amplified surroundings.presets track.effects gainedHas isBase

theorem leaves_tracks
    {tracks : List (Track Float)} (has : draft.HasOpened surroundings.contentDir cues)
    (distinct : ((cues ++ tracks.flatMap Track.cues).map Cue.place).Nodup) :
    Leaves (Build.tracks surroundings tracks) draft fun _ after =>
      after.HasOpened surroundings.contentDir (cues ++ tracks.flatMap Track.cues) := by
  induction tracks generalizing draft cues with
  | nil =>
      refine leaves_pure ?_
      rwa [List.flatMap_nil, List.append_nil]
  | cons track rest inductionHypothesis =>
      rw [List.flatMap_cons, ← List.append_assoc] at distinct ⊢
      have own : ((cues ++ track.cues).map Cue.place).Nodup := by
        rw [List.map_append] at distinct
        exact distinct.of_append_left
      refine (leaves_track has own).bind ?_
      intro signal after afterHas
      refine (inductionHypothesis afterHas distinct).bind ?_
      intro signals last lastHas
      exact leaves_pure lastHas

theorem leaves_mix
    {recipe : Recipe Float} (distinct : (recipe.cues.map Cue.place).Nodup) :
    Leaves (mix surroundings recipe) .empty fun graph _ =>
      Opened surroundings.contentDir 0 recipe.cues (graph.stages.filter Stage.isOpening)
        graph.inputs := by
  have final : LabelPool.StartsApart finalLabel := ⟨'o', _, rfl, by decide⟩
  unfold mix
  refine (leaves_tracks Draft.empty_hasOpened distinct).bind ?_
  intro signals tracked trackedHas
  refine (leaves_label _).bind ?_
  rintro output reserving ⟨labelled, rfl⟩
  refine (leaves_emit _).bind ?_
  rintro mixed emitted ⟨rfl, rfl⟩
  have mixedHas := trackedHas.reserving (LabelPool.startsApart_pick final).isApart
    (LabelPool.takesFresh_reserve (fun _ => finalLabel) tracked.labels).2
  refine leaves_get.bind ?_
  rintro draft after ⟨rfl, rfl⟩
  exact leaves_pure (mixedHas.extended rfl).opened

end Build

/-! ## Recipes -/

theorem map_place_cues (track : Track Float) :
    track.cues.map Cue.place = (List.range track.clips.length).map (Prod.mk track.index) := by
  rw [Track.cues, cuesFrom, List.map_map, List.range_eq_range',
    ← List.zipIdx_map_snd 0 track.clips, List.map_map]
  rfl

/-- What is told apart on each track is told apart on all, together with the index. -/
theorem nodup_flatMap_index
    {α : Type} {tracks : List (Track Float)} {on : Track Float → List α}
    (distinct : (tracks.map Track.index).Nodup) (own : ∀ track ∈ tracks, (on track).Nodup) :
    (tracks.flatMap fun track => (on track).map (Prod.mk track.index)).Nodup := by
  rw [List.nodup_flatMap]
  constructor
  · exact fun track member => (own track member).map (Prod.mk_right_injective track.index)
  · refine (List.pairwise_map.mp distinct).imp ?_
    intro track other different found here there
    obtain ⟨_, _, rfl⟩ := List.mem_map.mp here
    obtain ⟨_, _, equal⟩ := List.mem_map.mp there
    exact different (Prod.mk.inj equal).1.symm

theorem nodup_places {tracks : List (Track Float)} (distinct : (tracks.map Track.index).Nodup) :
    ((tracks.flatMap Track.cues).map Cue.place).Nodup := by
  rw [List.map_flatMap]
  simp only [map_place_cues]
  exact nodup_flatMap_index distinct fun _ _ => List.nodup_range

namespace MixGraph

variable {surroundings : Surroundings} {recipe : Recipe Float} {graph : MixGraph}

/-- The graph of a recipe opens its clips in their order and takes in their files. -/
theorem opened_of_ofRecipe (compiled : ofRecipe surroundings recipe = .ok graph) :
    Opened surroundings.contentDir 0 recipe.cues (graph.stages.filter Stage.isOpening)
      graph.inputs := by
  obtain ⟨checked, draft, mixed⟩ := mix_of_ofRecipe compiled
  obtain ⟨_, distinct, _⟩ := Recipe.check_eq_ok_iff.mp checked
  exact Build.leaves_mix (nodup_places distinct) _ draft mixed

theorem inputs_eq_of_ofRecipe (compiled : ofRecipe surroundings recipe = .ok graph) :
    graph.inputs = recipe.fileCues.zipIdx.map fun placed =>
      placed.1.input surroundings.contentDir placed.2 :=
  (opened_of_ofRecipe compiled).inputs_eq

/-- The stages that take in files take in those of the recipe, numbered in its order. -/
theorem ingests_of_ofRecipe (compiled : ofRecipe surroundings recipe = .ok graph) :
    List.Forall₂
      (fun stage placed => ∃ label,
        stage = .ingest placed.2 (joinPath surroundings.contentDir placed.1.filename) label)
      (graph.stages.filter Stage.isIngest) recipe.fileCues.zipIdx := by
  rw [← Stage.filter_filter_isOpening fun _ => Stage.isOpening_of_isIngest]
  exact (opened_of_ofRecipe compiled).ingests

end MixGraph

end Mixdown
