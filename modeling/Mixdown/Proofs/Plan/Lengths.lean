import Mixdown.Proofs.Plan.Inputs
import Mixdown.Proofs.Plan.Playable

/-!
# The lengths in a graph

Silence is made, and a file is cut, for as long as its clip lasts.  Of an elastic clip
nothing is asked but that it is not known to last no time, so that its length may be
endless or no number.  The lengths in a graph are fit to be waited for just where those
of the elastic clips are finite.
-/

namespace Mixdown

/-- Whether something can last that long: neither for ever nor for no time. -/
def IsLength (length : Float) : Prop :=
  length.isFinite = true ∧ 0 < length

theorem isLength_of_not_le
    {length : Float} (finite : length.isFinite = true) (lasting : ¬ length ≤ 0) :
    IsLength length :=
  ⟨finite, Double.lt_of_not_le finite isFinite_zero lasting⟩

/-! ## Timed stages -/

namespace Stage

variable {stage : Stage} {length other : Float}

/-- Whether the stage makes silence of a length, or cuts a signal to one. -/
def isTimed (stage : Stage) : Bool :=
  stage.isSilence || stage.isTrim

/-- The stage is told to last that long. -/
def Lasts (stage : Stage) (length : Float) : Prop :=
  stage.params.get? "duration" = some (.number length)

instance (stage : Stage) (length : Float) : Decidable (stage.Lasts length) :=
  inferInstanceAs (Decidable (_ = _))

theorem lasts_silence (length : Float) (output : String) :
    (silence length output).Lasts length := by
  simp [Lasts, silence, Keyed.ofList, Keyed.insertAll, Keyed.get?_insert]

theorem lasts_trim (signal : String) (length : Float) (output : String) :
    (trim signal length output).Lasts length := by
  simp [Lasts, trim, Keyed.ofList, Keyed.insertAll, Keyed.get?_insert]

theorem Lasts.unique (lasts : stage.Lasts length) (also : stage.Lasts other) : length = other :=
  ParamValue.number.inj (Option.some.inj (lasts.symm.trans also))

theorem isOpening_of_isTimed (isTimed : stage.isTimed = true) : stage.isOpening = true := by
  rw [isOpening, Bool.or_assoc]
  exact Bool.or_eq_true_iff.mpr (Or.inr isTimed)

end Stage

/-! ## Openings -/

section Openings

variable {contentDir : String} {number : Nat} {cue : Cue} {cues : List Cue} {stages : List Stage}
  {inputs : List InputFile} {stage : Stage}

namespace Cue.Opens

theorem lasts_of_isTimed
    (opens : cue.Opens contentDir number stages inputs) (member : stage ∈ stages)
    (isTimed : stage.isTimed = true) : stage.Lasts cue.clip.timing.duration := by
  cases opens with
  | silence =>
      cases List.mem_singleton.mp member
      exact Stage.lasts_silence _ _
  | whole =>
      cases List.mem_singleton.mp member
      cases isTimed
  | cut =>
      rcases List.mem_pair.mp member with rfl | rfl
      · cases isTimed
      · exact Stage.lasts_trim _ _ _

/-- An elastic clip opens with silence or with a cut. -/
theorem exists_isTimed
    (opens : cue.Opens contentDir number stages inputs)
    (elastic : cue.clip.timing.isElastic = true) : ∃ stage ∈ stages, stage.isTimed = true := by
  cases opens with
  | silence => exact ⟨_, List.mem_cons_self, rfl⟩
  | whole plays fixed =>
      rw [fixed] at elastic
      cases elastic
  | cut => exact ⟨_, List.mem_cons_of_mem _ List.mem_cons_self, rfl⟩

end Cue.Opens

namespace Opened

theorem exists_cue_of_isTimed
    (opened : Opened contentDir number cues stages inputs) (member : stage ∈ stages)
    (isTimed : stage.isTimed = true) : ∃ cue ∈ cues, stage.Lasts cue.clip.timing.duration := by
  induction opened with
  | nil => cases member
  | cons opens later inductionHypothesis =>
      rcases List.mem_append.mp member with own | more
      · exact ⟨_, List.mem_cons_self, opens.lasts_of_isTimed own isTimed⟩
      · obtain ⟨cue, among, lasts⟩ := inductionHypothesis more
        exact ⟨cue, List.mem_cons_of_mem _ among, lasts⟩

theorem exists_stage_of_isElastic
    (opened : Opened contentDir number cues stages inputs) (member : cue ∈ cues)
    (elastic : cue.clip.timing.isElastic = true) :
    ∃ stage ∈ stages, stage.isTimed = true ∧ stage.Lasts cue.clip.timing.duration := by
  obtain ⟨before, after, rfl⟩ := List.append_of_mem member
  obtain ⟨earlier, own, later, files, rfl, opens, _, _⟩ := opened.exists_opens
  obtain ⟨stage, among, isTimed⟩ := opens.exists_isTimed elastic
  refine ⟨stage, ?_, isTimed, opens.lasts_of_isTimed among isTimed⟩
  exact List.mem_append_right _ (List.mem_append_left _ among)

end Opened

end Openings

/-! ## Graphs -/

namespace MixGraph

variable {surroundings : Surroundings} {recipe : Recipe Float} {graph : MixGraph}

theorem exists_clip_of_isTimed
    (compiled : ofRecipe surroundings recipe = .ok graph) {stage : Stage}
    (member : stage ∈ graph.stages) (isTimed : stage.isTimed = true) :
    ∃ clip ∈ recipe.clips, stage.Lasts clip.timing.duration := by
  have opening : stage ∈ graph.stages.filter Stage.isOpening :=
    List.mem_filter.mpr ⟨member, Stage.isOpening_of_isTimed isTimed⟩
  obtain ⟨cue, among, lasts⟩ := (opened_of_ofRecipe compiled).exists_cue_of_isTimed opening isTimed
  refine ⟨cue.clip, ?_, lasts⟩
  rw [← recipe.map_clip_cues]
  exact List.mem_map_of_mem among

theorem exists_stage_of_isElastic
    (compiled : ofRecipe surroundings recipe = .ok graph) {clip : Clip Float}
    (member : clip ∈ recipe.clips) (elastic : clip.timing.isElastic = true) :
    ∃ stage ∈ graph.stages, stage.isTimed = true ∧ stage.Lasts clip.timing.duration := by
  rw [← recipe.map_clip_cues] at member
  obtain ⟨cue, among, rfl⟩ := List.mem_map.mp member
  obtain ⟨stage, opening, isTimed, lasts⟩ :=
    (opened_of_ofRecipe compiled).exists_stage_of_isElastic among elastic
  exact ⟨stage, List.mem_of_mem_filter opening, isTimed, lasts⟩

theorem admitted_of_ofRecipe (compiled : ofRecipe surroundings recipe = .ok graph) :
    recipe.check = .ok () ∧ ∀ clip ∈ recipe.clips, ¬ clip.timing.duration ≤ 0 := by
  rw [← unplayable?_eq_none_iff]
  exact (exists_ofRecipe_iff surroundings recipe).mp ⟨graph, compiled⟩

/-- The length of a fixed clip was checked before. -/
theorem isLength_of_fixed
    (compiled : ofRecipe surroundings recipe = .ok graph) {clip : Clip Float}
    (member : clip ∈ recipe.clips) (fixed : clip.timing.isElastic = false) :
    IsLength clip.timing.duration := by
  obtain ⟨track, among, within⟩ := List.mem_flatMap.mp member
  obtain ⟨_, _, admittedTracks⟩ := Recipe.check_eq_ok_iff.mp (admitted_of_ofRecipe compiled).1
  have timing := (admittedTracks track among).timing within
  obtain ⟨source, ⟨duration⟩ | ⟨low, high, length⟩, volume, effects⟩ := clip
  · exact checkFixed_eq_ok_iff.mp timing
  · cases fixed

/-- All silence that is made, and every signal that is cut, lasts some length. -/
def IsLasting (graph : MixGraph) : Prop :=
  ∀ stage ∈ graph.stages, stage.isTimed = true → ∃ length, stage.Lasts length ∧ IsLength length

/-- Whether a graph is lasting is up to the elastic clips, whose lengths are not checked. -/
theorem isLasting_iff (compiled : ofRecipe surroundings recipe = .ok graph) :
    graph.IsLasting ↔
      ∀ clip ∈ recipe.clips, clip.timing.isElastic = true →
        clip.timing.duration.isFinite = true := by
  constructor
  · intro lasting clip among elastic
    obtain ⟨stage, member, isTimed, lasts⟩ := exists_stage_of_isElastic compiled among elastic
    obtain ⟨length, also, finite, _⟩ := lasting stage member isTimed
    rw [lasts.unique also]
    exact finite
  · intro finite stage member isTimed
    obtain ⟨clip, among, lasts⟩ := exists_clip_of_isTimed compiled member isTimed
    refine ⟨clip.timing.duration, lasts, ?_⟩
    by_cases elastic : clip.timing.isElastic = true
    · have playable := (admitted_of_ofRecipe compiled).2 clip among
      exact isLength_of_not_le (finite clip among elastic) playable
    · exact isLength_of_fixed compiled among (Bool.eq_false_of_not_eq_true elastic)

/-- Silence is made, and signals are cut, for as long as some clip lasts.  That is a finite
time above zero if the clip is fixed; if it is elastic, it is only not known to be zero or
less.  The graph is lasting just where the elastic clips are finite. -/
theorem timed_of_ofRecipe (compiled : ofRecipe surroundings recipe = .ok graph) :
    (∀ stage ∈ graph.stages, stage.isTimed = true →
      ∃ clip ∈ recipe.clips, stage.Lasts clip.timing.duration ∧
        ¬ clip.timing.duration ≤ 0 ∧
        (clip.timing.isElastic = false → IsLength clip.timing.duration)) ∧
    (graph.IsLasting ↔
      ∀ clip ∈ recipe.clips, clip.timing.isElastic = true →
        clip.timing.duration.isFinite = true) := by
  refine ⟨?_, isLasting_iff compiled⟩
  intro stage member isTimed
  obtain ⟨clip, among, lasts⟩ := exists_clip_of_isTimed compiled member isTimed
  have playable := (admitted_of_ofRecipe compiled).2 clip among
  exact ⟨clip, among, lasts, playable, isLength_of_fixed compiled among⟩

theorem timed_of_ofRecipe_demo :
    ∃ graph, ofRecipe .standard Recipe.demo = .ok graph ∧ graph.IsLasting := by
  have finite : ∀ clip ∈ Recipe.demo.clips, clip.timing.isElastic = true →
      clip.timing.duration.isFinite = true := by
    decide +kernel
  obtain ⟨graph, compiled⟩ := exists_ofRecipe_demo
  obtain ⟨_, lasting⟩ := timed_of_ofRecipe compiled
  exact ⟨graph, compiled, lasting.mpr finite⟩

end MixGraph

/-! ## Clips that never end -/

/-- A pause that lasts no number of seconds, and a file that is cut to no end. -/
def Recipe.timeless : Recipe Float where
  title := ""
  tracks :=
    [.ofClips 0
      [⟨.silence, .elastic 1.0 4.0 (0.0 / 0.0), none, []⟩,
        ⟨.file "rain.wav", .elastic 1.0 4.0 (1.0 / 0.0), none, []⟩] none []]

/-- Two tracks of two pauses that last longer together than the greatest of doubles. -/
def Recipe.boundless : Recipe Float where
  title := ""
  tracks :=
    [.ofClips 0
        [⟨.silence, .elasticFrom 0.0 1.7e308, none, []⟩,
          ⟨.silence, .elasticFrom 0.0 1.7e308, none, []⟩] none [],
      .ofClips 1
        [⟨.silence, .elasticFrom 0.0 1.7e308, none, []⟩,
          ⟨.silence, .elasticFrom 0.0 1.7e308, none, []⟩] none []]

/-- What is no number and what is infinite are not less than zero either, so that graphs are
made of clips that last so.  Balancing without bounds leaves such clips in an admitted
recipe, which then is planned with them. -/
theorem Plan.exists_not_isLasting :
    (∃ graph, MixGraph.ofRecipe .standard Recipe.timeless = .ok graph ∧
      (∃ stage ∈ graph.stages, stage.isTimed = true ∧ stage.Lasts (0.0 / 0.0)) ∧
      (∃ stage ∈ graph.stages, stage.isTimed = true ∧ stage.Lasts (1.0 / 0.0)) ∧
      ¬ graph.IsLasting) ∧
    (Recipe.boundless.check = .ok () ∧
      ∃ plan,
        Plan.ofRecipe { Settings.standard with balance := ⟨100, 1e-6, false⟩ } .zero 1
          Recipe.boundless = .ok (.ok plan) ∧
        ∃ stage ∈ plan.stages, stage.isTimed = true ∧ stage.Lasts (1.0 / 0.0)) := by
  constructor
  · have admitted : Recipe.timeless.check = .ok () := by
      decide +kernel
    have playable : unplayable? Recipe.timeless.placedClips = none := by
      decide +kernel
    have infinite : (1.0 / 0.0 : Float).isFinite = false := by
      decide +kernel
    obtain ⟨graph, compiled⟩ :=
      (MixGraph.exists_ofRecipe_iff .standard Recipe.timeless).mpr ⟨admitted, playable⟩
    have pause := MixGraph.exists_stage_of_isElastic compiled List.mem_cons_self rfl
    have file :=
      MixGraph.exists_stage_of_isElastic compiled (List.mem_cons_of_mem _ List.mem_cons_self) rfl
    refine ⟨graph, compiled, pause, file, ?_⟩
    rw [MixGraph.isLasting_iff compiled]
    intro finite
    have fileFinite := finite _ (List.mem_cons_of_mem _ List.mem_cons_self) rfl
    exact Bool.false_ne_true (infinite.symm.trans fileFinite)
  · have endless :
        (Plan.ofRecipe { Settings.standard with balance := ⟨100, 1e-6, false⟩ } .zero 1
            Recipe.boundless).toOption.any
          (fun outcome => outcome.toOption.any fun plan =>
            plan.stages.any fun stage =>
              stage.isTimed && decide (stage.Lasts (1.0 / 0.0))) = true := by
      decide +kernel
    obtain ⟨outcome, planning, planned⟩ := exists_ok_of_any endless
    obtain ⟨plan, rfl, lasts⟩ := exists_ok_of_any planned
    refine ⟨by decide +kernel, plan, planning, ?_⟩
    simpa using lasts

end Mixdown
