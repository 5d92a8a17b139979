import Mixdown.Proofs.Signal.Building
import Mixdown.Recipe.Demo

/-!
# The graph of a recipe

An admitted recipe whose clips all last some time has a graph.  Its stages are well
ordered, each signal but that of the mix is used once, and the signal of the mix
unfolds into the tree of the recipe.
-/

namespace Mixdown

/-! ## The first clip that lasts no time -/

theorem placedClips_map_snd
    (track : UInt64) (position : Nat) (clips : List (Clip Float)) :
    (placedClips track position clips).map Prod.snd = clips := by
  induction clips generalizing position with
  | nil => rfl
  | cons clip rest inductionHypothesis =>
      rw [placedClips_cons, List.map_append, inductionHypothesis]
      rfl

theorem Recipe.placedClips_map_snd (recipe : Recipe Float) :
    recipe.placedClips.map Prod.snd = recipe.clips := by
  rw [Recipe.placedClips, List.map_flatMap, Recipe.clips]
  simp only [Mixdown.placedClips_map_snd]

theorem unplayable?_eq_none_iff {recipe : Recipe Float} :
    unplayable? recipe.placedClips = none ↔
      ∀ clip ∈ recipe.clips, ¬ clip.timing.duration ≤ 0 := by
  rw [← recipe.placedClips_map_snd]
  simp only [unplayable?, Option.map_eq_none_iff, List.find?_eq_none, List.mem_map,
    decide_eq_true_eq, forall_exists_index, and_imp, forall_apply_eq_imp_iff₂]

theorem unplayable?_eq_some_iff
    {placed : List (Place × Clip Float)} {error : RecipeError Float} :
    unplayable? placed = some error ↔
      ∃ before place clip after, placed = before ++ (place, clip) :: after ∧
        clip.timing.duration ≤ 0 ∧
        (∀ earlier ∈ before, ¬ earlier.2.timing.duration ≤ 0) ∧
        error = .invalid place (.unplayable clip.timing.duration) := by
  rw [unplayable?, Option.map_eq_some_iff]
  constructor
  · intro found
    obtain ⟨⟨place, clip⟩, first, equality⟩ := found
    obtain ⟨unplayable, before, after, shape, playable⟩ :=
      List.find?_eq_some_iff_append.mp first
    refine ⟨before, place, clip, after, shape, by simpa using unplayable, ?_, equality.symm⟩
    intro earlier member
    simpa using playable earlier member
  · intro split
    obtain ⟨before, place, clip, after, shape, unplayable, playable, rfl⟩ := split
    refine ⟨(place, clip), List.find?_eq_some_iff_append.mpr ?_, rfl⟩
    refine ⟨by simpa using unplayable, before, after, shape, ?_⟩
    intro earlier member
    simpa using playable earlier member

namespace MixGraph

variable {surroundings : Surroundings} {recipe : Recipe Float} {graph : MixGraph}

/-! ## How building ends -/

/-- What holds of the finished graph of a recipe. -/
structure Completes
    (surroundings : Surroundings) (recipe : Recipe Float) (graph : MixGraph) : Prop where
  ordered : WellOrdered graph.stages
  used :
    (graph.stages.map Stage.output).Perm
      (graph.stages.flatMap Stage.inputs ++ [graph.finalLabel])
  last : graph.stages.getLast?.map Stage.output = some graph.finalLabel
  unfolds :
    Unfolds graph.stages graph.finalLabel (recipe.tree surroundings graph.endRule)
  endRule : graph.endRule = recipe.endRule
  counts : ∀ stage ∈ graph.stages, stage.CountsInputs

theorem ofRecipe_of_refused
    {error : RecipeError Float} (refused : recipe.check = .error error) :
    ofRecipe surroundings recipe = .error (.recipe error) := by
  rw [ofRecipe, refused]
  rfl

theorem ofRecipe_of_unplayable
    {error : RecipeError Float}
    (admitted : recipe.check = .ok ())
    (unplayable : unplayable? recipe.placedClips = some error) :
    ofRecipe surroundings recipe = .error (.recipe error) := by
  have ended := Build.ends_mix surroundings recipe
  rw [unplayable] at ended
  have failed :
      (Build.mix surroundings recipe).run .empty = .error (.recipe error) := ended
  rw [ofRecipe, admitted, failed]
  rfl

theorem ofRecipe_of_playable
    (surroundings : Surroundings)
    (admitted : recipe.check = .ok ())
    (playable : unplayable? recipe.placedClips = none) :
    ∃ graph, ofRecipe surroundings recipe = .ok graph ∧
      Completes surroundings recipe graph := by
  have ended := Build.ends_mix surroundings recipe
  rw [playable] at ended
  obtain ⟨graph, after, ran, holds, stages, last, endRule⟩ := ended
  have ordered : WellOrdered graph.stages := stages ▸ holds.ordered
  refine ⟨graph, ?_, ?_⟩
  · rw [ofRecipe, admitted, ran]
    change (Except.mapError MixError.graph (checkOrder graph.stages)).bind _ = _
    rw [(checkOrder_eq_ok_iff graph.stages).mpr ordered]
    rfl
  · refine ⟨ordered, ?_, last, ?_, endRule, stages ▸ holds.counts⟩
    · rw [stages]
      exact holds.used
    · rw [stages]
      exact holds.unfolds _ List.mem_cons_self

theorem completes_of_ofRecipe
    (compiled : ofRecipe surroundings recipe = .ok graph) :
    Completes surroundings recipe graph := by
  cases checked : recipe.check with
  | error error =>
      rw [ofRecipe_of_refused checked] at compiled
      cases compiled
  | ok _ =>
      cases first : unplayable? recipe.placedClips with
      | some error =>
          rw [ofRecipe_of_unplayable checked first] at compiled
          cases compiled
      | none =>
          obtain ⟨found, ok, completes⟩ :=
            ofRecipe_of_playable surroundings checked first
          rw [ok] at compiled
          cases compiled
          exact completes

/-! ## Outcomes -/

theorem exists_ofRecipe_iff (surroundings : Surroundings) (recipe : Recipe Float) :
    (∃ graph, ofRecipe surroundings recipe = .ok graph) ↔
      recipe.check = .ok () ∧ unplayable? recipe.placedClips = none := by
  constructor
  · intro exists_graph
    obtain ⟨graph, compiled⟩ := exists_graph
    cases checked : recipe.check with
    | error error =>
        rw [ofRecipe_of_refused checked] at compiled
        cases compiled
    | ok _ =>
        refine ⟨rfl, ?_⟩
        cases first : unplayable? recipe.placedClips with
        | none => rfl
        | some error =>
            rw [ofRecipe_of_unplayable checked first] at compiled
            cases compiled
  · intro conditions
    obtain ⟨graph, compiled, _⟩ :=
      ofRecipe_of_playable surroundings conditions.1 conditions.2
    exact ⟨graph, compiled⟩

theorem ofRecipe_eq_error_iff {error : MixError} :
    ofRecipe surroundings recipe = .error error ↔
      (∃ refusal, recipe.check = .error refusal ∧ error = .recipe refusal) ∨
        recipe.check = .ok () ∧
          ∃ problem, unplayable? recipe.placedClips = some problem ∧
            error = .recipe problem := by
  cases checked : recipe.check with
  | error refusal =>
      rw [ofRecipe_of_refused checked]
      simp [eq_comm]
  | ok _ =>
      cases first : unplayable? recipe.placedClips with
      | some problem =>
          rw [ofRecipe_of_unplayable checked first]
          simp [eq_comm]
      | none =>
          obtain ⟨graph, compiled, _⟩ := ofRecipe_of_playable surroundings checked first
          rw [compiled]
          simp

/-- A recipe has a graph just when it is admitted and its clips last some time; what
fails otherwise is the admission or the first clip that lasts no time, and never the
order of the stages. -/
theorem ofRecipe_outcome (surroundings : Surroundings) (recipe : Recipe Float) :
    (∀ error, ofRecipe surroundings recipe ≠ .error (.graph error)) ∧
      ((∃ graph, ofRecipe surroundings recipe = .ok graph) ↔
        recipe.check = .ok () ∧ ∀ clip ∈ recipe.clips, ¬ clip.timing.duration ≤ 0) ∧
      (∀ error, ofRecipe surroundings recipe = .error error ↔
        (∃ refusal, recipe.check = .error refusal ∧ error = .recipe refusal) ∨
          recipe.check = .ok () ∧
            ∃ before place clip after,
              recipe.placedClips = before ++ (place, clip) :: after ∧
                clip.timing.duration ≤ 0 ∧
                (∀ earlier ∈ before, ¬ earlier.2.timing.duration ≤ 0) ∧
                error = .recipe (.invalid place (.unplayable clip.timing.duration))) ∧
      ∀ graph, ofRecipe surroundings recipe = .ok graph → WellOrdered graph.stages := by
  refine ⟨?_, ?_, ?_, fun graph compiled => (completes_of_ofRecipe compiled).ordered⟩
  · intro error failed
    rcases ofRecipe_eq_error_iff.mp failed with
      ⟨_, _, equality⟩ | ⟨_, _, _, equality⟩ <;> cases equality
  · rw [exists_ofRecipe_iff, unplayable?_eq_none_iff]
  · intro error
    rw [ofRecipe_eq_error_iff]
    simp only [unplayable?_eq_some_iff]
    refine or_congr_right (and_congr_right fun _ => ?_)
    constructor
    · intro failed
      obtain ⟨_, ⟨before, place, clip, after, shape, unplayable, playable, rfl⟩, rfl⟩ :=
        failed
      exact ⟨before, place, clip, after, shape, unplayable, playable, rfl⟩
    · intro split
      obtain ⟨before, place, clip, after, shape, unplayable, playable, rfl⟩ := split
      exact ⟨_, ⟨before, place, clip, after, shape, unplayable, playable, rfl⟩, rfl⟩

/-! ## What a graph is made of -/

theorem exists_ofRecipe_demo : ∃ graph, ofRecipe .standard Recipe.demo = .ok graph := by
  have succeeds : (ofRecipe .standard Recipe.demo).isOk = true := by
    decide +kernel
  cases outcome : ofRecipe .standard Recipe.demo with
  | ok graph => exact ⟨graph, rfl⟩
  | error error =>
      rw [outcome] at succeeds
      cases succeeds

theorem count_inputs
    (compiled : ofRecipe surroundings recipe = .ok graph) (label : String) :
    (graph.stages.map Stage.output).count label =
      (graph.stages.flatMap Stage.inputs).count label +
        if label = graph.finalLabel then 1 else 0 := by
  rw [(completes_of_ofRecipe compiled).used.count_eq, List.count_append]
  by_cases final : label = graph.finalLabel
  · simp [final]
  · simp [final, Ne.symm final]

/-- Each signal but that of the mix is used once, and that of the mix, which the last
stage makes, is not used; filters are told how many signals they take in. -/
theorem signals_used_once (compiled : ofRecipe surroundings recipe = .ok graph) :
    (∀ stage ∈ graph.stages, stage.output ≠ graph.finalLabel →
        (graph.stages.flatMap Stage.inputs).count stage.output = 1) ∧
      graph.finalLabel ∉ graph.stages.flatMap Stage.inputs ∧
      (∃ stage, graph.stages.getLast? = some stage ∧ stage.output = graph.finalLabel) ∧
      ∀ stage ∈ graph.stages, stage.inputs.length < 2 ^ 63 →
        (stage.filter = some "concat" →
          ∃ number, stage.params.get? "n" = some (.integer number) ∧
            number.toInt = stage.inputs.length) ∧
        (stage.filter = some "amix" →
          ∃ number, stage.params.get? "inputs" = some (.integer number) ∧
            number.toInt = stage.inputs.length) := by
  have completes := completes_of_ofRecipe compiled
  have lastStage :
      ∃ stage, graph.stages.getLast? = some stage ∧ stage.output = graph.finalLabel :=
    Option.map_eq_some_iff.mp completes.last
  have madeOnce : ∀ stage ∈ graph.stages,
      (graph.stages.map Stage.output).count stage.output = 1 := by
    intro stage member
    exact List.count_eq_one_of_mem completes.ordered.distinct
      (List.mem_map_of_mem member)
  refine ⟨?_, ?_, lastStage, ?_⟩
  · intro stage member notFinal
    have counted := count_inputs compiled stage.output
    rw [madeOnce stage member, if_neg notFinal] at counted
    exact counted.symm
  · obtain ⟨stage, atEnd, output⟩ := lastStage
    have counted := count_inputs compiled stage.output
    rw [madeOnce stage (List.mem_of_getLast? atEnd), if_pos output] at counted
    rw [← output, ← List.count_eq_zero]
    omega
  · intro stage member fits
    obtain ⟨number, asInteger, value⟩ := ParamValue.ofCount_of_lt fits
    obtain ⟨concat, mix⟩ := completes.counts stage member
    rw [asInteger] at concat mix
    exact ⟨fun isConcat => ⟨number, concat isConcat, value⟩,
      fun isMix => ⟨number, mix isMix, value⟩⟩

theorem signals_used_once_demo :
    ∃ graph, ofRecipe .standard Recipe.demo = .ok graph ∧
      graph.finalLabel ∉ graph.stages.flatMap Stage.inputs ∧
      ∀ stage ∈ graph.stages, stage.output ≠ graph.finalLabel →
        (graph.stages.flatMap Stage.inputs).count stage.output = 1 := by
  obtain ⟨graph, compiled⟩ := exists_ofRecipe_demo
  obtain ⟨once, unused, _⟩ := signals_used_once compiled
  exact ⟨graph, compiled, unused, once⟩

end MixGraph

end Mixdown
