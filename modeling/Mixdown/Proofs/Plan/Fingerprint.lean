import Mixdown.Plan.Basic
import Mixdown.Proofs.Signal.Retimed
import Mixdown.Proofs.Timing.Retimed
import Mixdown.Recipe.Demo

/-!
# Fingerprints of retimed recipes

A fingerprint passes over the durations of filters, which are all that the graphs of a
recipe and of a retimed one differ in.  As balancing only retimes a recipe, neither the
seed of a plan nor how its lengths are corrected shows in its fingerprint.
-/

namespace Mixdown

namespace Fingerprint

theorem paramBytes_eq {entry other : String × ParamValue} (retimed : ParamRetimed entry other) :
    paramBytes entry = paramBytes other := by
  cases retimed with
  | same => rfl
  | duration before after => simp [paramBytes, isTiming, ParamValue.isNumeric]

theorem stageBytes_eq {stage other : Stage} (retimed : stage.Retimed other) :
    stageBytes stage = stageBytes other := by
  have params :
      stage.params.entries.flatMap paramBytes = other.params.entries.flatMap paramBytes := by
    rcases retimed.params with same | ⟨_, entries⟩
    · rw [same]
    · exact flatMap_eq_flatMap_of_forall₂ (entries.imp fun _ _ => paramBytes_eq)
  rw [stageBytes, stageBytes, retimed.inputs, retimed.filter, retimed.output, params]

theorem bytes_eq {graph other : MixGraph} (retimed : graph.Retimed other) :
    bytes graph.stages graph.inputs graph.finalLabel =
      bytes other.stages other.inputs other.finalLabel := by
  have stages : graph.stages.flatMap stageBytes = other.stages.flatMap stageBytes :=
    flatMap_eq_flatMap_of_forall₂ (retimed.stages.imp fun _ _ => stageBytes_eq)
  rw [bytes, bytes, stages, retimed.inputs, retimed.finalLabel]

end Fingerprint

namespace Plan

variable {settings : Settings} {mixId : Uuid} {seed : UInt64} {recipe : Recipe Float} {plan : Plan}

/-- A plan is made of a balanced recipe, what was reported of it, and its graph. -/
structure IsOf
    (settings : Settings) (seed : UInt64) (recipe : Recipe Float) (plan : Plan)
    (report : Timing.Report Float) (balanced : Recipe Float) (graph : MixGraph) : Prop where
  balancing : ∃ next,
    Timing.balance Random.uniform settings.balance recipe (Random.Pcg.ofSeed seed) =
      .ok ⟨.ok report, balanced, next⟩
  compiled : MixGraph.ofRecipe settings.surroundings balanced = .ok graph
  mixDuration : plan.mixDuration = report.mixDuration
  stages : plan.stages = graph.stages
  inputs : plan.inputs = graph.inputs
  timing : plan.timing = balanced.tracks.mapIdx (TrackReport.ofTrack report.reference)
  fingerprint :
    plan.fingerprint = Mixdown.fingerprint graph.stages graph.inputs graph.finalLabel

theorem exists_isOf (planned : ofRecipe settings mixId seed recipe = .ok (.ok plan)) :
    ∃ report balanced graph, IsOf settings seed recipe plan report balanced graph := by
  obtain ⟨⟨outcome, balanced, next⟩, balancing, outcomes⟩ := bind_eq_ok_iff.mp planned
  injection outcomes with planning
  obtain ⟨report, reported, ofBalanced⟩ := bind_eq_ok_iff.mp planning
  obtain ⟨graph, compiled, equality⟩ := bind_eq_ok_iff.mp ofBalanced
  cases equality
  cases mapError_eq_ok_iff.mp reported
  exact ⟨report, balanced, graph, ⟨next, balancing⟩, compiled, rfl, rfl, rfl, rfl, rfl⟩

theorem IsOf.retimed
    {report : Timing.Report Float} {balanced : Recipe Float} {graph : MixGraph}
    (isOf : IsOf settings seed recipe plan report balanced graph) : recipe.Retimed balanced :=
  isOf.balancing.elim fun _ => Timing.retimed_of_balance

/-- A plan is that of the graph of a retimed recipe. -/
theorem exists_graph (planned : ofRecipe settings mixId seed recipe = .ok (.ok plan)) :
    ∃ balanced graph,
      recipe.Retimed balanced ∧
      MixGraph.ofRecipe settings.surroundings balanced = .ok graph ∧
      plan.fingerprint = Mixdown.fingerprint graph.stages graph.inputs graph.finalLabel := by
  obtain ⟨_, balanced, graph, isOf⟩ := exists_isOf planned
  exact ⟨balanced, graph, isOf.retimed, isOf.compiled, isOf.fingerprint⟩

/-- The graphs of recipes that differ in timing alone differ in durations alone, and have
one fingerprint; so have all plans of a recipe, however its lengths are drawn. -/
theorem fingerprint_eq_of_retimed :
    (∀ (surroundings : Surroundings) (recipe other : Recipe Float) (graph otherGraph : MixGraph),
      recipe.Retimed other →
      MixGraph.ofRecipe surroundings recipe = .ok graph →
      MixGraph.ofRecipe surroundings other = .ok otherGraph →
      graph.Retimed otherGraph ∧
        Mixdown.fingerprint graph.stages graph.inputs graph.finalLabel =
          Mixdown.fingerprint otherGraph.stages otherGraph.inputs otherGraph.finalLabel) ∧
    ∀ (settings : Settings) (policy : Timing.Policy Float) (mixId otherId : Uuid)
      (seed otherSeed : UInt64) (recipe : Recipe Float) (plan other : Plan),
      ofRecipe settings mixId seed recipe = .ok (.ok plan) →
      ofRecipe { settings with balance := policy } otherId otherSeed recipe = .ok (.ok other) →
      plan.fingerprint = other.fingerprint := by
  have ofGraphs {graph other : MixGraph} (retimed : graph.Retimed other) :
      Mixdown.fingerprint graph.stages graph.inputs graph.finalLabel =
        Mixdown.fingerprint other.stages other.inputs other.finalLabel := by
    rw [Mixdown.fingerprint, Mixdown.fingerprint, Fingerprint.bytes_eq retimed]
  constructor
  · intro surroundings recipe other graph otherGraph retimed compiled otherCompiled
    have graphs := MixGraph.retimed_of_ofRecipe retimed compiled otherCompiled
    exact ⟨graphs, ofGraphs graphs⟩
  · intro settings policy mixId otherId seed otherSeed recipe plan other planned otherPlanned
    obtain ⟨balanced, graph, retimed, compiled, shown⟩ := exists_graph planned
    obtain ⟨otherBalanced, otherGraph, otherRetimed, otherCompiled, otherShown⟩ :=
      exists_graph otherPlanned
    rw [shown, otherShown]
    exact ofGraphs <| MixGraph.retimed_of_ofRecipe (retimed.symm.trans otherRetimed)
      compiled otherCompiled

theorem exists_ok_of_isSome
    {outcome : Except Timing.Fault (Except MixError Plan)}
    (succeeds : (outcome.toOption.bind Except.toOption).isSome = true) :
    ∃ plan, outcome = .ok (.ok plan) := by
  rcases outcome with fault | error | plan
  · cases succeeds
  · cases succeeds
  · exact ⟨plan, rfl⟩

/-- Two seeds, and lengths kept within bounds or not. -/
theorem fingerprint_eq_of_retimed_demo :
    ∃ plan other,
      ofRecipe .standard .zero 1 Recipe.demo = .ok (.ok plan) ∧
      ofRecipe { Settings.standard with balance := ⟨0, 0.5, false⟩ } .zero 2 Recipe.demo =
        .ok (.ok other) ∧
      plan.fingerprint = other.fingerprint ∧
      ∃ recipe retimed graph otherGraph,
        MixGraph.ofRecipe Settings.standard.surroundings recipe = .ok graph ∧
        MixGraph.ofRecipe Settings.standard.surroundings retimed = .ok otherGraph ∧
        graph.Retimed otherGraph := by
  obtain ⟨plan, planned⟩ : ∃ plan, ofRecipe .standard .zero 1 Recipe.demo = .ok (.ok plan) :=
    exists_ok_of_isSome (by decide +kernel)
  obtain ⟨other, otherPlanned⟩ :
      ∃ other, ofRecipe { Settings.standard with balance := ⟨0, 0.5, false⟩ } .zero 2
        Recipe.demo = .ok (.ok other) :=
    exists_ok_of_isSome (by decide +kernel)
  obtain ⟨balanced, graph, retimed, compiled, _⟩ := exists_graph planned
  obtain ⟨otherBalanced, otherGraph, otherRetimed, otherCompiled, _⟩ := exists_graph otherPlanned
  obtain ⟨ofRecipes, ofPlans⟩ := fingerprint_eq_of_retimed
  exact ⟨plan, other, planned, otherPlanned,
    ofPlans _ _ _ _ _ _ _ plan other planned otherPlanned,
    balanced, otherBalanced, graph, otherGraph, compiled, otherCompiled,
    (ofRecipes _ _ _ graph otherGraph (retimed.symm.trans otherRetimed) compiled
      otherCompiled).1⟩

end Plan

end Mixdown
