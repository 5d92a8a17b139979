import Mixdown.Proofs.Outcome
import Mixdown.Proofs.Signal.Draft

/-!
# What steps of building leave

A step of building that gives a result leaves a draft behind.  What is known of both
follows from what is known of the parts of the step, one after the other.
-/

namespace Mixdown

namespace Build

/-- Whatever a step gives from a draft, and leaves behind, is as `post` says. -/
def Leaves {α : Type} (build : Build α) (draft : Draft) (post : α → Draft → Prop) : Prop :=
  ∀ result after, build.run draft = .ok (result, after) → post result after

section Rules

variable {α β : Type} {draft : Draft} {build : Build α} {post : α → Draft → Prop}
  {final : β → Draft → Prop}

theorem leaves_pure {result : α} (holds : post result draft) :
    Leaves (pure result : Build α) draft post := by
  intro _ _ ran
  cases ran
  exact holds

theorem leaves_throw (error : MixError) : Leaves (throw error : Build α) draft post := by
  intro _ _ ran
  cases ran

theorem leaves_get : Leaves get draft fun found after => found = draft ∧ after = draft := by
  intro _ _ ran
  cases ran
  exact ⟨rfl, rfl⟩

theorem leaves_modify (change : Draft → Draft) :
    Leaves (modify change) draft fun _ after => after = change draft := by
  intro _ _ ran
  cases ran
  rfl

theorem Leaves.bind
    {next : α → Build β} (first : Leaves build draft post)
    (rest : ∀ result after, post result after → Leaves (next result) after final) :
    Leaves (build >>= next) draft final := by
  intro result after ran
  obtain ⟨⟨found, middle⟩, firstRan, restRan⟩ := bind_eq_ok_iff.mp ran
  exact rest found middle (first found middle firstRan) result after restRan

theorem Leaves.mono
    {weaker : α → Draft → Prop} (leaves : Leaves build draft post)
    (implies : ∀ result after, post result after → weaker result after) :
    Leaves build draft weaker :=
  fun result after ran => implies result after (leaves result after ran)

end Rules

/-! ## Labels, stages and files -/

variable {draft : Draft}

theorem leaves_label (take : LabelPool → String × LabelPool) :
    Leaves (label take) draft fun found after =>
      found = (take draft.labels).1 ∧ after = { draft with labels := (take draft.labels).2 } := by
  intro _ _ ran
  cases ran
  exact ⟨rfl, rfl⟩

theorem leaves_emit (stage : Stage) :
    Leaves (emit stage) draft fun made after =>
      made = stage.output ∧ after = draft.extended stage := by
  intro made after ran
  rw [emit, StateT.run_bind] at ran
  obtain ⟨⟨found, middle⟩, got, rest⟩ := bind_eq_ok_iff.mp ran
  cases got
  cases pushed : draft.graph.push stage with
  | error error =>
      rw [pushed] at rest
      cases rest
  | ok graph =>
      rw [pushed] at rest
      cases rest
      have stages : graph = ⟨draft.graph.stages ++ [stage]⟩ :=
        congrArg FilterGraph.mk (FilterGraph.stages_of_push pushed)
      rw [stages]
      exact ⟨rfl, rfl⟩

/-- Taking in a file adds its stage and the file, with the next number. -/
theorem leaves_ingest
    (contentDir : String) (track : UInt64) (position : Nat) (filename : String) :
    Leaves (ingest contentDir track position filename) draft fun signal after =>
      signal = (draft.labels.reserveFile filename track position).1 ∧
      after.graph.stages = draft.graph.stages ++
        [.ingest draft.inputs.length (joinPath contentDir filename) signal] ∧
      after.inputs = draft.inputs ++
        [⟨UInt64.ofNat draft.inputs.length, joinPath contentDir filename, track,
          UInt64.ofNat position⟩] ∧
      after.labels = (draft.labels.reserveFile filename track position).2 := by
  unfold ingest
  refine leaves_get.bind ?_
  rintro found _ ⟨rfl, rfl⟩
  refine (leaves_label _).bind ?_
  rintro output labelled ⟨rfl, rfl⟩
  refine (leaves_emit _).bind ?_
  rintro signal extended ⟨rfl, rfl⟩
  refine (leaves_modify _).bind ?_
  rintro _ taken rfl
  exact leaves_pure ⟨rfl, rfl, rfl, rfl⟩

/-- What every filter of some steps keeps of a draft, all of them keep. -/
theorem leaves_steps
    {holds : Draft → Prop} {base signal : String} {steps : List FilterStep}
    (each : ∀ step ∈ steps, ∀ signal draft, holds draft →
      Leaves (Build.step base signal step) draft fun _ after => holds after)
    (now : holds draft) :
    Leaves (steps.foldlM (Build.step base) signal) draft fun _ after => holds after := by
  induction steps generalizing signal draft with
  | nil => exact leaves_pure now
  | cons step rest inductionHypothesis =>
      obtain ⟨first, later⟩ := List.forall_mem_cons.mp each
      rw [List.foldlM_cons]
      exact (first signal draft now).bind fun made after still => inductionHypothesis later still

end Build

/-- A graph that was made of a recipe is the mix of an admitted one. -/
theorem MixGraph.mix_of_ofRecipe
    {surroundings : Surroundings} {recipe : Recipe Float} {graph : MixGraph}
    (compiled : ofRecipe surroundings recipe = .ok graph) :
    recipe.check = .ok () ∧
      ∃ draft, (Build.mix surroundings recipe).run .empty = .ok (graph, draft) := by
  obtain ⟨_, checked, built⟩ := bind_eq_ok_iff.mp compiled
  obtain ⟨⟨found, draft⟩, mixed, rest⟩ := bind_eq_ok_iff.mp built
  obtain ⟨_, _, equality⟩ := bind_eq_ok_iff.mp rest
  cases equality
  exact ⟨mapError_eq_ok_iff.mp checked, draft, mixed⟩

end Mixdown
