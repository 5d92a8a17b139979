import Mixdown.Proofs.Recipe.Admission
import Mixdown.Proofs.Timing.Retimed
import Mixdown.Random.Uniform
import Mixdown.Recipe.Demo

/-!
# What balancing leaves alone

Balancing refuses what the admission refuses, before it draws or changes anything.  Any
other recipe it changes in the lengths of its elastic clips only, and measures its tracks.
-/

namespace Mixdown

/-! ## The search for the longest track -/

theorem exists_longestFrom_of_some
    {α : Type} [Scalar α] (position : Nat) (best : Nat × α) (tracks : List (Track α)) :
    ∃ found, Timing.longestFrom position (some best) tracks = some found := by
  induction tracks generalizing position best with
  | nil => exact ⟨best, rfl⟩
  | cons track rest inductionHypothesis => exact inductionHypothesis (position + 1) _

theorem Recipe.exists_longest?
    {α : Type} [Scalar α] {recipe : Recipe α} (nonempty : recipe.tracks ≠ []) :
    ∃ reference mixDuration,
      Timing.longest? (recipe.tracks.map fun track => track.shrunk.measure) =
        some (reference, mixDuration) := by
  obtain ⟨title, tracks⟩ := recipe
  cases tracks with
  | nil => exact absurd rfl nonempty
  | cons track rest =>
      obtain ⟨⟨reference, mixDuration⟩, found⟩ :=
        exists_longestFrom_of_some 1 (0, track.shrunk.measure.maxLength)
          (rest.map fun track => track.shrunk.measure)
      exact ⟨reference, mixDuration, found⟩

namespace Timing

variable {α σ : Type} [Scalar α] {draw : Draw α σ} {policy : Policy α}
  {recipe : Recipe α} {state : σ} {balanced : Balanced α σ}

/-! ## How balancing ends -/

theorem balance_of_refused
    {error : RecipeError α} (refused : recipe.check = .error error) :
    balance draw policy recipe state = .ok ⟨.error error, recipe, state⟩ := by
  rw [balance, refused]

/-- Once a recipe is admitted nothing is refused: its tracks are shrunk by then, but one
of them is always found to be the longest. -/
theorem exists_report_of_balance
    (admitted : recipe.check = .ok ())
    (balancing : balance draw policy recipe state = .ok balanced) :
    ∃ report, balanced.outcome = .ok report := by
  have nonempty : recipe.tracks ≠ [] := (Recipe.check_eq_ok_iff.mp admitted).1
  obtain ⟨reference, mixDuration, longest⟩ := recipe.exists_longest? nonempty
  unfold balance at balancing
  rw [admitted] at balancing
  simp only [longest] at balancing
  obtain ⟨⟨warnings, tracks, next⟩, _, equality⟩ := bind_eq_ok_iff.mp balancing
  cases equality
  exact ⟨⟨reference, mixDuration, warnings⟩, rfl⟩

/-- A recipe that is refused is left as it was, and so is the source of draws.  One that
is balanced keeps all but the lengths of its elastic clips, and its tracks are measured. -/
theorem balance_leaves (balancing : balance draw policy recipe state = .ok balanced) :
    (∀ error, balanced.outcome = .error error →
      recipe.check = .error error ∧ balanced.recipe = recipe ∧ balanced.state = state) ∧
    (∀ report, balanced.outcome = .ok report →
      recipe.check = .ok () ∧ recipe.Retimed balanced.recipe ∧
        ∀ track ∈ balanced.recipe.tracks, track.measure = track) := by
  cases checked : recipe.check with
  | error refusal =>
      have same : ⟨.error refusal, recipe, state⟩ = balanced :=
        Except.ok.inj ((balance_of_refused checked).symm.trans balancing)
      subst same
      constructor
      · rintro error ⟨⟩
        exact ⟨rfl, rfl, rfl⟩
      · rintro report ⟨⟩
  | ok passed =>
      obtain ⟨outcome, changed, next⟩ := balanced
      obtain ⟨found, rfl⟩ : ∃ report, outcome = .ok report :=
        exists_report_of_balance checked balancing
      constructor
      · rintro error ⟨⟩
      · intro report _
        obtain ⟨_, balancingTracks⟩ := exists_balanceTracks_of_balance balancing
        exact ⟨rfl, retimed_of_balance balancing, measure_eq_of_balanceTracks balancingTracks⟩

/-- Two tracks of one index, neither at its least length. -/
def doubled : Recipe Float where
  title := ""
  tracks := List.replicate 2
    ⟨0, [⟨.silence, .elastic 1.0 4.0 3.0, none, []⟩], none, [], 3.0, 1.0, 4.0⟩

theorem balance_leaves_demo :
    (∃ balanced, balance Random.uniform .standard Recipe.demo (Random.Pcg.ofSeed 7) =
        .ok balanced ∧
      Recipe.demo.Retimed balanced.recipe ∧
        ∀ track ∈ balanced.recipe.tracks, track.measure = track) ∧
    (∃ balanced, balance Random.uniform .standard doubled (Random.Pcg.ofSeed 7) =
        .ok balanced ∧
      balanced.outcome = .error (.invalid (.ofTrack 0) .duplicateIndex) ∧
        balanced.recipe = doubled ∧ balanced.state = Random.Pcg.ofSeed 7) := by
  have succeeds :
      (balance Random.uniform .standard Recipe.demo (Random.Pcg.ofSeed 7)).toOption.any
        (fun balanced => balanced.outcome.isOk) = true := by
    decide +kernel
  constructor
  · obtain ⟨⟨outcome, changed, next⟩, balancing, isOk⟩ := exists_ok_of_any succeeds
    cases outcome with
    | error error => cases isOk
    | ok report =>
        obtain ⟨_, retimed, measured⟩ := (balance_leaves balancing).2 report rfl
        exact ⟨_, balancing, retimed, measured⟩
  · have refused : doubled.check = .error (.invalid (.ofTrack 0) .duplicateIndex) := by
      decide +kernel
    have balancing : balance Random.uniform .standard doubled (Random.Pcg.ofSeed 7) = _ :=
      balance_of_refused refused
    obtain ⟨_, unchanged, sameState⟩ := (balance_leaves balancing).1 _ rfl
    exact ⟨_, balancing, rfl, unchanged, sameState⟩

end Timing

end Mixdown
