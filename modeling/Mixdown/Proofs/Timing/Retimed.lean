import Mixdown.Proofs.Outcome
import Mixdown.Proofs.Recipe.Retimed
import Mixdown.Timing.Balance

/-!
# Balancing retimes

Whatever is drawn and however it is corrected, and in whatever arithmetic, balancing
changes nothing of a recipe but the lengths of its elastic clips and the measures of
its tracks.
-/

namespace Mixdown.Timing

variable {α σ : Type} [Scalar α] {draw : Draw α σ} {policy : Policy α}

section OneTrack

variable {track balanced : Track α} {extra : α} {state next : σ}

/-- What stretching may do to a track: leave it, or spread a length over its slots.  It
warns when the slots have not settled. -/
theorem stretch_cases
    {warning : Option (Warning α)}
    (stretching : track.stretch draw policy extra state = .ok (warning, balanced, next)) :
    (warning = none ∧ balanced = track ∧ next = state) ∨
      ∃ outcome slots,
        spread draw policy extra track.slots state = .ok (outcome, slots, next) ∧
        balanced = { track with clips := Track.putSlots track.clips slots } ∧
        warning =
          if outcome.converged then none
          else some (.notConverged track.index (track.minLength + extra)
            (track.minLength + extra - outcome.residual) outcome.iterations) := by
  unfold Track.stretch at stretching
  split at stretching
  next =>
    cases stretching
    exact Or.inl ⟨rfl, rfl, rfl⟩
  next =>
    obtain ⟨⟨outcome, stretched, after⟩, spreadingTrack, equality⟩ :=
      bind_eq_ok_iff.mp stretching
    cases equality
    obtain ⟨⟨found, slots, middle⟩, spreading, same⟩ := bind_eq_ok_iff.mp spreadingTrack
    cases same
    exact Or.inr ⟨outcome, slots, spreading, rfl, rfl⟩

theorem retimed_of_stretch
    {warning : Option (Warning α)}
    (stretching : track.stretch draw policy extra state = .ok (warning, balanced, next)) :
    track.Retimed balanced := by
  rcases stretch_cases stretching with ⟨_, rfl, _⟩ | ⟨_, slots, _, rfl, _⟩
  · exact .refl balanced
  · exact .putSlots track slots

/-- What balancing may do to a track: fill it, leave it, or stretch it.  Warnings about
its bounds come last, and the track is measured once more. -/
theorem balanceTrack_cases
    {mixDuration : α} {isReference : Bool} {warnings : List (Warning α)}
    (balancing : balanceTrack draw policy mixDuration isReference track state =
      .ok (warnings, balanced, next)) :
    ∃ warning changed,
      (warning = none ∧ changed = track.filled ∧ next = state ∨
        warning = none ∧ changed = track ∧ next = state ∨
        ∃ extra, track.stretch draw policy extra state = .ok (warning, changed, next)) ∧
      warnings = warning.toList ++ changed.boundsWarnings policy.tolerance ∧
      balanced = changed.measure := by
  unfold balanceTrack at balancing
  dsimp only at balancing
  split at balancing
  next =>
    obtain ⟨_, filled, equality⟩ := bind_eq_ok_iff.mp balancing
    cases filled
    cases equality
    exact ⟨none, track.filled, Or.inl ⟨rfl, rfl, rfl⟩, rfl, rfl⟩
  next =>
    split at balancing
    next =>
      obtain ⟨_, left, equality⟩ := bind_eq_ok_iff.mp balancing
      cases left
      cases equality
      exact ⟨none, track, Or.inr (Or.inl ⟨rfl, rfl, rfl⟩), rfl, rfl⟩
    next =>
      obtain ⟨⟨warning, stretched, after⟩, stretching, equality⟩ := bind_eq_ok_iff.mp balancing
      cases equality
      exact ⟨warning, stretched, Or.inr (Or.inr ⟨_, stretching⟩), rfl, rfl⟩

theorem retimed_of_balanceTrack
    {mixDuration : α} {isReference : Bool} {warnings : List (Warning α)}
    (balancing : balanceTrack draw policy mixDuration isReference track state =
      .ok (warnings, balanced, next)) :
    track.Retimed balanced := by
  obtain ⟨warning, changed, changes, _, rfl⟩ := balanceTrack_cases balancing
  refine Track.Retimed.trans ?_ (.measure changed)
  rcases changes with ⟨_, rfl, _⟩ | ⟨_, rfl, _⟩ | ⟨extra, stretching⟩
  · exact .stretched track fun clip => clip.timing.maxLength
  · exact .refl changed
  · exact retimed_of_stretch stretching

theorem measure_eq_of_balanceTrack
    {mixDuration : α} {isReference : Bool} {warnings : List (Warning α)}
    (balancing : balanceTrack draw policy mixDuration isReference track state =
      .ok (warnings, balanced, next)) :
    balanced.measure = balanced := by
  obtain ⟨_, changed, _, _, equality⟩ := balanceTrack_cases balancing
  rw [equality]
  rfl

end OneTrack

/-! ## All tracks -/

section AllTracks

variable {mixDuration : α} {reference position : Nat} {tracks balanced : List (Track α)}
  {warnings : List (Warning α)} {state next : σ}

/-- What balancing does to each track on its own it does to all of them. -/
theorem forall₂_of_balanceTracks
    {related : Track α → Track α → Prop}
    (each : ∀ {isReference track changed own before after},
      balanceTrack draw policy mixDuration isReference track before = .ok (own, changed, after) →
        related track changed)
    (balancing : balanceTracks draw policy mixDuration reference position tracks state =
      .ok (warnings, balanced, next)) :
    List.Forall₂ related tracks balanced := by
  induction tracks generalizing position warnings balanced state with
  | nil =>
      cases balancing
      exact .nil
  | cons track rest inductionHypothesis =>
      obtain ⟨⟨own, first, middle⟩, balancingFirst, remaining⟩ := bind_eq_ok_iff.mp balancing
      obtain ⟨⟨others, changed, after⟩, balancingRest, equality⟩ := bind_eq_ok_iff.mp remaining
      cases equality
      exact .cons (each balancingFirst) (inductionHypothesis balancingRest)

theorem retimed_of_balanceTracks
    (balancing : balanceTracks draw policy mixDuration reference position tracks state =
      .ok (warnings, balanced, next)) :
    List.Forall₂ Track.Retimed tracks balanced :=
  forall₂_of_balanceTracks retimed_of_balanceTrack balancing

theorem measure_eq_of_balanceTracks
    (balancing : balanceTracks draw policy mixDuration reference position tracks state =
      .ok (warnings, balanced, next)) :
    ∀ track ∈ balanced, track.measure = track := by
  have measured : List.Forall₂ (fun _ changed : Track α => changed.measure = changed)
      tracks balanced :=
    forall₂_of_balanceTracks measure_eq_of_balanceTrack balancing
  intro track member
  obtain ⟨_, _, same⟩ := exists_mem_left_of_forall₂ measured member
  exact same

end AllTracks

/-! ## Recipes -/

/-- What is reported comes from the search for the longest track and from its tracks,
balanced one by one. -/
theorem exists_balanceTracks_of_balance
    {recipe balanced : Recipe α} {report : Report α} {state next : σ}
    (balancing : balance draw policy recipe state = .ok ⟨.ok report, balanced, next⟩) :
    longest? (recipe.tracks.map fun track => track.shrunk.measure) =
        some (report.reference, report.mixDuration) ∧
      balanceTracks draw policy report.mixDuration report.reference 0
        (recipe.tracks.map fun track => track.shrunk.measure) state =
          .ok (report.warnings, balanced.tracks, next) := by
  unfold balance at balancing
  split at balancing
  next => cases balancing
  next =>
    dsimp only at balancing
    split at balancing
    next => cases balancing
    next found =>
      obtain ⟨⟨warnings, tracks, after⟩, balancingTracks, equality⟩ :=
        bind_eq_ok_iff.mp balancing
      cases equality
      exact ⟨found, balancingTracks⟩

theorem retimed_shrunk (recipe : Recipe α) :
    recipe.Retimed
      { recipe with tracks := recipe.tracks.map fun track => track.shrunk.measure } := by
  refine ⟨rfl, ?_⟩
  rw [List.forall₂_map_right_iff, List.forall₂_same]
  intro track _
  exact (Track.Retimed.stretched track fun clip => clip.timing.minLength).trans (.measure _)

/-- A balanced recipe is the given one, retimed. -/
theorem retimed_of_balance
    {recipe : Recipe α} {state : σ} {balanced : Balanced α σ}
    (balancing : balance draw policy recipe state = .ok balanced) :
    recipe.Retimed balanced.recipe := by
  unfold balance at balancing
  split at balancing
  next =>
    cases balancing
    exact .refl recipe
  next =>
    dsimp only at balancing
    split at balancing
    next =>
      cases balancing
      exact retimed_shrunk recipe
    next =>
      obtain ⟨⟨warnings, tracks, after⟩, balancingTracks, equality⟩ :=
        bind_eq_ok_iff.mp balancing
      cases equality
      exact (retimed_shrunk recipe).trans ⟨rfl, retimed_of_balanceTracks balancingTracks⟩

end Mixdown.Timing
