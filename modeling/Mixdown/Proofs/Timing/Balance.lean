import Mixdown.Proofs.Timing.Reference
import Mixdown.Proofs.Timing.Stretch

/-!
# Balanced recipes

A recipe that is admitted is balanced: its reference track is filled, every other
track is brought as near to the length of the mix as its clips allow, and a track
that misses its own greatest length by more than tolerated is warned about.
-/

namespace Mixdown.Timing

variable {σ : Type} {draw : Draw ℚ σ} {policy : Policy ℚ}

/-! ## One track -/

theorem notConverged_not_mem_boundsWarnings
    (tolerance : ℚ) (track : Track ℚ) (index : UInt64) (target achieved : ℚ) (iterations : Nat) :
    .notConverged index target achieved iterations ∉ track.boundsWarnings tolerance := by
  intro member
  obtain ⟨found, placed, isFound⟩ := List.mem_filterMap.mp member
  obtain ⟨position, inRange, atPosition⟩ := List.mem_mapIdx.mp placed
  rw [← atPosition] at isFound
  unfold Track.boundsWarning? at isFound
  split at isFound
  · cases isFound
  · split at isFound
    · cases isFound
    · cases isFound

/-- A measured track that is no longer than it may be, and without a warning about it
as long, up to the tolerance. -/
structure Fitted (policy : Policy ℚ) (warnings : List (Warning ℚ)) (track : Track ℚ) :
    Prop where
  measured : track.measure = track
  atMost : track.duration ≤ track.maxLength
  unwarned :
    (∀ target achieved iterations,
      .notConverged track.index target achieved iterations ∉ warnings) →
      |track.duration - track.maxLength| ≤ policy.tolerance

theorem Fitted.mono
    {fewer more : List (Warning ℚ)} {track : Track ℚ}
    (fitted : Fitted policy fewer track) (included : fewer ⊆ more) :
    Fitted policy more track where
  measured := fitted.measured
  atMost := fitted.atMost
  unwarned silent := fitted.unwarned fun target achieved iterations member =>
    silent target achieved iterations (included member)

theorem fitted_of_full
    (tolerated : 0 ≤ policy.tolerance) (warnings : List (Warning ℚ)) {track : Track ℚ}
    (measured : track.measure = track) (full : track.duration = track.maxLength) :
    Fitted policy warnings track where
  measured := measured
  atMost := le_of_eq full
  unwarned _ := by
    rw [full, sub_self, abs_zero]
    exact tolerated

/-- A track that is stretched by all its slack is left at most at its greatest length,
and a warning tells when it is left too far from it. -/
theorem exists_stretch_slack
    (within : draw.Within) (tolerated : 0 ≤ policy.tolerance) {track : Track ℚ}
    (ready : track.Ready) (state : σ) :
    ∃ warning stretched next,
      track.stretch draw policy (track.maxLength - track.minLength) state =
        .ok (warning, stretched, next) ∧
      stretched.index = track.index ∧
      stretched.measure.maxLength = track.maxLength ∧
      Fitted policy warning.toList stretched.measure ∧
      (policy.Suffices track.elasticCount → warning = none) := by
  have allSlack : track.minLength + (track.maxLength - track.minLength) = track.maxLength :=
    add_sub_cancel _ _
  obtain ⟨warning, stretched, next, stretching, stretches⟩ :=
    Track.exists_stretch within tolerated ready
      (sub_nonneg.mpr ready.minLength_le_maxLength) (le_of_eq allSlack) state
  have silent := stretches.silent
  have told := stretches.told
  rw [allSlack] at silent told
  refine ⟨warning, stretched, next, stretching, stretches.index, stretches.maxLength,
    ⟨rfl, ?_, ?_⟩, stretches.settles⟩
  · rw [stretches.maxLength]
    exact stretches.atMost
  · intro unwarned
    rw [stretches.maxLength]
    apply silent.mp
    cases warning with
    | none => rfl
    | some given =>
        obtain ⟨iterations, isGiven⟩ := told given rfl
        apply absurd _ (unwarned track.maxLength stretched.measure.duration iterations)
        rw [isGiven, ← stretches.index]
        exact List.mem_cons_self

/-- A track that can get no longer than the mix is balanced. -/
theorem exists_balanceTrack
    (within : draw.Within) (tolerated : 0 ≤ policy.tolerance) {track : Track ℚ}
    (ready : track.Ready) {mixDuration : ℚ} (bounded : track.maxLength ≤ mixDuration)
    (isReference : Bool) (state : σ) :
    ∃ warnings balanced next,
      balanceTrack draw policy mixDuration isReference track state =
        .ok (warnings, balanced, next) ∧
      balanced.index = track.index ∧
      balanced.maxLength = track.maxLength ∧
      Fitted policy warnings balanced ∧
      (isReference = true → balanced.duration = balanced.maxLength) ∧
      (policy.Suffices track.elasticCount → ∀ index target achieved iterations,
        .notConverged index target achieved iterations ∉ warnings) := by
  cases isReference with
  | true =>
      have maxLength : track.filled.measure.maxLength = track.maxLength := by
        rw [Track.filled, Track.maxLength_stretched, ready.measured]
      have full : track.filled.measure.duration = track.filled.measure.maxLength := by
        rw [Track.duration_filled, ready.measured, maxLength]
      exact ⟨track.filled.boundsWarnings policy.tolerance, track.filled.measure, state, rfl,
        rfl, maxLength, fitted_of_full tolerated _ rfl full, fun _ => full,
        fun _ => notConverged_not_mem_boundsWarnings _ _⟩
  | false =>
      have ordered := ready.minLength_le_maxLength
      by_cases reached : mixDuration - track.minLength ≤ 0
      · have full : track.duration = track.maxLength := by
          rw [ready.shortest]
          linarith
        refine ⟨track.boundsWarnings policy.tolerance, track, state, ?_, rfl, rfl,
          fitted_of_full tolerated _ ready.measured full, fun _ => full,
          fun _ => notConverged_not_mem_boundsWarnings _ _⟩
        unfold balanceTrack
        simp only [Bool.false_eq_true, if_false, if_pos reached]
        exact congrArg (fun measured => Except.ok (_, measured, state)) ready.measured
      · have extra :
            Scalar.lesser (mixDuration - track.minLength) track.slack =
              track.maxLength - track.minLength := by
          rw [Scalar.lesser_eq_min, Track.slack, Scalar.greater_eq_max,
            max_eq_left (sub_nonneg.mpr ordered)]
          exact min_eq_right (sub_le_sub_right bounded _)
        obtain ⟨warning, stretched, next, stretching, index, maxLength, fitted, settles⟩ :=
          exists_stretch_slack within tolerated ready state
        refine ⟨warning.toList ++ stretched.boundsWarnings policy.tolerance, stretched.measure,
          next, ?_, index, maxLength, fitted.mono (List.subset_append_left _ _),
          Bool.noConfusion, ?_⟩
        · unfold balanceTrack
          simp only [Bool.false_eq_true, if_false, if_neg reached, extra]
          rw [stretching]
          rfl
        · intro enough number target achieved iterations member
          rw [settles enough] at member
          exact notConverged_not_mem_boundsWarnings _ _ _ _ _ _ member

/-! ## All tracks -/

/-- Tracks that are no longer than the mix are balanced one after the other. -/
theorem exists_balanceTracks
    (within : draw.Within) (tolerated : 0 ≤ policy.tolerance) {mixDuration : ℚ}
    {tracks : List (Track ℚ)} (ready : ∀ track ∈ tracks, track.Ready)
    (bounded : ∀ track ∈ tracks, track.maxLength ≤ mixDuration)
    (reference position : Nat) (state : σ) :
    ∃ warnings balanced next,
      balanceTracks draw policy mixDuration reference position tracks state =
        .ok (warnings, balanced, next) ∧
      balanced.map Track.index = tracks.map Track.index ∧
      balanced.map Track.maxLength = tracks.map Track.maxLength ∧
      (∀ track ∈ balanced, Fitted policy warnings track) ∧
      (∀ offset track, position + offset = reference → balanced[offset]? = some track →
        track.duration = track.maxLength) ∧
      ((∀ track ∈ tracks, policy.Suffices track.elasticCount) →
        ∀ index target achieved iterations,
          .notConverged index target achieved iterations ∉ warnings) := by
  induction tracks generalizing position state with
  | nil =>
      exact ⟨[], [], state, rfl, rfl, rfl, by simp, by simp, by simp⟩
  | cons track rest inductionHypothesis =>
      obtain ⟨readyTrack, readyRest⟩ := List.forall_mem_cons.mp ready
      obtain ⟨boundedTrack, boundedRest⟩ := List.forall_mem_cons.mp bounded
      obtain ⟨warnings, first, middle, balancing, index, maxLength, fitted, filled, settles⟩ :=
        exists_balanceTrack within tolerated readyTrack boundedTrack (position == reference)
          state
      obtain ⟨others, balanced, next, restBalancing, indices, maxLengths, restFitted,
          restFilled, restSettles⟩ :=
        inductionHypothesis readyRest boundedRest (position + 1) middle
      refine ⟨warnings ++ others, first :: balanced, next, ?_, congrArg₂ List.cons index indices,
        congrArg₂ List.cons maxLength maxLengths, ?_, ?_, ?_⟩
      · simp only [balanceTracks, balancing, bind, Except.bind, restBalancing]
        rfl
      · intro one member
        rcases List.mem_cons.mp member with isFirst | other
        · rw [isFirst]
          exact fitted.mono (List.subset_append_left warnings others)
        · exact (restFitted one other).mono (List.subset_append_right warnings others)
      · intro offset chosen atReference isChosen
        cases offset with
        | zero =>
            cases isChosen
            exact filled (beq_iff_eq.mpr atReference)
        | succ offset =>
            exact restFilled offset chosen (by omega) isChosen
      · intro enough index target achieved iterations member
        obtain ⟨enoughTrack, enoughRest⟩ := List.forall_mem_cons.mp enough
        rcases List.mem_append.mp member with own | other
        · exact settles enoughTrack index target achieved iterations own
        · exact restSettles enoughRest index target achieved iterations other

/-! ## Recipes -/

/-- What the report on a balanced recipe tells of its tracks. -/
structure Report.Describes
    (report : Report ℚ) (policy : Policy ℚ) (recipe balanced : Recipe ℚ) : Prop where
  indices : balanced.tracks.map Track.index = recipe.tracks.map Track.index
  maxLengths :
    balanced.tracks.map Track.maxLength =
      recipe.tracks.map fun track => track.measure.maxLength
  reference :
    FirstGreatest (balanced.tracks.map Track.maxLength) report.reference report.mixDuration
  filled :
    ∃ track, balanced.tracks[report.reference]? = some track ∧
      track.duration = report.mixDuration
  measured : ∀ track ∈ balanced.tracks, track.measure = track
  atMost : ∀ track ∈ balanced.tracks, track.duration ≤ report.mixDuration
  unwarned :
    ∀ track ∈ balanced.tracks,
      (∀ target achieved iterations,
        .notConverged track.index target achieved iterations ∉ report.warnings) →
      |track.duration - track.maxLength| ≤ policy.tolerance
  settled :
    policy.clampToBounds = false ∧ 1 ≤ policy.maxIterations ∨
      policy.clampToBounds = true ∧ 1 / 2 ^ 52 ≤ policy.tolerance ∧
        (∀ track ∈ recipe.tracks, track.elasticCount ≤ policy.maxIterations) →
      ∀ index target achieved iterations,
        .notConverged index target achieved iterations ∉ report.warnings

theorem ready_of_admitted
    {recipe : Recipe ℚ} (admitted : recipe.check = .ok ()) :
    ∀ track ∈ recipe.tracks.map (fun track => track.shrunk.measure), track.Ready := by
  obtain ⟨_, _, admittedTracks⟩ := Recipe.check_eq_ok_iff.mp admitted
  intro changed member
  obtain ⟨track, original, rfl⟩ := List.mem_map.mp member
  apply track.ready_shrunk
  intro clip clipMember
  exact ordered_of_checkTiming ((admittedTracks track original).timing clipMember)

theorem map_maxLength_shrunk (tracks : List (Track ℚ)) :
    (tracks.map fun track => track.shrunk.measure).map Track.maxLength =
      tracks.map fun track => track.measure.maxLength := by
  rw [List.map_map]
  apply List.map_congr_left
  intro track _
  exact track.maxLength_stretched fun clip => clip.timing.minLength

theorem elasticCount_shrunk (track : Track ℚ) :
    track.shrunk.measure.elasticCount = track.elasticCount :=
  track.elasticCount_stretched fun clip => clip.timing.minLength

theorem suffices_of_rounds
    {count : Nat}
    (rounds : policy.clampToBounds = false ∧ 1 ≤ policy.maxIterations ∨
      policy.clampToBounds = true ∧ 1 / 2 ^ 52 ≤ policy.tolerance ∧
        count ≤ policy.maxIterations) :
    policy.Suffices count := by
  unfold Policy.Suffices
  rcases rounds with ⟨unclamped, one⟩ | ⟨clamped, precise, enough⟩
  · rw [unclamped]
    exact one
  · rw [clamped]
    exact ⟨Scalar.negligible_eq.trans_le precise, enough⟩

/-- An admitted recipe is balanced, whatever lengths are drawn. -/
theorem exists_balance
    {recipe : Recipe ℚ} (within : draw.Within) (tolerated : 0 ≤ policy.tolerance)
    (admitted : recipe.check = .ok ()) (state : σ) :
    ∃ report balanced next,
      balance draw policy recipe state = .ok ⟨.ok report, balanced, next⟩ ∧
      report.Describes policy recipe balanced := by
  have nonempty : recipe.tracks.map (fun track => track.shrunk.measure) ≠ [] := by
    intro empty
    exact (Recipe.check_eq_ok_iff.mp admitted).1 (List.map_eq_nil_iff.mp empty)
  obtain ⟨reference, mixDuration, found, firstGreatest⟩ := exists_longest? nonempty
  have bounded : ∀ track ∈ recipe.tracks.map (fun track => track.shrunk.measure),
      track.maxLength ≤ mixDuration := by
    intro track member
    exact firstGreatest.greatest _ (List.mem_map_of_mem member)
  obtain ⟨warnings, balanced, next, balancing, indices, maxLengths, fitted, filled, settles⟩ :=
    exists_balanceTracks within tolerated (ready_of_admitted admitted) bounded reference 0
      state
  refine ⟨⟨reference, mixDuration, warnings⟩, { recipe with tracks := balanced }, next, ?_, ?_⟩
  · unfold balance
    rw [admitted]
    simp only [found]
    rw [balancing]
    rfl
  · rw [← maxLengths] at firstGreatest
    constructor
    case indices =>
      rw [indices, List.map_map]
      rfl
    case maxLengths =>
      rw [maxLengths, map_maxLength_shrunk]
    case reference =>
      exact firstGreatest
    case filled =>
      have atPosition := firstGreatest.found
      rw [List.getElem?_map] at atPosition
      obtain ⟨track, atReference, longest⟩ := Option.map_eq_some_iff.mp atPosition
      refine ⟨track, atReference, ?_⟩
      rw [filled reference track (Nat.zero_add reference) atReference]
      exact longest
    case measured =>
      intro track member
      exact (fitted track member).measured
    case atMost =>
      intro track member
      have noLonger := (fitted track member).atMost
      exact noLonger.trans (firstGreatest.greatest _ (List.mem_map_of_mem member))
    case unwarned =>
      intro track member
      exact (fitted track member).unwarned
    case settled =>
      intro rounds
      apply settles
      intro changed member
      obtain ⟨track, original, rfl⟩ := List.mem_map.mp member
      rw [elasticCount_shrunk]
      apply suffices_of_rounds
      rcases rounds with unclamped | ⟨clamped, precise, enough⟩
      · exact Or.inl unclamped
      · exact Or.inr ⟨clamped, precise, enough track original⟩

/-- A fixed clip before a silent gap, under three elastic clips. -/
def demo : Recipe ℚ where
  title := "Night Walk"
  tracks :=
    [.ofClips 1
        [⟨.file "wind.wav", .fixed 20, none, []⟩, ⟨.silence, .elasticFrom 1 5, none, []⟩]
        none [],
      .ofClips 2
        [⟨.file "rain.wav", .elasticFrom 0 12, none, []⟩,
          ⟨.silence, .elasticFrom 2 4, none, []⟩,
          ⟨.file "birds.wav", .elasticFrom 3 6, none, []⟩]
        none []]

theorem exists_balance_demo :
    ∃ report balanced next,
      balance replay ⟨3, 1 / 1000, true⟩ demo [7, 3, 5] =
        .ok ⟨.ok report, balanced, next⟩ ∧
      FirstGreatest (balanced.tracks.map Track.maxLength) report.reference report.mixDuration ∧
      ∀ index target achieved iterations,
        .notConverged index target achieved iterations ∉ report.warnings := by
  have admitted : demo.check = .ok () := by rfl
  have enough : ∀ track ∈ demo.tracks, track.elasticCount ≤ 3 := by decide
  have tolerated : 0 ≤ (⟨3, 1 / 1000, true⟩ : Policy ℚ).tolerance := by norm_num
  obtain ⟨report, balanced, next, balancing, describes⟩ :=
    exists_balance replay_within tolerated admitted [7, 3, 5]
  exact ⟨report, balanced, next, balancing, describes.reference,
    describes.settled (Or.inr ⟨rfl, by norm_num, enough⟩)⟩

end Mixdown.Timing
