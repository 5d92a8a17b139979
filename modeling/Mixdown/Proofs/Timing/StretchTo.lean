import Mixdown.Proofs.Timing.Retimed
import Mixdown.Proofs.Timing.Stretch

/-!
# Tracks stretched to a length

A track that is stretched to a length of its own is warned about just when it misses the
length, limited to what its clips can last together, by more than is tolerated.  The
warning tells that length, how long the track came out, and that no round was left.
-/

namespace Mixdown

open Timing

variable {σ : Type} {draw : Draw ℚ σ} {policy : Policy ℚ}

/-! ## Rounds -/

/-- Slots that do not settle take all rounds there are. -/
theorem Timing.iterations_of_spread
    {extra : ℚ} {slots lengthened : List (Slot ℚ)} {state next : σ} {outcome : Spread ℚ}
    (spreading : spread draw policy extra slots state = .ok (outcome, lengthened, next))
    (unsettled : outcome.converged = false) :
    outcome.iterations = policy.maxIterations := by
  obtain ⟨⟨drawn, middle⟩, _, corrected⟩ := bind_eq_ok_iff.mp spreading
  obtain ⟨⟨slots, left⟩, correction, equality⟩ := bind_eq_ok_iff.mp corrected
  cases equality
  dsimp only at unsettled ⊢
  rw [left_eq_zero_of_unsettled correction unsettled, Nat.sub_zero]

namespace Track

variable {track : Track ℚ}

theorem iterations_of_stretch
    {stretched : Track ℚ} {extra target achieved : ℚ} {index : UInt64} {iterations : Nat}
    {state next : σ}
    (stretching : track.stretch draw policy extra state =
      .ok (some (.notConverged index target achieved iterations), stretched, next)) :
    iterations = policy.maxIterations := by
  rcases stretch_cases stretching with ⟨noWarning, _⟩ | ⟨outcome, _, spreading, _, isGiven⟩
  · cases noWarning
  · cases settled : outcome.converged with
    | true => simp [settled] at isGiven
    | false =>
        simp only [settled, Bool.false_eq_true, if_false, Option.some.injEq,
          Warning.notConverged.injEq] at isGiven
        rw [isGiven.2.2.2]
        exact iterations_of_spread spreading settled

/-! ## Lengths asked for -/

/-- A length asked for, limited to what the clips of a measured track can last together. -/
def limited (track : Track ℚ) (target : ℚ) : ℚ :=
  min track.maxLength (max track.minLength target)

/-- Beyond its least length a track is asked for what its slack allows. -/
theorem Ready.exists_extra (ready : track.Ready) (target : ℚ) :
    ∃ extra, confine 0 track.slack (target - track.minLength) = .ok extra ∧
      0 ≤ extra ∧ track.minLength + extra = track.limited target := by
  have room : 0 ≤ track.maxLength - track.minLength :=
    sub_nonneg.mpr ready.minLength_le_maxLength
  have slack : track.slack = track.maxLength - track.minLength := by
    rw [Track.slack, Scalar.greater_eq_max, max_eq_left room]
  refine ⟨min track.slack (max 0 (target - track.minLength)), ?_, ?_, ?_⟩
  · rw [slack]
    exact confine_eq room _
  · rw [slack]
    exact le_min room (le_max_left 0 _)
  · rw [slack, limited, ← min_add_add_left, ← max_add_add_left, add_zero, add_sub_cancel,
      add_sub_cancel]

theorem Retimed.limited_eq {other : Track ℚ} (retimed : track.Retimed other) (target : ℚ) :
    track.measure.limited target = other.measure.limited target := by
  rw [limited, limited, retimed.minLength_measure_eq, retimed.maxLength_measure_eq]

/-- A track is stretched to the length asked for, limited to what its clips can last
together.  There is a warning just when it misses that length by more than is tolerated,
and the warning tells the length, what was reached of it, and all rounds as used. -/
theorem exists_stretchTo
    (within : draw.Within) (tolerated : 0 ≤ policy.tolerance)
    (admitted : ∀ clip ∈ track.clips, checkTiming clip.timing = .ok ())
    (target : ℚ) (state : σ) :
    ∃ warning stretched next,
      track.stretchTo draw policy target state = .ok (warning, stretched, next) ∧
      track.Retimed stretched ∧ stretched.measure = stretched ∧
      warning =
        if policy.tolerance < |stretched.duration - stretched.limited target| then
          some (.notConverged track.index (stretched.limited target) stretched.duration
            policy.maxIterations)
        else
          none := by
  have ready : track.shrunk.measure.Ready :=
    track.ready_shrunk fun clip member => ordered_of_checkTiming (admitted clip member)
  have shrunk : track.Retimed track.shrunk.measure :=
    (Retimed.stretched track fun clip => clip.timing.minLength).trans (.measure _)
  obtain ⟨extra, confined, nonnegative, limitedTo⟩ := ready.exists_extra target
  have reachable : track.shrunk.measure.minLength + extra ≤ track.shrunk.measure.maxLength :=
    limitedTo.trans_le (min_le_left _ _)
  obtain ⟨warning, stretched, next, stretching, stretches⟩ :=
    exists_stretch within tolerated ready nonnegative reachable state
  have retimed : track.shrunk.measure.Retimed stretched := retimed_of_stretch stretching
  have sameLimit : track.shrunk.measure.limited target = stretched.measure.limited target :=
    retimed.limited_eq target
  have silent := stretches.silent
  have told := stretches.told
  rw [limitedTo, sameLimit] at silent told
  refine ⟨warning, stretched.measure, next, ?_, (shrunk.trans retimed).trans (.measure _), rfl, ?_⟩
  · simp only [stretchTo, confined, bind, Except.bind, stretching]
    rfl
  · by_cases missed :
        policy.tolerance < |stretched.measure.duration - stretched.measure.limited target|
    · rw [if_pos missed]
      cases warning with
      | none => exact absurd (silent.mp rfl) (not_le.mpr missed)
      | some given =>
          obtain ⟨iterations, rfl⟩ := told given rfl
          rw [iterations_of_stretch stretching]
          rfl
    · rw [if_neg missed]
      exact silent.mpr (not_lt.mp missed)

/-- Two gaps that last from 5 to 17 together. -/
def gaps : Track ℚ :=
  .ofClips 0 [⟨.silence, .elasticFrom 2 8, none, []⟩, ⟨.silence, .elasticFrom 3 9, none, []⟩]
    none []

/-- Lengths that are drawn and never corrected miss the one asked for. -/
example :
    (gaps.stretchTo replay ⟨0, 0, true⟩ 12 [5, 6]).toOption.map
        (fun result => (result.1, result.2.1.duration)) =
      some (some (.notConverged 0 12 11 0), 11) := by
  decide +kernel

/-- The gaps cannot last 60 together; scaled without regard to bounds they last as long as
they may. -/
theorem exists_stretchTo_gaps :
    (∀ clip ∈ gaps.clips, checkTiming clip.timing = .ok ()) ∧
    ∃ warning stretched next,
      gaps.stretchTo replay ⟨1, 1 / 1000, false⟩ 60 [5, 6] = .ok (warning, stretched, next) ∧
      stretched.limited 60 = 17 ∧
      warning =
        if 1 / 1000 < |stretched.duration - 17| then
          some (.notConverged 0 17 stretched.duration 1)
        else
          none := by
  have admitted : ∀ clip ∈ gaps.clips, checkTiming clip.timing = .ok () :=
    List.forall_mem_cons.mpr ⟨rfl, List.forall_mem_singleton.mpr rfl⟩
  have tolerated : 0 ≤ (⟨1, 1 / 1000, false⟩ : Policy ℚ).tolerance := by
    norm_num
  obtain ⟨warning, stretched, next, stretching, retimed, measured, warns⟩ :=
    exists_stretchTo replay_within tolerated admitted 60 [5, 6]
  have limit : stretched.limited 60 = 17 := by
    rw [← measured, ← retimed.limited_eq]
    decide +kernel
  rw [limit] at warns
  exact ⟨admitted, warning, stretched, next, stretching, limit, warns⟩

end Track

end Mixdown
