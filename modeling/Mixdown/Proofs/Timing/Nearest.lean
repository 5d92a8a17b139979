import Mixdown.Proofs.Timing.Retimed
import Mixdown.Proofs.Timing.Stretch

/-!
# The nearest total

Elastic clips that are kept within their bounds last together from the total of their
least lengths to that of their greatest.  Spreading a length over them ends as near to it
as this range allows, however much too short or too long the length is.
-/

namespace Mixdown

namespace Timing

/-! ## What slots can last together -/

theorem totalLow_le {slots : List (Slot ℚ)} (fit : ∀ slot ∈ slots, slot.Fits) :
    totalLow slots ≤ totalLength slots := by
  rw [totalLength_eq]
  exact List.sum_le_sum fun slot member => (fit slot member).above

theorem totalLow_le_totalHigh
    {slots : List (Slot ℚ)} (admitted : ∀ slot ∈ slots, slot.Admitted) :
    totalLow slots ≤ totalHigh slots :=
  List.sum_le_sum fun slot member => (admitted slot member).ordered

/-- The total nearest to a target that slots can have within their bounds. -/
def nearestTotal (target : ℚ) (slots : List (Slot ℚ)) : ℚ :=
  min (max target (totalLow slots)) (totalHigh slots)

theorem SameBounds.nearestTotal_eq
    {old new : List (Slot ℚ)} (same : SameBounds old new) (target : ℚ) :
    nearestTotal target new = nearestTotal target old := by
  rw [nearestTotal, nearestTotal, same.totalLow_eq, same.totalHigh_eq]

/-- A target within reach is its own nearest total. -/
theorem nearestTotal_eq_self
    {target : ℚ} {slots : List (Slot ℚ)}
    (reachable : totalLow slots ≤ target ∧ target ≤ totalHigh slots) :
    nearestTotal target slots = target := by
  rw [nearestTotal, max_eq_left reachable.1, min_eq_left reachable.2]

section Reached

variable {growing : Bool} {target tolerance : ℚ} {slots others : List (Slot ℚ)}

/-- Slots that have not passed their target have not passed the total nearest to it. -/
theorem Ahead.distance_nearestTotal
    (ahead : Ahead growing target slots) :
    0 ≤ distance growing (totalLength slots) (nearestTotal target slots) ∧
      distance growing (totalLength slots) (nearestTotal target slots) ≤
        remaining growing target slots ∧
      distance growing (totalLength slots) (nearestTotal target slots) ≤
        totalHeadroom growing slots := by
  have aboveLow := totalLow_le ahead.fit
  have belowHigh := le_totalHigh ahead.fit
  have notPassed := ahead.notPassed
  rw [totalHeadroom_eq, remaining, totalLimit]
  cases growing with
  | true =>
      have short : totalLength slots ≤ target := sub_nonneg.mp notPassed
      have nearest : nearestTotal target slots = min target (totalHigh slots) := by
        rw [nearestTotal, max_eq_left (aboveLow.trans short)]
      simp only [distance_up, nearest]
      refine ⟨sub_nonneg.mpr (le_min short belowHigh), ?_, ?_⟩
      · exact sub_le_sub_right (min_le_left _ _) _
      · exact sub_le_sub_right (min_le_right _ _) _
  | false =>
      have long : target ≤ totalLength slots := sub_nonneg.mp notPassed
      have nearest : nearestTotal target slots = max target (totalLow slots) := by
        rw [nearestTotal, min_eq_left ((max_le long aboveLow).trans belowHigh)]
      simp only [distance_down, nearest]
      refine ⟨sub_nonneg.mpr (max_le long aboveLow), ?_, ?_⟩
      · exact sub_le_sub_left (le_max_left _ _) _
      · exact sub_le_sub_left (le_max_right _ _) _

theorem Near.abs_sub_nearestTotal
    (near : Near tolerance growing target slots) (ahead : Ahead growing target slots) :
    |totalLength slots - nearestTotal target slots| ≤ tolerance := by
  obtain ⟨notPassed, noFurther, noRoom⟩ := ahead.distance_nearestTotal
  rw [abs_sub_comm, ← abs_distance growing, abs_of_nonneg notPassed]
  rcases near with nearTarget | nearLimit
  · exact noFurther.trans nearTarget
  · exact noRoom.trans nearLimit

/-- No slots within the same bounds are nearer to the target than their nearest total. -/
theorem abs_sub_nearestTotal_le
    (same : SameBounds slots others) (fit : ∀ slot ∈ others, slot.Fits) :
    |target - nearestTotal target slots| ≤ |residualOf target others| := by
  rw [← same.nearestTotal_eq]
  obtain ⟨growing, ahead⟩ := exists_ahead fit target
  obtain ⟨notPassed, noFurther, _⟩ := ahead.distance_nearestTotal
  have parts :
      distance growing (totalLength others) (nearestTotal target others) +
          distance growing (nearestTotal target others) target =
        remaining growing target others :=
    distance_add growing _ _ target
  have still : 0 ≤ distance growing (nearestTotal target others) target := by
    linarith
  rw [ahead.abs_residual, ← abs_distance growing, abs_of_nonneg still]
  linarith

end Reached

/-! ## Spreading -/

section Spreading

variable {σ : Type} {draw : Draw ℚ σ} {policy : Policy ℚ} {slots : List (Slot ℚ)}

/-- Within bounds, and with a round for every slot, slots end as near to their target as
they can; a target within reach is met without a round to spare. -/
theorem exists_spread_near
    (within : draw.Within) (clamped : policy.clampToBounds = true)
    (precise : Scalar.negligible ≤ policy.tolerance)
    (admitted : ∀ slot ∈ slots, slot.Admitted) (rounds : slots.length ≤ policy.maxIterations)
    (extra : ℚ) (state : σ) :
    ∃ outcome lengthened next,
      spread draw policy extra slots state = .ok (outcome, lengthened, next) ∧
      SameBounds slots lengthened ∧ (∀ slot ∈ lengthened, slot.Fits) ∧
      |totalLength lengthened - nearestTotal (totalLow slots + extra) slots| ≤
        policy.tolerance ∧
      (0 ≤ extra → totalLow slots + extra ≤ totalHigh slots →
        outcome.converged = true ∧ outcome.iterations ≤ slots.length) := by
  obtain ⟨drawn, next, drawing, drawnBounds, fit⟩ := exists_drawSlots within slots admitted state
  obtain ⟨growing, ahead⟩ := exists_ahead fit (totalLow slots + extra)
  have movable : unpinned growing drawn ≤ slots.length := by
    rw [← drawnBounds.length_eq]
    exact List.countP_le_length
  obtain ⟨corrected, left, correction, nearer, near, used⟩ :=
    exists_correct_near clamped precise ahead (movable.trans rounds)
  have bounds : SameBounds slots corrected := drawnBounds.trans nearer.bounds
  refine ⟨_, corrected, next, spread_eq drawing correction, bounds, nearer.ahead.fit, ?_, ?_⟩
  · rw [← bounds.nearestTotal_eq]
    exact near.abs_sub_nearestTotal nearer.ahead
  · intro nonnegative reachable
    have between :
        totalLow slots ≤ totalLow slots + extra ∧ totalLow slots + extra ≤ totalHigh slots :=
      ⟨le_add_of_nonneg_right nonnegative, reachable⟩
    have landed := near.abs_sub_nearestTotal nearer.ahead
    rw [bounds.nearestTotal_eq, nearestTotal_eq_self between, abs_sub_comm] at landed
    constructor
    · exact (isSettled_iff policy _).mpr landed
    · have drawnBetween :
          totalLow drawn ≤ totalLow slots + extra ∧ totalLow slots + extra ≤ totalHigh drawn := by
        rw [drawnBounds.totalLow_eq, drawnBounds.totalHigh_eq]
        exact between
      have enough := used (remaining_le_totalHeadroom drawnBetween growing)
      dsimp only
      omega

end Spreading

end Timing

/-! ## Tracks -/

namespace Track

open Timing

variable {σ : Type} {draw : Draw ℚ σ} {policy : Policy ℚ} {track : Track ℚ}

/-- Fixed clips do not count in what a measured track can gain. -/
theorem slack_measure (admitted : ∀ slot ∈ track.slots, slot.Admitted) :
    track.measure.slack = totalHigh track.slots - totalLow track.slots := by
  have ordered := totalLow_le_totalHigh admitted
  rw [slack, Scalar.greater_eq_max, minLength_measure, maxLength_measure,
    add_sub_add_left_eq_sub, max_eq_left (sub_nonneg.mpr ordered)]

/-- Spreading a length over the elastic clips of a track, within their bounds and with a
round for each of them, ends as near to the total asked for as they allow: no lengths
within the bounds come nearer by more than is tolerated.  A total within their reach is
met, in at most as many rounds. -/
theorem exists_spread_nearest
    (within : draw.Within) (clamped : policy.clampToBounds = true)
    (precise : 1 / 2 ^ 52 ≤ policy.tolerance)
    (admitted : ∀ slot ∈ track.slots, slot.Admitted)
    (rounds : track.elasticCount ≤ policy.maxIterations) (extra : ℚ) (state : σ) :
    ∃ outcome lengthened next,
      track.spread draw policy extra state = .ok (outcome, lengthened, next) ∧
      track.Retimed lengthened ∧
      (∀ slot ∈ lengthened.slots, slot.Fits) ∧
      |totalLength lengthened.slots -
          min (max (totalLow track.slots + extra) (totalLow track.slots))
            (totalHigh track.slots)| ≤ policy.tolerance ∧
      (∀ others, SameBounds track.slots others → (∀ slot ∈ others, slot.Fits) →
        |residualOf (totalLow track.slots + extra) lengthened.slots| ≤
          |residualOf (totalLow track.slots + extra) others| + policy.tolerance) ∧
      (0 ≤ extra → extra ≤ track.measure.slack →
        outcome.converged = true ∧ outcome.iterations ≤ track.elasticCount) := by
  rw [← track.length_slots] at rounds ⊢
  rw [slack_measure admitted]
  obtain ⟨outcome, slots, next, spreading, bounds, fit, nearest, met⟩ :=
    exists_spread_near within clamped (Scalar.negligible_eq.trans_le precise) admitted rounds
      extra state
  have put : ({ track with clips := putSlots track.clips slots } : Track ℚ).slots = slots :=
    slots_putSlots bounds
  refine ⟨outcome, { track with clips := putSlots track.clips slots }, next, ?_,
    .putSlots track slots, ?_, ?_, ?_, ?_⟩
  · rw [spread, spreading]
    rfl
  · rwa [put]
  · rw [put]
    exact nearest
  · intro others same othersFit
    rw [put]
    rw [abs_sub_comm] at nearest
    calc |residualOf (totalLow track.slots + extra) slots|
        ≤ |totalLow track.slots + extra -
              nearestTotal (totalLow track.slots + extra) track.slots| +
            |nearestTotal (totalLow track.slots + extra) track.slots - totalLength slots| :=
          abs_sub_le _ _ _
      _ ≤ |residualOf (totalLow track.slots + extra) others| + policy.tolerance :=
          add_le_add (abs_sub_nearestTotal_le same othersFit) nearest
  · intro nonnegative within
    exact met nonnegative (by linarith)

/-- A short pause and a long one beside a clip of fixed length. -/
def pauses : Track ℚ :=
  .ofClips 0
    [⟨.silence, .elasticFrom 0 1, none, []⟩, ⟨.file "bell.wav", .fixed 7, none, []⟩,
      ⟨.silence, .elasticFrom 2 100, none, []⟩] none []

/-- The pauses are brought to 90 in two rounds, and asked for more than they can last to
their greatest lengths. -/
theorem exists_spread_nearest_pauses :
    (∃ outcome lengthened next,
      pauses.spread replay ⟨2, 1 / 1000, true⟩ 88 [1, 50] = .ok (outcome, lengthened, next) ∧
      outcome.converged = true ∧ outcome.iterations ≤ 2 ∧
      |totalLength lengthened.slots - 90| ≤ 1 / 1000) ∧
    ∃ outcome lengthened next,
      pauses.spread replay ⟨2, 1 / 1000, true⟩ 500 [0, 3] = .ok (outcome, lengthened, next) ∧
      |totalLength lengthened.slots - 101| ≤ 1 / 1000 := by
  have admitted : ∀ slot ∈ pauses.slots, slot.Admitted := by
    have slots : pauses.slots = [⟨0, 1, 0⟩, ⟨2, 100, 2⟩] := rfl
    rw [slots, List.forall_mem_cons, List.forall_mem_singleton]
    exact ⟨⟨le_rfl, zero_le_one⟩, ⟨by norm_num, by norm_num⟩⟩
  have precise : 1 / 2 ^ 52 ≤ (⟨2, 1 / 1000, true⟩ : Policy ℚ).tolerance := by
    norm_num
  have rounds : pauses.elasticCount ≤ 2 := by decide
  have slack : pauses.measure.slack = 99 := by decide +kernel
  constructor
  · obtain ⟨outcome, lengthened, next, spreading, _, _, nearest, _, met⟩ :=
      exists_spread_nearest replay_within rfl precise admitted rounds 88 [1, 50]
    obtain ⟨converged, used⟩ := met (by norm_num) (by rw [slack]; norm_num)
    have total : min (max (totalLow pauses.slots + 88) (totalLow pauses.slots))
        (totalHigh pauses.slots) = 90 := by decide +kernel
    rw [total] at nearest
    exact ⟨outcome, lengthened, next, spreading, converged, used, nearest⟩
  · obtain ⟨outcome, lengthened, next, spreading, _, _, nearest, _⟩ :=
      exists_spread_nearest replay_within rfl precise admitted rounds 500 [0, 3]
    have total : min (max (totalLow pauses.slots + 500) (totalLow pauses.slots))
        (totalHigh pauses.slots) = 101 := by decide +kernel
    rw [total] at nearest
    exact ⟨outcome, lengthened, next, spreading, nearest⟩

end Track

end Mixdown
