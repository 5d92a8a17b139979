import Mixdown.Proofs.Timing.Convergence
import Mixdown.Proofs.Recipe.Admission
import Mixdown.Timing.Track

/-!
# Stretched tracks

The length of a track is that of its fixed clips and of the slots of its elastic
ones.  Stretching it moves the slots alone, so what the track can last at least
and at most stays the same.
-/

namespace Mixdown

/-! ## Bounds of clips -/

/-- The least length is not negative, and not above the greatest. -/
structure ClipTiming.Ordered (timing : ClipTiming ℚ) : Prop where
  nonnegative : 0 ≤ timing.minLength
  ordered : timing.minLength ≤ timing.maxLength

theorem ordered_of_checkTiming
    {timing : ClipTiming ℚ} (passed : checkTiming timing = .ok ()) :
    timing.Ordered := by
  cases timing with
  | fixed duration =>
      simp only [checkTiming] at passed
      split at passed
      next refused => cases passed
      next admitted =>
        have positive : 0 < duration := not_le.mp fun short => admitted (Or.inr short)
        exact ⟨le_of_lt positive, le_refl duration⟩
  | elastic minLength maxLength duration =>
      simp only [checkTiming] at passed
      split at passed
      next refused => cases passed
      next nonnegative =>
        split at passed
        next refused => cases passed
        next ordered =>
          exact ⟨not_lt.mp fun negative => nonnegative (Or.inr negative),
            not_lt.mp fun crossed => ordered (Or.inr crossed)⟩

namespace Clip

variable {α : Type} (clip : Clip α) (length : α)

theorem minLength_stretchTo :
    (clip.stretchTo length).timing.minLength = clip.timing.minLength := by
  obtain ⟨source, timing, volume, effects⟩ := clip
  cases timing <;> rfl

theorem maxLength_stretchTo :
    (clip.stretchTo length).timing.maxLength = clip.timing.maxLength := by
  obtain ⟨source, timing, volume, effects⟩ := clip
  cases timing <;> rfl

theorem isElastic_stretchTo :
    (clip.stretchTo length).timing.isElastic = clip.timing.isElastic := by
  obtain ⟨source, timing, volume, effects⟩ := clip
  cases timing <;> rfl

theorem duration_stretchTo_minLength :
    (clip.stretchTo clip.timing.minLength).timing.duration = clip.timing.minLength := by
  obtain ⟨source, timing, volume, effects⟩ := clip
  cases timing <;> rfl

theorem duration_stretchTo_maxLength :
    (clip.stretchTo clip.timing.maxLength).timing.duration = clip.timing.maxLength := by
  obtain ⟨source, timing, volume, effects⟩ := clip
  cases timing <;> rfl

/-- What the clip lasts if its length is fixed. -/
def fixedLength (clip : Clip ℚ) : ℚ :=
  match clip.timing with
  | .fixed duration => duration
  | .elastic _ _ _ => 0

end Clip

namespace Track

open Timing

/-! ## Fixed clips and slots -/

/-- A total over clips is that of the fixed ones and that of the slots. -/
theorem sum_timings
    {part : ClipTiming ℚ → ℚ} {field : Slot ℚ → ℚ}
    (fixed : ∀ duration, part (.fixed duration) = duration)
    (elastic : ∀ low high length, part (.elastic low high length) = field ⟨low, high, length⟩)
    (clips : List (Clip ℚ)) :
    (clips.map fun clip => part clip.timing).sum =
      (clips.map Clip.fixedLength).sum + ((clips.filterMap Clip.slot?).map field).sum := by
  induction clips with
  | nil =>
      exact (zero_add 0).symm
  | cons clip rest inductionHypothesis =>
      obtain ⟨source, timing, volume, effects⟩ := clip
      cases timing with
      | fixed duration =>
          simp only [List.map_cons, List.sum_cons, fixed, Clip.fixedLength,
            List.filterMap_cons, Clip.slot?, inductionHypothesis]
          ring
      | elastic low high length =>
          simp only [List.map_cons, List.sum_cons, elastic, Clip.fixedLength,
            List.filterMap_cons, Clip.slot?, inductionHypothesis]
          ring

def fixedTotal (track : Track ℚ) : ℚ :=
  (track.clips.map Clip.fixedLength).sum

theorem duration_measure (track : Track ℚ) :
    track.measure.duration = track.fixedTotal + totalLength track.slots := by
  rw [totalLength_eq]
  exact (Scalar.sum_eq _).trans (sum_timings (fun _ => rfl) (fun _ _ _ => rfl) track.clips)

theorem minLength_measure (track : Track ℚ) :
    track.measure.minLength = track.fixedTotal + totalLow track.slots :=
  (Scalar.sum_eq _).trans (sum_timings (fun _ => rfl) (fun _ _ _ => rfl) track.clips)

theorem maxLength_measure (track : Track ℚ) :
    track.measure.maxLength = track.fixedTotal + totalHigh track.slots :=
  (Scalar.sum_eq _).trans (sum_timings (fun _ => rfl) (fun _ _ _ => rfl) track.clips)

theorem length_slots {α : Type} (track : Track α) :
    track.slots.length = track.elasticCount := by
  unfold slots elasticCount
  induction track.clips with
  | nil =>
      rfl
  | cons clip rest inductionHypothesis =>
      obtain ⟨source, timing, volume, effects⟩ := clip
      cases timing with
      | fixed duration =>
          rw [List.countP_cons_of_neg Bool.false_ne_true]
          exact inductionHypothesis
      | elastic low high length =>
          rw [List.countP_cons_of_pos rfl]
          exact congrArg (· + 1) inductionHypothesis

/-! ## Slots put back -/

theorem slots_putSlots
    {α : Type} {clips : List (Clip α)} {slots : List (Slot α)}
    (same : SameBounds (clips.filterMap Clip.slot?) slots) :
    (putSlots clips slots).filterMap Clip.slot? = slots := by
  induction clips generalizing slots with
  | nil =>
      exact (List.length_eq_zero_iff.mp same.length_eq).symm
  | cons clip rest inductionHypothesis =>
      obtain ⟨source, timing, volume, effects⟩ := clip
      cases timing with
      | fixed duration => exact inductionHypothesis same
      | elastic low high length =>
          cases slots with
          | nil => cases same
          | cons slot others =>
              obtain ⟨first, restSame⟩ := List.cons.inj same
              obtain ⟨slotLow, slotHigh, slotLength⟩ := slot
              cases first
              exact congrArg (List.cons _) (inductionHypothesis restSame)

theorem fixedLength_putSlots (clips : List (Clip ℚ)) (slots : List (Slot ℚ)) :
    (putSlots clips slots).map Clip.fixedLength = clips.map Clip.fixedLength := by
  induction clips generalizing slots with
  | nil =>
      rfl
  | cons clip rest inductionHypothesis =>
      obtain ⟨source, timing, volume, effects⟩ := clip
      cases timing with
      | fixed duration => exact congrArg (List.cons _) (inductionHypothesis slots)
      | elastic low high length =>
          cases slots with
          | nil => exact congrArg (List.cons _) (inductionHypothesis [])
          | cons slot others => exact congrArg (List.cons _) (inductionHypothesis others)

theorem duration_putSlots
    (track : Track ℚ) {slots : List (Slot ℚ)} (same : SameBounds track.slots slots) :
    (measure { track with clips := putSlots track.clips slots }).duration =
      track.fixedTotal + totalLength slots := by
  rw [duration_measure, Track.slots, slots_putSlots same, fixedTotal,
    fixedLength_putSlots, fixedTotal]

theorem maxLength_putSlots
    (track : Track ℚ) {slots : List (Slot ℚ)} (same : SameBounds track.slots slots) :
    (measure { track with clips := putSlots track.clips slots }).maxLength =
      track.measure.maxLength := by
  rw [maxLength_measure, maxLength_measure, ← same.totalHigh_eq, Track.slots,
    slots_putSlots same, fixedTotal, fixedLength_putSlots, fixedTotal]

/-! ## Tracks ready to be stretched -/

/-- A measured track of ordered clips, each of which is at its least length. -/
structure Ready (track : Track ℚ) : Prop where
  ordered : ∀ clip ∈ track.clips, clip.timing.Ordered
  measured : track.measure = track
  shortest : track.duration = track.minLength

section Stretched

section AnyScalar

variable {α : Type} (length : Clip α → α) (track : Track α)

theorem elasticCount_stretched :
    elasticCount { track with
      clips := track.clips.map fun clip => clip.stretchTo (length clip) } =
      track.elasticCount := by
  unfold elasticCount
  rw [List.countP_map]
  simp only [Function.comp_def, Clip.isElastic_stretchTo]

variable [Scalar α]

theorem maxLength_stretched :
    (measure { track with
      clips := track.clips.map fun clip => clip.stretchTo (length clip) }).maxLength =
      track.measure.maxLength := by
  unfold measure
  simp only [List.map_map, Function.comp_def, Clip.maxLength_stretchTo]

theorem duration_filled : track.filled.measure.duration = track.measure.maxLength := by
  unfold filled measure
  simp only [List.map_map, Function.comp_def, Clip.duration_stretchTo_maxLength]

end AnyScalar

variable (track : Track ℚ)

theorem ready_shrunk (ordered : ∀ clip ∈ track.clips, clip.timing.Ordered) :
    track.shrunk.measure.Ready where
  ordered := by
    intro changed member
    obtain ⟨clip, original, rfl⟩ := List.mem_map.mp member
    obtain ⟨nonnegative, between⟩ := ordered clip original
    rw [← Clip.minLength_stretchTo clip clip.timing.minLength] at nonnegative
    refine ⟨nonnegative, ?_⟩
    rw [Clip.minLength_stretchTo, Clip.maxLength_stretchTo]
    exact between
  measured := rfl
  shortest := by
    unfold shrunk measure
    simp only [List.map_map, Function.comp_def, Clip.duration_stretchTo_minLength,
      Clip.minLength_stretchTo]

end Stretched

namespace Ready

variable {track : Track ℚ} (ready : track.Ready)

include ready

theorem minLength_eq : track.minLength = track.fixedTotal + totalLow track.slots := by
  rw [← minLength_measure, ready.measured]

theorem maxLength_eq : track.maxLength = track.fixedTotal + totalHigh track.slots := by
  rw [← maxLength_measure, ready.measured]

theorem admitted : ∀ slot ∈ track.slots, slot.Admitted := by
  intro slot member
  obtain ⟨clip, clipMember, isSlot⟩ := List.mem_filterMap.mp member
  obtain ⟨nonnegative, between⟩ := ready.ordered clip clipMember
  obtain ⟨source, timing, volume, effects⟩ := clip
  cases timing with
  | fixed duration => cases isSlot
  | elastic low high length =>
      cases isSlot
      exact ⟨nonnegative, between⟩

theorem minLength_le_maxLength : track.minLength ≤ track.maxLength := by
  rw [ready.minLength_eq, ready.maxLength_eq]
  apply add_le_add_right
  exact List.sum_le_sum fun slot member => (ready.admitted slot member).ordered

end Ready

/-- What stretching leaves of a track, and the warning that tells of it: none just when
the track is as long as was asked for, up to the tolerance. -/
structure Stretches (policy : Policy ℚ) (track : Track ℚ) (extra : ℚ)
    (warning : Option (Warning ℚ)) (stretched : Track ℚ) : Prop where
  index : stretched.index = track.index
  maxLength : stretched.measure.maxLength = track.maxLength
  atMost : stretched.measure.duration ≤ track.maxLength
  silent : warning = none ↔
    |stretched.measure.duration - (track.minLength + extra)| ≤ policy.tolerance
  told : ∀ given, warning = some given → ∃ iterations,
    given = .notConverged track.index (track.minLength + extra)
      stretched.measure.duration iterations
  settles : policy.Suffices track.elasticCount → warning = none

variable {σ : Type} {draw : Draw ℚ σ} {policy : Policy ℚ} {track : Track ℚ} {extra : ℚ}

/-- A track without slots has no room to be stretched. -/
theorem Ready.extra_eq_zero
    (ready : track.Ready) (nonnegative : 0 ≤ extra)
    (reachable : track.minLength + extra ≤ track.maxLength)
    (idle : extra ≤ 0 ∨ track.elasticCount = 0) :
    extra = 0 := by
  rcases idle with least | noSlots
  · exact le_antisymm least nonnegative
  · have empty : track.slots = [] :=
      List.length_eq_zero_iff.mp (track.length_slots.trans noSlots)
    have minimum := ready.minLength_eq
    have maximum := ready.maxLength_eq
    rw [empty] at minimum maximum
    have sameTotal : totalLow [] = totalHigh [] := rfl
    linarith

theorem Ready.stretches_self
    (ready : track.Ready) (tolerated : 0 ≤ policy.tolerance) :
    Stretches policy track 0 none track where
  index := rfl
  maxLength := congrArg Track.maxLength ready.measured
  atMost := by
    rw [ready.measured, ready.shortest]
    exact ready.minLength_le_maxLength
  silent := by
    rw [ready.measured, ready.shortest, add_zero, sub_self, abs_zero]
    exact iff_of_true rfl tolerated
  told _ absurdity := by
    cases absurdity
  settles _ := rfl

/-- Slots put back into a track leave it as far from the length asked for as they are
from theirs. -/
theorem Ready.duration_putSlots_eq
    (ready : track.Ready) {slots : List (Slot ℚ)} (same : SameBounds track.slots slots) :
    (measure { track with clips := putSlots track.clips slots }).duration =
      track.minLength + extra - residualOf (totalLow track.slots + extra) slots := by
  rw [duration_putSlots track same, ready.minLength_eq, residualOf]
  ring

theorem exists_stretch
    (within : draw.Within) (tolerated : 0 ≤ policy.tolerance) (ready : track.Ready)
    (nonnegative : 0 ≤ extra) (reachable : track.minLength + extra ≤ track.maxLength)
    (state : σ) :
    ∃ warning stretched next,
      track.stretch draw policy extra state = .ok (warning, stretched, next) ∧
      Stretches policy track extra warning stretched := by
  by_cases idle : extra ≤ 0 ∨ track.elasticCount = 0
  · have noExtra : extra = 0 := ready.extra_eq_zero nonnegative reachable idle
    rw [noExtra]
    rw [noExtra] at idle
    exact ⟨none, track, state, if_pos idle, ready.stretches_self tolerated⟩
  · have elastic : track.elasticCount ≠ 0 := (not_or.mp idle).2
    have nonempty : track.slots ≠ [] := by
      intro empty
      rw [← track.length_slots, empty] at elastic
      exact elastic rfl
    have room : totalLow track.slots + extra ≤ totalHigh track.slots := by
      have minimum := ready.minLength_eq
      have maximum := ready.maxLength_eq
      linarith
    obtain ⟨outcome, lengthened, next, spreading, bounds, atMost, residual, converged, settles⟩ :=
      Timing.exists_spread within tolerated ready.admitted nonempty nonnegative room state
    rw [track.length_slots] at settles
    have duration :
        (measure { track with clips := putSlots track.clips lengthened }).duration =
          track.minLength + extra - outcome.residual :=
      residual ▸ ready.duration_putSlots_eq bounds
    refine ⟨if outcome.converged then none
        else some (.notConverged track.index (track.minLength + extra)
          (track.minLength + extra - outcome.residual) outcome.iterations),
      { track with clips := putSlots track.clips lengthened }, next, ?_, ?_⟩
    · rw [stretch, if_neg idle, spread, spreading]
      rfl
    · constructor
      case index => rfl
      case maxLength =>
        rw [maxLength_putSlots track bounds, ready.measured]
      case atMost =>
        rw [duration_putSlots track bounds, ready.maxLength_eq]
        exact add_le_add_right atMost track.fixedTotal
      case silent =>
        rw [duration, sub_sub_cancel_left, abs_neg, ← converged]
        cases outcome.converged <;> simp
      case told =>
        intro given isGiven
        cases settled : outcome.converged with
        | true => simp [settled] at isGiven
        | false =>
            simp only [settled, Bool.false_eq_true, if_false, Option.some.injEq] at isGiven
            exact ⟨outcome.iterations, by rw [← isGiven, duration]⟩
      case settles =>
        intro enough
        exact if_pos (settles enough)

end Track

end Mixdown
