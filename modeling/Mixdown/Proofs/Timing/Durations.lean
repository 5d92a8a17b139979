import Mixdown.Proofs.Timing.Lasting
import Mixdown.Proofs.Timing.Stretch
import Mixdown.Proofs.Timing.Within

/-!
# Durations that are finite

Where lengths are kept within bounds, balancing leaves a clip of an admitted recipe within
its own, unless its share is no number; it is one where the track cannot get too long.  The
reference track takes no share, and is as long as its clips can be.
-/

namespace Mixdown

open Double Timing

/-! ## Admitted tracks -/

/-- The bounds and the length of a clip, as those of a slot, be it elastic or not. -/
def ClipTiming.span (timing : ClipTiming Float) : Slot Float :=
  ⟨timing.minLength, timing.maxLength, timing.duration⟩

theorem bounded_of_checkTiming
    {timing : ClipTiming Float} (admitted : checkTiming timing = .ok ()) :
    timing.span.Bounded := by
  cases timing with
  | fixed duration =>
      obtain ⟨finite, positive⟩ := checkFixed_eq_ok_iff.mp admitted
      exact ⟨finite, finite, le_of_lt positive, le_refl_of_isFinite finite⟩
  | elastic low high length =>
      obtain ⟨lowFinite, highFinite, nonnegative, ordered, _⟩ := checkElastic_eq_ok_iff.mp admitted
      exact ⟨lowFinite, highFinite, nonnegative, ordered⟩

namespace Track

variable {track : Track Float}

theorem slot_of_clip {clip : Clip Float} (member : clip ∈ track.clips) :
    clip.timing.span ∈ track.slots ∨ ∃ duration, clip.timing = .fixed duration := by
  obtain ⟨source, timing, volume, effects⟩ := clip
  cases timing with
  | fixed duration => exact Or.inr ⟨duration, rfl⟩
  | elastic low high length => exact Or.inl (List.mem_filterMap.mpr ⟨_, member, rfl⟩)

theorem exists_clip_of_slot {slot : Slot Float} (member : slot ∈ track.slots) :
    ∃ clip ∈ track.clips, clip.timing.span = slot := by
  obtain ⟨clip, clipMember, isSlot⟩ := List.mem_filterMap.mp member
  refine ⟨clip, clipMember, ?_⟩
  obtain ⟨source, ⟨duration⟩ | ⟨low, high, length⟩, volume, effects⟩ := clip
  · cases isSlot
  · exact Option.some.inj isSlot

namespace IsAdmitted

variable (admitted : track.IsAdmitted)

include admitted

theorem span_bounded : ∀ clip ∈ track.clips, clip.timing.span.Bounded :=
  fun _ member => bounded_of_checkTiming (admitted.timing member)

theorem slot_bounded : ∀ slot ∈ track.slots, slot.Bounded := by
  intro slot member
  obtain ⟨clip, clipMember, rfl⟩ := exists_clip_of_slot member
  exact admitted.span_bounded clip clipMember

theorem zero_le_measure : 0 ≤ track.measure.minLength ∧ 0 ≤ track.measure.maxLength := by
  constructor
  · apply zero_le_sum
    exact List.forall_mem_map.mpr fun clip member => (admitted.span_bounded clip member).nonnegative
  · apply zero_le_sum
    exact List.forall_mem_map.mpr fun clip member => (admitted.span_bounded clip member).high_nonneg

/-- What is less than the greatest lengths of the clips adds up to no more than they do. -/
theorem sum_le_maxLength
    {values : List Float} (below : Below values (track.clips.map fun clip => clip.timing.maxLength))
    (finite : track.measure.maxLength.isFinite = true) :
    0 ≤ Scalar.sum values ∧ Scalar.sum values ≤ track.measure.maxLength := by
  refine ⟨zero_le_sum below.nonneg, sum_le_sum below ?_ finite⟩
  exact List.forall_mem_map.mpr fun clip member => (admitted.span_bounded clip member).high_nonneg

/-- The greatest lengths of the slots are some of those of the clips. -/
theorem below_highs :
    Below (track.slots.map Slot.high) (track.clips.map fun clip => clip.timing.maxLength) := by
  have bounded := admitted.span_bounded
  unfold Track.slots
  generalize track.clips = clips at bounded ⊢
  induction clips with
  | nil => exact .nil
  | cons clip rest inductionHypothesis =>
      obtain ⟨here, later⟩ := List.forall_mem_cons.mp bounded
      obtain ⟨source, timing, volume, effects⟩ := clip
      cases timing with
      | fixed duration => exact .cons_right (inductionHypothesis later)
      | elastic low high length =>
          exact .cons ⟨here.high_nonneg, le_refl_of_isFinite here.highFinite⟩
            (inductionHypothesis later)

theorem minLength_le_maxLength (finite : track.measure.maxLength.isFinite = true) :
    track.measure.minLength ≤ track.measure.maxLength :=
  (admitted.sum_le_maxLength
    (below_map (List.Sublist.refl track.clips) fun clip member =>
      ⟨(admitted.span_bounded clip member).nonnegative,
        (admitted.span_bounded clip member).ordered⟩) finite).2

end IsAdmitted

end Track

/-! ## One track -/

theorem Track.slack_eq (track : Track Float) :
    track.slack =
      if 0 < track.maxLength - track.minLength then track.maxLength - track.minLength else 0 := by
  unfold Track.slack Scalar.greater
  by_cases room : 0 < track.maxLength - track.minLength
  · rw [if_pos room]
    exact if_pos room
  · rw [if_neg room]
    have zero : (0 : Float) ≤ 0 := by decide +kernel
    exact (if_neg room).trans (if_pos zero)

namespace Timing

theorem lesser_bounds
    {left right : Float} (notBelow : ¬ left ≤ 0) (nonnegative : 0 ≤ right)
    (finite : right.isFinite = true) :
    0 ≤ Scalar.lesser left right ∧ Scalar.lesser left right ≤ right := by
  unfold Scalar.lesser
  split
  next below =>
    have number := (isNaN_of_le (le_of_lt below)).1
    exact ⟨le_of_not_lt_of_number number (isNaN_of_isFinite finite_zero) (mt le_of_lt notBelow),
      le_of_lt below⟩
  next =>
    rw [if_pos (le_refl_of_isFinite finite)]
    exact ⟨nonnegative, le_refl_of_isFinite finite⟩

section OneTrack

variable {track : Track Float} (admitted : track.IsAdmitted)

include admitted

theorem isFinite_maxLength (measured : track.measure = track) (small : track.maxLength ≤ ample) :
    track.maxLength.isFinite = true := by
  have nonnegative := admitted.zero_le_measure.2
  rw [measured] at nonnegative
  exact isFinite_of_le nonnegative small isFinite_ample

theorem slack_bounds (measured : track.measure = track) (small : track.maxLength ≤ ample) :
    0 ≤ track.slack ∧ track.slack ≤ ample := by
  have finite := isFinite_maxLength admitted measured small
  have minNonnegative := admitted.zero_le_measure.1
  have ordered := admitted.minLength_le_maxLength
  rw [measured] at minNonnegative ordered
  have difference := sub_le_of_le finite isFinite_ample minNonnegative (ordered finite) small
  rw [track.slack_eq]
  split
  next => exact difference
  next => exact ⟨le_refl_of_isFinite finite_zero, by decide +kernel⟩

theorem roomy_slots
    (measured : track.measure = track) (small : track.maxLength ≤ ample) {extra : Float}
    (nonnegative : 0 ≤ extra) (extraSmall : extra ≤ ample) :
    Roomy track.slots (Scalar.sum (track.slots.map Slot.low) + extra) := by
  have bounded := admitted.slot_bounded
  have finite := isFinite_maxLength admitted measured small
  have highs := admitted.sum_le_maxLength admitted.below_highs
  rw [measured] at highs
  obtain ⟨highsNonnegative, highsOrdered⟩ := highs finite
  have highsFinite := isFinite_of_le highsNonnegative highsOrdered finite
  have highsSmall := le_trans_of_isFinite highsFinite finite isFinite_ample highsOrdered small
  have lows := sum_bounds bounded highsSmall fun slot member =>
    ⟨(bounded slot member).nonnegative, (bounded slot member).ordered⟩
  refine ⟨highsSmall, zero_le_add lows.1 nonnegative, ?_⟩
  exact add_le_add_of_isFinite (isFinite_of_le lows.1 lows.2 isFinite_ample) isFinite_ample
    (isFinite_of_le nonnegative extraSmall isFinite_ample) isFinite_ample lows.2 extraSmall

/-- A track that is balanced keeps to its bounds: filled or left as short as can be, or
stretched by no more than its slack. -/
theorem held_of_balanceTrack
    {σ : Type} {words : σ → UInt64 × σ} {policy : Policy Float} {mixDuration : Float}
    {isReference : Bool} {warnings : List (Warning Float)} {balanced : Track Float}
    {state next : σ} (clamped : policy.clampToBounds = true) (measured : track.measure = track)
    (least : ∀ slot ∈ track.slots, slot.length = slot.low)
    (balancing : balanceTrack (Random.uniformOf words) policy mixDuration isReference track state =
      .ok (warnings, balanced, next)) :
    ∀ slot ∈ balanced.slots, slot.Held (track.maxLength ≤ ample) := by
  have bounded := admitted.slot_bounded
  unfold balanceTrack at balancing
  dsimp only at balancing
  split at balancing
  next =>
    cases balancing
    change ∀ slot ∈ track.filled.slots, _
    rw [Track.filled, Track.slots_stretched, List.forall_mem_map]
    intro slot member
    have same : Slot.Bounded { slot with length := slot.high } :=
      (bounded slot member).of_bounds_eq rfl
    exact (same.within_high rfl).held
  next =>
    have shortest : ∀ slot ∈ track.slots, slot.Within :=
      fun slot member => (bounded slot member).within_low (least slot member)
    split at balancing
    next =>
      cases balancing
      exact fun slot member => (shortest slot member).held
    next notReached =>
      obtain ⟨⟨warning, stretched, after⟩, stretching, equality⟩ := bind_eq_ok_iff.mp balancing
      cases equality
      change ∀ slot ∈ stretched.slots, _
      rcases stretch_cases stretching with ⟨_, rfl, _⟩ | ⟨_, slots, spreading, rfl, _⟩
      · exact fun slot member => (shortest slot member).held
      · have roomy (small : track.maxLength ≤ ample) :
            Roomy track.slots (Scalar.sum (track.slots.map Slot.low) +
              Scalar.lesser (mixDuration - track.minLength) track.slack) := by
          obtain ⟨slackNonnegative, slackSmall⟩ := slack_bounds admitted measured small
          have slackFinite := isFinite_of_le slackNonnegative slackSmall isFinite_ample
          have extra := lesser_bounds notReached slackNonnegative slackFinite
          apply roomy_slots admitted measured small extra.1
          exact le_trans_of_isFinite (isFinite_of_le extra.1 extra.2 slackFinite) slackFinite
            isFinite_ample extra.2 slackSmall
        have keeps := keeps_spread clamped bounded roomy spreading
        rw [Track.slots, Track.slots_putSlots keeps.bounds]
        exact keeps.held

end OneTrack

/-! ## All tracks -/

section AllTracks

variable {α σ : Type} [Scalar α] {draw : Draw α σ} {policy : Policy α} {mixDuration : α}
  {reference position : Nat} {tracks balanced : List (Track α)} {warnings : List (Warning α)}
  {state next : σ}

theorem filled_of_balanceTracks
    (balancing : balanceTracks draw policy mixDuration reference position tracks state =
      .ok (warnings, balanced, next))
    {place : Nat} {track : Track α} (found : tracks[place]? = some track)
    (atReference : position + place = reference) :
    balanced[place]? = some track.filled.measure := by
  induction tracks generalizing position place warnings balanced state with
  | nil => cases found
  | cons first rest inductionHypothesis =>
      obtain ⟨⟨own, changed, middle⟩, balancingFirst, remaining⟩ := bind_eq_ok_iff.mp balancing
      obtain ⟨⟨others, changedRest, after⟩, balancingRest, equality⟩ := bind_eq_ok_iff.mp remaining
      cases equality
      cases place with
      | zero =>
          cases found
          rw [← atReference, Nat.add_zero, beq_self_eq_true] at balancingFirst
          cases balancingFirst
          rfl
      | succ place => exact inductionHypothesis balancingRest found (by omega)

end AllTracks

end Timing

/-! ## Clips -/

/-- The length is finite and within the bounds. -/
structure ClipTiming.IsWithin (timing : ClipTiming Float) : Prop where
  finite : timing.duration.isFinite = true
  above : timing.minLength ≤ timing.duration
  below : timing.duration ≤ timing.maxLength

section Clips

variable {track : Track Float} {sure : Prop}

theorem ClipTiming.IsWithin.of_span {timing : ClipTiming Float} (within : timing.span.Within) :
    timing.IsWithin :=
  ⟨within.finite, within.above, within.below⟩

theorem ClipTiming.IsWithin.of_full
    {timing : ClipTiming Float} (bounded : timing.span.Bounded)
    (full : timing.duration = timing.maxLength) : timing.IsWithin :=
  .of_span (bounded.within_high full)

/-- What holds of the slots of a track holds of its clips: the others are fixed. -/
theorem Track.IsAdmitted.held_clips
    (admitted : track.IsAdmitted) (held : ∀ slot ∈ track.slots, slot.Held sure) :
    ∀ clip ∈ track.clips, clip.timing.span.Held sure := by
  intro clip member
  rcases track.slot_of_clip member with isSlot | ⟨duration, fixed⟩
  · exact held _ isSlot
  · have bounded := admitted.span_bounded clip member
    rw [fixed] at bounded ⊢
    exact (bounded.within_high rfl).held

theorem Track.IsAdmitted.isFinite_duration
    (admitted : track.IsAdmitted) (finite : track.measure.maxLength.isFinite = true)
    (within : ∀ clip ∈ track.clips, clip.timing.span.Within) :
    track.measure.duration.isFinite = true := by
  have lengths := admitted.sum_le_maxLength
    (below_map (List.Sublist.refl track.clips) fun clip member =>
      ⟨(within clip member).nonneg, (within clip member).below⟩) finite
  exact isFinite_of_le lengths.1 lengths.2 finite

end Clips

/-! ## Shrunk tracks -/

section Shrunk

variable {recipe : Recipe Float} (admitted : recipe.check = .ok ())

include admitted

theorem Recipe.admitted_shrunk :
    ∀ track ∈ recipe.tracks.map (fun track => track.shrunk.measure), track.IsAdmitted := by
  rw [(retimed_shrunk recipe).check_eq] at admitted
  exact (Recipe.check_eq_ok_iff.mp admitted).2.2

theorem Recipe.zero_le_shrunk :
    ∀ track ∈ recipe.tracks.map (fun track => track.shrunk.measure),
      0 ≤ track.minLength ∧ 0 ≤ track.maxLength := by
  intro track member
  have bounds := (Recipe.admitted_shrunk admitted track member).zero_le_measure
  obtain ⟨original, _, rfl⟩ := List.mem_map.mp member
  exact bounds

end Shrunk

end Mixdown
