import Mixdown.Proofs.Timing.Balance
import Mixdown.Proofs.Timing.Retimed

/-!
# Clips out of bounds

The warnings about clips out of bounds are about those that are left there, each of
them and no others.  Where lengths are kept within bounds there are none: a clip
that is filled, left at its least length or corrected fits its slot.
-/

namespace Mixdown

open Timing

variable {α : Type}

/-! ## Elastic clips in place -/

/-- An elastic clip as a slot, with the index of its track and its position there. -/
structure PlacedSlot (α : Type) where
  track : UInt64
  position : Nat
  slot : Slot α

/-- The elastic clips of a track, in their order. -/
def Track.placedSlots (track : Track α) : List (PlacedSlot α) :=
  track.clips.zipIdx.filterMap fun (clip, position) =>
    clip.slot?.map fun slot => ⟨track.index, position, slot⟩

/-- The elastic clips of a recipe, track by track. -/
def Recipe.placedSlots (recipe : Recipe α) : List (PlacedSlot α) :=
  recipe.tracks.flatMap Track.placedSlots

theorem Track.mem_slots_of_mem_placedSlots
    {track : Track α} {placed : PlacedSlot α} (member : placed ∈ track.placedSlots) :
    placed.slot ∈ track.slots := by
  obtain ⟨⟨clip, position⟩, clipMember, isPlaced⟩ := List.mem_filterMap.mp member
  obtain ⟨slot, isSlot, rfl⟩ := Option.map_eq_some_iff.mp isPlaced
  exact List.mem_filterMap.mpr ⟨clip, List.fst_mem_of_mem_zipIdx clipMember, isSlot⟩

namespace PlacedSlot

variable [Scalar α]

/-- The clip lasts less than its least length or more than its greatest, by more than
is tolerated. -/
def Strays (tolerance : α) (placed : PlacedSlot α) : Prop :=
  placed.slot.length < placed.slot.low - tolerance ∨
    placed.slot.high + tolerance < placed.slot.length

instance (tolerance : α) (placed : PlacedSlot α) : Decidable (placed.Strays tolerance) :=
  inferInstanceAs (Decidable (_ ∨ _))

/-- The warning that the clip is out of bounds. -/
def warning (placed : PlacedSlot α) : Warning α :=
  .outOfBounds placed.track placed.position placed.slot.length placed.slot.low placed.slot.high

/-- The warnings about the clips of a list that stray. -/
def warnings (tolerance : α) (placed : List (PlacedSlot α)) : List (Warning α) :=
  (placed.filter fun one => decide (one.Strays tolerance)).map warning

theorem warnings_append (tolerance : α) (first second : List (PlacedSlot α)) :
    warnings tolerance (first ++ second) =
      warnings tolerance first ++ warnings tolerance second := by
  rw [warnings, List.filter_append, List.map_append]
  rfl

end PlacedSlot

theorem Track.boundsWarnings_eq [Scalar α] (tolerance : α) (track : Track α) :
    track.boundsWarnings tolerance = PlacedSlot.warnings tolerance track.placedSlots := by
  rw [boundsWarnings, List.mapIdx_eq_zipIdx_map, List.filterMap_map, PlacedSlot.warnings,
    placedSlots, List.filter_filterMap, List.map_filterMap]
  apply List.filterMap_congr
  rintro ⟨clip, position⟩ _
  obtain ⟨source, timing, volume, effects⟩ := clip
  cases timing with
  | fixed duration => rfl
  | elastic low high length =>
      by_cases strays : length < low - tolerance ∨ high + tolerance < length
      · simp [boundsWarning?, Clip.slot?, PlacedSlot.Strays, PlacedSlot.warning, strays]
      · simp [boundsWarning?, Clip.slot?, PlacedSlot.Strays, strays]

namespace Timing

/-! ## Complete warnings -/

section Complete

variable {σ : Type} [Scalar α] {draw : Draw α σ} {policy : Policy α}

def Warning.isOutOfBounds : Warning α → Bool
  | .notConverged _ _ _ _ => false
  | .outOfBounds _ _ _ _ _ => true

theorem filter_isOutOfBounds_warnings (tolerance : α) (placed : List (PlacedSlot α)) :
    (PlacedSlot.warnings tolerance placed).filter Warning.isOutOfBounds =
      PlacedSlot.warnings tolerance placed := by
  rw [List.filter_eq_self]
  intro warning member
  obtain ⟨one, _, rfl⟩ := List.mem_map.mp member
  rfl

/-- Stretching warns about the length of a track only. -/
theorem isOutOfBounds_of_stretch
    {track stretched : Track α} {extra : α} {state next : σ} {given : Warning α}
    (stretching : track.stretch draw policy extra state = .ok (some given, stretched, next)) :
    given.isOutOfBounds = false := by
  rcases stretch_cases stretching with ⟨noWarning, _⟩ | ⟨outcome, _, _, _, isGiven⟩
  · cases noWarning
  · cases settled : outcome.converged with
    | true => simp [settled] at isGiven
    | false =>
        simp only [settled, Bool.false_eq_true, if_false, Option.some.injEq] at isGiven
        rw [isGiven]
        rfl

theorem filter_warnings_balanceTrack
    {mixDuration : α} {isReference : Bool} {track balanced : Track α}
    {warnings : List (Warning α)} {state next : σ}
    (balancing : balanceTrack draw policy mixDuration isReference track state =
      .ok (warnings, balanced, next)) :
    warnings.filter Warning.isOutOfBounds =
      PlacedSlot.warnings policy.tolerance balanced.placedSlots := by
  obtain ⟨warning, changed, changes, rfl, rfl⟩ := balanceTrack_cases balancing
  have ownWarning : warning.toList.filter Warning.isOutOfBounds = [] := by
    rcases changes with ⟨rfl, _⟩ | ⟨rfl, _⟩ | ⟨extra, stretching⟩
    · rfl
    · rfl
    · cases warning with
      | none => rfl
      | some given =>
          rw [Option.toList_some, List.filter_cons_of_neg]
          · rfl
          · simp [isOutOfBounds_of_stretch stretching]
  rw [List.filter_append, ownWarning, List.nil_append, Track.boundsWarnings_eq,
    filter_isOutOfBounds_warnings]
  rfl

theorem filter_warnings_balanceTracks
    {mixDuration : α} {reference position : Nat} {tracks balanced : List (Track α)}
    {warnings : List (Warning α)} {state next : σ}
    (balancing : balanceTracks draw policy mixDuration reference position tracks state =
      .ok (warnings, balanced, next)) :
    warnings.filter Warning.isOutOfBounds =
      PlacedSlot.warnings policy.tolerance (balanced.flatMap Track.placedSlots) := by
  induction tracks generalizing position warnings balanced state with
  | nil =>
      cases balancing
      rfl
  | cons track rest inductionHypothesis =>
      obtain ⟨⟨own, first, middle⟩, balancingFirst, remaining⟩ := bind_eq_ok_iff.mp balancing
      obtain ⟨⟨others, changed, after⟩, balancingRest, equality⟩ := bind_eq_ok_iff.mp remaining
      cases equality
      rw [List.filter_append, filter_warnings_balanceTrack balancingFirst,
        inductionHypothesis balancingRest, List.flatMap_cons, PlacedSlot.warnings_append]

end Complete

end Timing

/-! ## Clips kept within bounds -/

/-- Each elastic clip of a track at a length of its own. -/
theorem Track.slots_stretched (track : Track α) (length : ClipTiming α → α) :
    slots { track with clips := track.clips.map fun clip => clip.stretchTo (length clip.timing) } =
      track.slots.map fun slot =>
        { slot with length := length (.elastic slot.low slot.high slot.length) } := by
  unfold slots
  rw [List.filterMap_map, List.map_filterMap]
  apply List.filterMap_congr
  intro clip _
  obtain ⟨source, timing, volume, effects⟩ := clip
  cases timing <;> rfl

namespace Timing

section Clamped

variable {σ : Type} {draw : Draw ℚ σ} {policy : Policy ℚ} {track : Track ℚ}

theorem fits_filled (admitted : ∀ slot ∈ track.slots, slot.Admitted) :
    ∀ slot ∈ track.filled.slots, slot.Fits := by
  rw [Track.filled, Track.slots_stretched, List.forall_mem_map]
  intro slot member
  exact ⟨(admitted slot member).nonnegative, (admitted slot member).ordered, le_rfl⟩

variable (within : draw.Within) (tolerated : 0 ≤ policy.tolerance)
  (clamped : policy.clampToBounds = true)

include within tolerated clamped

theorem fits_of_spread
    {slots lengthened : List (Slot ℚ)} {extra : ℚ} {state next : σ} {outcome : Spread ℚ}
    (admitted : ∀ slot ∈ slots, slot.Admitted)
    (spreading : spread draw policy extra slots state = .ok (outcome, lengthened, next)) :
    SameBounds slots lengthened ∧ ∀ slot ∈ lengthened, slot.Fits := by
  obtain ⟨drawn, middle, drawing, drawnBounds, fit⟩ := exists_drawSlots within slots admitted state
  obtain ⟨growing, ahead⟩ := exists_ahead fit (totalLow slots + extra)
  obtain ⟨corrected, left, correction, nearer⟩ :=
    exists_correct clamped tolerated ahead policy.maxIterations
  rw [spread_eq drawing correction] at spreading
  cases spreading
  exact ⟨drawnBounds.trans nearer.bounds, nearer.ahead.fit⟩

theorem fits_of_stretch
    {stretched : Track ℚ} {extra : ℚ} {state next : σ} {warning : Option (Warning ℚ)}
    (fit : ∀ slot ∈ track.slots, slot.Fits)
    (stretching : track.stretch draw policy extra state = .ok (warning, stretched, next)) :
    ∀ slot ∈ stretched.slots, slot.Fits := by
  rcases stretch_cases stretching with ⟨_, rfl, _⟩ | ⟨_, lengthened, spreading, rfl, _⟩
  · exact fit
  · obtain ⟨bounds, lengthenedFit⟩ :=
      fits_of_spread within tolerated clamped (fun slot member => (fit slot member).admitted)
        spreading
    rw [Track.slots, Track.slots_putSlots bounds]
    exact lengthenedFit

theorem fits_of_balanceTrack
    {mixDuration : ℚ} {isReference : Bool} {balanced : Track ℚ} {warnings : List (Warning ℚ)}
    {state next : σ} (fit : ∀ slot ∈ track.slots, slot.Fits)
    (balancing : balanceTrack draw policy mixDuration isReference track state =
      .ok (warnings, balanced, next)) :
    ∀ slot ∈ balanced.slots, slot.Fits := by
  obtain ⟨warning, changed, changes, _, rfl⟩ := balanceTrack_cases balancing
  change ∀ slot ∈ changed.slots, slot.Fits
  rcases changes with ⟨_, rfl, _⟩ | ⟨_, rfl, _⟩ | ⟨extra, stretching⟩
  · exact fits_filled fun slot member => (fit slot member).admitted
  · exact fit
  · exact fits_of_stretch within tolerated clamped fit stretching

theorem fits_of_balanceTracks
    {mixDuration : ℚ} {reference position : Nat} {tracks balanced : List (Track ℚ)}
    {warnings : List (Warning ℚ)} {state next : σ}
    (fit : ∀ track ∈ tracks, ∀ slot ∈ track.slots, slot.Fits)
    (balancing : balanceTracks draw policy mixDuration reference position tracks state =
      .ok (warnings, balanced, next)) :
    ∀ track ∈ balanced, ∀ slot ∈ track.slots, slot.Fits := by
  let keepsFit (track changed : Track ℚ) : Prop :=
    (∀ slot ∈ track.slots, slot.Fits) → ∀ slot ∈ changed.slots, slot.Fits
  have keep : List.Forall₂ keepsFit tracks balanced :=
    forall₂_of_balanceTracks
      (fun balancingTrack fitTrack =>
        fits_of_balanceTrack within tolerated clamped fitTrack balancingTrack)
      balancing
  intro changed member
  obtain ⟨track, original, fitAgain⟩ := exists_mem_left_of_forall₂ keep member
  exact fitAgain (fit track original)

end Clamped

/-- Clips that fit their slots do not stray. -/
theorem warnings_eq_nil_of_fits
    {tolerance : ℚ} {placed : List (PlacedSlot ℚ)} (tolerated : 0 ≤ tolerance)
    (fit : ∀ one ∈ placed, one.slot.Fits) :
    PlacedSlot.warnings tolerance placed = [] := by
  rw [PlacedSlot.warnings, List.map_eq_nil_iff, List.filter_eq_nil_iff]
  intro one member
  obtain ⟨_, above, below⟩ := fit one member
  rw [decide_eq_true_iff]
  rintro (short | long)
  · linarith
  · linarith

/-! ## Recipes -/

section Recipes

variable {σ : Type} {draw : Draw ℚ σ} {policy : Policy ℚ} {recipe : Recipe ℚ}

/-- An admitted recipe is balanced by balancing its tracks from their least lengths. -/
theorem exists_balance_of_tracks
    (within : draw.Within) (tolerated : 0 ≤ policy.tolerance)
    (admitted : recipe.check = .ok ()) (state : σ) :
    ∃ reference mixDuration warnings tracks next,
      balanceTracks draw policy mixDuration reference 0
          (recipe.tracks.map fun track => track.shrunk.measure) state =
        .ok (warnings, tracks, next) ∧
      balance draw policy recipe state =
        .ok ⟨.ok ⟨reference, mixDuration, warnings⟩, { recipe with tracks }, next⟩ := by
  have nonempty : recipe.tracks.map (fun track => track.shrunk.measure) ≠ [] := by
    intro empty
    exact (Recipe.check_eq_ok_iff.mp admitted).1 (List.map_eq_nil_iff.mp empty)
  obtain ⟨reference, mixDuration, found, firstGreatest⟩ := exists_longest? nonempty
  obtain ⟨warnings, tracks, next, balancing, _⟩ :=
    exists_balanceTracks within tolerated (ready_of_admitted admitted)
      (fun track member => firstGreatest.greatest _ (List.mem_map_of_mem member)) reference 0 state
  refine ⟨reference, mixDuration, warnings, tracks, next, balancing, ?_⟩
  unfold balance
  rw [admitted]
  simp only [found]
  rw [balancing]
  rfl

theorem fits_of_admitted (admitted : recipe.check = .ok ()) :
    ∀ track ∈ recipe.tracks.map (fun track => track.shrunk.measure),
      ∀ slot ∈ track.slots, slot.Fits := by
  intro changed member
  have bounds := (ready_of_admitted admitted changed member).admitted
  obtain ⟨track, _, rfl⟩ := List.mem_map.mp member
  change ∀ slot ∈ track.shrunk.slots, slot.Admitted at bounds
  change ∀ slot ∈ track.shrunk.slots, slot.Fits
  rw [Track.shrunk, Track.slots_stretched, List.forall_mem_map] at bounds ⊢
  intro slot slotMember
  obtain ⟨nonnegative, ordered⟩ := bounds slot slotMember
  exact ⟨nonnegative, le_rfl, ordered⟩

/-- The clips that balancing leaves out of bounds, by more than is tolerated, are those
that it warns about, in their order and as they are left; within bounds it leaves
them all where lengths are kept there. -/
theorem exists_balance_warnings
    (within : draw.Within) (tolerated : 0 ≤ policy.tolerance)
    (admitted : recipe.check = .ok ()) (state : σ) :
    ∃ report balanced next,
      balance draw policy recipe state = .ok ⟨.ok report, balanced, next⟩ ∧
      recipe.Retimed balanced ∧
      report.warnings.filter Warning.isOutOfBounds =
        (balanced.placedSlots.filter fun placed =>
          decide (placed.Strays policy.tolerance)).map PlacedSlot.warning ∧
      (policy.clampToBounds = true →
        (∀ placed ∈ balanced.placedSlots,
          placed.slot.low ≤ placed.slot.length ∧ placed.slot.length ≤ placed.slot.high) ∧
        report.warnings.filter Warning.isOutOfBounds = []) := by
  obtain ⟨reference, mixDuration, warnings, tracks, next, balancing, balanced⟩ :=
    exists_balance_of_tracks within tolerated admitted state
  have complete := filter_warnings_balanceTracks balancing
  refine ⟨⟨reference, mixDuration, warnings⟩, { recipe with tracks }, next, balanced,
    retimed_of_balance balanced, complete, ?_⟩
  intro clamped
  have fitTracks :=
    fits_of_balanceTracks within tolerated clamped (fits_of_admitted admitted) balancing
  have fit : ∀ placed ∈ tracks.flatMap Track.placedSlots, placed.slot.Fits := by
    intro placed member
    obtain ⟨track, trackMember, isPlaced⟩ := List.mem_flatMap.mp member
    exact fitTracks track trackMember _ (Track.mem_slots_of_mem_placedSlots isPlaced)
  constructor
  · intro placed member
    exact ⟨(fit placed member).above, (fit placed member).below⟩
  · rw [complete]
    exact warnings_eq_nil_of_fits tolerated fit

/-- Scaled without regard to bounds, the last two clips come out too long. -/
example :
    (balance replay ⟨3, 1 / 1000, false⟩ demo [7, 3, 5]).toOption.bind
        (fun balanced => balanced.outcome.toOption.map Report.warnings) =
      some [.outOfBounds 2 1 (22 / 5) 2 4, .outOfBounds 2 2 (22 / 3) 3 6] := by
  decide +kernel

theorem exists_balance_warnings_demo :
    ∃ report balanced next,
      balance replay ⟨3, 1 / 1000, true⟩ demo [7, 3, 5] = .ok ⟨.ok report, balanced, next⟩ ∧
      demo.Retimed balanced ∧
      report.warnings.filter Warning.isOutOfBounds = [] := by
  have admitted : demo.check = .ok () := by rfl
  have tolerated : 0 ≤ (⟨3, 1 / 1000, true⟩ : Policy ℚ).tolerance := by norm_num
  obtain ⟨report, balanced, next, balancing, retimed, _, kept⟩ :=
    exists_balance_warnings replay_within tolerated admitted [7, 3, 5]
  exact ⟨report, balanced, next, balancing, retimed, (kept rfl).2⟩

end Recipes

end Timing

end Mixdown
