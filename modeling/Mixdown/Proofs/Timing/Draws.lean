import Mixdown.Proofs.Timing.Overflow
import Mixdown.Proofs.Timing.Recorded

/-!
# What balancing draws

Balancing draws once for each elastic clip with a choice, on each track that is stretched,
in the order of tracks and clips.  The policy has no part in it: it governs only how drawn
lengths are corrected, and no draw depends on corrected lengths.
-/

namespace Mixdown

open Timing

variable {α σ : Type}

/-! ## Draws in turn -/

namespace Timing

variable {draw : Draw α σ}

/-- Draws the lengths of clips, one after the other. -/
def drawInTurn (draw : Draw α σ) :
    List (PlacedSlot α) → σ → Except Fault (List (PlacedSlot α) × σ)
  | [], state => .ok ([], state)
  | placed :: rest, state => do
      let (length, state) ← draw placed.slot.low placed.slot.high state
      let (drawn, state) ← drawInTurn draw rest state
      return ({ placed with slot := { placed.slot with length } } :: drawn, state)

theorem drawInTurn_append
    {first second drawn others : List (PlacedSlot α)} {state middle next : σ}
    (drawing : drawInTurn draw first state = .ok (drawn, middle))
    (drawingOthers : drawInTurn draw second middle = .ok (others, next)) :
    drawInTurn draw (first ++ second) state = .ok (drawn ++ others, next) := by
  induction first generalizing state drawn with
  | nil =>
      cases drawing
      exact drawingOthers
  | cons placed rest inductionHypothesis =>
      obtain ⟨⟨length, after⟩, drawingFirst, remaining⟩ := bind_eq_ok_iff.mp drawing
      obtain ⟨⟨more, last⟩, drawingRest, equality⟩ := bind_eq_ok_iff.mp remaining
      cases equality
      rw [List.cons_append, drawInTurn, drawingFirst]
      apply bind_eq_ok_iff.mpr
      exact ⟨_, rfl, bind_eq_ok_iff.mpr ⟨_, inductionHypothesis drawingRest, rfl⟩⟩

/-- A source that records its draws has recorded those made in turn. -/
theorem drawInTurn_recorded
    {choices drawn : List (PlacedSlot α)} {state next : σ} (before : List (Slot α))
    (drawing : drawInTurn draw choices state = .ok (drawn, next)) :
    drawInTurn (recorded draw) choices (state, before) =
      .ok (drawn, next, before ++ drawn.map PlacedSlot.slot) := by
  induction choices generalizing state drawn before with
  | nil =>
      cases drawing
      rw [List.map_nil, List.append_nil]
      rfl
  | cons placed rest inductionHypothesis =>
      obtain ⟨⟨length, after⟩, drawingFirst, remaining⟩ := bind_eq_ok_iff.mp drawing
      obtain ⟨⟨more, last⟩, drawingRest, equality⟩ := bind_eq_ok_iff.mp remaining
      cases equality
      have recording : recorded draw placed.slot.low placed.slot.high (state, before) =
          .ok (length, after, before ++ [⟨placed.slot.low, placed.slot.high, length⟩]) := by
        change (draw placed.slot.low placed.slot.high state).map _ = _
        rw [drawingFirst]
        rfl
      rw [drawInTurn, recording]
      apply bind_eq_ok_iff.mpr
      refine ⟨_, rfl, bind_eq_ok_iff.mpr ⟨_, inductionHypothesis _ drawingRest, ?_⟩⟩
      rw [List.map_cons, List.append_assoc, List.singleton_append]
      rfl

end Timing

/-! ## Clips to draw for -/

variable [Scalar α]

/-- Whether the bounds of a clip leave a choice. -/
def PlacedSlot.isOpen (placed : PlacedSlot α) : Bool :=
  decide (placed.slot.low < placed.slot.high)

/-- The track falls short of the mix at its least length, and can get longer. -/
def Track.IsStretched (mixDuration : α) (track : Track α) : Prop :=
  0 < mixDuration - track.minLength ∧ 0 < track.slack

instance (mixDuration : α) (track : Track α) : Decidable (track.IsStretched mixDuration) :=
  inferInstanceAs (Decidable (_ ∧ _))

/-- The clips of a track that have a choice, if it is stretched. -/
def Track.choices (mixDuration : α) (isReference : Bool) (track : Track α) :
    List (PlacedSlot α) :=
  if isReference = false ∧ track.IsStretched mixDuration then
    track.placedSlots.filter PlacedSlot.isOpen
  else
    []

/-- The clips to draw for of a recipe, whose tracks are stretched from their least lengths;
the reference track is filled and not drawn for. -/
def Recipe.choices (recipe : Recipe α) : List (PlacedSlot α) :=
  let tracks := recipe.tracks.map fun track => track.shrunk.measure
  match longest? tracks with
  | none => []
  | some (reference, mixDuration) =>
      tracks.zipIdx.flatMap fun (track, position) =>
        track.choices mixDuration (position == reference)

namespace Timing

variable {draw : Draw α σ} {policy : Policy α}

/-! ## One track -/

/-- The elastic clips of a list, from a position of a track on. -/
def placedFrom (index : UInt64) (position : Nat) (clips : List (Clip α)) :
    List (PlacedSlot α) :=
  (clips.zipIdx position).filterMap fun (clip, position) =>
    clip.slot?.map fun slot => ⟨index, position, slot⟩

/-- Drawing the slots of clips is drawing in turn for those with a choice, and each drawn
length is put where it was drawn for. -/
theorem exists_drawn_of_drawSlots
    (index : UInt64) (position : Nat) {clips : List (Clip α)} {slots : List (Slot α)}
    {state next : σ}
    (drawing : drawSlots draw (clips.filterMap Clip.slot?) state = .ok (slots, next)) :
    ∃ drawn,
      drawInTurn draw ((placedFrom index position clips).filter PlacedSlot.isOpen) state =
        .ok (drawn, next) ∧
      drawn ⊆ placedFrom index position (Track.putSlots clips slots) := by
  induction clips generalizing position slots state with
  | nil =>
      cases drawing
      exact ⟨[], rfl, List.nil_subset _⟩
  | cons clip rest inductionHypothesis =>
      obtain ⟨source, timing, volume, effects⟩ := clip
      cases timing with
      | fixed duration => exact inductionHypothesis (position + 1) drawing
      | elastic low high length =>
          obtain ⟨⟨slot, middle⟩, drawingSlot, remaining⟩ := bind_eq_ok_iff.mp drawing
          obtain ⟨⟨others, after⟩, drawingRest, equality⟩ := bind_eq_ok_iff.mp remaining
          cases equality
          obtain ⟨drawn, inTurn, placed⟩ := inductionHypothesis (position + 1) drawingRest
          let choice : PlacedSlot α := ⟨index, position, low, high, length⟩
          change ∃ drawn, drawInTurn draw
              ((choice :: placedFrom index (position + 1) rest).filter PlacedSlot.isOpen) state =
                .ok (drawn, next) ∧
              drawn ⊆ ⟨index, position, low, high, slot.length⟩ ::
                placedFrom index (position + 1) (Track.putSlots rest others)
          unfold drawSlot at drawingSlot
          by_cases isOpen : low < high
          · rw [if_pos isOpen] at drawingSlot
            have kept : choice.isOpen = true := decide_eq_true isOpen
            cases drawingLength : draw low high state with
            | error fault =>
                rw [drawingLength] at drawingSlot
                cases drawingSlot
            | ok found =>
                rw [drawingLength] at drawingSlot
                cases drawingSlot
                rw [List.filter_cons_of_pos kept, drawInTurn, drawingLength]
                refine ⟨_, bind_eq_ok_iff.mpr ⟨_, rfl, bind_eq_ok_iff.mpr ⟨_, inTurn, rfl⟩⟩, ?_⟩
                exact List.cons_subset_cons _ placed
          · rw [if_neg isOpen] at drawingSlot
            have dropped : ¬ choice.isOpen = true := by
              simpa [PlacedSlot.isOpen] using isOpen
            cases drawingSlot
            rw [List.filter_cons_of_neg dropped]
            exact ⟨drawn, inTurn, List.subset_cons_of_subset _ placed⟩

section OneTrack

variable {track balanced : Track α} {state next : σ}

theorem exists_drawn_of_stretch
    {extra : α} {warning : Option (Warning α)}
    (stretching : track.stretch draw policy extra state = .ok (warning, balanced, next)) :
    ∃ drawn,
      drawInTurn draw (if extra ≤ 0 then [] else track.placedSlots.filter PlacedSlot.isOpen)
        state = .ok (drawn, next) ∧
      (policy.maxIterations = 0 → drawn ⊆ balanced.placedSlots) := by
  unfold Track.stretch at stretching
  by_cases idle : extra ≤ 0 ∨ track.elasticCount = 0
  · rw [if_pos idle] at stretching
    cases stretching
    have nothing :
        (if extra ≤ 0 then [] else track.placedSlots.filter PlacedSlot.isOpen) = [] := by
      by_cases notExtended : extra ≤ 0
      · rw [if_pos notExtended]
      · have noSlots : track.slots = [] := by
          rw [← List.length_eq_zero_iff, Track.length_slots]
          exact idle.resolve_left notExtended
        rw [if_neg notExtended, List.filter_eq_nil_iff]
        intro placed member
        have among := Track.mem_slots_of_mem_placedSlots member
        rw [noSlots] at among
        cases among
    rw [nothing]
    exact ⟨[], rfl, fun _ => List.nil_subset _⟩
  · rw [if_neg idle] at stretching
    rw [if_neg (not_or.mp idle).1]
    obtain ⟨⟨outcome, stretched, after⟩, spreadingTrack, equality⟩ :=
      bind_eq_ok_iff.mp stretching
    cases equality
    obtain ⟨⟨found, slots, middle⟩, spreading, same⟩ := bind_eq_ok_iff.mp spreadingTrack
    cases same
    obtain ⟨⟨drawnSlots, last⟩, drawing, correcting⟩ := bind_eq_ok_iff.mp spreading
    obtain ⟨⟨corrected, left⟩, corrects, ends⟩ := bind_eq_ok_iff.mp correcting
    cases ends
    obtain ⟨drawn, inTurn, placed⟩ := exists_drawn_of_drawSlots track.index 0 drawing
    refine ⟨drawn, inTurn, fun noCorrection => ?_⟩
    rw [noCorrection] at corrects
    cases corrects
    exact placed

/-- A track is drawn for if it is stretched, and where nothing is corrected its clips are
left with the drawn lengths. -/
theorem exists_drawn_of_balanceTrack
    {mixDuration : α} {isReference : Bool} {warnings : List (Warning α)}
    (stretched :
      ¬ mixDuration - track.minLength ≤ 0 ∧
          ¬ Scalar.lesser (mixDuration - track.minLength) track.slack ≤ 0 ↔
        track.IsStretched mixDuration)
    (balancing : balanceTrack draw policy mixDuration isReference track state =
      .ok (warnings, balanced, next)) :
    ∃ drawn,
      drawInTurn draw (track.choices mixDuration isReference) state = .ok (drawn, next) ∧
      (policy.maxIterations = 0 → drawn ⊆ balanced.placedSlots) := by
  unfold Track.choices
  unfold balanceTrack at balancing
  dsimp only at balancing
  cases isReference with
  | true =>
      cases balancing
      exact ⟨[], rfl, fun _ => List.nil_subset _⟩
  | false =>
      rw [if_neg Bool.false_ne_true] at balancing
      by_cases reached : mixDuration - track.minLength ≤ 0
      · rw [if_pos reached] at balancing
        cases balancing
        rw [if_neg (fun stretches => (stretched.mpr stretches.2).1 reached)]
        exact ⟨[], rfl, fun _ => List.nil_subset _⟩
      · rw [if_neg reached] at balancing
        obtain ⟨⟨warning, changed, after⟩, stretching, equality⟩ := bind_eq_ok_iff.mp balancing
        cases equality
        obtain ⟨drawn, inTurn, placed⟩ := exists_drawn_of_stretch stretching
        refine ⟨drawn, ?_, placed⟩
        rw [← inTurn]
        congr 1
        by_cases extended : Scalar.lesser (mixDuration - track.minLength) track.slack ≤ 0
        · rw [if_pos extended, if_neg (fun stretches => (stretched.mpr stretches.2).2 extended)]
        · rw [if_neg extended, if_pos ⟨rfl, stretched.mp ⟨reached, extended⟩⟩]

end OneTrack

/-! ## All tracks -/

theorem exists_drawn_of_balanceTracks
    {mixDuration : α} {reference position : Nat} {tracks balanced : List (Track α)}
    {warnings : List (Warning α)} {state next : σ}
    (stretched : ∀ track ∈ tracks,
      ¬ mixDuration - track.minLength ≤ 0 ∧
          ¬ Scalar.lesser (mixDuration - track.minLength) track.slack ≤ 0 ↔
        track.IsStretched mixDuration)
    (balancing : balanceTracks draw policy mixDuration reference position tracks state =
      .ok (warnings, balanced, next)) :
    ∃ drawn,
      drawInTurn draw
        ((tracks.zipIdx position).flatMap fun (track, position) =>
          track.choices mixDuration (position == reference)) state = .ok (drawn, next) ∧
      (policy.maxIterations = 0 → drawn ⊆ balanced.flatMap Track.placedSlots) := by
  induction tracks generalizing position warnings balanced state with
  | nil =>
      cases balancing
      exact ⟨[], rfl, fun _ => List.nil_subset _⟩
  | cons track rest inductionHypothesis =>
      obtain ⟨stretchedTrack, stretchedRest⟩ := List.forall_mem_cons.mp stretched
      obtain ⟨⟨own, first, middle⟩, balancingFirst, remaining⟩ := bind_eq_ok_iff.mp balancing
      obtain ⟨⟨others, changed, after⟩, balancingRest, equality⟩ := bind_eq_ok_iff.mp remaining
      cases equality
      obtain ⟨drawn, inTurn, placed⟩ :=
        exists_drawn_of_balanceTrack stretchedTrack balancingFirst
      obtain ⟨more, moreInTurn, morePlaced⟩ := inductionHypothesis stretchedRest balancingRest
      refine ⟨drawn ++ more, drawInTurn_append inTurn moreInTurn, fun noCorrection => ?_⟩
      intro one member
      rw [List.flatMap_cons, List.mem_append]
      rcases List.mem_append.mp member with here | later
      · exact Or.inl (placed noCorrection here)
      · exact Or.inr (morePlaced noCorrection later)

end Timing

/-! ## Stretched tracks in doubles -/

theorem lesser_pos {first second : Float} (positive : 0 < first) (otherPositive : 0 < second) :
    ¬ Scalar.lesser first second ≤ 0 := by
  unfold Scalar.lesser
  split
  · exact fun reached => Double.not_lt_of_le reached positive
  · split
    · exact fun reached => Double.not_lt_of_le reached otherPositive
    · exact fun reached => Double.not_lt_of_le reached positive

theorem lesser_zero_le (value : Float) : Scalar.lesser value 0 ≤ 0 := by
  have zero : (0 : Float) ≤ 0 := by decide +kernel
  unfold Scalar.lesser
  by_cases below : value < 0
  · exact (if_pos below).symm ▸ Double.le_of_lt below
  · exact ((if_neg below).trans (if_pos zero)).symm ▸ zero

/-- A track whose least length is infinite falls short of an infinite mix by what is no
number, but it cannot get longer either. -/
theorem Track.isStretched_iff
    {mixDuration : Float} {track : Track Float} (mixNonnegative : 0 ≤ mixDuration)
    (leastNonnegative : 0 ≤ track.minLength) (greatestNonnegative : 0 ≤ track.maxLength) :
    ¬ mixDuration - track.minLength ≤ 0 ∧
        ¬ Scalar.lesser (mixDuration - track.minLength) track.slack ≤ 0 ↔
      track.IsStretched mixDuration := by
  constructor
  · intro stretches
    obtain ⟨short, extended⟩ := stretches
    by_cases room : 0 < track.maxLength - track.minLength
    · have finite := Double.isFinite_of_zero_lt_sub leastNonnegative greatestNonnegative room
      have slack : track.slack = track.maxLength - track.minLength :=
        track.slack_eq.trans (if_pos room)
      refine ⟨Double.zero_lt_sub_of_not_le finite leastNonnegative mixNonnegative short, ?_⟩
      rw [slack]
      exact room
    · have noSlack : track.slack = 0 := track.slack_eq.trans (if_neg room)
      rw [noSlack] at extended
      exact absurd (lesser_zero_le _) extended
  · intro stretches
    obtain ⟨short, room⟩ := stretches
    exact ⟨fun reached => Double.not_lt_of_le reached short, lesser_pos short room⟩

namespace Timing

variable {draw : Draw Float σ} {policy otherPolicy : Policy Float} {recipe : Recipe Float}
  {state : σ} {balanced other : Balanced Float σ}

theorem exists_drawn_of_balance
    (admitted : recipe.check = .ok ())
    (balancing : balance draw policy recipe state = .ok balanced) :
    ∃ drawn,
      drawInTurn draw recipe.choices state = .ok (drawn, balanced.state) ∧
      (policy.maxIterations = 0 → drawn ⊆ balanced.recipe.placedSlots) := by
  obtain ⟨report, reported⟩ := exists_report_of_balance admitted balancing
  obtain ⟨outcome, changed, next⟩ := balanced
  obtain rfl : outcome = .ok report := reported
  obtain ⟨longest, balancingTracks⟩ := exists_balanceTracks_of_balance balancing
  have nonnegative := Recipe.zero_le_shrunk admitted
  have mixNonnegative := (totals_of_balance admitted balancing).mixDuration
  have stretched := fun track member =>
    Track.isStretched_iff mixNonnegative (nonnegative track member).1 (nonnegative track member).2
  have drawing := exists_drawn_of_balanceTracks stretched balancingTracks
  unfold Recipe.choices
  dsimp only
  rw [longest]
  exact drawing

/-- What a run of balancing draws: lengths in turn for the clips that have a choice, and
nothing else, as a source shows that records its draws.  Where nothing is corrected, each
of the clips is left with the length that was drawn for it. -/
structure Balanced.Draws
    (draw : Draw Float σ) (policy : Policy Float) (recipe : Recipe Float) (state : σ)
    (drawn : List (PlacedSlot Float)) (balanced : Balanced Float σ) : Prop where
  inTurn : drawInTurn draw recipe.choices state = .ok (drawn, balanced.state)
  record : ∃ recording, balance (recorded draw) policy recipe (state, []) = .ok recording ∧
    recording.state = (balanced.state, drawn.map PlacedSlot.slot)
  uncorrected : policy.maxIterations = 0 → drawn ⊆ balanced.recipe.placedSlots

theorem draws_of_inTurn
    {drawn : List (PlacedSlot Float)} (admitted : recipe.check = .ok ())
    (balancing : balance draw policy recipe state = .ok balanced)
    (inTurn : drawInTurn draw recipe.choices state = .ok (drawn, balanced.state)) :
    balanced.Draws draw policy recipe state drawn where
  inTurn := inTurn
  record := by
    have bare := (recorded_drawsLike draw).balance policy recipe (state, [])
    rw [balancing] at bare
    cases recordingRun : balance (recorded draw) policy recipe (state, []) with
    | error fault =>
        rw [recordingRun] at bare
        cases bare
    | ok recording =>
        obtain ⟨again, inTurnAgain, _⟩ := exists_drawn_of_balance admitted recordingRun
        rw [drawInTurn_recorded [] inTurn] at inTurnAgain
        obtain ⟨_, states⟩ := Prod.mk.inj (Except.ok.inj inTurnAgain)
        exact ⟨recording, rfl, states.symm⟩
  uncorrected := by
    obtain ⟨again, inTurnAgain, placed⟩ := exists_drawn_of_balance admitted balancing
    rw [inTurn] at inTurnAgain
    obtain ⟨same, _⟩ := Prod.mk.inj (Except.ok.inj inTurnAgain)
    rw [same]
    exact placed

/-- Whatever the policy, an admitted recipe is balanced with the same draws, and leaves
their source in the same state. -/
theorem balance_draws
    (admitted : recipe.check = .ok ())
    (balancing : balance draw policy recipe state = .ok balanced)
    (otherBalancing : balance draw otherPolicy recipe state = .ok other) :
    other.state = balanced.state ∧
      ∃ drawn, balanced.Draws draw policy recipe state drawn ∧
        other.Draws draw otherPolicy recipe state drawn := by
  obtain ⟨drawn, inTurn, _⟩ := exists_drawn_of_balance admitted balancing
  obtain ⟨otherDrawn, otherInTurn, _⟩ := exists_drawn_of_balance admitted otherBalancing
  have same : (drawn, balanced.state) = (otherDrawn, other.state) :=
    Except.ok.inj (inTurn.symm.trans otherInTurn)
  obtain ⟨rfl, states⟩ := Prod.mk.inj same
  exact ⟨states.symm, drawn, draws_of_inTurn admitted balancing inTurn,
    draws_of_inTurn admitted otherBalancing otherInTurn⟩

/-- Only the second track of three is drawn for: the first is the reference, and the third
has no elastic clip. -/
theorem balance_draws_demo :
    Recipe.demo.choices.map (fun choice => (choice.track, choice.position)) =
        [(1, 0), (1, 1)] ∧
      ∃ balanced other,
        balance Random.uniform .standard Recipe.demo (Random.Pcg.ofSeed 7) = .ok balanced ∧
        balance Random.uniform ⟨0, 0.5, false⟩ Recipe.demo (Random.Pcg.ofSeed 7) = .ok other ∧
        other.recipe ≠ balanced.recipe ∧ other.state = balanced.state ∧
        ∃ drawn,
          balanced.Draws Random.uniform .standard Recipe.demo (Random.Pcg.ofSeed 7) drawn ∧
          other.Draws Random.uniform ⟨0, 0.5, false⟩ Recipe.demo (Random.Pcg.ofSeed 7) drawn := by
  have admitted : Recipe.demo.check = .ok () := by
    decide +kernel
  have ends :
      (balance Random.uniform .standard Recipe.demo (Random.Pcg.ofSeed 7)).toOption.any
        (fun balanced =>
          (balance Random.uniform ⟨0, 0.5, false⟩ Recipe.demo
              (Random.Pcg.ofSeed 7)).toOption.any
            fun other => decide (other.recipe ≠ balanced.recipe)) = true := by
    decide +kernel
  obtain ⟨balanced, balancing, otherEnds⟩ := exists_ok_of_any ends
  obtain ⟨other, otherBalancing, differ⟩ := exists_ok_of_any otherEnds
  have drawn := balance_draws admitted balancing otherBalancing
  exact ⟨by decide +kernel, balanced, other, balancing, otherBalancing,
    of_decide_eq_true differ, drawn⟩

end Timing

end Mixdown
