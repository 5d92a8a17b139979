import Mixdown.Proofs.Random.Uniform
import Mixdown.Proofs.Recipe.ClipEntry
import Mixdown.Proofs.Timing.Frame
import Mixdown.Proofs.Timing.OutOfBounds

/-!
# Clips that last

In doubles, balancing fails just when it draws between bounds too far apart, and a clip
whose least length is above zero is left above zero where lengths are kept within bounds.
-/

namespace Mixdown

namespace Timing

/-! ## Computations that draw -/

section Yields

variable {β γ : Type} {undrawable : Prop} {good : β → Prop} {final : γ → Prop}

/-- A computation fails at a draw just under a condition, and gives a good result
otherwise. -/
def Yields (undrawable : Prop) (good : β → Prop) : Except Fault β → Prop
  | .ok result => ¬ undrawable ∧ good result
  | .error fault => undrawable ∧ fault = .unboundedDraw

theorem yields_ok {result : β} (holds : good result) : Yields False good (.ok result) :=
  ⟨not_false, holds⟩

theorem Yields.bind
    {later : Prop} {first : Except Fault β} {next : β → Except Fault γ}
    (yields : Yields undrawable good first)
    (rest : ∀ result, good result → Yields later final (next result)) :
    Yields (undrawable ∨ later) final (first >>= next) := by
  cases first with
  | error fault => exact ⟨Or.inl yields.1, yields.2⟩
  | ok result =>
      have continued := rest result yields.2
      change Yields _ _ (next result)
      cases outcome : next result with
      | error fault =>
          rw [outcome] at continued
          exact ⟨Or.inr continued.1, continued.2⟩
      | ok last =>
          rw [outcome] at continued
          exact ⟨not_or.mpr ⟨yields.1, continued.1⟩, continued.2⟩

/-- What follows a computation need not draw. -/
theorem Yields.andThen
    {first : Except Fault β} {next : β → Except Fault γ} (yields : Yields undrawable good first)
    (rest : ∀ result, good result → Yields False final (next result)) :
    Yields undrawable final (first >>= next) := by
  have both := yields.bind rest
  rwa [or_false] at both

theorem Yields.congr
    {other : Prop} {computation : Except Fault β} (same : undrawable ↔ other)
    (yields : Yields undrawable good computation) : Yields other good computation := by
  rwa [propext same] at yields

theorem Yields.mono
    {weaker : β → Prop} {computation : Except Fault β}
    (yields : Yields undrawable good computation)
    (results : ∀ result, good result → weaker result) : Yields undrawable weaker computation := by
  cases computation with
  | error fault => exact yields
  | ok result => exact ⟨yields.1, results result yields.2⟩

theorem yields_mapM
    {related : β → γ → Prop} {change : β → Except Fault γ} {values : List β}
    (each : ∀ value ∈ values, Yields False (related value) (change value)) :
    Yields False (List.Forall₂ related values) (values.mapM change) := by
  induction values with
  | nil => exact yields_ok List.Forall₂.nil
  | cons value rest inductionHypothesis =>
      obtain ⟨here, later⟩ := List.forall_mem_cons.mp each
      rw [List.mapM_cons]
      refine here.andThen fun first related => ?_
      refine (inductionHypothesis later).andThen fun others relatedRest => ?_
      exact yields_ok (List.Forall₂.cons related relatedRest)

end Yields

/-! ## Slots -/

/-- The bounds are ordered, and where lengths are kept within bounds, the length is above
zero if the least one is. -/
structure Slot.Lasts (clamped : Bool) (slot : Slot Float) : Prop where
  ordered : slot.low ≤ slot.high
  lasting : clamped = true → ¬ slot.low ≤ 0 → ¬ slot.length ≤ 0

/-- The slot leaves a choice, but its bounds are too far apart for a draw. -/
def Slot.Undrawable (slot : Slot Float) : Prop :=
  slot.low < slot.high ∧ ¬ Random.IsDrawable slot.low slot.high

instance (slot : Slot Float) : Decidable slot.Undrawable :=
  inferInstanceAs (Decidable (_ ∧ _))

/-- Slots with the same bounds as others, which last. -/
structure Moved (clamped : Bool) (old new : List (Slot Float)) : Prop where
  bounds : SameBounds old new
  lasts : ∀ slot ∈ new, slot.Lasts clamped

variable {σ : Type} (words : σ → UInt64 × σ) {clamped : Bool} {slot : Slot Float}
  {slots : List (Slot Float)}

theorem moved_of_forall₂
    {changed : List (Slot Float)}
    (moved : List.Forall₂
      (fun slot other : Slot Float => other.bounds = slot.bounds ∧ other.Lasts clamped)
      slots changed) :
    Moved clamped slots changed := by
  constructor
  · exact (map_eq_map_of_forall₂ (moved.imp fun _ _ both => both.1.symm)).symm
  · intro slot member
    obtain ⟨_, _, both⟩ := exists_mem_left_of_forall₂ moved member
    exact both.2

theorem yields_drawSlot
    (clamped : Bool) (ordered : slot.low ≤ slot.high) (state : σ) :
    Yields slot.Undrawable
      (fun drawn => drawn.1.bounds = slot.bounds ∧ drawn.1.Lasts clamped)
      (drawSlot (Random.uniformOf words) slot state) := by
  unfold drawSlot
  split
  next choice =>
    by_cases drawable : Random.IsDrawable slot.low slot.high
    · obtain ⟨length, next, drawn, above⟩ := Random.exists_uniformOf ordered drawable state
      rw [drawn]
      exact ⟨fun undrawable => undrawable.2 drawable, rfl, ordered, fun _ => above⟩
    · rw [Random.uniformOf_of_not_drawable drawable]
      exact ⟨⟨choice, drawable⟩, rfl⟩
  next noChoice =>
    exact ⟨fun undrawable => noChoice undrawable.1, rfl, ordered, fun _ above => above⟩

theorem yields_drawSlots
    (clamped : Bool) (ordered : ∀ slot ∈ slots, slot.low ≤ slot.high) (state : σ) :
    Yields (∃ slot ∈ slots, slot.Undrawable) (fun drawn => Moved clamped slots drawn.1)
      (drawSlots (Random.uniformOf words) slots state) := by
  induction slots generalizing state with
  | nil => exact ⟨by simp, rfl, by simp⟩
  | cons slot rest inductionHypothesis =>
      obtain ⟨orderedSlot, orderedRest⟩ := List.forall_mem_cons.mp ordered
      have here := yields_drawSlot words clamped orderedSlot state
      refine Yields.congr (List.exists_mem_cons_iff _ _ _).symm (here.bind fun drawn moved => ?_)
      refine (inductionHypothesis orderedRest drawn.2).andThen fun others movedRest => ?_
      exact yields_ok ⟨congrArg₂ List.cons moved.1 movedRest.bounds,
        List.forall_mem_cons.mpr ⟨moved.2, movedRest.lasts⟩⟩

/-! ## Corrections -/

theorem exists_confine {low high : Float} (ordered : low ≤ high) (value : Float) :
    ∃ length, confine low high value = .ok length ∧ (¬ low ≤ 0 → ¬ length ≤ 0) := by
  unfold confine
  rw [if_pos ordered]
  refine ⟨_, rfl, fun above => ?_⟩
  have raisedAbove : ¬ (if value < low then low else value) ≤ 0 := by
    split
    next => exact above
    next notBelow =>
      intro notAbove
      exact notBelow (Double.lt_of_le_zero notAbove above ordered)
  generalize (if value < low then low else value) = raised at raisedAbove
  split
  · exact Double.not_le_zero_of_le ordered above
  · exact raisedAbove

theorem yields_confined (ordered : slot.low ≤ slot.high) (length : Float) :
    Yields False (fun other => other.bounds = slot.bounds ∧ other.Lasts clamped)
      (slot.confined length) := by
  obtain ⟨confinedLength, confined, above⟩ := exists_confine ordered length
  rw [Slot.confined, confined]
  exact yields_ok ⟨rfl, ordered, fun _ => above⟩

theorem Moved.refl (lasts : ∀ slot ∈ slots, slot.Lasts clamped) : Moved clamped slots slots :=
  ⟨SameBounds.refl slots, lasts⟩

theorem yields_shareByHeadroom
    (lasts : ∀ slot ∈ slots, slot.Lasts clamped) (growing : Bool) (residual : Float) :
    Yields False (Moved clamped slots) (shareByHeadroom growing residual slots) := by
  unfold shareByHeadroom
  dsimp only
  split
  · exact yields_ok (Moved.refl lasts)
  · refine Yields.mono (yields_mapM fun slot member => ?_) fun _ => moved_of_forall₂
    exact yields_confined (lasts slot member).ordered _

theorem yields_scaleFree
    (lasts : ∀ slot ∈ slots, slot.Lasts clamped) (target residual : Float) :
    Yields False (Moved clamped slots) (scaleFree target residual slots) := by
  unfold scaleFree
  dsimp only
  split
  · exact yields_shareByHeadroom lasts _ _
  · refine Yields.mono (yields_mapM fun slot member => ?_) fun _ => moved_of_forall₂
    split
    · exact yields_ok ⟨rfl, lasts slot member⟩
    · exact yields_confined (lasts slot member).ordered _

theorem moved_scaleAll
    (ordered : ∀ slot ∈ slots, slot.low ≤ slot.high) (target residual : Float) :
    Moved false slots (scaleAll target residual slots) := by
  have same := sameBounds_scaleAll target residual slots
  refine ⟨same, fun slot member => ⟨?_, Bool.noConfusion⟩⟩
  have among : slot.bounds ∈ slots.map Slot.bounds := same ▸ List.mem_map_of_mem member
  obtain ⟨other, otherMember, bounds⟩ := List.mem_map.mp among
  obtain ⟨low, high⟩ := Prod.mk.inj bounds
  rw [← low, ← high]
  exact ordered other otherMember

/-- Correcting leaves slots that last, unless they are scaled without regard to bounds. -/
theorem yields_correctOnce
    {policy : Policy Float} (lasts : ∀ slot ∈ slots, slot.Lasts policy.clampToBounds)
    (target residual : Float) :
    Yields False (Moved policy.clampToBounds slots)
      (correctOnce policy target residual slots) := by
  unfold correctOnce
  split
  next => exact yields_scaleFree lasts target residual
  next unclamped =>
    rw [Bool.not_eq_true] at unclamped
    rw [unclamped]
    exact yields_ok
      (moved_scaleAll (fun slot member => (lasts slot member).ordered) target residual)

theorem yields_correct
    {policy : Policy Float} (target : Float) (iterations : Nat)
    (lasts : ∀ slot ∈ slots, slot.Lasts policy.clampToBounds) :
    Yields False (fun corrected => Moved policy.clampToBounds slots corrected.1)
      (correct policy target iterations slots) := by
  induction iterations generalizing slots with
  | zero => exact yields_ok (Moved.refl lasts)
  | succ iterations inductionHypothesis =>
      unfold correct
      dsimp only
      split
      · refine (yields_correctOnce lasts _ _).andThen fun once moved => ?_
        refine (inductionHypothesis moved.lasts).mono fun corrected again => ?_
        exact ⟨moved.bounds.trans again.bounds, again.lasts⟩
      · exact yields_ok (Moved.refl lasts)

theorem yields_spread
    (policy : Policy Float) (ordered : ∀ slot ∈ slots, slot.low ≤ slot.high) (extra : Float)
    (state : σ) :
    Yields (∃ slot ∈ slots, slot.Undrawable)
      (fun spread => Moved policy.clampToBounds slots spread.2.1)
      (spread (Random.uniformOf words) policy extra slots state) := by
  have drawing := yields_drawSlots words policy.clampToBounds ordered state
  refine drawing.andThen fun drawn moved => ?_
  refine (yields_correct _ _ moved.lasts).andThen fun corrected again => ?_
  exact yields_ok ⟨moved.bounds.trans again.bounds, again.lasts⟩

/-! ## Tracks -/

section Tracks

variable {policy : Policy Float} {track : Track Float}

theorem yields_spreadTrack
    (lasts : ∀ slot ∈ track.slots, slot.Lasts policy.clampToBounds) (extra : Float)
    (state : σ) :
    Yields (∃ slot ∈ track.slots, slot.Undrawable)
      (fun spread => Moved policy.clampToBounds track.slots spread.2.1.slots)
      (track.spread (Random.uniformOf words) policy extra state) := by
  have ordered : ∀ slot ∈ track.slots, slot.low ≤ slot.high :=
    fun slot member => (lasts slot member).ordered
  refine (yields_spread words policy ordered extra state).andThen fun spread moved => ?_
  have putBack : Track.slots { track with clips := Track.putSlots track.clips spread.2.1 } =
      spread.2.1 :=
    Track.slots_putSlots moved.bounds
  refine yields_ok ?_
  rw [putBack]
  exact moved

theorem slots_eq_nil_of_elasticCount (none : track.elasticCount = 0) : track.slots = [] := by
  rw [← List.length_eq_zero_iff, Track.length_slots, none]

theorem yields_stretch
    (lasts : ∀ slot ∈ track.slots, slot.Lasts policy.clampToBounds) (extra : Float)
    (state : σ) :
    Yields (¬ extra ≤ 0 ∧ ∃ slot ∈ track.slots, slot.Undrawable)
      (fun stretched => Moved policy.clampToBounds track.slots stretched.2.1.slots)
      (track.stretch (Random.uniformOf words) policy extra state) := by
  unfold Track.stretch
  split
  next idle =>
    -- Either nothing is to be added, or there is no slot to draw for.
    refine ⟨fun undrawable => ?_, Moved.refl lasts⟩
    obtain ⟨extended, slot, member, _⟩ := undrawable
    have noSlots := slots_eq_nil_of_elasticCount (idle.resolve_left extended)
    rw [noSlots] at member
    exact List.not_mem_nil member
  next stretched =>
    have extended := (not_or.mp stretched).1
    refine Yields.congr (and_iff_right extended).symm ?_
    exact (yields_spreadTrack words lasts extra state).andThen fun spread moved => yields_ok moved

/-- What is left of a track that is balanced: a clip that lasts no time is not on the
reference track, and kept within bounds it has none above zero. -/
def StaysAbove (policy : Policy Float) (isReference : Bool) (track : Track Float) : Prop :=
  ∀ slot ∈ track.slots, slot.length ≤ 0 →
    isReference = false ∧ (policy.clampToBounds = true → slot.low ≤ 0)

theorem staysAbove_of_lasts
    (lasts : ∀ slot ∈ track.slots, slot.Lasts policy.clampToBounds) :
    StaysAbove policy false track := by
  intro slot member notAbove
  refine ⟨rfl, fun clamped => ?_⟩
  by_contra above
  exact (lasts slot member).lasting clamped above notAbove

theorem staysAbove_filled (greatest : ∀ slot ∈ track.slots, ¬ slot.high ≤ 0) (isReference : Bool) :
    StaysAbove policy isReference track.filled := by
  intro slot member notAbove
  rw [Track.filled, Track.slots_stretched] at member
  obtain ⟨other, otherMember, rfl⟩ := List.mem_map.mp member
  exact absurd notAbove (greatest other otherMember)

/-- A track that is shorter than the mix and can get longer has a clip whose bounds are too
far apart for a draw. -/
def Undrawable (mixDuration : Float) (track : Track Float) : Prop :=
  ¬ mixDuration - track.minLength ≤ 0 ∧
    ¬ Scalar.lesser (mixDuration - track.minLength) track.slack ≤ 0 ∧
    ∃ slot ∈ track.slots, slot.Undrawable

instance (mixDuration : Float) (track : Track Float) : Decidable (Undrawable mixDuration track) :=
  inferInstanceAs (Decidable (_ ∧ _ ∧ _))

theorem yields_balanceTrack
    (lasts : ∀ slot ∈ track.slots, slot.Lasts policy.clampToBounds)
    (greatest : ∀ slot ∈ track.slots, ¬ slot.high ≤ 0) (mixDuration : Float)
    (isReference : Bool) (state : σ) :
    Yields (isReference = false ∧ Undrawable mixDuration track)
      (fun balanced => StaysAbove policy isReference balanced.2.1)
      (balanceTrack (Random.uniformOf words) policy mixDuration isReference track state) := by
  unfold balanceTrack
  dsimp only
  cases isReference with
  | true =>
      exact ⟨fun undrawable => Bool.noConfusion undrawable.1, staysAbove_filled greatest true⟩
  | false =>
      rw [if_neg Bool.false_ne_true]
      split
      next reached =>
        exact ⟨fun undrawable => undrawable.2.1 reached, staysAbove_of_lasts lasts⟩
      next short =>
        have stretching :=
          yields_stretch words lasts
            (Scalar.lesser (mixDuration - track.minLength) track.slack) state
        refine Yields.congr ((and_iff_right short).symm.trans (and_iff_right rfl).symm) ?_
        exact stretching.andThen fun stretched moved => yields_ok (staysAbove_of_lasts moved.lasts)

theorem yields_balanceTracks
    {tracks : List (Track Float)}
    (lasts : ∀ track ∈ tracks, ∀ slot ∈ track.slots, slot.Lasts policy.clampToBounds)
    (greatest : ∀ track ∈ tracks, ∀ slot ∈ track.slots, ¬ slot.high ≤ 0)
    (mixDuration : Float) (reference position : Nat) (state : σ) :
    Yields
      (∃ placed ∈ tracks.zipIdx position, (placed.2 == reference) = false ∧
        Undrawable mixDuration placed.1)
      (fun balanced => ∀ placed ∈ balanced.2.1.zipIdx position,
        StaysAbove policy (placed.2 == reference) placed.1)
      (balanceTracks (Random.uniformOf words) policy mixDuration reference position tracks
        state) := by
  induction tracks generalizing position state with
  | nil => exact ⟨by simp, by simp⟩
  | cons track rest inductionHypothesis =>
      obtain ⟨lastsTrack, lastsRest⟩ := List.forall_mem_cons.mp lasts
      obtain ⟨greatestTrack, greatestRest⟩ := List.forall_mem_cons.mp greatest
      have balancing :=
        yields_balanceTrack words lastsTrack greatestTrack mixDuration (position == reference) state
      rw [List.zipIdx_cons]
      refine Yields.congr (List.exists_mem_cons_iff _ _ _).symm ?_
      refine balancing.bind fun balanced stays => ?_
      have balancingRest := inductionHypothesis lastsRest greatestRest (position + 1) balanced.2.2
      refine balancingRest.andThen fun others staysRest => yields_ok ?_
      exact List.forall_mem_cons.mpr ⟨stays, staysRest⟩

end Tracks

end Timing

/-! ## Recipes -/

open Timing

/-- The position of the track that sets the length of the mix. -/
def Recipe.reference? {α : Type} [Scalar α] (recipe : Recipe α) : Option Nat :=
  (longest? (recipe.tracks.map fun track => track.shrunk.measure)).map Prod.fst

/-- A track off the reference that is shorter than the mix and can get longer has a clip
whose bounds are too far apart for a draw. -/
def Recipe.Undrawable (recipe : Recipe Float) : Prop :=
  let tracks := recipe.tracks.map fun track => track.shrunk.measure
  ∃ longest ∈ longest? tracks, ∃ placed ∈ tracks.zipIdx,
    (placed.2 == longest.1) = false ∧ Timing.Undrawable longest.2 placed.1

instance (recipe : Recipe Float) : Decidable recipe.Undrawable :=
  inferInstanceAs (Decidable (∃ _ ∈ _, ∃ _ ∈ _, _))

theorem Recipe.undrawable_iff
    {recipe : Recipe Float} {reference : Nat} {mixDuration : Float}
    (found : longest? (recipe.tracks.map fun track => track.shrunk.measure) =
      some (reference, mixDuration)) :
    recipe.Undrawable ↔
      ∃ placed ∈ (recipe.tracks.map fun track => track.shrunk.measure).zipIdx,
        (placed.2 == reference) = false ∧ Timing.Undrawable mixDuration placed.1 := by
  unfold Recipe.Undrawable
  simp only [found, Option.mem_some_iff, exists_eq_left']

theorem Track.IsAdmitted.slots
    {track : Track Float} (admitted : track.IsAdmitted) :
    ∀ slot ∈ track.slots, slot.low ≤ slot.high ∧ ¬ slot.high ≤ 0 := by
  intro slot member
  obtain ⟨clip, clipMember, isSlot⟩ := List.mem_filterMap.mp member
  have timing := admitted.timing clipMember
  obtain ⟨source, ⟨duration⟩ | ⟨low, high, length⟩, volume, effects⟩ := clip
  · cases isSlot
  · cases isSlot
    obtain ⟨_, _, _, ordered, positive⟩ := checkElastic_eq_ok_iff.mp timing
    exact ⟨ordered, fun notAbove => Double.not_lt_of_le notAbove positive⟩

theorem Track.slots_shrunk {α : Type} (track : Track α) :
    track.shrunk.slots = track.slots.map fun slot => { slot with length := slot.low } :=
  track.slots_stretched ClipTiming.minLength

theorem Track.exists_of_mem_slots_shrunk
    {α : Type} {track : Track α} {slot : Slot α} (member : slot ∈ track.shrunk.slots) :
    ∃ other ∈ track.slots, { other with length := other.low } = slot := by
  rw [slots_shrunk] at member
  exact List.mem_map.mp member

theorem Track.lasts_shrunk
    (track : Track Float) (admitted : track.IsAdmitted) {clamped : Bool} :
    ∀ slot ∈ track.shrunk.slots, slot.Lasts clamped := by
  intro slot member
  obtain ⟨other, otherMember, rfl⟩ := exists_of_mem_slots_shrunk member
  exact ⟨(admitted.slots other otherMember).1, fun _ above => above⟩

/-- What balancing an admitted recipe leaves, where it does not fail at a draw. -/
structure Timing.Balanced.StaysAbove
    {σ : Type} (policy : Policy Float) (recipe : Recipe Float) (balanced : Balanced Float σ)
    (report : Report Float) : Prop where
  outcome : balanced.outcome = .ok report
  reference : recipe.reference? = some report.reference
  tracks : ∀ position track, balanced.recipe.tracks[position]? = some track →
    Timing.StaysAbove policy (position == report.reference) track

namespace Timing

theorem yields_balance
    {σ : Type} (words : σ → UInt64 × σ) {recipe : Recipe Float}
    (admitted : recipe.check = .ok ()) (policy : Policy Float) (state : σ) :
    Yields recipe.Undrawable
      (fun balanced => ∃ report, balanced.StaysAbove policy recipe report)
      (balance (Random.uniformOf words) policy recipe state) := by
  obtain ⟨nonempty, _, admittedTracks⟩ := Recipe.check_eq_ok_iff.mp admitted
  obtain ⟨reference, mixDuration, longest⟩ := recipe.exists_longest? nonempty
  have isReference : recipe.reference? = some reference := by
    rw [Recipe.reference?, longest]
    rfl
  unfold balance
  rw [admitted]
  simp only [longest]
  have lasts : ∀ track ∈ recipe.tracks.map (fun track => track.shrunk.measure),
      ∀ slot ∈ track.slots, slot.Lasts policy.clampToBounds := by
    intro shrunk member
    obtain ⟨track, original, rfl⟩ := List.mem_map.mp member
    exact track.lasts_shrunk (admittedTracks track original)
  have greatest : ∀ track ∈ recipe.tracks.map (fun track => track.shrunk.measure),
      ∀ slot ∈ track.slots, ¬ slot.high ≤ 0 := by
    intro shrunk member slot slotMember
    obtain ⟨track, original, rfl⟩ := List.mem_map.mp member
    obtain ⟨other, otherMember, rfl⟩ := Track.exists_of_mem_slots_shrunk slotMember
    exact ((admittedTracks track original).slots other otherMember).2
  refine Yields.congr (Recipe.undrawable_iff longest).symm ?_
  refine (yields_balanceTracks words lasts greatest mixDuration reference 0 state).andThen
    fun balanced stays => yields_ok ⟨_, rfl, isReference, fun position track found => ?_⟩
  exact stays (track, position) (List.mk_mem_zipIdx_iff_getElem?.mpr found)

/-- An admitted recipe is balanced if its lengths can be drawn. -/
theorem exists_balance_of_drawable
    {σ : Type} (words : σ → UInt64 × σ) {recipe : Recipe Float}
    (admitted : recipe.check = .ok ()) (drawable : ¬ recipe.Undrawable)
    (policy : Policy Float) (state : σ) :
    ∃ report balanced next,
      balance (Random.uniformOf words) policy recipe state = .ok ⟨.ok report, balanced, next⟩ ∧
      Balanced.StaysAbove policy recipe ⟨.ok report, balanced, next⟩ report := by
  have yields := yields_balance words admitted policy state
  cases balancing : balance (Random.uniformOf words) policy recipe state with
  | error fault =>
      rw [balancing] at yields
      exact absurd yields.1 drawable
  | ok found =>
      rw [balancing] at yields
      obtain ⟨_, report, stays⟩ := yields
      obtain ⟨outcome, balanced, next⟩ := found
      obtain rfl : outcome = .ok report := stays.outcome
      exact ⟨report, balanced, next, rfl, stays⟩

end Timing

end Mixdown
