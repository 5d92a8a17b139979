import Mixdown.Proofs.Timing.Durations
import Mixdown.Recipe.Demo

/-!
# Lengths that overflow

The bounds of a recipe are checked clip by clip, but they are added up unchecked.  For an
admitted recipe no total is below zero or no number: it is infinite where a sum overflows,
and then the mix is.  Clips that are kept within their bounds last for a finite time, unless
a total is so great that a share of it is no number.
-/

namespace Mixdown

/-! ## The longest track -/

namespace Timing

theorem exists_of_longestFrom
    {α : Type} [Scalar α] {position : Nat} {leader found : Nat × α} {tracks : List (Track α)}
    (longest : longestFrom position (some leader) tracks = some found) :
    found = leader ∨
      ∃ placed ∈ tracks.zipIdx position, placed.2 = found.1 ∧ placed.1.maxLength = found.2 := by
  induction tracks generalizing position leader with
  | nil => exact Or.inl (Option.some.inj longest).symm
  | cons track rest inductionHypothesis =>
      obtain ⟨index, greatest⟩ := leader
      rw [List.zipIdx_cons, List.exists_mem_cons_iff]
      rw [longestFrom] at longest
      by_cases shorter : track.maxLength ≤ greatest
      · simp only [if_pos shorter] at longest
        have continued := inductionHypothesis longest
        exact continued.imp_right Or.inr
      · simp only [if_neg shorter] at longest
        have continued := inductionHypothesis longest
        refine Or.inr (continued.imp_left fun same => ?_)
        rw [same]
        exact ⟨rfl, rfl⟩

theorem isFinite_longestFrom
    {position index : Nat} {greatest : Float} {found : Nat × Float} {tracks : List (Track Float)}
    (greatestNonnegative : 0 ≤ greatest) (nonnegative : ∀ track ∈ tracks, 0 ≤ track.maxLength)
    (longest : longestFrom position (some (index, greatest)) tracks = some found) :
    found.2.isFinite = true ↔
      greatest.isFinite = true ∧ ∀ track ∈ tracks, track.maxLength.isFinite = true := by
  induction tracks generalizing position index greatest with
  | nil =>
      rw [← Option.some.inj longest]
      exact (and_iff_left nofun).symm
  | cons track rest inductionHypothesis =>
      obtain ⟨trackNonnegative, restNonnegative⟩ := List.forall_mem_cons.mp nonnegative
      rw [longestFrom] at longest
      rw [List.forall_mem_cons, ← and_assoc]
      by_cases shorter : track.maxLength ≤ greatest
      · simp only [if_pos shorter] at longest
        rw [inductionHypothesis greatestNonnegative restNonnegative longest]
        apply and_congr_left'
        exact (and_iff_left_of_imp (Double.isFinite_of_le trackNonnegative shorter)).symm
      · simp only [if_neg shorter] at longest
        rw [inductionHypothesis trackNonnegative restNonnegative longest]
        apply and_congr_left'
        -- An infinite leader is not replaced: no total of lengths is greater.
        have finite : greatest.isFinite = true := by
          by_contra infinite
          rw [Bool.not_eq_true] at infinite
          exact shorter (Double.le_of_not_isFinite trackNonnegative greatestNonnegative infinite)
        exact (and_iff_right finite).symm

variable {tracks : List (Track Float)} {reference : Nat} {mixDuration : Float}

/-- The mix lasts as long as its reference track can, and for ever just when some track
can. -/
theorem longest?_outcome
    (nonnegative : ∀ track ∈ tracks, 0 ≤ track.maxLength)
    (longest : longest? tracks = some (reference, mixDuration)) :
    (∃ track, tracks[reference]? = some track ∧ track.maxLength = mixDuration) ∧
      (mixDuration.isFinite = true ↔ ∀ track ∈ tracks, track.maxLength.isFinite = true) := by
  cases tracks with
  | nil => cases longest
  | cons track rest =>
      obtain ⟨trackNonnegative, restNonnegative⟩ := List.forall_mem_cons.mp nonnegative
      change longestFrom 1 (some (0, track.maxLength)) rest = _ at longest
      constructor
      · rcases exists_of_longestFrom longest with same | ⟨placed, member, position, length⟩
        · cases same
          exact ⟨track, rfl, rfl⟩
        · have member : placed ∈ (track :: rest).zipIdx := List.mem_cons_of_mem _ member
          change placed.2 = reference at position
          rw [← position]
          exact ⟨placed.1, List.mem_zipIdx_iff_getElem?.mp member, length⟩
      · have finite := isFinite_longestFrom trackNonnegative restNonnegative longest
        rw [List.forall_mem_cons]
        exact finite

end Timing

/-! ## Balancing -/

/-- What balancing an admitted recipe adds up to: the totals of the bounds of the given
clips, none of them below zero or no number. -/
structure Timing.Report.Totals
    (recipe balanced : Recipe Float) (report : Report Float) : Prop where
  reference :
    ∃ track, recipe.tracks[report.reference]? = some track ∧
      report.mixDuration = track.measure.maxLength
  mixDuration : 0 ≤ report.mixDuration
  finite :
    report.mixDuration.isFinite = true ↔
      ∀ track ∈ recipe.tracks, track.measure.maxLength.isFinite = true
  tracks : ∀ (position : Nat) (track : Track Float), balanced.tracks[position]? = some track →
    0 ≤ track.minLength ∧ 0 ≤ track.maxLength ∧
      ∃ original, recipe.tracks[position]? = some original ∧
        track.minLength = original.measure.minLength ∧
        track.maxLength = original.measure.maxLength

/-- What the tracks of a balanced recipe and their clips last.  Of lengths that need not be
within bounds nothing is known but that a finite total has finite parts. -/
structure Timing.Report.Durations
    (policy : Policy Float) (balanced : Recipe Float) (report : Report Float) : Prop where
  total : ∀ track ∈ balanced.tracks,
    track.duration = Scalar.sum (track.clips.map fun clip => clip.timing.duration)
  parts : ∀ track ∈ balanced.tracks, track.duration.isFinite = true →
    ∀ clip ∈ track.clips, clip.timing.duration.isFinite = true
  reference :
    ∃ track, balanced.tracks[report.reference]? = some track ∧
      track.duration = report.mixDuration ∧
      ∀ clip ∈ track.clips,
        clip.timing.IsWithin ∧ clip.timing.duration = clip.timing.maxLength
  clips : policy.clampToBounds = true → ∀ track ∈ balanced.tracks, ∀ clip ∈ track.clips,
    clip.timing.duration.isNaN = false → clip.timing.IsWithin
  finite : policy.clampToBounds = true → ∀ track ∈ balanced.tracks,
    track.maxLength.isFinite = true →
      (track.duration.isFinite = true ↔
        ∀ clip ∈ track.clips, clip.timing.duration.isNaN = false)
  small : policy.clampToBounds = true → ∀ track ∈ balanced.tracks, track.maxLength ≤ ample →
    track.duration.isFinite = true ∧ ∀ clip ∈ track.clips, clip.timing.IsWithin

namespace Timing

variable {recipe balanced : Recipe Float} {policy : Policy Float} {report : Report Float}
  {σ : Type}

theorem totals_of_balance
    {draw : Draw Float σ} {state next : σ} (admitted : recipe.check = .ok ())
    (balancing : balance draw policy recipe state = .ok ⟨.ok report, balanced, next⟩) :
    report.Totals recipe balanced := by
  obtain ⟨longest, balancingTracks⟩ := exists_balanceTracks_of_balance balancing
  have admittedTracks := (Recipe.check_eq_ok_iff.mp admitted).2.2
  have sameMaximum (track : Track Float) :
      track.shrunk.measure.maxLength = track.measure.maxLength :=
    (Track.Retimed.stretched track fun clip => clip.timing.minLength).maxLength_measure_eq.symm
  have nonnegative := Recipe.zero_le_shrunk admitted
  obtain ⟨⟨shrunk, found, length⟩, finite⟩ :=
    longest?_outcome (fun track member => (nonnegative track member).2) longest
  rw [List.getElem?_map] at found
  obtain ⟨leader, foundLeader, rfl⟩ := Option.map_eq_some_iff.mp found
  rw [sameMaximum] at length
  have leaderAdmitted := admittedTracks leader (List.mem_of_getElem? foundLeader)
  refine ⟨⟨leader, foundLeader, length.symm⟩, ?_, ?_, ?_⟩
  · rw [← length]
    exact leaderAdmitted.zero_le_measure.2
  · rw [finite, List.forall_mem_map]
    simp only [sameMaximum]
  · intro position track foundTrack
    obtain ⟨original, foundOriginal, retimed⟩ :=
      exists_getElem?_left_of_forall₂ (retimed_of_balance balancing).tracks foundTrack
    have measured : track.measure = track :=
      measure_eq_of_balanceTracks balancingTracks track (List.mem_of_getElem? foundTrack)
    have originalAdmitted := admittedTracks original (List.mem_of_getElem? foundOriginal)
    have minimum : track.minLength = original.measure.minLength := by
      rw [retimed.minLength_measure_eq, measured]
    have maximum : track.maxLength = original.measure.maxLength := by
      rw [retimed.maxLength_measure_eq, measured]
    refine ⟨?_, ?_, original, foundOriginal, minimum, maximum⟩
    · rw [minimum]
      exact originalAdmitted.zero_le_measure.1
    · rw [maximum]
      exact originalAdmitted.zero_le_measure.2

theorem admitted_of_balance
    {draw : Draw Float σ} {state next : σ} (admitted : recipe.check = .ok ())
    (balancing : balance draw policy recipe state = .ok ⟨.ok report, balanced, next⟩) :
    ∀ track ∈ balanced.tracks, track.IsAdmitted := by
  rw [(retimed_of_balance balancing).check_eq] at admitted
  exact (Recipe.check_eq_ok_iff.mp admitted).2.2

/-- The reference track is filled, and nothing else is done to it. -/
theorem reference_of_balance
    {draw : Draw Float σ} {state next : σ} (admitted : recipe.check = .ok ())
    (balancing : balance draw policy recipe state = .ok ⟨.ok report, balanced, next⟩) :
    ∃ track, balanced.tracks[report.reference]? = some track ∧
      track.duration = report.mixDuration ∧
      ∀ clip ∈ track.clips,
        clip.timing.IsWithin ∧ clip.timing.duration = clip.timing.maxLength := by
  obtain ⟨longest, balancingTracks⟩ := exists_balanceTracks_of_balance balancing
  have nonnegative := Recipe.zero_le_shrunk admitted
  obtain ⟨⟨leader, found, length⟩, _⟩ :=
    longest?_outcome (fun track member => (nonnegative track member).2) longest
  have filled := filled_of_balanceTracks balancingTracks found (Nat.zero_add report.reference)
  refine ⟨leader.filled.measure, filled, ?_, fun clip member => ?_⟩
  · rw [Track.duration_filled, ← length]
    obtain ⟨original, _, rfl⟩ := List.mem_map.mp (List.mem_of_getElem? found)
    rfl
  · have admittedLeader := admitted_of_balance admitted balancing _ (List.mem_of_getElem? filled)
    have bounded := admittedLeader.span_bounded clip member
    have full : clip.timing.duration = clip.timing.maxLength := by
      obtain ⟨original, _, rfl⟩ := List.mem_map.mp member
      rw [Clip.duration_stretchTo_maxLength, Clip.maxLength_stretchTo]
    exact ⟨.of_full bounded full, full⟩

/-- The clips of every track are held to their bounds. -/
theorem held_of_balance
    {words : σ → UInt64 × σ} {state next : σ} (admitted : recipe.check = .ok ())
    (clamped : policy.clampToBounds = true)
    (balancing : balance (Random.uniformOf words) policy recipe state =
      .ok ⟨.ok report, balanced, next⟩) :
    ∀ track ∈ balanced.tracks, ∀ clip ∈ track.clips,
      clip.timing.span.Held (track.maxLength ≤ ample) := by
  obtain ⟨_, balancingTracks⟩ := exists_balanceTracks_of_balance balancing
  have each : List.Forall₂
      (fun track changed : Track Float =>
        track.IsAdmitted → track.measure = track →
          (∀ slot ∈ track.slots, slot.length = slot.low) →
          ∀ slot ∈ changed.slots, slot.Held (changed.maxLength ≤ ample))
      (recipe.tracks.map fun track => track.shrunk.measure) balanced.tracks := by
    refine forall₂_of_balanceTracks
      (fun balancingTrack admittedTrack measured least => ?_) balancingTracks
    have held := held_of_balanceTrack admittedTrack clamped measured least balancingTrack
    have maximum := (retimed_of_balanceTrack balancingTrack).maxLength_measure_eq
    rw [measured, measure_eq_of_balanceTrack balancingTrack] at maximum
    rwa [maximum] at held
  intro track member
  apply (admitted_of_balance admitted balancing track member).held_clips
  obtain ⟨shrunk, found, held⟩ := exists_mem_left_of_forall₂ each member
  apply held (Recipe.admitted_shrunk admitted shrunk found)
  · obtain ⟨original, _, rfl⟩ := List.mem_map.mp found
    rfl
  · obtain ⟨original, _, rfl⟩ := List.mem_map.mp found
    intro slot slotMember
    obtain ⟨other, _, rfl⟩ := Track.exists_of_mem_slots_shrunk slotMember
    rfl

theorem durations_of_balance
    {words : σ → UInt64 × σ} {state next : σ} (admitted : recipe.check = .ok ())
    (balancing : balance (Random.uniformOf words) policy recipe state =
      .ok ⟨.ok report, balanced, next⟩) :
    report.Durations policy balanced := by
  obtain ⟨_, balancingTracks⟩ := exists_balanceTracks_of_balance balancing
  have measured := measure_eq_of_balanceTracks balancingTracks
  have admittedTracks := admitted_of_balance admitted balancing
  have parts (track : Track Float) (member : track ∈ balanced.tracks)
      (finite : track.duration.isFinite = true) :
      ∀ clip ∈ track.clips, clip.timing.duration.isFinite = true := by
    rw [← measured track member] at finite
    exact List.forall_mem_map.mp (Double.isFinite_of_sum finite)
  have held (clamped : policy.clampToBounds = true) := held_of_balance admitted clamped balancing
  have finite (track : Track Float) (member : track ∈ balanced.tracks)
      (maxFinite : track.maxLength.isFinite = true)
      (within : ∀ clip ∈ track.clips, clip.timing.span.Within) :
      track.duration.isFinite = true := by
    rw [← measured track member] at maxFinite ⊢
    exact (admittedTracks track member).isFinite_duration maxFinite within
  constructor
  case total =>
    intro track member
    rw [← measured track member]
    rfl
  case parts =>
    exact parts
  case reference =>
    exact reference_of_balance admitted balancing
  case clips =>
    intro clamped track member clip clipMember number
    exact .of_span ((held clamped track member clip clipMember).within (Or.inr number))
  case finite =>
    intro clamped track member maxFinite
    constructor
    · intro durationFinite clip clipMember
      exact Double.isNaN_of_isFinite (parts track member durationFinite clip clipMember)
    · intro numbers
      exact finite track member maxFinite fun clip clipMember =>
        (held clamped track member clip clipMember).within (Or.inr (numbers clip clipMember))
  case small =>
    intro clamped track member small
    have within (clip : Clip Float) (clipMember : clip ∈ track.clips) :
        clip.timing.span.Within :=
      (held clamped track member clip clipMember).within (Or.inl small)
    have maxFinite :=
      isFinite_maxLength (admittedTracks track member) (measured track member) small
    exact ⟨finite track member maxFinite within,
      fun clip clipMember => .of_span (within clip clipMember)⟩

/-- Two pauses, of which one may be drawn at no length and the other at next to none. -/
def uneven : Recipe Float where
  title := ""
  tracks :=
    [.ofClips 0 [⟨.silence, .fixed 1e308, none, []⟩] none [],
      .ofClips 1
        [⟨.silence, .elasticFrom 0.0 5e307, none, []⟩,
          ⟨.silence, .elasticFrom 1e-9 5e307, none, []⟩] none []]

-- The share of the first is zero times infinity.
example :
    (balance (Random.uniformOf fun state : Unit => (0, state)) .standard uneven ()).toOption.any
      (fun balanced => balanced.recipe.clips.any fun clip => clip.timing.duration.isNaN) =
        true := by
  decide +kernel

/-- Balancing an admitted recipe fails just where a length cannot be drawn, whatever the
words drawn from, and otherwise reports the totals of its bounds; it leaves finite
durations where the bounds that it keeps to are small. -/
theorem balance_fails_or_totals
    (words : σ → UInt64 × σ) (admitted : recipe.check = .ok ()) (policy : Policy Float)
    (state : σ) :
    (∀ fault, balance (Random.uniformOf words) policy recipe state = .error fault ↔
      recipe.Undrawable ∧ fault = .unboundedDraw) ∧
    (¬ recipe.Undrawable → ∃ report balanced next,
      balance (Random.uniformOf words) policy recipe state =
        .ok ⟨.ok report, balanced, next⟩ ∧
      recipe.Retimed balanced ∧ report.Totals recipe balanced ∧
      report.Durations policy balanced) := by
  have yields := yields_balance words admitted policy state
  constructor
  · intro fault
    constructor
    · intro failed
      rw [failed] at yields
      exact yields
    · intro undrawable
      obtain ⟨condition, rfl⟩ := undrawable
      cases balancing : balance (Random.uniformOf words) policy recipe state with
      | ok found =>
          rw [balancing] at yields
          exact absurd condition yields.1
      | error fault =>
          rw [balancing] at yields
          rw [yields.2]
  · intro drawable
    obtain ⟨report, balanced, next, balancing, _⟩ :=
      exists_balance_of_drawable words admitted drawable policy state
    exact ⟨report, balanced, next, balancing, retimed_of_balance balancing,
      totals_of_balance admitted balancing, durations_of_balance admitted balancing⟩

end Timing

/-- A pause of any length beside the greatest of doubles. -/
def Recipe.vast : Recipe Float where
  title := ""
  tracks :=
    [.ofClips 0 [⟨.silence, .fixed 1.7976931348623157e308, none, []⟩] none [],
      .ofClips 1 [⟨.silence, .elasticFrom 0.0 1.7976931348623157e308, none, []⟩] none []]

theorem Timing.balance_fails_or_totals_demo :
    (∃ report balanced next,
      balance Random.uniform .standard Recipe.demo (Random.Pcg.ofSeed 7) =
        .ok ⟨.ok report, balanced, next⟩ ∧
      report.mixDuration.isFinite = true ∧
      ∀ track ∈ balanced.tracks, track.duration.isFinite = true ∧
        ∀ clip ∈ track.clips, clip.timing.IsWithin) ∧
    balance Random.uniform .standard Recipe.vast (Random.Pcg.ofSeed 7) =
      .error .unboundedDraw := by
  have admitted : Recipe.demo.check = .ok () := by
    decide +kernel
  have drawable : ¬ Recipe.demo.Undrawable := by
    decide +kernel
  have finite : ∀ track ∈ Recipe.demo.tracks, track.measure.maxLength.isFinite = true := by
    decide +kernel
  have small : ∀ track ∈ Recipe.demo.tracks, track.measure.maxLength ≤ ample := by
    decide +kernel
  have vastAdmitted : Recipe.vast.check = .ok () := by
    decide +kernel
  have undrawable : Recipe.vast.Undrawable := by
    decide +kernel
  constructor
  · obtain ⟨report, balanced, next, balancing, _, totals, durations⟩ :=
      (balance_fails_or_totals Random.Pcg.next64 admitted .standard
        (Random.Pcg.ofSeed 7)).2 drawable
    refine ⟨report, balanced, next, balancing, totals.finite.mpr finite, ?_⟩
    intro track member
    obtain ⟨position, found⟩ := List.mem_iff_getElem?.mp member
    obtain ⟨_, _, original, foundOriginal, _, maximum⟩ := totals.tracks position track found
    apply durations.small rfl track member
    rw [maximum]
    exact small original (List.mem_of_getElem? foundOriginal)
  · have fails :=
      (balance_fails_or_totals Random.Pcg.next64 vastAdmitted .standard
        (Random.Pcg.ofSeed 7)).1
    exact (fails .unboundedDraw).mpr ⟨undrawable, rfl⟩

/-- Two clips that last longer together than the greatest of doubles. -/
def Recipe.endless : Recipe Float where
  title := ""
  tracks :=
    [.ofClips 0
      [⟨.silence, .fixed 1.7e308, none, []⟩, ⟨.silence, .fixed 1.7e308, none, []⟩] none []]

/-- Admitted recipes may be balanced to lengths that are not finite, and may fail to be
balanced. -/
theorem Timing.exists_infinite_of_admitted :
    (Recipe.endless.check = .ok () ∧
      ∃ report balanced next,
        balance Random.uniform .standard Recipe.endless (Random.Pcg.ofSeed 0) =
          .ok ⟨.ok report, balanced, next⟩ ∧
        report.mixDuration.isFinite = false ∧
        ∀ track ∈ balanced.tracks, track.duration.isFinite = false ∧
          track.minLength.isFinite = false ∧ track.maxLength.isFinite = false) ∧
    (Recipe.vast.check = .ok () ∧
      balance Random.uniform .standard Recipe.vast (Random.Pcg.ofSeed 0) =
        .error .unboundedDraw) := by
  have infinite :
      (balance Random.uniform .standard Recipe.endless (Random.Pcg.ofSeed 0)).toOption.any
        (fun balanced =>
          balanced.outcome.toOption.any (fun report => !report.mixDuration.isFinite) &&
            balanced.recipe.tracks.all fun track =>
              !track.duration.isFinite && !track.minLength.isFinite &&
                !track.maxLength.isFinite) = true := by
    decide +kernel
  have fails : (balance Random.uniform .standard Recipe.vast (Random.Pcg.ofSeed 0)).map
      (fun _ => ()) = .error .unboundedDraw := by
    decide +kernel
  refine ⟨⟨by decide +kernel, ?_⟩, by decide +kernel, ?_⟩
  · obtain ⟨⟨outcome, balanced, next⟩, balancing, facts⟩ := exists_ok_of_any infinite
    obtain ⟨reported, tracks⟩ := Bool.and_eq_true_iff.mp facts
    obtain ⟨report, isReport, mixInfinite⟩ := exists_ok_of_any reported
    cases isReport
    refine ⟨report, balanced, next, balancing, by simpa using mixInfinite, ?_⟩
    simpa [and_assoc] using tracks
  · cases balancing : balance Random.uniform .standard Recipe.vast (Random.Pcg.ofSeed 0) with
    | ok balanced =>
        rw [balancing] at fails
        cases fails
    | error fault =>
        rw [balancing] at fails
        rw [Except.error.inj fails]

end Mixdown
