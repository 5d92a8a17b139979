import Mixdown.Recipe.Admission

/-!
# Admitted recipes

What the checks let pass: each check succeeds just when all of its parts do.  What they
stop at is where they say it is.
-/

namespace Mixdown

variable {α : Type} [Scalar α]

theorem checkClip_eq_ok_iff {clip : Clip α} :
    checkClip clip = .ok () ↔
      (checkSource clip.source : Except (Reason α) Unit) = .ok () ∧
        checkTiming clip.timing = .ok () ∧ checkVolume clip.volume = .ok () := by
  unfold checkClip
  cases (checkSource clip.source : Except (Reason α) Unit) with
  | error reason => simp [bind, Except.bind]
  | ok passed =>
      cases checkTiming clip.timing with
      | error reason => simp [bind, Except.bind]
      | ok passed => simp [bind, Except.bind]

theorem checkClips_eq_ok_iff {track : UInt64} {position : Nat} {clips : List (Clip α)} :
    checkClips track position clips = .ok () ↔ ∀ clip ∈ clips, checkClip clip = .ok () := by
  induction clips generalizing position with
  | nil =>
      simp [checkClips]
  | cons clip rest inductionHypothesis =>
      rw [checkClips, List.forall_mem_cons]
      cases checkClip clip with
      | error reason => simp
      | ok passed => simp [inductionHypothesis]

/-- What is checked of a track by itself. -/
def Track.IsAdmitted (track : Track α) : Prop :=
  track.clips ≠ [] ∧ checkVolume track.volume = .ok () ∧
    ∀ clip ∈ track.clips, checkClip clip = .ok ()

theorem Track.IsAdmitted.timing
    {track : Track α} (admitted : track.IsAdmitted) {clip : Clip α} (member : clip ∈ track.clips) :
    checkTiming clip.timing = .ok () :=
  (checkClip_eq_ok_iff.mp (admitted.2.2 clip member)).2.1

theorem checkTrack_eq_ok_iff {earlier : List UInt64} {track : Track α} :
    checkTrack earlier track = .ok () ↔ track.index ∉ earlier ∧ track.IsAdmitted := by
  unfold checkTrack Track.IsAdmitted
  by_cases taken : track.index ∈ earlier
  · simp [taken]
  · by_cases empty : track.clips = []
    · simp [taken, empty]
    · cases volume : checkVolume track.volume with
      | error reason => simp [taken, empty]
      | ok passed => simp [taken, empty, checkClips_eq_ok_iff]

theorem checkTracks_eq_ok_iff {earlier : List UInt64} {tracks : List (Track α)} :
    checkTracks earlier tracks = .ok () ↔
      (tracks.map Track.index).Nodup ∧
        ∀ track ∈ tracks, track.index ∉ earlier ∧ track.IsAdmitted := by
  induction tracks generalizing earlier with
  | nil =>
      simp [checkTracks]
  | cons track rest inductionHypothesis =>
      rw [List.map_cons, List.nodup_cons, List.forall_mem_cons, ← checkTrack_eq_ok_iff]
      unfold checkTracks
      cases checkTrack earlier track with
      | error error => simp [bind, Except.bind]
      | ok passed =>
          change checkTracks (track.index :: earlier) rest = .ok () ↔ _
          rw [inductionHypothesis]
          simp only [List.mem_cons, not_or, List.mem_map, not_exists, not_and]
          constructor
          · intro admitted
            obtain ⟨distinct, others⟩ := admitted
            refine ⟨⟨fun other member equal => (others other member).1.1 equal, distinct⟩, trivial,
              fun other member => ⟨(others other member).1.2, (others other member).2⟩⟩
          · intro admitted
            obtain ⟨⟨fresh, distinct⟩, _, others⟩ := admitted
            exact ⟨distinct, fun other member =>
              ⟨⟨fresh other member, (others other member).1⟩, (others other member).2⟩⟩

theorem Recipe.check_eq_ok_iff {recipe : Recipe α} :
    recipe.check = .ok () ↔
      recipe.tracks ≠ [] ∧ (recipe.tracks.map Track.index).Nodup ∧
        ∀ track ∈ recipe.tracks, track.IsAdmitted := by
  unfold Recipe.check
  by_cases empty : recipe.tracks = []
  · simp [empty]
  · simp [empty, checkTracks_eq_ok_iff]

/-! ## Refused recipes -/

/-- What can be wrong with a track by itself. -/
inductive Track.Flaw (track : Track α) : RecipeError α → Prop
  | noClips (empty : track.clips = []) : Flaw track (.noClips track.index)
  | volume {reason : Reason α} (refused : checkVolume track.volume = .error reason) :
      Flaw track (.invalid (.ofTrack track.index) reason)
  | clip {place : Nat} {clip : Clip α} {reason : Reason α}
      (found : track.clips[place]? = some clip) (refused : checkClip clip = .error reason) :
      Flaw track (.invalid (.ofClip track.index place) reason)

theorem exists_of_checkClips_eq_error
    {track : UInt64} {position : Nat} {clips : List (Clip α)} {error : RecipeError α}
    (refused : checkClips track position clips = .error error) :
    ∃ place clip reason, clips[place]? = some clip ∧ checkClip clip = .error reason ∧
      error = .invalid (.ofClip track (position + place)) reason := by
  induction clips generalizing position with
  | nil => cases refused
  | cons clip rest inductionHypothesis =>
      unfold checkClips at refused
      split at refused
      next reason here =>
        cases refused
        exact ⟨0, clip, reason, rfl, here, rfl⟩
      next =>
        obtain ⟨place, other, reason, found, there, equality⟩ := inductionHypothesis refused
        refine ⟨place + 1, other, reason, found, there, ?_⟩
        rw [equality, Nat.add_right_comm, Nat.add_assoc]

theorem flaw_of_checkTrack_eq_error
    {earlier : List UInt64} {track : Track α} {error : RecipeError α}
    (refused : checkTrack earlier track = .error error) :
    (track.index ∈ earlier ∧ error = .invalid (.ofTrack track.index) .duplicateIndex) ∨
      track.Flaw error := by
  unfold checkTrack at refused
  split at refused
  next taken =>
    cases refused
    exact Or.inl ⟨List.contains_iff_mem.mp taken, rfl⟩
  next =>
    right
    split at refused
    next empty =>
      cases refused
      exact .noClips (List.isEmpty_iff.mp empty)
    next =>
      split at refused
      next reason volume =>
        cases refused
        exact .volume volume
      next =>
        obtain ⟨place, clip, reason, found, there, rfl⟩ :=
          exists_of_checkClips_eq_error refused
        rw [Nat.zero_add]
        exact .clip found there

/-- A track is refused for its own sake, or because its index was taken before. -/
theorem exists_of_checkTracks_eq_error
    {earlier : List UInt64} {tracks : List (Track α)} {error : RecipeError α}
    (refused : checkTracks earlier tracks = .error error) :
    ∃ (place : Nat) (track : Track α), tracks[place]? = some track ∧
      (((track.index ∈ earlier ∨ ∃ before < place, ∃ other : Track α,
          tracks[before]? = some other ∧ other.index = track.index) ∧
          error = .invalid (.ofTrack track.index) .duplicateIndex) ∨
        track.Flaw error) := by
  induction tracks generalizing earlier with
  | nil => cases refused
  | cons first rest inductionHypothesis =>
      unfold checkTracks at refused
      cases here : checkTrack earlier first with
      | error own =>
          rw [here] at refused
          cases refused
          refine ⟨0, first, rfl, ?_⟩
          exact (flaw_of_checkTrack_eq_error here).imp_left fun duplicate =>
            ⟨Or.inl duplicate.1, duplicate.2⟩
      | ok passed =>
          rw [here] at refused
          obtain ⟨place, track, found, flaw⟩ := inductionHypothesis refused
          refine ⟨place + 1, track, found, flaw.imp_left fun duplicate => ⟨?_, duplicate.2⟩⟩
          rcases duplicate.1 with taken | ⟨before, less, other, otherFound, equal⟩
          · rcases List.mem_cons.mp taken with first | earlier
            · exact Or.inr ⟨0, Nat.succ_pos place, _, rfl, first.symm⟩
            · exact Or.inl earlier
          · exact Or.inr ⟨before + 1, Nat.succ_lt_succ less, other, otherFound, equal⟩

end Mixdown
