import Mixdown.Proofs.Recipe.ClipEntry

/-!
# The first fault of a recipe

What a recipe must be like to be admitted, and which of its faults a recipe that is not
admitted is refused for.  Tracks are looked at in sequence: first whether the index was
taken before, then whether there are clips, then the volume, and then the clips in
sequence, each by its source, its lengths and its volume.
-/

namespace Mixdown

/-! ## Sound recipes -/

/-- Silence, or a file with more than blanks for a name. -/
def ClipSource.IsSound : ClipSource → Prop
  | .silence => True
  | .file filename => ∃ c ∈ filename.toList, Text.isBlank c = false

/-- A fixed length above zero, or bounds that are in order and allow such a length. -/
def ClipTiming.IsSound : ClipTiming Float → Prop
  | .fixed duration => duration.isFinite = true ∧ 0.0 < duration
  | .elastic minLength maxLength _ =>
      minLength.isFinite = true ∧ maxLength.isFinite = true ∧
        0.0 ≤ minLength ∧ minLength ≤ maxLength ∧ 0.0 < maxLength

structure Clip.IsSound (clip : Clip Float) : Prop where
  source : clip.source.IsSound
  timing : clip.timing.IsSound
  volume : IsVolume clip.volume

structure Track.IsSound (track : Track Float) : Prop where
  clips_ne_nil : track.clips ≠ []
  volume : IsVolume track.volume
  clips : ∀ clip ∈ track.clips, clip.IsSound

structure Recipe.IsSound (recipe : Recipe Float) : Prop where
  tracks_ne_nil : recipe.tracks ≠ []
  distinct : (recipe.tracks.map Track.index).Nodup
  tracks : ∀ track ∈ recipe.tracks, track.IsSound

/-! ## First faults -/

/-- Bounds are looked at from the least length on. -/
inductive ClipTiming.FirstFault : ClipTiming Float → Reason Float → Prop
  | badDuration {duration : Float}
      (bad : ¬ (duration.isFinite = true ∧ 0.0 < duration)) :
      FirstFault (.fixed duration) (.badDuration duration)
  | badMinLength {minLength maxLength length : Float}
      (bad : ¬ (minLength.isFinite = true ∧ 0.0 ≤ minLength)) :
      FirstFault (.elastic minLength maxLength length) (.badMinLength minLength)
  | badMaxLength {minLength maxLength length : Float}
      (minGood : minLength.isFinite = true ∧ 0.0 ≤ minLength)
      (bad : ¬ (maxLength.isFinite = true ∧ minLength ≤ maxLength)) :
      FirstFault (.elastic minLength maxLength length) (.badMaxLength maxLength minLength)
  | zeroMaxLength {minLength maxLength length : Float}
      (minGood : minLength.isFinite = true ∧ 0.0 ≤ minLength)
      (maxGood : maxLength.isFinite = true ∧ minLength ≤ maxLength)
      (bad : ¬ 0.0 < maxLength) :
      FirstFault (.elastic minLength maxLength length) .zeroMaxLength

inductive Clip.FirstFault (clip : Clip Float) : Reason Float → Prop
  | source (bad : ¬ clip.source.IsSound) : FirstFault clip .noFilename
  | timing {reason : Reason Float} (sourceSound : clip.source.IsSound)
      (fault : clip.timing.FirstFault reason) : FirstFault clip reason
  | volume {percent : Float} (sourceSound : clip.source.IsSound)
      (timingSound : clip.timing.IsSound) (given : clip.volume = some percent)
      (bad : ¬ IsVolume clip.volume) : FirstFault clip (.badVolume percent)

/-- The first fault of a track that comes after tracks with the indices `earlier`. -/
inductive Track.FirstFault (earlier : List UInt64) (track : Track Float) :
    RecipeError Float → Prop
  | duplicateIndex (taken : track.index ∈ earlier) :
      FirstFault earlier track (.invalid (.ofTrack track.index) .duplicateIndex)
  | noClips (fresh : track.index ∉ earlier) (empty : track.clips = []) :
      FirstFault earlier track (.noClips track.index)
  | volume {percent : Float} (fresh : track.index ∉ earlier) (notEmpty : track.clips ≠ [])
      (given : track.volume = some percent) (bad : ¬ IsVolume track.volume) :
      FirstFault earlier track (.invalid (.ofTrack track.index) (.badVolume percent))
  | clip {before after : List (Clip Float)} {clip : Clip Float} {reason : Reason Float}
      (fresh : track.index ∉ earlier) (volumeGood : IsVolume track.volume)
      (split : track.clips = before ++ clip :: after)
      (beforeSound : ∀ other ∈ before, other.IsSound) (fault : clip.FirstFault reason) :
      FirstFault earlier track (.invalid (.ofClip track.index before.length) reason)

inductive Recipe.FirstFault (recipe : Recipe Float) : RecipeError Float → Prop
  | noTracks (empty : recipe.tracks = []) : FirstFault recipe .noTracks
  | track {before after : List (Track Float)} {track : Track Float} {error : RecipeError Float}
      (split : recipe.tracks = before ++ track :: after)
      (distinct : (before.map Track.index).Nodup)
      (beforeSound : ∀ other ∈ before, other.IsSound)
      (fault : track.FirstFault (before.map Track.index) error) :
      FirstFault recipe error

/-! ## Clips -/

theorem checkSource_eq_ok_iff_isSound {source : ClipSource} :
    (checkSource source : Except (Reason Float) Unit) = .ok () ↔ source.IsSound := by
  cases source with
  | silence => simp [checkSource, ClipSource.IsSound]
  | file filename =>
      rw [checkFile_eq_ok_iff, Ne, Text.trim_eq_nil_iff]
      simp [ClipSource.IsSound]

theorem checkSource_eq_error_iff {source : ClipSource} {reason : Reason Float} :
    checkSource source = .error reason ↔ ¬ source.IsSound ∧ reason = .noFilename := by
  rw [← checkSource_eq_ok_iff_isSound]
  cases source with
  | silence => simp [checkSource]
  | file filename =>
      by_cases blank : Text.trim filename.toList = []
      · simp [checkSource, blank, eq_comm]
      · simp [checkSource, blank]

theorem checkTiming_eq_ok_iff_isSound {timing : ClipTiming Float} :
    checkTiming timing = .ok () ↔ timing.IsSound := by
  cases timing with
  | fixed duration => exact checkFixed_eq_ok_iff
  | elastic minLength maxLength length => exact checkElastic_eq_ok_iff

theorem checkTiming_eq_error_iff {timing : ClipTiming Float} {reason : Reason Float} :
    checkTiming timing = .error reason ↔ timing.FirstFault reason := by
  constructor
  · intro refused
    cases timing with
    | fixed duration =>
        rw [checkTiming] at refused
        split at refused
        next bad =>
          cases refused
          exact .badDuration ((Double.infinite_or_le_iff isFinite_zero).mp bad)
        next => cases refused
    | elastic minLength maxLength length =>
        rw [checkTiming] at refused
        split at refused
        next bad =>
          cases refused
          exact .badMinLength ((Double.infinite_or_lt_iff isFinite_zero).mp bad)
        next notBad =>
          have minGood := (Double.not_infinite_or_lt_iff isFinite_zero).mp notBad
          split at refused
          next bad =>
            cases refused
            exact .badMaxLength minGood ((Double.infinite_or_lt_iff minGood.1).mp bad)
          next notBad =>
            have maxGood := (Double.not_infinite_or_lt_iff minGood.1).mp notBad
            split at refused
            next zero =>
              cases refused
              exact .zeroMaxLength minGood maxGood (Double.not_lt_of_le zero)
            next => cases refused
  · intro fault
    cases fault with
    | badDuration bad =>
        exact if_pos ((Double.infinite_or_le_iff isFinite_zero).mpr bad)
    | badMinLength bad =>
        exact if_pos ((Double.infinite_or_lt_iff isFinite_zero).mpr bad)
    | badMaxLength minGood bad =>
        rw [checkTiming, if_neg]
        · exact if_pos ((Double.infinite_or_lt_iff minGood.1).mpr bad)
        · exact (Double.not_infinite_or_lt_iff isFinite_zero).mpr minGood
    | zeroMaxLength minGood maxGood bad =>
        rw [checkTiming, if_neg, if_neg]
        · exact if_pos (Double.le_of_not_lt isFinite_zero maxGood.1 bad)
        · exact (Double.not_infinite_or_lt_iff minGood.1).mpr maxGood
        · exact (Double.not_infinite_or_lt_iff isFinite_zero).mpr minGood

theorem checkVolume_eq_error_iff {volume : Option Float} {reason : Reason Float} :
    checkVolume volume = .error reason ↔
      ∃ percent, volume = some percent ∧ ¬ IsVolume volume ∧ reason = .badVolume percent := by
  by_cases good : IsVolume volume
  · simp [checkVolume_eq_ok_iff.mpr good, good]
  · cases checked : checkVolume volume with
    | ok passed => exact absurd (checkVolume_eq_ok_iff.mp checked) good
    | error own =>
        obtain ⟨percent, rfl, _, rfl⟩ := exists_of_checkVolume_eq_error checked
        simp [good, eq_comm]

theorem checkClip_eq_ok_iff_isSound {clip : Clip Float} :
    checkClip clip = .ok () ↔ clip.IsSound := by
  rw [checkClip_eq_ok_iff, checkSource_eq_ok_iff_isSound, checkTiming_eq_ok_iff_isSound,
    checkVolume_eq_ok_iff]
  exact ⟨fun sound => ⟨sound.1, sound.2.1, sound.2.2⟩,
    fun sound => ⟨sound.source, sound.timing, sound.volume⟩⟩

theorem checkClip_eq_error_iff {clip : Clip Float} {reason : Reason Float} :
    checkClip clip = .error reason ↔ clip.FirstFault reason := by
  rw [checkClip, check_bind_eq_error_iff, check_bind_eq_error_iff, checkSource_eq_error_iff,
    checkSource_eq_ok_iff_isSound, checkTiming_eq_error_iff, checkTiming_eq_ok_iff_isSound,
    checkVolume_eq_error_iff]
  constructor
  · rintro (⟨bad, rfl⟩ | ⟨sourceSound, fault | ⟨timingSound, percent, given, bad, rfl⟩⟩)
    · exact .source bad
    · exact .timing sourceSound fault
    · exact .volume sourceSound timingSound given bad
  · intro fault
    cases fault with
    | source bad => exact Or.inl ⟨bad, rfl⟩
    | timing sourceSound fault => exact Or.inr ⟨sourceSound, Or.inl fault⟩
    | volume sourceSound timingSound given bad =>
        exact Or.inr ⟨sourceSound, Or.inr ⟨timingSound, _, given, bad, rfl⟩⟩

/-! ## Tracks -/

theorem checkClips_eq_ok_iff_isSound {track : UInt64} {position : Nat}
    {clips : List (Clip Float)} :
    checkClips track position clips = .ok () ↔ ∀ clip ∈ clips, clip.IsSound := by
  simp only [checkClips_eq_ok_iff, checkClip_eq_ok_iff_isSound]

/-- The place where a list is split is its start, or lies in the rest. -/
theorem exists_split_cons_iff
    {β : Type} {first : β} {rest : List β} {good : List β → β → Prop} :
    (∃ before item after, first :: rest = before ++ item :: after ∧ good before item) ↔
      good [] first ∨
        ∃ before item after, rest = before ++ item :: after ∧ good (first :: before) item := by
  constructor
  · rintro ⟨before, item, after, split, holds⟩
    cases before with
    | nil =>
        obtain ⟨rfl, rfl⟩ := List.cons.inj split
        exact Or.inl holds
    | cons other more =>
        obtain ⟨rfl, rfl⟩ := List.cons.inj split
        exact Or.inr ⟨more, item, after, rfl, holds⟩
  · rintro (holds | ⟨before, item, after, rfl, holds⟩)
    · exact ⟨[], first, rest, rfl, holds⟩
    · exact ⟨first :: before, item, after, rfl, holds⟩

section FirstRefused

variable {α : Type} [Scalar α] {error : RecipeError α}

theorem checkClips_eq_error_iff
    {track : UInt64} {position : Nat} {clips : List (Clip α)} :
    checkClips track position clips = .error error ↔
      ∃ before clip after, clips = before ++ clip :: after ∧
        checkClips track position before = .ok () ∧
          ∃ reason, checkClip clip = .error reason ∧
            error = .invalid (.ofClip track (position + before.length)) reason := by
  induction clips generalizing position with
  | nil => simp [checkClips]
  | cons first rest inductionHypothesis =>
      rw [checkClips, exists_split_cons_iff]
      cases checked : checkClip first with
      | error own => simp [checkClips, checked, eq_comm]
      | ok passed =>
          simp [checkClips, checked, inductionHypothesis, Nat.add_assoc, Nat.add_comm 1]

theorem checkTracks_eq_error_iff {earlier : List UInt64} {tracks : List (Track α)} :
    checkTracks earlier tracks = .error error ↔
      ∃ before track after, tracks = before ++ track :: after ∧
        checkTracks earlier before = .ok () ∧
          checkTrack ((before.map Track.index).reverse ++ earlier) track = .error error := by
  induction tracks generalizing earlier with
  | nil => simp [checkTracks]
  | cons first rest inductionHypothesis =>
      rw [checkTracks, exists_split_cons_iff]
      cases checked : checkTrack earlier first with
      | error own => simp [checkTracks, checked, bind, Except.bind]
      | ok passed => simp [checkTracks, checked, inductionHypothesis, bind, Except.bind]

/-- The order of the earlier indices does not matter. -/
theorem checkTrack_reverse (earlier : List UInt64) (track : Track α) :
    checkTrack earlier.reverse track = checkTrack earlier track := by
  simp [checkTrack]

end FirstRefused

theorem checkTrack_eq_error_iff
    {earlier : List UInt64} {track : Track Float} {error : RecipeError Float} :
    checkTrack earlier track = .error error ↔ track.FirstFault earlier error := by
  constructor
  · intro refused
    rw [checkTrack] at refused
    split at refused
    next taken =>
      cases refused
      exact .duplicateIndex (List.contains_iff_mem.mp taken)
    next notTaken =>
      have fresh : track.index ∉ earlier := fun taken => notTaken (List.contains_iff_mem.mpr taken)
      split at refused
      next empty =>
        cases refused
        exact .noClips fresh (List.isEmpty_iff.mp empty)
      next notEmpty =>
        have hasClips : track.clips ≠ [] := fun empty => notEmpty (List.isEmpty_iff.mpr empty)
        split at refused
        next reason volumeRefused =>
          cases refused
          obtain ⟨percent, given, bad, rfl⟩ := checkVolume_eq_error_iff.mp volumeRefused
          exact .volume fresh hasClips given bad
        next volumePassed =>
          have volumeGood := checkVolume_eq_ok_iff.mp volumePassed
          obtain ⟨before, clip, after, split, passed, reason, clipRefused, rfl⟩ :=
            checkClips_eq_error_iff.mp refused
          rw [Nat.zero_add]
          exact .clip fresh volumeGood split (checkClips_eq_ok_iff_isSound.mp passed)
            (checkClip_eq_error_iff.mp clipRefused)
  · intro fault
    cases fault with
    | duplicateIndex taken => simp [checkTrack, taken]
    | noClips fresh empty => simp [checkTrack, fresh, empty]
    | volume fresh notEmpty given bad =>
        have refused := checkVolume_eq_error_iff.mpr ⟨_, given, bad, rfl⟩
        simp [checkTrack, fresh, notEmpty, refused]
    | @clip before after clip reason fresh volumeGood split beforeSound fault =>
        have passed := checkVolume_eq_ok_iff.mpr volumeGood
        have notEmpty : track.clips ≠ [] := by simp [split]
        have refused : checkClips track.index 0 track.clips =
            .error (.invalid (.ofClip track.index before.length) reason) :=
          checkClips_eq_error_iff.mpr ⟨before, clip, after, split,
            checkClips_eq_ok_iff_isSound.mpr beforeSound, reason,
            checkClip_eq_error_iff.mpr fault, by rw [Nat.zero_add]⟩
        simp [checkTrack, fresh, notEmpty, passed, refused]

/-! ## Recipes -/

theorem Track.isAdmitted_iff_isSound {track : Track Float} :
    track.IsAdmitted ↔ track.IsSound := by
  simp only [Track.IsAdmitted, checkVolume_eq_ok_iff, checkClip_eq_ok_iff_isSound]
  exact ⟨fun sound => ⟨sound.1, sound.2.1, sound.2.2⟩,
    fun sound => ⟨sound.clips_ne_nil, sound.volume, sound.clips⟩⟩

theorem checkTracks_eq_ok_iff_isSound {tracks : List (Track Float)} :
    checkTracks [] tracks = .ok () ↔
      (tracks.map Track.index).Nodup ∧ ∀ track ∈ tracks, track.IsSound := by
  simp [checkTracks_eq_ok_iff, Track.isAdmitted_iff_isSound]

/-- A recipe is admitted when it is sound, and refused for its first fault when it is
not. -/
theorem Recipe.check_outcome (recipe : Recipe Float) :
    (recipe.check = .ok () ↔ recipe.IsSound) ∧
      ∀ error, recipe.check = .error error ↔ recipe.FirstFault error := by
  constructor
  · rw [Recipe.check_eq_ok_iff]
    simp only [Track.isAdmitted_iff_isSound]
    exact ⟨fun sound => ⟨sound.1, sound.2.1, sound.2.2⟩,
      fun sound => ⟨sound.tracks_ne_nil, sound.distinct, sound.tracks⟩⟩
  · intro error
    constructor
    · intro refused
      rw [Recipe.check] at refused
      split at refused
      next empty =>
        cases refused
        exact .noTracks (List.isEmpty_iff.mp empty)
      next =>
        obtain ⟨before, track, after, split, passed, trackRefused⟩ :=
          checkTracks_eq_error_iff.mp refused
        obtain ⟨distinct, beforeSound⟩ := checkTracks_eq_ok_iff_isSound.mp passed
        rw [List.append_nil, checkTrack_reverse] at trackRefused
        exact .track split distinct beforeSound (checkTrack_eq_error_iff.mp trackRefused)
    · intro fault
      cases fault with
      | noTracks empty => simp [Recipe.check, empty]
      | @track before after track error split distinct beforeSound fault =>
          have notEmpty : recipe.tracks.isEmpty = false := by simp [split]
          rw [Recipe.check, notEmpty, if_neg Bool.false_ne_true, checkTracks_eq_error_iff]
          refine ⟨before, track, after, split, ?_, ?_⟩
          · exact checkTracks_eq_ok_iff_isSound.mpr ⟨distinct, beforeSound⟩
          · rw [List.append_nil, checkTrack_reverse]
            exact checkTrack_eq_error_iff.mpr fault

end Mixdown
