import Mixdown.Proofs.Lockstep
import Mixdown.Proofs.Outcome
import Mixdown.Proofs.Recipe.Admissible
import Mixdown.Proofs.Recipe.Admission
import Mixdown.Proofs.Text.Blank

/-!
# Loading the entries of clips

A clip entry that loads describes its clip; one that does not, or whose clip is refused by
the checks, has the fault that is reported.
-/

namespace Mixdown

/-! ## Effects -/

theorem effectsOf_eq_ok_iff {texts : List String} {effects : List Effect} :
    effectsOf texts = .ok effects ↔
      List.Forall₂ (fun text effect => Effect.ofText text = .ok effect) texts effects := by
  simp only [effectsOf, mapM_eq_ok_iff, mapError_eq_ok_iff]

theorem exists_of_effectsOf_eq_error {texts : List String} {reason : Reason Float}
    (refused : effectsOf texts = .error reason) :
    ∃ text ∈ texts, ∃ error, Effect.ofText text = .error error ∧ reason = .effect error := by
  obtain ⟨text, member, failed⟩ := exists_of_mapM_eq_error refused
  obtain ⟨error, unreadable, equality⟩ := mapError_eq_error_iff.mp failed
  exact ⟨text, member, error, unreadable, equality.symm⟩

/-! ## Clips -/

section Clips

variable {entry : ClipEntry} {clip : Clip Float} {reason : Reason Float}

theorem ClipEntry.isSilence_iff :
    entry.isSilence = true ↔ ∃ name ∈ entry.classification, Text.lower name = "silence" := by
  have named (name : String) :
      Text.lowerCase name.toList = silenceClass.toList ↔ Text.lower name = "silence" := by
    rw [Text.lower, ← String.toList_inj, String.toList_ofList]
    rfl
  simp only [ClipEntry.isSilence, List.any_eq_true, decide_eq_true_eq, named]

theorem ClipEntry.isSilence_eq_false_iff :
    entry.isSilence = false ↔
      ∀ name ∈ entry.classification, Text.lower name ≠ "silence" := by
  rw [← Bool.not_eq_true, ClipEntry.isSilence_iff]
  simp only [not_exists, not_and]

theorem ClipEntry.toClip_eq_ok_iff :
    entry.toClip = .ok clip ↔
      entry.source = .ok clip.source ∧ entry.timing = .ok clip.timing ∧
        entry.clipEffects = .ok clip.effects ∧ clip.volume = entry.volume := by
  simp only [ClipEntry.toClip, bind_eq_ok_iff]
  constructor
  · rintro ⟨source, sourced, timing, timed, effects, read, equality⟩
    cases equality
    exact ⟨sourced, timed, read, rfl⟩
  · rintro ⟨sourced, timed, read, volume⟩
    refine ⟨clip.source, sourced, clip.timing, timed, clip.effects, read, ?_⟩
    rw [← volume]
    rfl

theorem ClipEntry.toClip_eq_error_cases (refused : entry.toClip = .error reason) :
    entry.source = .error reason ∨ entry.timing = .error reason ∨
      entry.clipEffects = .error reason := by
  rcases bind_eq_error_iff.mp refused with source | ⟨_, _, later⟩
  · exact Or.inl source
  · rcases bind_eq_error_iff.mp later with timing | ⟨_, _, last⟩
    · exact Or.inr (Or.inl timing)
    · rcases bind_eq_error_iff.mp last with effects | ⟨_, _, impossible⟩
      · exact Or.inr (Or.inr effects)
      · cases impossible

theorem ClipEntry.source_cases (entry : ClipEntry) :
    (entry.isSilence = true ∧ entry.source = .ok .silence) ∨
      (entry.isSilence = false ∧
        (∀ filename, entry.filename = some filename → Text.trim filename.toList = []) ∧
        entry.source = .error .noFilename) ∨
      (entry.isSilence = false ∧ ∃ filename, entry.filename = some filename ∧
        Text.trim filename.toList ≠ [] ∧
        entry.source = .ok (.file (String.ofList (Text.trim filename.toList)))) := by
  unfold ClipEntry.source
  cases silent : entry.isSilence with
  | true => exact Or.inl ⟨rfl, rfl⟩
  | false =>
      right
      rw [if_neg Bool.false_ne_true]
      cases given : entry.filename with
      | none => exact Or.inl ⟨rfl, fun _ => nofun, rfl⟩
      | some filename =>
          cases trimmed : Text.trim filename.toList with
          | nil =>
              refine Or.inl ⟨rfl, ?_, ?_⟩
              · rintro _ ⟨⟩
                exact trimmed
              · rw [Option.getD_some, trimmed]
          | cons c rest =>
              have notBlank : Text.trim filename.toList ≠ [] := trimmed ▸ List.cons_ne_nil c rest
              refine Or.inr ⟨rfl, filename, rfl, notBlank, ?_⟩
              rw [Option.getD_some, trimmed]

theorem ClipEntry.timing_cases (entry : ClipEntry) :
    (∃ duration, entry.duration = some duration ∧ entry.timing = .ok (.fixed duration)) ∨
      (entry.duration = none ∧
        ((∃ minLength maxLength, entry.minLength = some minLength ∧
            entry.maxLength = some maxLength ∧
            entry.timing = .ok (.elastic minLength maxLength minLength)) ∨
          (entry.minLength = none ∧ entry.maxLength = none ∧
            entry.timing = .error .noTiming) ∨
          (entry.minLength.isSome = !entry.maxLength.isSome) ∧
            entry.timing = .error .halfBounds)) := by
  unfold ClipEntry.timing
  cases entry.duration with
  | some duration => exact Or.inl ⟨duration, rfl, rfl⟩
  | none =>
      refine Or.inr ⟨rfl, ?_⟩
      cases entry.minLength with
      | none =>
          cases entry.maxLength with
          | none => exact Or.inr (Or.inl ⟨rfl, rfl, rfl⟩)
          | some maxLength => exact Or.inr (Or.inr ⟨rfl, rfl⟩)
      | some minLength =>
          cases entry.maxLength with
          | none => exact Or.inr (Or.inr ⟨rfl, rfl⟩)
          | some maxLength => exact Or.inl ⟨minLength, maxLength, rfl, rfl, rfl⟩

theorem ClipEntry.clipEffects_eq_ok_iff {effects : List Effect} :
    entry.clipEffects = .ok effects ↔
      effectsOf entry.effects = .ok effects ∧
        ∀ effect ∈ effects, effect.isMixDuration = false := by
  rw [ClipEntry.clipEffects, bind_eq_ok_iff]
  constructor
  · rintro ⟨found, read, kept⟩
    split at kept
    next => cases kept
    next none =>
      cases kept
      simpa only [List.any_eq_true, not_exists, not_and, Bool.not_eq_true] using
        And.intro read none
  · rintro ⟨read, none⟩
    refine ⟨effects, read, if_neg ?_⟩
    simpa only [List.any_eq_true, not_exists, not_and, Bool.not_eq_true] using none

theorem ClipEntry.fault_of_clipEffects (refused : entry.clipEffects = .error reason) :
    entry.Fault reason := by
  rcases bind_eq_error_iff.mp refused with unread | ⟨effects, read, stated⟩
  · obtain ⟨text, member, error, unreadable, rfl⟩ := exists_of_effectsOf_eq_error unread
    exact .effect member unreadable
  · split at stated
    next some =>
      cases stated
      obtain ⟨effect, member, isRule⟩ := List.any_eq_true.mp some
      obtain ⟨text, textMember, reads⟩ :=
        exists_mem_left_of_forall₂ (effectsOf_eq_ok_iff.mp read) member
      cases effect with
      | mixDuration rule => exact .endRuleOnClip textMember reads
      | _ => cases isRule
    next => cases stated

theorem ClipEntry.fault_of_toClip (refused : entry.toClip = .error reason) :
    entry.Fault reason := by
  rcases entry.toClip_eq_error_cases refused with source | timing | effects
  · rcases entry.source_cases with ⟨_, silence⟩ | ⟨notSilent, blank, failed⟩ |
      ⟨_, _, _, _, file⟩
    · rw [silence] at source
      cases source
    · rw [failed] at source
      cases source
      exact .noFilename (ClipEntry.isSilence_eq_false_iff.mp notSilent) blank
    · rw [file] at source
      cases source
  · rcases entry.timing_cases with ⟨_, _, fixed⟩ | ⟨noDuration, ⟨_, _, _, _, elastic⟩ |
      ⟨noMin, noMax, failed⟩ | ⟨half, failed⟩⟩
    · rw [fixed] at timing
      cases timing
    · rw [elastic] at timing
      cases timing
    · rw [failed] at timing
      cases timing
      exact .noTiming noDuration noMin noMax
    · rw [failed] at timing
      cases timing
      exact .halfBounds noDuration half
  · exact ClipEntry.fault_of_clipEffects effects

theorem ClipEntry.describes_of_toClip (loaded : entry.toClip = .ok clip) :
    entry.Describes clip := by
  obtain ⟨sourced, timed, read, volume⟩ := ClipEntry.toClip_eq_ok_iff.mp loaded
  obtain ⟨readEach, none⟩ := ClipEntry.clipEffects_eq_ok_iff.mp read
  refine ⟨?_, ?_, ?_, ?_, volume, effectsOf_eq_ok_iff.mp readEach, none⟩
  · intro named
    rw [ClipEntry.source, if_pos (ClipEntry.isSilence_iff.mpr named)] at sourced
    exact (Except.ok.inj sourced).symm
  · intro unnamed
    have notSilent := ClipEntry.isSilence_eq_false_iff.mpr unnamed
    rcases entry.source_cases with ⟨silent, _⟩ | ⟨_, _, failed⟩ |
      ⟨_, filename, given, _, file⟩
    · rw [notSilent] at silent
      cases silent
    · rw [failed] at sourced
      cases sourced
    · rw [file] at sourced
      exact ⟨filename, given, (Except.ok.inj sourced).symm⟩
  · intro duration given
    rw [ClipEntry.timing, given] at timed
    exact (Except.ok.inj timed).symm
  · intro noDuration
    rcases entry.timing_cases with ⟨_, given, _⟩ | ⟨_, ⟨minLength, maxLength, minGiven, maxGiven,
      elastic⟩ | ⟨_, _, failed⟩ | ⟨_, failed⟩⟩
    · rw [noDuration] at given
      cases given
    · rw [elastic] at timed
      exact ⟨minLength, maxLength, minGiven, maxGiven, (Except.ok.inj timed).symm⟩
    · rw [failed] at timed
      cases timed
    · rw [failed] at timed
      cases timed

end Clips

/-! ## Checked clips -/

theorem checkVolume_eq_ok_iff {volume : Option Float} :
    checkVolume volume = .ok () ↔ IsVolume volume := by
  cases volume with
  | none => exact ⟨fun _ _ => nofun, fun _ => rfl⟩
  | some percent =>
      rw [checkVolume, ite_error_eq_ok_iff]
      refine (and_iff_left rfl).trans ((Double.not_infinite_or_lt_iff isFinite_zero).trans ?_)
      exact ⟨fun good _ equality => Option.some.inj equality ▸ good, fun good => good _ rfl⟩

theorem exists_of_checkVolume_eq_error {volume : Option Float} {reason : Reason Float}
    (refused : checkVolume volume = .error reason) :
    ∃ percent, volume = some percent ∧ (percent.isFinite = false ∨ percent < 0.0) ∧
      reason = .badVolume percent := by
  cases volume with
  | none => cases refused
  | some percent =>
      rw [checkVolume] at refused
      split at refused
      next bad =>
        cases refused
        exact ⟨percent, rfl, bad, rfl⟩
      next => cases refused

theorem checkFixed_eq_ok_iff {duration : Float} :
    checkTiming (.fixed duration) = .ok () ↔ duration.isFinite = true ∧ 0.0 < duration := by
  rw [checkTiming, ite_error_eq_ok_iff]
  exact (and_iff_left rfl).trans (Double.not_infinite_or_le_iff isFinite_zero)

theorem checkElastic_eq_ok_iff {minLength maxLength length : Float} :
    checkTiming (.elastic minLength maxLength length) = .ok () ↔
      minLength.isFinite = true ∧ maxLength.isFinite = true ∧
        0.0 ≤ minLength ∧ minLength ≤ maxLength ∧ 0.0 < maxLength := by
  rw [checkTiming, ite_error_eq_ok_iff, ite_error_eq_ok_iff, ite_error_eq_ok_iff]
  constructor
  · rintro ⟨minGood, maxGood, notZero, _⟩
    obtain ⟨minFinite, nonnegative⟩ := (Double.not_infinite_or_lt_iff isFinite_zero).mp minGood
    obtain ⟨maxFinite, ordered⟩ := (Double.not_infinite_or_lt_iff minFinite).mp maxGood
    exact ⟨minFinite, maxFinite, nonnegative, ordered,
      Double.lt_of_not_le maxFinite isFinite_zero notZero⟩
  · rintro ⟨minFinite, maxFinite, nonnegative, ordered, positive⟩
    exact ⟨(Double.not_infinite_or_lt_iff isFinite_zero).mpr ⟨minFinite, nonnegative⟩,
      (Double.not_infinite_or_lt_iff minFinite).mpr ⟨maxFinite, ordered⟩,
      fun zero => Double.not_lt_of_le zero positive, rfl⟩

section CheckedClips

variable {entry : ClipEntry} {clip : Clip Float} {reason : Reason Float}

theorem checkFile_eq_ok_iff {filename : String} :
    (checkSource (.file filename) : Except (Reason Float) Unit) = .ok () ↔
      Text.trim filename.toList ≠ [] := by
  rw [checkSource, ite_error_eq_ok_iff, List.isEmpty_iff, and_iff_left rfl]

theorem checkSource_eq_ok_iff {filename : List Char} :
    (checkSource (.file (String.ofList (Text.trim filename))) : Except (Reason Float) Unit) =
      .ok () ↔ Text.trim filename ≠ [] := by
  rw [checkFile_eq_ok_iff, String.toList_ofList, Text.trim_trim]

/-- Whether a clip is silent was told from the names of its class alone. -/
theorem ClipEntry.Describes.source_cases (describes : entry.Describes clip) :
    ((∃ name ∈ entry.classification, Text.lower name = "silence") ∧ clip.source = .silence) ∨
      ((∀ name ∈ entry.classification, Text.lower name ≠ "silence") ∧
        ∃ filename, entry.filename = some filename ∧
          clip.source = .file (String.ofList (Text.trim filename.toList))) := by
  by_cases named : ∃ name ∈ entry.classification, Text.lower name = "silence"
  · exact Or.inl ⟨named, describes.silence named⟩
  · have unnamed : ∀ name ∈ entry.classification, Text.lower name ≠ "silence" :=
      fun name member equal => named ⟨name, member, equal⟩
    exact Or.inr ⟨unnamed, describes.file unnamed⟩

theorem ClipEntry.Describes.admissible
    (describes : entry.Describes clip) (admitted : checkClip clip = .ok ()) :
    entry.Admissible := by
  obtain ⟨sourceAdmitted, timingAdmitted, volumeAdmitted⟩ := checkClip_eq_ok_iff.mp admitted
  constructor
  · rcases describes.source_cases with ⟨named, _⟩ | ⟨_, filename, given, source⟩
    · exact Or.inl named
    · rw [source] at sourceAdmitted
      exact Or.inr ⟨filename, given, checkSource_eq_ok_iff.mp sourceAdmitted⟩
  · cases given : entry.duration with
    | some duration =>
        rw [describes.fixed duration given] at timingAdmitted
        exact Or.inl ⟨duration, rfl, checkFixed_eq_ok_iff.mp timingAdmitted⟩
    | none =>
        obtain ⟨minLength, maxLength, minGiven, maxGiven, timing⟩ := describes.elastic given
        rw [timing] at timingAdmitted
        exact Or.inr ⟨rfl, minLength, maxLength, minGiven, maxGiven,
          checkElastic_eq_ok_iff.mp timingAdmitted⟩
  · intro text member
    obtain ⟨effect, found, reads⟩ := exists_mem_left_of_forall₂ describes.effects.flip member
    exact ⟨effect, reads, describes.noEndRule effect found⟩
  · rw [← describes.volume]
    exact checkVolume_eq_ok_iff.mp volumeAdmitted

theorem ClipEntry.Describes.fault
    (describes : entry.Describes clip) (refused : checkClip clip = .error reason) :
    entry.Fault reason := by
  rcases bind_eq_error_iff.mp refused with source | ⟨_, _, later⟩
  · rcases describes.source_cases with ⟨_, silence⟩ | ⟨unnamed, filename, given, isFile⟩
    · rw [silence] at source
      cases source
    · rw [isFile, checkSource, String.toList_ofList, Text.trim_trim] at source
      split at source
      next blank =>
        cases source
        refine .noFilename unnamed fun other otherGiven => ?_
        rw [given] at otherGiven
        cases otherGiven
        exact List.isEmpty_iff.mp blank
      next => cases source
  · rcases bind_eq_error_iff.mp later with timing | ⟨_, _, volume⟩
    · cases given : entry.duration with
      | some duration =>
          rw [describes.fixed duration given, checkTiming] at timing
          split at timing
          next bad =>
            cases timing
            exact .badDuration given bad
          next => cases timing
      | none =>
          obtain ⟨minLength, maxLength, minGiven, maxGiven, isElastic⟩ := describes.elastic given
          rw [isElastic, checkTiming] at timing
          split at timing
          next bad =>
            cases timing
            exact .badMinLength given minGiven bad
          next =>
            split at timing
            next bad =>
              cases timing
              exact .badMaxLength given minGiven maxGiven bad
            next =>
              split at timing
              next bad =>
                cases timing
                exact .zeroMaxLength given maxGiven bad
              next => cases timing
    · rw [describes.volume] at volume
      obtain ⟨percent, given, bad, rfl⟩ := exists_of_checkVolume_eq_error volume
      exact .badVolume given bad

end CheckedClips

end Mixdown
