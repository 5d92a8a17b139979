import Mathlib.Data.List.Nodup
import Mixdown.Proofs.Double
import Mixdown.Recipe.Loading

/-!
# Documents and the recipes they describe

What a document must say to be a recipe, the recipe that it then describes, and what can
be wrong with it, and where.  A document with a fault is not admissible.
-/

namespace Mixdown

/-! ## What a document must say -/

/-- Absent, or finite and not negative. -/
def IsVolume (volume : Option Float) : Prop :=
  ∀ percent, volume = some percent → percent.isFinite = true ∧ 0.0 ≤ percent

structure ClipEntry.Admissible (entry : ClipEntry) : Prop where
  source :
    (∃ name ∈ entry.classification, Text.lower name = "silence") ∨
      ∃ filename, entry.filename = some filename ∧ Text.trim filename.toList ≠ []
  timing :
    (∃ duration, entry.duration = some duration ∧ duration.isFinite = true ∧ 0.0 < duration) ∨
      (entry.duration = none ∧ ∃ minLength maxLength,
        entry.minLength = some minLength ∧ entry.maxLength = some maxLength ∧
        minLength.isFinite = true ∧ maxLength.isFinite = true ∧
        0.0 ≤ minLength ∧ minLength ≤ maxLength ∧ 0.0 < maxLength)
  effects :
    ∀ text ∈ entry.effects, ∃ effect,
      Effect.ofText text = .ok effect ∧ effect.isMixDuration = false
  volume : IsVolume entry.volume

structure TrackEntry.Admissible (entry : TrackEntry) : Prop where
  clips_ne_nil : entry.clips ≠ []
  effects : ∀ text ∈ entry.effects, ∃ effect, Effect.ofText text = .ok effect
  volume : IsVolume entry.volume
  clips : ∀ clip ∈ entry.clips, clip.Admissible

structure Document.Admissible (document : Document) : Prop where
  tracks_ne_nil : document.tracks ≠ []
  distinct :
    (document.tracks.zipIdx.map fun placed => placed.1.resolvedIndex placed.2).Nodup
  tracks : ∀ entry ∈ document.tracks, entry.Admissible

/-! ## What a document describes -/

structure ClipEntry.Describes (entry : ClipEntry) (clip : Clip Float) : Prop where
  silence :
    (∃ name ∈ entry.classification, Text.lower name = "silence") → clip.source = .silence
  file :
    (∀ name ∈ entry.classification, Text.lower name ≠ "silence") →
      ∃ filename, entry.filename = some filename ∧
        clip.source = .file (String.ofList (Text.trim filename.toList))
  fixed : ∀ duration, entry.duration = some duration → clip.timing = .fixed duration
  elastic :
    entry.duration = none →
      ∃ minLength maxLength, entry.minLength = some minLength ∧
        entry.maxLength = some maxLength ∧
        clip.timing = .elastic minLength maxLength minLength
  volume : clip.volume = entry.volume
  effects :
    List.Forall₂ (fun text effect => Effect.ofText text = .ok effect) entry.effects clip.effects
  noEndRule : ∀ effect ∈ clip.effects, effect.isMixDuration = false

structure TrackEntry.Describes (entry : TrackEntry) (position : Nat) (track : Track Float) :
    Prop where
  index : track.index = entry.resolvedIndex position
  clips : List.Forall₂ ClipEntry.Describes entry.clips track.clips
  volume : track.volume = entry.volume
  effects :
    List.Forall₂ (fun text effect => Effect.ofText text = .ok effect) entry.effects track.effects
  duration :
    track.duration = Scalar.sum (track.clips.map fun clip => clip.timing.duration)
  minLength :
    track.minLength = Scalar.sum (track.clips.map fun clip => clip.timing.minLength)
  maxLength :
    track.maxLength = Scalar.sum (track.clips.map fun clip => clip.timing.maxLength)

structure Document.Describes (document : Document) (recipe : Recipe Float) : Prop where
  title : recipe.title = document.title
  tracks :
    List.Forall₂ (fun placed track => placed.1.Describes placed.2 track)
      document.tracks.zipIdx recipe.tracks

/-! ## What can be wrong with a document -/

inductive ClipEntry.Fault (entry : ClipEntry) : Reason Float → Prop
  | noFilename
      (notSilent : ∀ name ∈ entry.classification, Text.lower name ≠ "silence")
      (blank : ∀ filename, entry.filename = some filename → Text.trim filename.toList = []) :
      Fault entry .noFilename
  | noTiming (noDuration : entry.duration = none) (noMinLength : entry.minLength = none)
      (noMaxLength : entry.maxLength = none) :
      Fault entry .noTiming
  | halfBounds (noDuration : entry.duration = none)
      (half : entry.minLength.isSome = !entry.maxLength.isSome) :
      Fault entry .halfBounds
  | effect {text : String} {error : EffectError} (member : text ∈ entry.effects)
      (unreadable : Effect.ofText text = .error error) :
      Fault entry (.effect error)
  | endRuleOnClip {text : String} {rule : EndRule} (member : text ∈ entry.effects)
      (stated : Effect.ofText text = .ok (.mixDuration rule)) :
      Fault entry .endRuleOnClip
  | badDuration {duration : Float} (given : entry.duration = some duration)
      (bad : duration.isFinite = false ∨ duration ≤ 0.0) :
      Fault entry (.badDuration duration)
  | badMinLength {minLength : Float} (noDuration : entry.duration = none)
      (given : entry.minLength = some minLength)
      (bad : minLength.isFinite = false ∨ minLength < 0.0) :
      Fault entry (.badMinLength minLength)
  | badMaxLength {minLength maxLength : Float} (noDuration : entry.duration = none)
      (minGiven : entry.minLength = some minLength) (maxGiven : entry.maxLength = some maxLength)
      (bad : maxLength.isFinite = false ∨ maxLength < minLength) :
      Fault entry (.badMaxLength maxLength minLength)
  | zeroMaxLength {maxLength : Float} (noDuration : entry.duration = none)
      (given : entry.maxLength = some maxLength) (bad : maxLength ≤ 0.0) :
      Fault entry .zeroMaxLength
  | badVolume {volume : Float} (given : entry.volume = some volume)
      (bad : volume.isFinite = false ∨ volume < 0.0) :
      Fault entry (.badVolume volume)

/-- What can be wrong with a track entry of some index, or with a clip entry in it. -/
inductive TrackEntry.Fault (entry : TrackEntry) (index : UInt64) : RecipeError Float → Prop
  | noClips (empty : entry.clips = []) : Fault entry index (.noClips index)
  | effect {text : String} {error : EffectError} (member : text ∈ entry.effects)
      (unreadable : Effect.ofText text = .error error) :
      Fault entry index (.invalid (.ofTrack index) (.effect error))
  | badVolume {volume : Float} (given : entry.volume = some volume)
      (bad : volume.isFinite = false ∨ volume < 0.0) :
      Fault entry index (.invalid (.ofTrack index) (.badVolume volume))
  | clip {place : Nat} {clip : ClipEntry} {reason : Reason Float}
      (found : entry.clips[place]? = some clip) (fault : clip.Fault reason) :
      Fault entry index (.invalid (.ofClip index place) reason)

inductive Document.Fault (document : Document) : RecipeError Float → Prop
  | noTracks (empty : document.tracks = []) : Fault document .noTracks
  | duplicateIndex {earlier position : Nat} {other entry : TrackEntry}
      (otherFound : document.tracks[earlier]? = some other)
      (found : document.tracks[position]? = some entry) (before : earlier < position)
      (same : other.resolvedIndex earlier = entry.resolvedIndex position) :
      Fault document (.invalid (.ofTrack (entry.resolvedIndex position)) .duplicateIndex)
  | track {position : Nat} {entry : TrackEntry} {error : RecipeError Float}
      (found : document.tracks[position]? = some entry)
      (fault : entry.Fault (entry.resolvedIndex position) error) :
      Fault document error

/-! ## Faults rule admission out -/

theorem isFinite_zero : (0.0 : Float).isFinite = true := by
  decide +kernel

theorem IsVolume.good {volume : Option Float} {percent : Float} (isVolume : IsVolume volume)
    (given : volume = some percent) : ¬ (percent.isFinite = false ∨ percent < 0.0) :=
  (Double.not_infinite_or_lt_iff isFinite_zero).mpr (isVolume percent given)

theorem ClipEntry.Fault.not_admissible
    {entry : ClipEntry} {reason : Reason Float} (fault : entry.Fault reason) :
    ¬ entry.Admissible := by
  intro admissible
  cases fault with
  | noFilename notSilent blank =>
      rcases admissible.source with ⟨name, member, silence⟩ | ⟨filename, given, notBlank⟩
      · exact notSilent name member silence
      · exact notBlank (blank filename given)
  | noTiming noDuration noMinLength noMaxLength =>
      rcases admissible.timing with ⟨_, given, _⟩ | ⟨_, _, _, given, _⟩
      · cases noDuration.symm.trans given
      · cases noMinLength.symm.trans given
  | halfBounds noDuration half =>
      rcases admissible.timing with ⟨_, given, _⟩ | ⟨_, _, _, minGiven, maxGiven, _⟩
      · cases noDuration.symm.trans given
      · rw [minGiven, maxGiven] at half
        cases half
  | effect member unreadable =>
      obtain ⟨_, reads, _⟩ := admissible.effects _ member
      cases unreadable.symm.trans reads
  | endRuleOnClip member stated =>
      obtain ⟨effect, reads, isNone⟩ := admissible.effects _ member
      cases stated.symm.trans reads
      cases isNone
  | badDuration given bad =>
      rcases admissible.timing with ⟨_, otherGiven, good⟩ | ⟨noDuration, _⟩
      · cases given.symm.trans otherGiven
        exact (Double.not_infinite_or_le_iff isFinite_zero).mpr good bad
      · cases noDuration.symm.trans given
  | badMinLength noDuration given bad =>
      rcases admissible.timing with ⟨_, durationGiven, _⟩ | ⟨_, _, _, minGiven, _, minFinite, _,
        nonnegative, _⟩
      · cases noDuration.symm.trans durationGiven
      · cases given.symm.trans minGiven
        exact (Double.not_infinite_or_lt_iff isFinite_zero).mpr ⟨minFinite, nonnegative⟩ bad
  | badMaxLength noDuration minGiven maxGiven bad =>
      rcases admissible.timing with ⟨_, durationGiven, _⟩ | ⟨_, _, _, otherMin, otherMax,
        minFinite, maxFinite, _, ordered, _⟩
      · cases noDuration.symm.trans durationGiven
      · cases minGiven.symm.trans otherMin
        cases maxGiven.symm.trans otherMax
        exact (Double.not_infinite_or_lt_iff minFinite).mpr ⟨maxFinite, ordered⟩ bad
  | zeroMaxLength noDuration given bad =>
      rcases admissible.timing with ⟨_, durationGiven, _⟩ | ⟨_, _, _, _, maxGiven, _, _, _, _,
        positive⟩
      · cases noDuration.symm.trans durationGiven
      · cases given.symm.trans maxGiven
        exact Double.not_lt_of_le bad positive
  | badVolume given bad => exact admissible.volume.good given bad

theorem TrackEntry.Fault.not_admissible
    {entry : TrackEntry} {index : UInt64} {error : RecipeError Float}
    (fault : entry.Fault index error) : ¬ entry.Admissible := by
  intro admissible
  cases fault with
  | noClips empty => exact admissible.clips_ne_nil empty
  | effect member unreadable =>
      obtain ⟨_, reads⟩ := admissible.effects _ member
      cases unreadable.symm.trans reads
  | badVolume given bad => exact admissible.volume.good given bad
  | clip found clipFault =>
      exact clipFault.not_admissible (admissible.clips _ (List.mem_of_getElem? found))

theorem Document.Fault.not_admissible
    {document : Document} {error : RecipeError Float} (fault : document.Fault error) :
    ¬ document.Admissible := by
  intro admissible
  cases fault with
  | noTracks empty => exact admissible.tracks_ne_nil empty
  | duplicateIndex otherFound found before same =>
      have distinct := List.nodup_iff_getElem?_ne_getElem?.mp admissible.distinct _ _ before
      simp only [List.length_map, List.length_zipIdx, List.getElem?_map, List.getElem?_zipIdx,
        otherFound, found, Option.map_some, Nat.zero_add, same, ne_eq, not_true_eq_false,
        imp_false] at distinct
      exact distinct (List.getElem?_eq_some_iff.mp found).1
  | track found fault =>
      exact fault.not_admissible (admissible.tracks _ (List.mem_of_getElem? found))

end Mixdown
