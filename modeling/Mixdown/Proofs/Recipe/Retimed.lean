import Mixdown.Proofs.Lockstep
import Mixdown.Recipe.Admission
import Mixdown.Timing.Track

/-!
# Retimed recipes

A recipe is retimed when nothing changes but how long its elastic clips last for
now, and what its tracks were last measured to last.  Stretching tracks is the way
to retime them.
-/

namespace Mixdown

variable {α : Type}

/-! ## Timings -/

/-- The same fixed length, or the same bounds. -/
inductive ClipTiming.Retimed : ClipTiming α → ClipTiming α → Prop
  | fixed (duration : α) : Retimed (.fixed duration) (.fixed duration)
  | elastic (minLength maxLength before after : α) :
      Retimed (.elastic minLength maxLength before) (.elastic minLength maxLength after)

namespace ClipTiming.Retimed

variable {timing other third : ClipTiming α}

theorem refl : ∀ timing : ClipTiming α, timing.Retimed timing
  | .fixed duration => .fixed duration
  | .elastic minLength maxLength duration => .elastic minLength maxLength duration duration

theorem symm (retimed : timing.Retimed other) : other.Retimed timing := by
  cases retimed with
  | fixed duration => exact .fixed duration
  | elastic minLength maxLength before after => exact .elastic minLength maxLength after before

theorem trans (retimed : timing.Retimed other) (again : other.Retimed third) :
    timing.Retimed third := by
  cases retimed with
  | fixed duration => exact again
  | elastic minLength maxLength before middle =>
      cases again with
      | elastic _ _ _ after => exact .elastic minLength maxLength before after

theorem isElastic_eq (retimed : timing.Retimed other) : timing.isElastic = other.isElastic := by
  cases retimed <;> rfl

theorem minLength_eq (retimed : timing.Retimed other) : timing.minLength = other.minLength := by
  cases retimed <;> rfl

theorem maxLength_eq (retimed : timing.Retimed other) : timing.maxLength = other.maxLength := by
  cases retimed <;> rfl

theorem duration_eq (retimed : timing.Retimed other) (fixed : timing.isElastic = false) :
    timing.duration = other.duration := by
  cases retimed with
  | fixed => rfl
  | elastic => cases fixed

end ClipTiming.Retimed

/-! ## Clips -/

structure Clip.Retimed (clip other : Clip α) : Prop where
  source : clip.source = other.source
  timing : clip.timing.Retimed other.timing
  volume : clip.volume = other.volume
  effects : clip.effects = other.effects

namespace Clip.Retimed

variable {clip other third : Clip α}

theorem refl (clip : Clip α) : clip.Retimed clip :=
  ⟨rfl, .refl clip.timing, rfl, rfl⟩

theorem symm (retimed : clip.Retimed other) : other.Retimed clip :=
  ⟨retimed.source.symm, retimed.timing.symm, retimed.volume.symm, retimed.effects.symm⟩

theorem trans (retimed : clip.Retimed other) (again : other.Retimed third) :
    clip.Retimed third :=
  ⟨retimed.source.trans again.source, retimed.timing.trans again.timing,
    retimed.volume.trans again.volume, retimed.effects.trans again.effects⟩

theorem stretchTo (clip : Clip α) (length : α) : clip.Retimed (clip.stretchTo length) := by
  obtain ⟨source, timing, volume, effects⟩ := clip
  cases timing with
  | fixed duration => exact .refl _
  | elastic minLength maxLength duration =>
      exact ⟨rfl, .elastic minLength maxLength duration length, rfl, rfl⟩

end Clip.Retimed

/-! ## Tracks -/

structure Track.Retimed (track other : Track α) : Prop where
  index : track.index = other.index
  clips : List.Forall₂ Clip.Retimed track.clips other.clips
  volume : track.volume = other.volume
  effects : track.effects = other.effects

namespace Track.Retimed

variable {track other third : Track α}

theorem refl (track : Track α) : track.Retimed track :=
  ⟨rfl, List.forall₂_same.mpr fun clip _ => .refl clip, rfl, rfl⟩

theorem symm (retimed : track.Retimed other) : other.Retimed track :=
  ⟨retimed.index.symm, (retimed.clips.imp fun _ _ => Clip.Retimed.symm).flip,
    retimed.volume.symm, retimed.effects.symm⟩

theorem trans (retimed : track.Retimed other) (again : other.Retimed third) :
    track.Retimed third :=
  ⟨retimed.index.trans again.index,
    forall₂_trans retimed.clips again.clips fun _ _ _ => Clip.Retimed.trans,
    retimed.volume.trans again.volume, retimed.effects.trans again.effects⟩

theorem measure [Scalar α] (track : Track α) : track.Retimed track.measure :=
  ⟨rfl, List.forall₂_same.mpr fun clip _ => .refl clip, rfl, rfl⟩

theorem minLength_measure_eq [Scalar α] (retimed : track.Retimed other) :
    track.measure.minLength = other.measure.minLength :=
  congrArg Scalar.sum
    (map_eq_map_of_forall₂ (retimed.clips.imp fun _ _ clips => clips.timing.minLength_eq))

theorem maxLength_measure_eq [Scalar α] (retimed : track.Retimed other) :
    track.measure.maxLength = other.measure.maxLength :=
  congrArg Scalar.sum
    (map_eq_map_of_forall₂ (retimed.clips.imp fun _ _ clips => clips.timing.maxLength_eq))

/-- Each clip with a length of its own. -/
theorem stretched (track : Track α) (length : Clip α → α) :
    track.Retimed { track with
      clips := track.clips.map fun clip => clip.stretchTo (length clip) } where
  index := rfl
  clips := by
    rw [List.forall₂_map_right_iff, List.forall₂_same]
    exact fun clip _ => .stretchTo clip (length clip)
  volume := rfl
  effects := rfl

theorem forall₂_putSlots (clips : List (Clip α)) (slots : List (Timing.Slot α)) :
    List.Forall₂ Clip.Retimed clips (putSlots clips slots) := by
  induction clips generalizing slots with
  | nil => exact .nil
  | cons clip rest inductionHypothesis =>
      obtain ⟨source, timing, volume, effects⟩ := clip
      cases timing with
      | fixed duration => exact .cons (.refl _) (inductionHypothesis slots)
      | elastic low high length =>
          cases slots with
          | nil => exact .cons (.refl _) (inductionHypothesis [])
          | cons slot others =>
              exact .cons (.stretchTo _ slot.length) (inductionHypothesis others)

theorem putSlots (track : Track α) (slots : List (Timing.Slot α)) :
    track.Retimed { track with clips := putSlots track.clips slots } :=
  ⟨rfl, forall₂_putSlots track.clips slots, rfl, rfl⟩

end Track.Retimed

/-! ## Recipes -/

structure Recipe.Retimed (recipe other : Recipe α) : Prop where
  title : recipe.title = other.title
  tracks : List.Forall₂ Track.Retimed recipe.tracks other.tracks

namespace Recipe.Retimed

variable {recipe other third : Recipe α}

theorem refl (recipe : Recipe α) : recipe.Retimed recipe :=
  ⟨rfl, List.forall₂_same.mpr fun track _ => .refl track⟩

theorem symm (retimed : recipe.Retimed other) : other.Retimed recipe :=
  ⟨retimed.title.symm, (retimed.tracks.imp fun _ _ => Track.Retimed.symm).flip⟩

theorem trans (retimed : recipe.Retimed other) (again : other.Retimed third) :
    recipe.Retimed third :=
  ⟨retimed.title.trans again.title,
    forall₂_trans retimed.tracks again.tracks fun _ _ _ => Track.Retimed.trans⟩

theorem exists_original
    (retimed : recipe.Retimed other) {clip : Clip α} (member : clip ∈ other.clips) :
    ∃ original ∈ recipe.clips, original.Retimed clip := by
  obtain ⟨track, trackMember, clipMember⟩ := List.mem_flatMap.mp member
  obtain ⟨originalTrack, trackFound, tracks⟩ :=
    exists_mem_left_of_forall₂ retimed.tracks trackMember
  obtain ⟨original, found, clips⟩ := exists_mem_left_of_forall₂ tracks.clips clipMember
  exact ⟨original, List.mem_flatMap.mpr ⟨originalTrack, trackFound, found⟩, clips⟩

/-- Loops and stated rules are among the effects. -/
theorem endRule_eq (retimed : recipe.Retimed other) : recipe.endRule = other.endRule := by
  have rules : recipe.statedRules = other.statedRules := by
    refine flatMap_eq_flatMap_of_forall₂ (retimed.tracks.imp fun track changed tracks => ?_)
    rw [tracks.effects]
  have loops : recipe.hasLoop = other.hasLoop := by
    refine any_eq_any_of_forall₂ (retimed.tracks.imp fun track changed tracks => ?_)
    rw [tracks.effects]
    congr 1
    refine any_eq_any_of_forall₂ (tracks.clips.imp fun clip altered clips => ?_)
    rw [clips.effects]
  rw [endRule, endRule, rules, loops]

end Recipe.Retimed

/-! ## Admission

What an elastic clip lasts for now is not checked. -/

section Admission

variable [Scalar α]

theorem ClipTiming.Retimed.check_eq
    {timing other : ClipTiming α} (retimed : timing.Retimed other) :
    checkTiming timing = checkTiming other := by
  cases retimed <;> rfl

theorem Clip.Retimed.check_eq {clip other : Clip α} (retimed : clip.Retimed other) :
    checkClip clip = checkClip other := by
  rw [checkClip, checkClip, retimed.source, retimed.timing.check_eq, retimed.volume]

theorem checkClips_eq_of_retimed
    {clips others : List (Clip α)} (retimed : List.Forall₂ Clip.Retimed clips others)
    (track : UInt64) (position : Nat) :
    checkClips track position clips = checkClips track position others := by
  induction retimed generalizing position with
  | nil => rfl
  | cons head _ inductionHypothesis =>
      rw [checkClips, checkClips, head.check_eq]
      simp only [inductionHypothesis]

theorem Track.Retimed.check_eq
    {track other : Track α} (retimed : track.Retimed other) (earlier : List UInt64) :
    checkTrack earlier track = checkTrack earlier other := by
  rw [checkTrack, checkTrack, retimed.index, isEmpty_eq_of_forall₂ retimed.clips,
    retimed.volume, checkClips_eq_of_retimed retimed.clips]

theorem checkTracks_eq_of_retimed
    {tracks others : List (Track α)} (retimed : List.Forall₂ Track.Retimed tracks others)
    (earlier : List UInt64) : checkTracks earlier tracks = checkTracks earlier others := by
  induction retimed generalizing earlier with
  | nil => rfl
  | cons head _ inductionHypothesis =>
      rw [checkTracks, checkTracks, head.check_eq, head.index, inductionHypothesis]

theorem Recipe.Retimed.check_eq {recipe other : Recipe α} (retimed : recipe.Retimed other) :
    recipe.check = other.check := by
  rw [Recipe.check, Recipe.check, isEmpty_eq_of_forall₂ retimed.tracks,
    checkTracks_eq_of_retimed retimed.tracks]

end Admission

end Mixdown
