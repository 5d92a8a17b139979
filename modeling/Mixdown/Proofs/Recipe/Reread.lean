import Mixdown.Proofs.Effect.Text
import Mixdown.Proofs.Recipe.Document
import Mixdown.Proofs.Recipe.Loading
import Mixdown.Proofs.Signal.Building

/-!
# Admitted recipes written down

The checks of a recipe let pass a clip that states when the mix ends, and the reading of
its document does not.  Any other admitted recipe is read from its document, tidied: file
names are trimmed, presets spelled as they are looked up, elastic clips at their least
length, and tracks measured.
-/

namespace Mixdown

/-! ## Problems that stop a reading -/

/-- What a reading comes to that stops at a problem, if there is one. -/
def unlessStopped {ε β : Type} (problem : Option ε) (result : β) : Except ε β :=
  match problem with
  | some error => .error error
  | none => .ok result

section Stopping

variable {ε β γ : Type}

/-- One reading after another: the first problem counts. -/
theorem unlessStopped_bind
    (problem later : Option ε) (result : β) (next : β → Except ε γ) {final : γ}
    (follows : next result = unlessStopped later final) :
    unlessStopped problem result >>= next = unlessStopped (problem.or later) final := by
  cases problem with
  | some error => rfl
  | none => exact follows

theorem unlessStopped_bind_pure
    (problem : Option ε) (result : β) (make : β → γ) :
    (unlessStopped problem result >>= fun found => pure (make found)) =
      unlessStopped problem (make result) := by
  cases problem <;> rfl

end Stopping

/-- The first clip that states when the mix ends, as a problem. -/
def strayRule? (placed : List (Place × Clip Float)) : Option (RecipeError Float) :=
  (placed.find? fun entry => entry.2.effects.any Effect.isMixDuration).map fun entry =>
    .invalid entry.1 .endRuleOnClip

theorem strayRule?_append (first second : List (Place × Clip Float)) :
    strayRule? (first ++ second) = (strayRule? first).or (strayRule? second) := by
  rw [strayRule?, List.find?_append, Option.map_or]
  rfl

theorem strayRule?_eq_none_iff {placed : List (Place × Clip Float)} :
    strayRule? placed = none ↔
      ∀ entry ∈ placed, ∀ effect ∈ entry.2.effects, effect.isMixDuration = false := by
  simp [strayRule?, List.find?_eq_none]

/-! ## What recipes are read as -/

def ClipSource.reread : ClipSource → ClipSource
  | .file filename => .file (String.ofList (Text.trim filename.toList))
  | .silence => .silence

def ClipTiming.reread : ClipTiming Float → ClipTiming Float
  | .fixed duration => .fixed duration
  | .elastic minLength maxLength _ => .elasticFrom minLength maxLength

def Clip.reread (clip : Clip Float) : Clip Float where
  source := clip.source.reread
  timing := clip.timing.reread
  volume := clip.volume
  effects := clip.effects.map Effect.reread

def Track.reread (track : Track Float) : Track Float :=
  .ofClips track.index (track.clips.map Clip.reread) track.volume
    (track.effects.map Effect.reread)

def Recipe.reread (recipe : Recipe Float) : Recipe Float where
  title := recipe.title
  tracks := recipe.tracks.map Track.reread

/-! ## Clips -/

theorem effectsOf_map_display (effects : List Effect) :
    effectsOf (effects.map Effect.display) = .ok (effects.map Effect.reread) := by
  rw [effectsOf_eq_ok_iff, List.forall₂_map_left_iff, List.forall₂_map_right_iff,
    List.forall₂_same]
  exact fun effect _ => effect.ofText_display

namespace Clip

variable {clip : Clip Float}

theorem source_toEntry
    (admitted : (checkSource clip.source : Except (Reason Float) Unit) = .ok ()) :
    clip.toEntry.source = .ok clip.source.reread := by
  obtain ⟨source, timing, volume, effects⟩ := clip
  cases source with
  | silence => rfl
  | file filename =>
      have notBlank := checkFile_eq_ok_iff.mp admitted
      rw [ClipEntry.source, if_neg (by exact Bool.false_ne_true)]
      dsimp only [Clip.toEntry, ClipSource.filename?, Option.getD_some]
      split
      next blank => exact absurd blank notBlank
      next => rfl

theorem timing_toEntry (clip : Clip Float) : clip.toEntry.timing = .ok clip.timing.reread := by
  obtain ⟨source, timing, volume, effects⟩ := clip
  cases timing <;> rfl

theorem clipEffects_toEntry (clip : Clip Float) :
    clip.toEntry.clipEffects =
      if clip.effects.any Effect.isMixDuration then
        .error .endRuleOnClip
      else
        .ok (clip.effects.map Effect.reread) := by
  have sameRules : (clip.effects.map Effect.reread).any Effect.isMixDuration =
      clip.effects.any Effect.isMixDuration := by
    rw [List.any_map]
    exact congrArg clip.effects.any (funext Effect.isMixDuration_reread)
  rw [ClipEntry.clipEffects, Clip.toEntry, effectsOf_map_display, ← sameRules]
  rfl

theorem toClip_toEntry (admitted : checkClip clip = .ok ()) :
    clip.toEntry.toClip =
      if clip.effects.any Effect.isMixDuration then .error .endRuleOnClip else .ok clip.reread := by
  have source := source_toEntry (checkClip_eq_ok_iff.mp admitted).1
  rw [ClipEntry.toClip, source, clip.timing_toEntry, clip.clipEffects_toEntry]
  cases clip.effects.any Effect.isMixDuration <;> rfl

theorem checkSource_reread
    (admitted : (checkSource clip.source : Except (Reason Float) Unit) = .ok ()) :
    (checkSource clip.source.reread : Except (Reason Float) Unit) = .ok () := by
  cases isSource : clip.source with
  | silence => rfl
  | file filename =>
      rw [isSource] at admitted
      rw [ClipSource.reread, checkSource_eq_ok_iff]
      exact checkFile_eq_ok_iff.mp admitted

theorem checkTiming_reread (timing : ClipTiming Float) :
    checkTiming timing.reread = checkTiming timing := by
  cases timing <;> rfl

theorem checkClip_reread (admitted : checkClip clip = .ok ()) : checkClip clip.reread = .ok () := by
  obtain ⟨source, timing, volume⟩ := checkClip_eq_ok_iff.mp admitted
  rw [← checkTiming_reread] at timing
  exact checkClip_eq_ok_iff.mpr ⟨checkSource_reread source, timing, volume⟩

end Clip

theorem clipsOf_map_toEntry
    (index : UInt64) (position : Nat) {clips : List (Clip Float)}
    (admitted : ∀ clip ∈ clips, checkClip clip = .ok ()) :
    clipsOf index position (clips.map Clip.toEntry) =
      unlessStopped (strayRule? (placedClips index position clips)) (clips.map Clip.reread) := by
  induction clips generalizing position with
  | nil => rfl
  | cons clip rest inductionHypothesis =>
      obtain ⟨admittedHere, admittedRest⟩ := List.forall_mem_cons.mp admitted
      have here : clip.toEntry.toClip.mapError (.invalid (.ofClip index position)) =
          unlessStopped (strayRule? [(.ofClip index position, clip)]) clip.reread := by
        rw [Clip.toClip_toEntry admittedHere, strayRule?, List.find?_singleton]
        cases clip.effects.any Effect.isMixDuration <;> rfl
      rw [List.map_cons, clipsOf, here, placedClips_cons, strayRule?_append]
      apply unlessStopped_bind
      rw [inductionHypothesis (position + 1) admittedRest]
      exact unlessStopped_bind_pure _ _ _

/-! ## Tracks -/

theorem Track.toTrack_toEntry
    {track : Track Float} (position : Nat) (admitted : track.IsAdmitted) :
    track.toEntry.toTrack position =
      unlessStopped (strayRule? (placedClips track.index 0 track.clips)) track.reread := by
  have index : track.toEntry.resolvedIndex position = track.index := rfl
  have effects : effectsOf track.toEntry.effects = .ok (track.effects.map Effect.reread) :=
    effectsOf_map_display track.effects
  have clips : clipsOf track.index 0 track.toEntry.clips = _ :=
    clipsOf_map_toEntry track.index 0 admitted.2.2
  rw [TrackEntry.toTrack, index, effects, clips]
  exact unlessStopped_bind_pure _ _ _

theorem Track.isAdmitted_reread {track : Track Float} (admitted : track.IsAdmitted) :
    track.reread.IsAdmitted := by
  obtain ⟨someClip, volume, clips⟩ := admitted
  refine ⟨?_, volume, ?_⟩
  · exact fun none => someClip (List.map_eq_nil_iff.mp none)
  · exact List.forall_mem_map.mpr fun clip member => Clip.checkClip_reread (clips clip member)

theorem tracksOf_map_toEntry
    (position : Nat) {tracks : List (Track Float)}
    (admitted : ∀ track ∈ tracks, track.IsAdmitted) :
    tracksOf position (tracks.map Track.toEntry) =
      unlessStopped
        (strayRule? (tracks.flatMap fun track => placedClips track.index 0 track.clips))
        (tracks.map Track.reread) := by
  induction tracks generalizing position with
  | nil => rfl
  | cons track rest inductionHypothesis =>
      obtain ⟨admittedHere, admittedRest⟩ := List.forall_mem_cons.mp admitted
      rw [List.map_cons, tracksOf, track.toTrack_toEntry position admittedHere,
        List.flatMap_cons, strayRule?_append]
      apply unlessStopped_bind
      rw [inductionHypothesis (position + 1) admittedRest]
      exact unlessStopped_bind_pure _ _ _

/-! ## Recipes -/

namespace Recipe

variable {recipe : Recipe Float}

theorem check_reread (admitted : recipe.check = .ok ()) : recipe.reread.check = .ok () := by
  obtain ⟨someTrack, distinct, tracks⟩ := check_eq_ok_iff.mp admitted
  refine check_eq_ok_iff.mpr ⟨?_, ?_, ?_⟩
  · exact fun none => someTrack (List.map_eq_nil_iff.mp none)
  · have sameIndices : recipe.reread.tracks.map Track.index = recipe.tracks.map Track.index :=
      List.map_map
    rw [sameIndices]
    exact distinct
  · exact List.forall_mem_map.mpr fun track member => track.isAdmitted_reread (tracks track member)

/-- The document of an admitted recipe is read up to the first clip that states when the
mix ends, and if there is none to its end. -/
theorem ofDocument_toDocument_outcome (admitted : recipe.check = .ok ()) :
    ofDocument recipe.toDocument =
      unlessStopped (strayRule? recipe.placedClips) recipe.reread := by
  obtain ⟨_, _, tracks⟩ := check_eq_ok_iff.mp admitted
  have read := tracksOf_map_toEntry 0 tracks
  rw [ofDocument, toDocument, read]
  have checked : recipe.reread.check = .ok () := check_reread admitted
  rw [← Option.or_none (o := strayRule? recipe.placedClips)]
  refine unlessStopped_bind _ none _ _ ?_
  change recipe.reread.check >>= _ = _
  rw [checked]
  rfl

end Recipe

end Mixdown
