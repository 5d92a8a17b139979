import Mixdown.Plan.Basic
import Mixdown.Proofs.Signal.MixGraph
import Mixdown.Proofs.Timing.Lasting

/-!
# Plans of admitted recipes

An admitted recipe whose lengths can be drawn is planned, unless balancing leaves an
elastic clip that lasts no time: the first such clip is what the plan fails at.
-/

namespace Mixdown

open Timing

/-- What a clip must be for balancing to leave it no time: elastic, off the reference
track and, where lengths are kept within bounds, without a least length above zero. -/
structure Recipe.MayVanish
    (recipe : Recipe Float) (policy : Policy Float) (position : Nat) (clip : Clip Float) :
    Prop where
  elastic : clip.timing.isElastic = true
  offReference : recipe.reference? ≠ some position
  least : policy.clampToBounds = true → clip.timing.minLength ≤ 0

/-! ## Balanced recipes -/

section Balanced

variable {policy : Policy Float} {recipe : Recipe Float} {balanced : Balanced Float Random.Pcg}
  {report : Report Float}

theorem mayVanish_of_staysAbove
    (admitted : balanced.recipe.check = .ok ())
    (stays : balanced.StaysAbove policy recipe report)
    {position : Nat} {track : Track Float} {clip : Clip Float}
    (found : balanced.recipe.tracks[position]? = some track) (member : clip ∈ track.clips)
    (notAbove : clip.timing.duration ≤ 0) : recipe.MayVanish policy position clip := by
  have admittedTrack :=
    (Recipe.check_eq_ok_iff.mp admitted).2.2 track (List.mem_of_getElem? found)
  have timing := admittedTrack.timing member
  obtain ⟨source, ⟨duration⟩ | ⟨low, high, length⟩, volume, effects⟩ := clip
  · exact absurd (checkFixed_eq_ok_iff.mp timing).2 (Double.not_lt_of_le notAbove)
  · -- What is said of the slots of a track holds for its elastic clips.
    have isSlot : ⟨low, high, length⟩ ∈ track.slots :=
      List.mem_filterMap.mpr ⟨_, member, rfl⟩
    obtain ⟨notReference, least⟩ := stays.tracks position track found _ isSlot notAbove
    refine ⟨rfl, ?_, least⟩
    rw [stays.reference, ne_eq, Option.some_inj]
    exact fun same => beq_eq_false_iff_ne.mp notReference same.symm

end Balanced

/-! ## Plans -/

namespace Plan

variable {settings : Settings} {mixId : Uuid} {seed : UInt64} {recipe balanced : Recipe Float}
  {report : Report Float} {next : Random.Pcg}

theorem ofRecipe_of_balance
    (balancing :
      balance Random.uniform settings.balance recipe (Random.Pcg.ofSeed seed) =
        .ok ⟨.ok report, balanced, next⟩) :
    ofRecipe settings mixId seed recipe =
      .ok (ofBalanced settings.surroundings mixId seed report balanced) := by
  rw [ofRecipe, balancing]
  rfl

theorem ofBalanced_of_playable
    (surroundings : Surroundings) (admitted : balanced.check = .ok ())
    (playable : ∀ clip ∈ balanced.clips, ¬ clip.timing.duration ≤ 0) :
    ∃ plan, ofBalanced surroundings mixId seed report balanced = .ok plan := by
  obtain ⟨graph, compiled, _⟩ :=
    MixGraph.ofRecipe_of_playable surroundings admitted (unplayable?_eq_none_iff.mpr playable)
  rw [ofBalanced, compiled]
  exact ⟨_, rfl⟩

theorem ofBalanced_of_unplayable
    {surroundings : Surroundings} {error : RecipeError Float} (admitted : balanced.check = .ok ())
    (unplayable : unplayable? balanced.placedClips = some error) :
    ofBalanced surroundings mixId seed report balanced = .error (.recipe error) := by
  rw [ofBalanced, MixGraph.ofRecipe_of_unplayable admitted unplayable]
  rfl

/-- An admitted recipe whose lengths can be drawn is balanced.  Its plan fails just at
the first clip that is left no time, which is elastic, off the reference track and, where
lengths are kept within bounds, without a least length above zero. -/
theorem exists_balance_ofRecipe
    (settings : Settings) (mixId : Uuid) (seed : UInt64) {recipe : Recipe Float}
    (admitted : recipe.check = .ok ()) (drawable : ¬ recipe.Undrawable) :
    ∃ report balanced next,
      balance Random.uniform settings.balance recipe (Random.Pcg.ofSeed seed) =
        .ok ⟨.ok report, balanced, next⟩ ∧
      recipe.Retimed balanced ∧
      (∀ position track clip, balanced.tracks[position]? = some track → clip ∈ track.clips →
        clip.timing.duration ≤ 0 → recipe.MayVanish settings.balance position clip) ∧
      ((∀ clip ∈ balanced.clips, ¬ clip.timing.duration ≤ 0) →
        ∃ plan, ofRecipe settings mixId seed recipe = .ok (.ok plan)) ∧
      (∀ before place clip after, balanced.placedClips = before ++ (place, clip) :: after →
        clip.timing.duration ≤ 0 → (∀ earlier ∈ before, ¬ earlier.2.timing.duration ≤ 0) →
        ofRecipe settings mixId seed recipe =
          .ok (.error (.recipe (.invalid place (.unplayable clip.timing.duration))))) ∧
      (settings.balance.clampToBounds = true →
        (∀ clip ∈ recipe.clips, clip.timing.isElastic = true → ¬ clip.timing.minLength ≤ 0) →
        ∃ plan, ofRecipe settings mixId seed recipe = .ok (.ok plan)) := by
  obtain ⟨report, balanced, next, balancing, stays⟩ :=
    exists_balance_of_drawable Random.Pcg.next64 admitted drawable settings.balance
      (Random.Pcg.ofSeed seed)
  have retimed := retimed_of_balance balancing
  have stillAdmitted : balanced.check = .ok () := retimed.check_eq ▸ admitted
  have planning := @ofRecipe_of_balance settings mixId seed _ _ _ _ balancing
  have vanishing : ∀ position track clip, balanced.tracks[position]? = some track →
      clip ∈ track.clips → clip.timing.duration ≤ 0 →
      recipe.MayVanish settings.balance position clip :=
    fun _ _ _ => mayVanish_of_staysAbove stillAdmitted stays
  have planned (playable : ∀ clip ∈ balanced.clips, ¬ clip.timing.duration ≤ 0) :
      ∃ plan, ofRecipe settings mixId seed recipe = .ok (.ok plan) := by
    obtain ⟨plan, ofBalanced⟩ := ofBalanced_of_playable settings.surroundings stillAdmitted playable
    exact ⟨plan, planning.trans (congrArg Except.ok ofBalanced)⟩
  refine ⟨report, balanced, next, balancing, retimed, vanishing, planned, ?_, ?_⟩
  · intro before place clip after shape notAbove playable
    have first := unplayable?_eq_some_iff.mpr
      ⟨before, place, clip, after, shape, notAbove, playable, rfl⟩
    exact planning.trans (congrArg Except.ok (ofBalanced_of_unplayable stillAdmitted first))
  · intro clamped least
    apply planned
    intro clip member notAbove
    obtain ⟨track, trackMember, clipMember⟩ := List.mem_flatMap.mp member
    obtain ⟨position, found⟩ := List.mem_iff_getElem?.mp trackMember
    have mayVanish := vanishing position track clip found clipMember notAbove
    obtain ⟨original, originalMember, sameTiming⟩ := retimed.exists_original member
    refine least original originalMember ?_ ?_
    · rw [sameTiming.timing.isElastic_eq]
      exact mayVanish.elastic
    · rw [sameTiming.timing.minLength_eq]
      exact mayVanish.least clamped

theorem exists_balance_ofRecipe_demo :
    ∃ plan, ofRecipe .standard .zero 7 Recipe.demo = .ok (.ok plan) := by
  have admitted : Recipe.demo.check = .ok () := by
    decide +kernel
  have drawable : ¬ Recipe.demo.Undrawable := by
    decide +kernel
  have least : ∀ clip ∈ Recipe.demo.clips, clip.timing.isElastic = true →
      ¬ clip.timing.minLength ≤ 0 := by
    decide +kernel
  obtain ⟨_, _, _, _, _, _, _, _, planned⟩ :=
    exists_balance_ofRecipe .standard .zero 7 admitted drawable
  exact planned rfl least

end Plan

/-! ## Pauses that vanish -/

/-- A pause too short to tell in the length of its track. -/
def Recipe.absorbed : Recipe Float where
  title := ""
  tracks :=
    [.ofClips 0 [⟨.silence, .fixed 4.0, none, []⟩] none [],
      .ofClips 1
        [⟨.silence, .fixed 4.0, none, []⟩, ⟨.silence, .elasticFrom 0.0 1e-16, none, []⟩] none []]

/-- A least pause among some long ones, in a track where doubles are two apart. -/
def Recipe.vanishing : Recipe Float where
  title := ""
  tracks :=
    [.ofClips 0 [⟨.silence, .fixed 2e16, none, []⟩] none [],
      .ofClips 1
        [⟨.silence, .fixed 1e16, none, []⟩, ⟨.silence, .elasticFrom 5e-324 5e-324, none, []⟩,
          ⟨.silence, .elasticFrom 0.001 1.5, none, []⟩,
          ⟨.silence, .elasticFrom 0.001 0.9, none, []⟩,
          ⟨.silence, .elasticFrom 0.001 0.9, none, []⟩,
          ⟨.silence, .elasticFrom 0.001 0.9, none, []⟩,
          ⟨.silence, .elasticFrom 0.001 0.9, none, []⟩] none []]

/-- An admitted recipe need not be planned: a track that reaches the mix already stays at
its least lengths, one of which may be zero, and shortening a track without bounds may
take all of a least length above zero. -/
theorem Plan.exists_unplayable_of_admitted :
    (Recipe.absorbed.check = .ok () ∧ ¬ Recipe.absorbed.Undrawable ∧
      Plan.ofRecipe .standard .zero 0 Recipe.absorbed =
        .ok (.error (.recipe (.invalid (.ofClip 1 1) (.unplayable 0))))) ∧
    (Recipe.vanishing.check = .ok () ∧ ¬ Recipe.vanishing.Undrawable ∧
      (∀ clip ∈ Recipe.vanishing.clips, clip.timing.isElastic = true →
        ¬ clip.timing.minLength ≤ 0) ∧
      Plan.ofRecipe { Settings.standard with balance := ⟨100, 1e-6, false⟩ } .zero 22
          Recipe.vanishing =
        .ok (.error (.recipe (.invalid (.ofClip 1 1) (.unplayable 0))))) := by
  refine ⟨⟨?_, ?_, ?_⟩, ?_, ?_, ?_, ?_⟩ <;> decide +kernel

end Mixdown
