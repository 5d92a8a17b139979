import Mixdown.Proofs.Timing.Frame

/-!
# Balancing again

Balancing starts from the least lengths of elastic clips and measures every track anew.
So how long the clips of a recipe lasted before, and what its tracks were measured to
last, does not matter: a recipe that was balanced already is balanced as if it never was.
-/

namespace Mixdown

variable {α : Type}

/-! ## Least lengths -/

/-- A clip that is given a length keeps nothing of the one it had. -/
theorem Clip.Retimed.stretchTo_eq
    {clip other : Clip α} (retimed : clip.Retimed other) (length : α) :
    clip.stretchTo length = other.stretchTo length := by
  obtain ⟨source, timing, volume, effects⟩ := clip
  obtain ⟨otherSource, otherTiming, otherVolume, otherEffects⟩ := other
  obtain ⟨rfl, timings, rfl, rfl⟩ := retimed
  cases timings with
  | fixed duration => rfl
  | elastic minLength maxLength before after => rfl

variable [Scalar α]

/-- Shrunk and measured, a track keeps neither the lengths of its elastic clips nor its
measures. -/
theorem Track.Retimed.shrunk_eq {track other : Track α} (retimed : track.Retimed other) :
    track.shrunk.measure = other.shrunk.measure := by
  have clips :
      track.clips.map (fun clip => clip.stretchTo clip.timing.minLength) =
        other.clips.map fun clip => clip.stretchTo clip.timing.minLength := by
    apply map_eq_map_of_forall₂
    apply retimed.clips.imp
    intro clip changed clips
    rw [clips.stretchTo_eq, clips.timing.minLength_eq]
  unfold Track.shrunk Track.measure
  simp only [clips, retimed.index, retimed.volume, retimed.effects]

theorem Recipe.Retimed.shrunk_eq {recipe other : Recipe α} (retimed : recipe.Retimed other) :
    (recipe.tracks.map fun track => track.shrunk.measure) =
      other.tracks.map fun track => track.shrunk.measure :=
  map_eq_map_of_forall₂ (retimed.tracks.imp fun _ _ tracks => tracks.shrunk_eq)

namespace Timing

variable {σ : Type} {draw : Draw α σ} {policy : Policy α} {recipe other : Recipe α} {state : σ}

/-- Recipes are balanced alike when they differ in nothing but the lengths of their
elastic clips and the measures of their tracks. -/
theorem balance_eq_of_retimed
    (admitted : recipe.check = .ok ()) (retimed : recipe.Retimed other) :
    balance draw policy other state = balance draw policy recipe state := by
  have otherAdmitted : other.check = .ok () := retimed.check_eq ▸ admitted
  obtain ⟨title, tracks⟩ := recipe
  obtain ⟨otherTitle, otherTracks⟩ := other
  have sameTitle : title = otherTitle := retimed.title
  have shrunk := retimed.shrunk_eq
  subst sameTitle
  unfold balance
  rw [admitted, otherAdmitted]
  simp only [shrunk]

/-! ## Many rounds -/

/-- What becomes of a recipe that is balanced any number of times, with sources of draws,
policies and states that may differ from one time to the next. -/
inductive Rebalanced (recipe : Recipe α) : Recipe α → Prop
  | never : Rebalanced recipe recipe
  | again {σ : Type} {draw : Draw α σ} {policy : Policy α} {state : σ} {current : Recipe α}
      {balanced : Balanced α σ} (before : Rebalanced recipe current)
      (balancing : balance draw policy current state = .ok balanced) :
      Rebalanced recipe balanced.recipe

theorem Rebalanced.retimed (rebalanced : Rebalanced recipe other) : recipe.Retimed other := by
  induction rebalanced with
  | never => exact .refl recipe
  | again _ balancing inductionHypothesis =>
      exact inductionHypothesis.trans (retimed_of_balance balancing)

/-- Balancing has no memory: neither lengths nor measures from before change what becomes
of an admitted recipe, and no number of rounds does. -/
theorem balance_forgets
    (draw : Draw α σ) (policy : Policy α) (state : σ) (admitted : recipe.check = .ok ()) :
    (∀ other, recipe.Retimed other →
      balance draw policy other state = balance draw policy recipe state) ∧
    (∀ current, Rebalanced recipe current →
      balance draw policy current state = balance draw policy recipe state) := by
  constructor
  · intro other retimed
    exact balance_eq_of_retimed admitted retimed
  · intro current rebalanced
    exact balance_eq_of_retimed admitted rebalanced.retimed

/-- Two rounds, the second of which corrects little and without regard to bounds, leave
nothing that a third would notice. -/
theorem balance_forgets_demo :
    ∃ first second : Balanced Float Random.Pcg,
      balance Random.uniform .standard Recipe.demo (Random.Pcg.ofSeed 1) = .ok first ∧
      balance Random.uniform ⟨1, 0.5, false⟩ first.recipe (Random.Pcg.ofSeed 2) = .ok second ∧
      second.recipe ≠ Recipe.demo ∧
      balance Random.uniform .standard second.recipe (Random.Pcg.ofSeed 7) =
        balance Random.uniform .standard Recipe.demo (Random.Pcg.ofSeed 7) := by
  have admitted : Recipe.demo.check = .ok () := by
    decide +kernel
  have firstEnds :
      (balance Random.uniform .standard Recipe.demo (Random.Pcg.ofSeed 1)).toOption.any
        (fun first =>
          (balance Random.uniform ⟨1, 0.5, false⟩ first.recipe
              (Random.Pcg.ofSeed 2)).toOption.any
            fun second => decide (second.recipe ≠ Recipe.demo)) = true := by
    decide +kernel
  obtain ⟨first, firstBalanced, secondEnds⟩ := exists_ok_of_any firstEnds
  obtain ⟨second, secondBalanced, moved⟩ := exists_ok_of_any secondEnds
  have rebalanced : Rebalanced Recipe.demo second.recipe :=
    .again (.again .never firstBalanced) secondBalanced
  have forgotten :=
    (balance_forgets Random.uniform .standard (Random.Pcg.ofSeed 7) admitted).2 _ rebalanced
  exact ⟨first, second, firstBalanced, secondBalanced, of_decide_eq_true moved, forgotten⟩

end Timing

end Mixdown
