import Mixdown.Recipe.Admission
import Mixdown.Timing.Track

/-!
# Balancing a recipe

The track that can get longest sets the length of the mix and is filled.  Every
other track is stretched to that length, as far as its elastic clips allow.
-/

namespace Mixdown.Timing

variable {α σ : Type} [Scalar α]

/-! ## The reference track -/

/-- The first track, from `position` on, that can get longer than all before it,
given the best of the tracks before. -/
def longestFrom (position : Nat) (best : Option (Nat × α)) : List (Track α) → Option (Nat × α)
  | [] => best
  | track :: rest =>
      let best :=
        match best with
        | some (leader, longest) =>
            if track.maxLength ≤ longest then (leader, longest) else (position, track.maxLength)
        | none => (position, track.maxLength)
      longestFrom (position + 1) (some best) rest

/-- The position and the greatest length of the track that can get longest; of
equals the first. -/
def longest? (tracks : List (Track α)) : Option (Nat × α) :=
  longestFrom 0 none tracks

/-! ## One track -/

/-- Brings a shrunk and measured track to the length of the mix. -/
def balanceTrack (draw : Draw α σ) (policy : Policy α) (mixDuration : α) (isReference : Bool)
    (track : Track α) (state : σ) : Except Fault (List (Warning α) × Track α × σ) := do
  let needed := mixDuration - track.minLength
  let (warning, track, state) ←
    if isReference then
      .ok (none, track.filled, state)
    else if needed ≤ 0 then
      .ok (none, track, state)
    else
      track.stretch draw policy (Scalar.lesser needed track.slack) state
  return (warning.toList ++ track.boundsWarnings policy.tolerance, track.measure, state)

/-! ## All tracks -/

/-- Balances tracks from `position` on, one after the other. -/
def balanceTracks (draw : Draw α σ) (policy : Policy α) (mixDuration : α) (reference : Nat) :
    Nat → List (Track α) → σ → Except Fault (List (Warning α) × List (Track α) × σ)
  | _, [], state => .ok ([], [], state)
  | position, track :: rest, state => do
      let (warnings, track, state) ←
        balanceTrack draw policy mixDuration (position == reference) track state
      let (others, tracks, state) ←
        balanceTracks draw policy mixDuration reference (position + 1) rest state
      return (warnings ++ others, track :: tracks, state)

/-- What balancing leaves behind: its outcome, the recipe, and the state of the
source of draws. -/
structure Balanced (α σ : Type) where
  outcome : Except (RecipeError α) (Report α)
  recipe : Recipe α
  state : σ

/-- Balances a recipe, whose tracks are shrunk before the longest is looked for. -/
def balance (draw : Draw α σ) (policy : Policy α) (recipe : Recipe α) (state : σ) :
    Except Fault (Balanced α σ) :=
  match recipe.check with
  | .error error => .ok ⟨.error error, recipe, state⟩
  | .ok () =>
      let tracks := recipe.tracks.map fun track => track.shrunk.measure
      match longest? tracks with
      | none => .ok ⟨.error .noTracks, { recipe with tracks }, state⟩
      | some (reference, mixDuration) => do
          let (warnings, tracks, state) ←
            balanceTracks draw policy mixDuration reference 0 tracks state
          return ⟨.ok ⟨reference, mixDuration, warnings⟩, { recipe with tracks }, state⟩

end Mixdown.Timing
