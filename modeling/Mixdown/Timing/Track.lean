import Mixdown.Recipe.Basic
import Mixdown.Timing.Slots

/-!
# Stretching a track
-/

namespace Mixdown

variable {α σ : Type}

namespace Clip

/-- The same clip with another length, if it is elastic. -/
def stretchTo (clip : Clip α) (length : α) : Clip α :=
  match clip.timing with
  | .fixed _ => clip
  | .elastic minLength maxLength _ => { clip with timing := .elastic minLength maxLength length }

/-- The clip as a slot, if it is elastic. -/
def slot? (clip : Clip α) : Option (Timing.Slot α) :=
  match clip.timing with
  | .fixed _ => none
  | .elastic low high length => some ⟨low, high, length⟩

end Clip

namespace Track

/-- Every elastic clip at its least length. -/
def shrunk (track : Track α) : Track α :=
  { track with clips := track.clips.map fun clip => clip.stretchTo clip.timing.minLength }

/-- Every elastic clip at its greatest length. -/
def filled (track : Track α) : Track α :=
  { track with clips := track.clips.map fun clip => clip.stretchTo clip.timing.maxLength }

def slots (track : Track α) : List (Timing.Slot α) :=
  track.clips.filterMap Clip.slot?

/-- Gives the elastic clips of a list the lengths of slots, in their order. -/
def putSlots : List (Clip α) → List (Timing.Slot α) → List (Clip α)
  | clip :: clips, slots =>
      match clip.timing, slots with
      | .elastic _ _ _, slot :: slots => clip.stretchTo slot.length :: putSlots clips slots
      | _, slots => clip :: putSlots clips slots
  | [], _ => []

variable [Scalar α]

open Timing

/-- Spreads the least lengths of the elastic clips, and `extra` beyond them, over
those clips. -/
def spread (draw : Draw α σ) (policy : Policy α) (extra : α) (track : Track α) (state : σ) :
    Except Fault (Spread α × Track α × σ) := do
  let (outcome, slots, state) ← Timing.spread draw policy extra track.slots state
  return (outcome, { track with clips := putSlots track.clips slots }, state)

/-- Stretches a shrunk and measured track by `extra`, if it has elastic clips;
warns when its length is not the one asked for. -/
def stretch (draw : Draw α σ) (policy : Policy α) (extra : α) (track : Track α) (state : σ) :
    Except Fault (Option (Warning α) × Track α × σ) :=
  if extra ≤ 0 ∨ track.elasticCount = 0 then
    .ok (none, track, state)
  else do
    let target := track.minLength + extra
    let (outcome, stretched, state) ← track.spread draw policy extra state
    let warning :=
      if outcome.converged then
        none
      else
        some (.notConverged track.index target (target - outcome.residual) outcome.iterations)
    return (warning, stretched, state)

/-- Stretches a track to a total length, as far as its elastic clips allow. -/
def stretchTo (draw : Draw α σ) (policy : Policy α) (target : α) (track : Track α) (state : σ) :
    Except Fault (Option (Warning α) × Track α × σ) := do
  let track := track.shrunk.measure
  let extra ← confine 0 track.slack (target - track.minLength)
  let (warning, track, state) ← track.stretch draw policy extra state
  return (warning, track.measure, state)

/-- The warning about a clip that lies further outside its bounds than tolerated. -/
def boundsWarning? (tolerance : α) (track : UInt64) (position : Nat) (clip : Clip α) :
    Option (Warning α) :=
  match clip.timing with
  | .fixed _ => none
  | .elastic minLength maxLength duration =>
      if duration < minLength - tolerance ∨ maxLength + tolerance < duration then
        some (.outOfBounds track position duration minLength maxLength)
      else
        none

/-- Warnings about the clips outside their bounds, in clip order. -/
def boundsWarnings (tolerance : α) (track : Track α) : List (Warning α) :=
  (track.clips.mapIdx (boundsWarning? tolerance track.index)).filterMap id

end Track

end Mixdown
