import Mixdown.Timing.Basic

/-!
# Spreading a length over slots

A slot is an elastic clip seen from its track: its bounds and its length.  A
length is spread over slots by drawing each of theirs and then correcting them
together until they add up.
-/

namespace Mixdown.Timing

variable {α σ : Type} [Scalar α]

structure Slot (α : Type) where
  low : α
  high : α
  length : α
deriving DecidableEq, Repr

namespace Slot

/-- Whether the slot cannot get longer, or shorter, within its bounds. -/
def isPinned (growing : Bool) (slot : Slot α) : Bool :=
  if growing then decide (slot.high ≤ slot.length) else decide (slot.length ≤ slot.low)

/-- How much longer, or shorter, the slot can get within its bounds. -/
def headroom (growing : Bool) (slot : Slot α) : α :=
  if growing then slot.high - slot.length else slot.length - slot.low

/-- The slot with another length, kept within its bounds. -/
def confined (slot : Slot α) (length : α) : Except Fault (Slot α) :=
  (confine slot.low slot.high length).map fun length => { slot with length }

end Slot

def totalLength (slots : List (Slot α)) : α :=
  Scalar.sum (slots.map Slot.length)

/-! ## Drawing -/

/-- Draws the length of a slot; one whose bounds leave no choice takes the lower. -/
def drawSlot (draw : Draw α σ) (slot : Slot α) (state : σ) : Except Fault (Slot α × σ) :=
  if slot.low < slot.high then
    (draw slot.low slot.high state).map fun (length, state) => ({ slot with length }, state)
  else
    .ok ({ slot with length := slot.low }, state)

def drawSlots (draw : Draw α σ) : List (Slot α) → σ → Except Fault (List (Slot α) × σ)
  | [], state => .ok ([], state)
  | slot :: rest, state => do
      let (slot, state) ← drawSlot draw slot state
      let (slots, state) ← drawSlots draw rest state
      return (slot :: slots, state)

/-! ## Correcting without regard to bounds -/

/-- Scales all slots alike; slots of next to no length share the residual evenly. -/
def scaleAll (target residual : α) (slots : List (Slot α)) : List (Slot α) :=
  let total := totalLength slots
  if total ≤ Scalar.negligible then
    let share := residual / Scalar.ofCount slots.length
    slots.map fun slot => { slot with length := slot.length + share }
  else
    let factor := target / total
    slots.map fun slot => { slot with length := slot.length * factor }

/-! ## Correcting within bounds -/

/-- The total lengths of the pinned and of the other slots. -/
def pinnedAndFree (growing : Bool) (slots : List (Slot α)) : α × α :=
  slots.foldl
    (fun (pinned, free) slot =>
      if slot.isPinned growing then (pinned + slot.length, free) else (pinned, free + slot.length))
    (0, 0)

/-- Gives each slot a share of the residual in proportion to its headroom. -/
def shareByHeadroom (growing : Bool) (residual : α) (slots : List (Slot α)) :
    Except Fault (List (Slot α)) :=
  let headroom := Scalar.sum (slots.map (Slot.headroom growing))
  if headroom ≤ Scalar.negligible then
    .ok slots
  else
    slots.mapM fun slot =>
      slot.confined (slot.length + residual * slot.headroom growing / headroom)

/-- Scales the slots that are not pinned, as far as their bounds allow. -/
def scaleFree (target residual : α) (slots : List (Slot α)) : Except Fault (List (Slot α)) :=
  let growing := decide (0 < residual)
  let (pinned, free) := pinnedAndFree growing slots
  if free ≤ Scalar.negligible then
    shareByHeadroom growing residual slots
  else
    let factor := (target - pinned) / free
    slots.mapM fun slot =>
      if slot.isPinned growing then .ok slot else slot.confined (slot.length * factor)

/-! ## The correction -/

def correctOnce (policy : Policy α) (target residual : α) (slots : List (Slot α)) :
    Except Fault (List (Slot α)) :=
  if policy.clampToBounds then
    scaleFree target residual slots
  else
    .ok (scaleAll target residual slots)

def residualOf (target : α) (slots : List (Slot α)) : α :=
  target - totalLength slots

/-- Whether slots are as far from their target as the policy tolerates. -/
def isSettled (policy : Policy α) (residual : α) : Bool :=
  decide (Scalar.abs residual ≤ policy.tolerance)

/-- Whether slots are further from their target than the policy tolerates. -/
def isOff (policy : Policy α) (residual : α) : Bool :=
  decide (policy.tolerance < Scalar.abs residual)

/-- Corrects slots while they are off, at most `iterations` times; gives the
slots and how many times were left over. -/
def correct (policy : Policy α) (target : α) :
    Nat → List (Slot α) → Except Fault (List (Slot α) × Nat)
  | 0, slots => .ok (slots, 0)
  | iterations + 1, slots =>
      let residual := residualOf target slots
      if isOff policy residual then do
        let slots ← correctOnce policy target residual slots
        correct policy target iterations slots
      else
        .ok (slots, iterations + 1)

/-- Spreads what the slots have at least, and `extra` beyond it, over them. -/
def spread (draw : Draw α σ) (policy : Policy α) (extra : α) (slots : List (Slot α)) (state : σ) :
    Except Fault (Spread α × List (Slot α) × σ) := do
  let target := Scalar.sum (slots.map Slot.low) + extra
  let (drawn, state) ← drawSlots draw slots state
  let (slots, left) ← correct policy target policy.maxIterations drawn
  let residual := residualOf target slots
  let outcome : Spread α :=
    { iterations := policy.maxIterations - left
      residual
      converged := isSettled policy residual }
  return (outcome, slots, state)

end Mixdown.Timing
