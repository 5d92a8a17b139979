import Mixdown.Random.Pcg
import Mixdown.Timing.Basic

/-!
# Uniform doubles

A draw between two doubles, both included, scales a double of `[0, 1)`.
-/

namespace Mixdown.Random

/-- The greatest double that `unit` gives. -/
def greatestUnit : Float := Float.ofBits 0x3feffffffffffffe

/-- A double of `[0, 1)` with 52 random bits. -/
def unit (word : UInt64) : Float :=
  Float.ofBits ((word >>> 12) ||| 0x3ff0000000000000) - 1.0

/-- The next double towards zero. -/
def towardsZero (value : Float) : Float :=
  Float.ofBits (value.toBits - 1)

/-- Lowers a scale until not even the greatest draw exceeds the upper bound; each
of the `steps` goes to the next double. -/
def settleScale (low high : Float) : Nat → Float → Float
  | 0, scale => scale
  | steps + 1, scale =>
      if high < scale * greatestUnit + low then
        settleScale low high steps (towardsZero scale)
      else
        scale

/-- Draws between two bounds, which must be in order and not infinitely far
apart, from any source of words.  Every draw takes one word of 64 bits. -/
def uniformOf {σ : Type} (words : σ → UInt64 × σ) : Timing.Draw Float σ := fun low high state =>
  let scale := (high - low) / greatestUnit
  if low ≤ high ∧ scale.isFinite then
    let (word, state) := words state
    let scale := settleScale low high scale.toBits.toNat scale
    .ok (unit word * scale + low, state)
  else
    .error .unboundedDraw

/-- Draws with the words of a generator. -/
abbrev uniform : Timing.Draw Float Pcg :=
  uniformOf Pcg.next64

end Mixdown.Random
