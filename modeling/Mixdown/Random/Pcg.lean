/-!
# A small random number generator

A permuted congruential generator with 64 bits of state and 32 bits of output.
All arithmetic is modulo `2 ^ 64`.
-/

namespace Mixdown.Random

structure Pcg where
  state : UInt64
  increment : UInt64
deriving DecidableEq, Repr

namespace Pcg

def multiplier : UInt64 := 6364136223846793005

/-- The increment of the generator that makes states out of seeds. -/
def seedIncrement : UInt64 := 11634580027462260723

/-- A word turned right by `amount` places, counted modulo 32. -/
def rotateRight (word : UInt32) (amount : UInt32) : UInt32 :=
  (word >>> amount) ||| (word <<< (32 - amount))

/-- The output of a state: its high bits mixed, turned by its highest five. -/
def output (state : UInt64) : UInt32 :=
  rotateRight (((state >>> 18) ^^^ state) >>> 27).toUInt32 (state >>> 59).toUInt32

/-- Two words as one, the low one first. -/
def join (low high : UInt32) : UInt64 :=
  low.toUInt64 ||| (high.toUInt64 <<< 32)

/-- The generator of a seed, which is stretched to four words. -/
def ofSeed (seed : UInt64) : Pcg :=
  let step := fun state => state * multiplier + seedIncrement
  let first := step seed
  let second := step first
  let third := step second
  let fourth := step third
  let start := join (output first) (output second)
  let increment := join (output third) (output fourth) ||| 1
  ⟨(start + increment) * multiplier + increment, increment⟩

def next32 (generator : Pcg) : UInt32 × Pcg :=
  (output generator.state,
    { generator with state := generator.state * multiplier + generator.increment })

def next64 (generator : Pcg) : UInt64 × Pcg :=
  let (low, generator) := generator.next32
  let (high, generator) := generator.next32
  (join low high, generator)

end Pcg

end Mixdown.Random
