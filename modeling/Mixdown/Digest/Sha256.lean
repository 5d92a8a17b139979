/-!
# SHA-256
-/

namespace Mixdown.Sha256

/-! ## Words -/

/-- A word turned right by fewer than 32 places. -/
def turn (word amount : UInt32) : UInt32 :=
  (word >>> amount) ||| (word <<< (32 - amount))

def ofBytes (a b c d : UInt8) : UInt32 :=
  (a.toUInt32 <<< 24) ||| (b.toUInt32 <<< 16) ||| (c.toUInt32 <<< 8) ||| d.toUInt32

/-- The bytes of a word, the highest first. -/
def toBytes (word : UInt32) : List UInt8 :=
  [(word >>> 24).toUInt8, (word >>> 16).toUInt8, (word >>> 8).toUInt8, word.toUInt8]

/-! ## Message -/

/-- The words of a message, which has a whole number of them. -/
def words : List UInt8 → List UInt32
  | a :: b :: c :: d :: rest => ofBytes a b c d :: words rest
  | _ => []

/-- A message with a one bit, zero bits and its length in bits, which make its
length a multiple of 64 bytes. -/
def padded (message : List UInt8) : List UInt8 :=
  let length := message.length
  let gap := (119 - length % 64) % 64
  let bits := 8 * length
  message ++ 0x80 :: List.replicate gap 0 ++
    (toBytes (UInt32.ofNat (bits / UInt32.size)) ++ toBytes (UInt32.ofNat bits))

/-- The first `count` words of the schedule that starts with a window of sixteen. -/
def schedule : Nat → List UInt32 → List UInt32
  | 0, _ => []
  | count + 1, window =>
      let early := window.getD 1 0
      let late := window.getD 14 0
      let next := window.getD 0 0 +
        (turn early 7 ^^^ turn early 18 ^^^ (early >>> 3)) + window.getD 9 0 +
        (turn late 17 ^^^ turn late 19 ^^^ (late >>> 10))
      window.getD 0 0 :: schedule count (window.tail ++ [next])

/-! ## Compression -/

structure State where
  a : UInt32
  b : UInt32
  c : UInt32
  d : UInt32
  e : UInt32
  f : UInt32
  g : UInt32
  h : UInt32
deriving DecidableEq, Repr

/-- Fractional parts of the square roots of the first eight primes. -/
def initial : State :=
  ⟨0x6a09e667, 0xbb67ae85, 0x3c6ef372, 0xa54ff53a,
    0x510e527f, 0x9b05688c, 0x1f83d9ab, 0x5be0cd19⟩

/-- Fractional parts of the cube roots of the first 64 primes. -/
def constants : List UInt32 :=
  [0x428a2f98, 0x71374491, 0xb5c0fbcf, 0xe9b5dba5, 0x3956c25b, 0x59f111f1,
    0x923f82a4, 0xab1c5ed5, 0xd807aa98, 0x12835b01, 0x243185be, 0x550c7dc3,
    0x72be5d74, 0x80deb1fe, 0x9bdc06a7, 0xc19bf174, 0xe49b69c1, 0xefbe4786,
    0x0fc19dc6, 0x240ca1cc, 0x2de92c6f, 0x4a7484aa, 0x5cb0a9dc, 0x76f988da,
    0x983e5152, 0xa831c66d, 0xb00327c8, 0xbf597fc7, 0xc6e00bf3, 0xd5a79147,
    0x06ca6351, 0x14292967, 0x27b70a85, 0x2e1b2138, 0x4d2c6dfc, 0x53380d13,
    0x650a7354, 0x766a0abb, 0x81c2c92e, 0x92722c85, 0xa2bfe8a1, 0xa81a664b,
    0xc24b8b70, 0xc76c51a3, 0xd192e819, 0xd6990624, 0xf40e3585, 0x106aa070,
    0x19a4c116, 0x1e376c08, 0x2748774c, 0x34b0bcb5, 0x391c0cb3, 0x4ed8aa4a,
    0x5b9cca4f, 0x682e6ff3, 0x748f82ee, 0x78a5636f, 0x84c87814, 0x8cc70208,
    0x90befffa, 0xa4506ceb, 0xbef9a3f7, 0xc67178f2]

def State.add (left right : State) : State :=
  ⟨left.a + right.a, left.b + right.b, left.c + right.c, left.d + right.d,
    left.e + right.e, left.f + right.f, left.g + right.g, left.h + right.h⟩

/-- One round, with a constant and a word of the schedule. -/
def round (state : State) (input : UInt32 × UInt32) : State :=
  let mixed := turn state.e 6 ^^^ turn state.e 11 ^^^ turn state.e 25
  let choice := (state.e &&& state.f) ^^^ (~~~state.e &&& state.g)
  let first := state.h + mixed + choice + input.1 + input.2
  let spread := turn state.a 2 ^^^ turn state.a 13 ^^^ turn state.a 22
  let majority := (state.a &&& state.b) ^^^ (state.a &&& state.c) ^^^ (state.b &&& state.c)
  ⟨first + (spread + majority), state.a, state.b, state.c, state.d + first,
    state.e, state.f, state.g⟩

/-- Takes one block of sixteen words in. -/
def compress (state : State) (block : List UInt32) : State :=
  state.add ((constants.zip (schedule 64 block)).foldl round state)

/-- Takes in `count` blocks. -/
def compressAll : Nat → State → List UInt32 → State
  | 0, state, _ => state
  | count + 1, state, message =>
      compressAll count (compress state (message.take 16)) (message.drop 16)

/-! ## Digest -/

def digest (message : List UInt8) : List UInt8 :=
  let message := words (padded message)
  let final := compressAll (message.length / 16) initial message
  [final.a, final.b, final.c, final.d, final.e, final.f, final.g, final.h].flatMap toBytes

end Mixdown.Sha256
