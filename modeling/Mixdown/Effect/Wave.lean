import Mixdown.Datum.Reading
import Mixdown.Decimal.Layout

/-!
# Wave presets

A wave preset is a sum of cosines that moves a volume up and down.
-/

namespace Mixdown

/-- The cosines have the frequencies `f` and amplitudes `a`; all frequencies are
multiplied by `n`.  The sum is shifted by `o`, scaled by `s` and `p`, and shifted
by `q`. -/
structure WavePreset where
  f : List Float
  a : List Float
  n : Float
  s : Float
  p : Float
  o : Float
  q : Float
deriving DecidableEq, Repr

namespace WavePreset

def standard : WavePreset where
  f := [13.0, 7.0, 3.0]
  a := [1.0, 0.5, 0.25]
  n := 1.0
  s := 3.0
  p := 1.0
  o := -0.5
  q := 0.5

instance : Inhabited WavePreset := ⟨standard⟩

/-- The presets that every recipe can name. -/
def builtin : Keyed WavePreset :=
  .ofList [("default", standard), ("main", { standard with p := -1.0 }),
    ("interference", standard)]

/-! ## Expression -/

/-- The cosine of one frequency. -/
def generator (n frequency amplitude : Float) : String :=
  "cos(PI * t * " ++ Decimal.spoken.write n ++ " / " ++ Decimal.spoken.write frequency ++
    ") * " ++ Decimal.spoken.write amplitude

/-- The cosines of all frequencies; a missing amplitude is one. -/
def generators (n : Float) : List Float → List Float → List String
  | [], _ => []
  | frequency :: frequencies, [] =>
      generator n frequency 1.0 :: generators n frequencies []
  | frequency :: frequencies, amplitude :: amplitudes =>
      generator n frequency amplitude :: generators n frequencies amplitudes

/-- The volume over time `t` as the encoder evaluates it, kept between 0 and 1. -/
def expression (preset : WavePreset) : String :=
  "min(1, max(0, ((" ++ String.intercalate " + " (generators preset.n preset.f preset.a) ++
    ") + " ++ Decimal.spoken.write preset.o ++ ") * " ++ Decimal.spoken.write preset.s ++
    " * " ++ Decimal.spoken.write preset.p ++ " + " ++ Decimal.spoken.write preset.q ++ "))"

/-! ## As data -/

def toDatum (preset : WavePreset) : Datum :=
  .record
    [("f", .list (preset.f.map .ofFloat)),
      ("a", .list (preset.a.map .ofFloat)),
      ("n", .ofFloat preset.n),
      ("s", .ofFloat preset.s),
      ("p", .ofFloat preset.p),
      ("o", .ofFloat preset.o),
      ("q", .ofFloat preset.q)]

open Datum in
/-- A field that is not given is that of the standard preset. -/
def ofDatum? (format : Format) : Datum → Option WavePreset :=
  recordIn? format do
    let f ← defaulted "f" ["genFreqFact"] standard.f (list? float?)
    let a ← defaulted "a" ["genAmpFact"] standard.a (list? float?)
    let n ← defaulted "n" ["globFreqFact"] standard.n float?
    let s ← defaulted "s" ["globAmpFact"] standard.s float?
    let p ← defaulted "p" ["globAmpPolarity"] standard.p float?
    let o ← defaulted "o" ["globPreBias"] standard.o float?
    let q ← defaulted "q" ["globPostBias"] standard.q float?
    return { f, a, n, s, p, o, q }

end WavePreset

end Mixdown
