import Mixdown.Datum.Reading
import Mixdown.Decimal.Layout
import Mixdown.Scalar

/-!
# Balancing: its settings and its results
-/

namespace Mixdown.Timing

variable {α : Type}

/-- How far and how often drawn lengths are corrected. -/
structure Policy (α : Type) where
  maxIterations : Nat
  tolerance : α
  /-- Whether every clip is kept within its own bounds. -/
  clampToBounds : Bool
deriving DecidableEq, Repr

inductive Warning (α : Type) where
  /-- A track was left at another length than was asked for. -/
  | notConverged (track : UInt64) (target achieved : α) (iterations : Nat)
  /-- A clip was left outside its bounds. -/
  | outOfBounds (track : UInt64) (clip : Nat) (duration minLength maxLength : α)
deriving DecidableEq, Repr

/-- The outcome of balancing a recipe. -/
structure Report (α : Type) where
  /-- The position of the track that sets the length of the mix. -/
  reference : Nat
  mixDuration : α
  warnings : List (Warning α)
deriving DecidableEq, Repr

/-- The outcome of spreading a length over elastic clips. -/
structure Spread (α : Type) where
  iterations : Nat
  /-- What the clips are short of the length asked for. -/
  residual : α
  converged : Bool
deriving DecidableEq, Repr

/-- Arithmetic that the numbers at hand cannot do. -/
inductive Fault where
  /-- A draw between bounds that are not a range of finite width. -/
  | unboundedDraw
  /-- A number to be kept within bounds that are the wrong way round. -/
  | crossedBounds
deriving DecidableEq, Repr

/-- A number kept within bounds; what is no number stays as it is. -/
def confine [Scalar α] (low high value : α) : Except Fault α :=
  if low ≤ high then
    let raised := if value < low then low else value
    .ok (if high < raised then high else raised)
  else
    .error .crossedBounds

/-- A source of lengths: a draw takes the bounds and the state of the source. -/
abbrev Draw (α σ : Type) := α → α → σ → Except Fault (α × σ)

/-! ## As data -/

open Datum

namespace Policy

def standard : Policy Float where
  maxIterations := 100
  tolerance := 1e-6
  clampToBounds := true

instance : Inhabited (Policy Float) := ⟨standard⟩

def toDatum (policy : Policy Float) : Datum :=
  .record
    [("max_iterations", .ofNat policy.maxIterations),
      ("tolerance", .ofFloat policy.tolerance),
      ("clamp_to_bounds", .bool policy.clampToBounds)]

def ofDatum? (format : Format) : Datum → Option (Policy Float) :=
  recordIn? format do
    let maxIterations ← defaulted "max_iterations" [] standard.maxIterations count?
    let tolerance ← defaulted "tolerance" [] standard.tolerance float?
    let clampToBounds ← defaulted "clamp_to_bounds" [] standard.clampToBounds bool?
    return { maxIterations, tolerance, clampToBounds }

end Policy

namespace Warning

def display : Warning Float → String
  | .notConverged track target achieved iterations =>
      "track " ++ toString track ++ " reached " ++ Decimal.fixed 6 achieved ++ "s of " ++
        Decimal.fixed 6 target ++ "s after " ++ toString iterations ++ " iterations"
  | .outOfBounds track clip duration minLength maxLength =>
      "track " ++ toString track ++ " clip " ++ toString clip ++ " duration " ++
        Decimal.fixed 6 duration ++ "s is outside [" ++ Decimal.spoken.write minLength ++
        ", " ++ Decimal.spoken.write maxLength ++ "]"

def toDatum : Warning Float → Datum
  | .notConverged track target achieved iterations =>
      .record
        [("kind", .text "not_converged"), ("track", .ofNat track.toNat),
          ("target", .ofFloat target), ("achieved", .ofFloat achieved),
          ("iterations", .ofNat iterations)]
  | .outOfBounds track clip duration minLength maxLength =>
      .record
        [("kind", .text "out_of_bounds"), ("track", .ofNat track.toNat), ("clip", .ofNat clip),
          ("duration", .ofFloat duration), ("min_length", .ofFloat minLength),
          ("max_length", .ofFloat maxLength)]

def ofDatum? : Datum → Option (Warning Float) :=
  tagged? "kind"
    [("not_converged", .notConverged <$> required "track" unsigned64? <*>
        required "target" float? <*> required "achieved" float? <*>
        required "iterations" count?),
      ("out_of_bounds", .outOfBounds <$> required "track" unsigned64? <*>
        required "clip" count? <*> required "duration" float? <*>
        required "min_length" float? <*> required "max_length" float?)]

end Warning

namespace Report

def toDatum (report : Report Float) : Datum :=
  .record
    [("reference", .ofNat report.reference), ("mix_duration", .ofFloat report.mixDuration),
      ("warnings", .list (report.warnings.map Warning.toDatum))]

def ofDatum? : Datum → Option (Report Float) :=
  record? do
    let reference ← required "reference" count?
    let mixDuration ← required "mix_duration" float?
    let warnings ← required "warnings" (list? Warning.ofDatum?)
    return { reference, mixDuration, warnings }

end Report

end Mixdown.Timing
