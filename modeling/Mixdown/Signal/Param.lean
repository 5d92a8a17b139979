import Mixdown.Datum.Reading
import Mixdown.Decimal.Layout

/-!
# Filter parameters
-/

namespace Mixdown

/-- The value of a filter parameter. -/
inductive ParamValue where
  | integer (value : Int64)
  | number (value : Float)
  | text (value : String)
deriving DecidableEq, Repr

namespace ParamValue

/-- A count as a parameter; a count beyond the signed words stays at their end. -/
def ofCount (count : Nat) : ParamValue :=
  .integer (Int64.ofNat (min count Int64.maxValue.toNatClampNeg))

/-- The value as it stands in a filter graph. -/
def display : ParamValue → String
  | .integer value => toString value.toInt
  | .number value => Decimal.spoken.write value
  | .text value => value

def isNumeric : ParamValue → Bool
  | .text _ => false
  | _ => true

def toDatum : ParamValue → Datum
  | .integer value => .integer value.toInt
  | .number value => .ofFloat value
  | .text value => .text value

/-- An integer that fits in a signed word stays one; any other number is a double. -/
def ofDatum? (datum : Datum) : Option ParamValue :=
  (datum.signed64?.map .integer) <|> (datum.float?.map .number) <|> (datum.text?.map .text)

end ParamValue

end Mixdown
