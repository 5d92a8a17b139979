import Mixdown.Recipe.Problem
import Mixdown.Signal.Order

/-!
# Why there is no mix
-/

namespace Mixdown

inductive MixError where
  | recipe (error : RecipeError Float)
  | graph (error : GraphError)
  /-- Files could not be read or written, told in words. -/
  | storage (text : String)
deriving DecidableEq, Repr

namespace MixError

def message : MixError → String
  | .recipe error => error.message
  | .graph error => error.message
  | .storage text => "io error: " ++ text

/-- Whether the recipe itself is to blame. -/
def isRecipeFault : MixError → Bool
  | .recipe _ => true
  | _ => false

end MixError

end Mixdown
