import Mixdown.Recipe.Basic

/-!
# When a mix ends

The end rule of a recipe, told from the effects that its tracks and clips hold.
-/

namespace Mixdown.Recipe

variable {α : Type}

end Mixdown.Recipe
