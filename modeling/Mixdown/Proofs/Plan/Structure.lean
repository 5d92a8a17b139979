import Mixdown.Proofs.Plan.Decoding

/-!
# Fingerprints tell structures apart

The stages of a compiled graph are legible, and its first stage, which needs no other
signal, does not look like one more file.
-/

namespace Mixdown

open Fingerprint

section Graphs

variable {surroundings : Surroundings} {stages : List Stage} {inputs : List InputFile}
  {stage : Stage}

namespace Fingerprint

end Fingerprint

end Graphs

/-! ## Compiled graphs -/

namespace MixGraph

/-- What a compiled graph needs for its bytes to be taken apart. -/
structure IsLegible (graph : MixGraph) : Prop where
  inputs : ∀ input ∈ graph.inputs, input.index.toNat < 2 ^ 56 ∧ IsUnmarked input.path
  stages : ∀ stage ∈ graph.stages, stage.IsLegible
  border : ∀ rest, (graph.stages.flatMap stageBytes ++ rest)[7]? ≠ some 0
  finalLabel : IsWord graph.finalLabel

end MixGraph

namespace Fingerprint

end Fingerprint

end Mixdown
