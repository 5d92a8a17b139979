import Mixdown.Proofs.Timing.Overflow
import Mixdown.Proofs.Plan.Playable
import Mixdown.Proofs.Plan.Structure
import Mixdown.Proofs.Text.Utf8
import Mixdown.Proofs.Signal.Forms
import Mixdown.Proofs.Signal.Words
import Mixdown.Proofs.Plan.Saving
import Mixdown.Command.Run
import Mixdown.Machine
import Mixdown.Main
import Mixdown.Proofs.Signal.Freshness
import Mixdown.Proofs.Signal.Unfolding
import Mixdown.Recipe.Encoding
import Mixdown.Recipe.Sameness
import Mixdown.Proofs.Recipe.EndRule
import Mixdown.Proofs.Recipe.Tree
import Mixdown.Proofs.Signal.Draft
import Mixdown.Proofs.Signal.Building
import Mixdown.Proofs.Signal.MixGraph
import Mixdown.Proofs.Timing.Bounds
import Mixdown.Proofs.Timing.Shares
import Mixdown.Proofs.Recipe.Admission
import Mixdown.Proofs.Timing.Convergence
import Mixdown.Proofs.Timing.Stretch
import Mixdown.Proofs.Timing.Balance
import Mixdown.Proofs.Outcome
import Mixdown.Proofs.Recipe.Retimed
import Mixdown.Proofs.Timing.Retimed
import Mixdown.Proofs.Timing.OutOfBounds
import Mixdown.Proofs.Signal.Retimed
import Mixdown.Proofs.Plan.Fingerprint
import Mixdown.Proofs.Double
import Mixdown.Proofs.Recipe.Loading
import Mixdown.Proofs.Recipe.FirstFault
import Mixdown.Proofs.Recipe.BareList
import Mixdown.Proofs.Text.Integer
import Mixdown.Proofs.Text.Pieces
import Mixdown.Proofs.Effect.Text
import Mixdown.Proofs.Datum.Reading
import Mixdown.Proofs.Datum.Equality
import Mixdown.Proofs.Recipe.Document
import Mixdown.Proofs.Recipe.RoundTrip
import Mixdown.Proofs.Recipe.Saving
import Mixdown.Proofs.Plan.Timing
import Mixdown.Proofs.Timing.Rebalanced
import Mixdown.Proofs.Timing.Nearest
import Mixdown.Proofs.Timing.StretchTo
import Mixdown.Proofs.Plan.Lengths
import Mixdown.Proofs.Signal.Pushing
import Mixdown.Proofs.Signal.Naming
import Mixdown.Proofs.Signal.Supply
import Mixdown.Proofs.Signal.Labelling
import Mixdown.Proofs.Signal.ChainText
import Mixdown.Proofs.Command.Shell
import Mixdown.Proofs.Timing.Recorded
import Mixdown.Proofs.Timing.Draws
import Mixdown.Proofs.Settings.Presets
import Mixdown.Proofs.Datum.Unbracketed
import Mixdown.Proofs.Recipe.Unbracketed
import Mixdown.Proofs.Decimal.Shortest
import Mixdown.Proofs.Decimal.Nearest
import Mixdown.Proofs.Decimal.Plain
import Mixdown.Proofs.Effect.Formula
import Mixdown.Proofs.Effect.Expression
