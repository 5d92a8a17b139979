import Mixdown.Digest.Sha256
import Mixdown.Signal.MixGraph
import Mixdown.Text.Hex

/-!
# Fingerprints

The fingerprint of a mix graph stands for its structure: it does not depend on
how long clips last.
-/

namespace Mixdown

namespace Fingerprint

/-- Ends a field of a record. -/
def fieldEnd : List UInt8 := [0x1f]

/-- Ends a record. -/
def recordEnd : List UInt8 := [0x1e]

def textBytes (text : String) : List UInt8 :=
  text.toUTF8.toList

/-- The bytes of a word, the lowest first. -/
def wordBytes (word : UInt64) : List UInt8 :=
  (List.range 8).map fun place => (word >>> (8 * UInt64.ofNat place)).toUInt8

/-- A parameter that only says how long something lasts. -/
def isTiming (key : String) (value : ParamValue) : Bool :=
  key = "duration" && value.isNumeric

def inputBytes (input : InputFile) : List UInt8 :=
  wordBytes input.index ++ textBytes input.path ++ recordEnd

def paramBytes (entry : String × ParamValue) : List UInt8 :=
  if isTiming entry.1 entry.2 then
    []
  else
    textBytes entry.1 ++ textBytes "=" ++ textBytes entry.2.display ++ fieldEnd

def stageBytes (stage : Stage) : List UInt8 :=
  textBytes (stage.filter.getD "") ++ fieldEnd ++
    stage.inputs.flatMap (fun label => textBytes label ++ fieldEnd) ++
    stage.params.entries.flatMap paramBytes ++ textBytes stage.output ++ recordEnd

/-- What a fingerprint is the digest of. -/
def bytes (stages : List Stage) (inputs : List InputFile) (finalLabel : String) : List UInt8 :=
  inputs.flatMap inputBytes ++ stages.flatMap stageBytes ++ textBytes finalLabel

end Fingerprint

def fingerprint (stages : List Stage) (inputs : List InputFile) (finalLabel : String) : String :=
  String.ofList (Text.hexBytes (Sha256.digest (Fingerprint.bytes stages inputs finalLabel)))

end Mixdown
