import Mixdown.Effect.Text
import Mixdown.Effect.Wave
import Mixdown.Signal.Param

/-!
# Effects as filters

Each effect is a chain of filters; the label of each filter's output ends in the
step's suffix.
-/

namespace Mixdown

/-- One filter of an effect. -/
structure FilterStep where
  suffix : String
  filter : String
  params : Keyed ParamValue
deriving DecidableEq, Repr

namespace Effect

/-- The size of the encoder's loop buffer, in samples. -/
def loopBuffer : Int64 := 2000000000

/-- The preset of a name; an unknown name stands for the default one. -/
def presetNamed (presets : Keyed WavePreset) (name : String) : WavePreset :=
  (presets.get? name <|> presets.get? defaultPreset).getD .standard

/-- The filters of an effect, in the order in which the sound runs through them. -/
def steps (presets : Keyed WavePreset) : Effect → List FilterStep
  | .loop count =>
      [⟨"loop", "aloop", .ofList [("loop", .integer count), ("size", .integer loopBuffer)]⟩]
  | .reverse => [⟨"backward", "areverse", .empty⟩]
  | .faraway withVolume =>
      (if withVolume then
        [⟨"faraway_volume", "volume", .ofList [("volume", .number 0.3)]⟩]
      else
        []) ++
        [⟨"faraway_lowpass", "lowpass", .ofList [("f", .integer 1000), ("p", .integer 2)]⟩,
          ⟨"faraway_reverb", "aecho",
            .ofList [("in_gain", .number 0.8), ("out_gain", .number 0.9),
              ("delays", .integer 50), ("decays", .number 0.2)]⟩]
  | .wave preset =>
      [⟨"wave", "volume",
        .ofList [("volume", .text (presetNamed presets preset).expression),
          ("eval", .text "frame")]⟩]
  | .mixDuration _ => []

end Effect

end Mixdown
