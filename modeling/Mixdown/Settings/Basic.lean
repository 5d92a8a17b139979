import Mixdown.Signal.Assembly
import Mixdown.Timing.Basic

/-!
# Settings

What can be configured; everything has a standard value.
-/

namespace Mixdown

structure ContentSettings where
  contentDir : String
  /-- Where mixes are written. -/
  mixDir : String
deriving DecidableEq, Repr

structure OutputSettings where
  format : String
  codec : String
  bitrate : String
  channels : UInt32
  sampleRate : UInt32
deriving DecidableEq, Repr

structure LogSettings where
  filter : String
  filePrefix : String
deriving DecidableEq, Repr

structure Settings where
  content : ContentSettings
  balance : Timing.Policy Float
  output : OutputSettings
  /-- The program that renders mixes. -/
  encoder : String
  log : LogSettings
  /-- Presets beside the built-in ones, or in their place. -/
  wavePresets : Keyed WavePreset
deriving DecidableEq, Repr

namespace Settings

def standard : Settings where
  content := ⟨"content", "mixes"⟩
  balance := .standard
  output := ⟨"mp3", "libmp3lame", "128k", 2, 44100⟩
  encoder := "ffmpeg"
  log := ⟨"info,recipemix_core=debug", "recipemix"⟩
  wavePresets := .empty

instance : Inhabited Settings := ⟨standard⟩

/-- The built-in presets and the configured ones, whose names count in lower
case; of names that differ only in case the last in key order wins. -/
def presets (settings : Settings) : Keyed WavePreset :=
  WavePreset.builtin.insertAll <|
    settings.wavePresets.entries.map fun entry => (Text.lower entry.1, entry.2)

def surroundings (settings : Settings) : Surroundings :=
  ⟨settings.content.contentDir, settings.presets⟩

end Settings

end Mixdown
