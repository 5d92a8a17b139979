import Mixdown.Settings.Basic

/-!
# Settings as data

Any field may be missing, in which case it has its standard value.
-/

namespace Mixdown

open Datum

def ContentSettings.toDatum (content : ContentSettings) : Datum :=
  .record [("content_dir", .text content.contentDir), ("mix_dir", .text content.mixDir)]

def ContentSettings.ofDatum? (format : Format) : Datum → Option ContentSettings :=
  recordIn? format do
    let contentDir ← defaulted "content_dir" [] Settings.standard.content.contentDir text?
    let mixDir ← defaulted "mix_dir" [] Settings.standard.content.mixDir text?
    return { contentDir, mixDir }

def OutputSettings.toDatum (output : OutputSettings) : Datum :=
  .record
    [("format", .text output.format), ("codec", .text output.codec),
      ("bitrate", .text output.bitrate), ("channels", .ofNat output.channels.toNat),
      ("sample_rate", .ofNat output.sampleRate.toNat)]

def OutputSettings.ofDatum? (format : Format) : Datum → Option OutputSettings :=
  recordIn? format do
    let format ← defaulted "format" [] Settings.standard.output.format text?
    let codec ← defaulted "codec" [] Settings.standard.output.codec text?
    let bitrate ← defaulted "bitrate" [] Settings.standard.output.bitrate text?
    let channels ← defaulted "channels" [] Settings.standard.output.channels unsigned32?
    let sampleRate ← defaulted "sample_rate" [] Settings.standard.output.sampleRate unsigned32?
    return { format, codec, bitrate, channels, sampleRate }

def LogSettings.toDatum (log : LogSettings) : Datum :=
  .record [("rust_log_filter", .text log.filter), ("trace_file_prefix", .text log.filePrefix)]

def LogSettings.ofDatum? (format : Format) : Datum → Option LogSettings :=
  recordIn? format do
    let filter ← defaulted "rust_log_filter" [] Settings.standard.log.filter text?
    let filePrefix ← defaulted "trace_file_prefix" [] Settings.standard.log.filePrefix text?
    return { filter, filePrefix }

namespace Settings

/-- The encoder stands alone in a record of its own. -/
def encoderOfDatum? (format : Format) : Datum → Option String :=
  recordIn? format (defaulted "ffmpeg_binary" [] standard.encoder text?)

def toDatum (settings : Settings) : Datum :=
  .record
    [("content", settings.content.toDatum),
      ("balance", settings.balance.toDatum),
      ("output", settings.output.toDatum),
      ("export", .record [("ffmpeg_binary", .text settings.encoder)]),
      ("diagnostics", settings.log.toDatum),
      ("wave_presets", .ofKeyed WavePreset.toDatum settings.wavePresets)]

def ofDatum? (format : Format) : Datum → Option Settings :=
  recordIn? format do
    let content ← defaulted "content" [] standard.content (ContentSettings.ofDatum? format)
    let balance ← defaulted "balance" [] standard.balance (Timing.Policy.ofDatum? format)
    let output ← defaulted "output" [] standard.output (OutputSettings.ofDatum? format)
    let encoder ← defaulted "export" [] standard.encoder (encoderOfDatum? format)
    let log ← defaulted "diagnostics" [] standard.log (LogSettings.ofDatum? format)
    let wavePresets ←
      defaulted "wave_presets" [] standard.wavePresets (keyed? (WavePreset.ofDatum? format))
    return { content, balance, output, encoder, log, wavePresets }

end Settings

end Mixdown
