import Mixdown.Settings.Encoding
import Mixdown.Toml.Reader

/-!
# Settings files

Settings are read from a file that is named outright, or from the first file
that is there of several.
-/

namespace Mixdown

inductive SettingsError where
  | notFound
  | unreadable
  | malformed
deriving DecidableEq, Repr

namespace Settings

/-- What a settings file is called where none is named. -/
def fileName : String := "recipemix.config.toml"

/-- The variable of the environment that names a settings file. -/
def pathVariable : String := "RECIPEMIX_CONFIG_PATH"

end Settings

def SettingsError.message : SettingsError → String
  | .notFound =>
      "failed to locate " ++ Settings.fileName ++ "; looked in cwd and parent directory"
  | .unreadable => "failed to read config file"
  | .malformed => "failed to parse config TOML"

namespace Settings

def ofText (text : String) : Except SettingsError Settings :=
  match (Toml.read? text.toList).bind (ofDatum? .toml) with
  | some settings => .ok settings
  | none => .error .malformed

/-- The settings of a file, which must be there and hold UTF-8. -/
def ofFile (file : Option ByteArray) : Except SettingsError Settings :=
  match file.bind String.fromUTF8? with
  | some text => ofText text
  | none => .error .unreadable

/-- The settings of the first file that is there. -/
def find (files : List (Option ByteArray)) : Except SettingsError Settings :=
  match files.find? Option.isSome with
  | some file => ofFile file
  | none => .error .notFound

/-- The settings of the first file that is there, or else the standard ones; a
file that is there must hold settings. -/
def findOrStandard (files : List (Option ByteArray)) : Except SettingsError Settings :=
  match find files with
  | .error .notFound => .ok standard
  | found => found

end Settings

end Mixdown
