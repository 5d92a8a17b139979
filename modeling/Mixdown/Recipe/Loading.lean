import Mixdown.Json.Reader
import Mixdown.Recipe.Admission
import Mixdown.Recipe.Document

/-!
# Recipes and documents

A recipe is loaded from a document entry by entry and then admitted; a document
written for an admitted recipe loads as that recipe.
-/

namespace Mixdown

/-! ## From documents -/

/-- The class of clips that are silent, in any case of letters. -/
def silenceClass : String := "silence"

def ClipEntry.isSilence (entry : ClipEntry) : Bool :=
  entry.classification.any fun name => Text.lowerCase name.toList = silenceClass.toList

def ClipEntry.source (entry : ClipEntry) : Except (Reason Float) ClipSource :=
  if entry.isSilence then
    .ok .silence
  else
    match Text.trim (entry.filename.getD "").toList with
    | [] => .error .noFilename
    | filename => .ok (.file (String.ofList filename))

/-- A duration makes bounds superfluous. -/
def ClipEntry.timing (entry : ClipEntry) : Except (Reason Float) (ClipTiming Float) :=
  match entry.duration, entry.minLength, entry.maxLength with
  | some duration, _, _ => .ok (.fixed duration)
  | none, some minLength, some maxLength => .ok (.elasticFrom minLength maxLength)
  | none, none, none => .error .noTiming
  | none, _, _ => .error .halfBounds

/-- The effects of a list of texts; the first text that is none is reported. -/
def effectsOf (texts : List String) : Except (Reason Float) (List Effect) :=
  texts.mapM fun text => (Effect.ofText text).mapError .effect

/-- The effects of a clip, where an end rule makes no sense. -/
def ClipEntry.clipEffects (entry : ClipEntry) : Except (Reason Float) (List Effect) := do
  let effects ← effectsOf entry.effects
  if effects.any Effect.isMixDuration then .error .endRuleOnClip else .ok effects

def ClipEntry.toClip (entry : ClipEntry) : Except (Reason Float) (Clip Float) := do
  let source ← entry.source
  let timing ← entry.timing
  let effects ← entry.clipEffects
  return { source, timing, volume := entry.volume, effects }

/-- Turns the clip entries of a track into clips, from `position` on. -/
def clipsOf (track : UInt64) (position : Nat) :
    List ClipEntry → Except (RecipeError Float) (List (Clip Float))
  | [] => .ok []
  | entry :: rest => do
      let clip ← entry.toClip.mapError (.invalid (.ofClip track position))
      let clips ← clipsOf track (position + 1) rest
      return clip :: clips

/-- The index that a track entry states, or else its position. -/
def TrackEntry.resolvedIndex (entry : TrackEntry) (position : Nat) : UInt64 :=
  (entry.index <|> entry.track).getD (UInt64.ofNat position)

def TrackEntry.toTrack (entry : TrackEntry) (position : Nat) :
    Except (RecipeError Float) (Track Float) := do
  let index := entry.resolvedIndex position
  let effects ← (effectsOf entry.effects).mapError (.invalid (.ofTrack index))
  let clips ← clipsOf index 0 entry.clips
  return Track.ofClips index clips entry.volume effects

/-- Turns track entries into tracks, from `position` on. -/
def tracksOf (position : Nat) :
    List TrackEntry → Except (RecipeError Float) (List (Track Float))
  | [] => .ok []
  | entry :: rest => do
      let track ← entry.toTrack position
      let tracks ← tracksOf (position + 1) rest
      return track :: tracks

namespace Recipe

/-- The recipe of a document, if it is admitted. -/
def ofDocument (document : Document) : Except (RecipeError Float) (Recipe Float) := do
  let tracks ← tracksOf 0 document.tracks
  let recipe : Recipe Float := ⟨document.title, tracks⟩
  recipe.check
  return recipe

/-- Whether a value is a record with a field `track`, whatever that holds. -/
def isTrackRecord : Datum → Bool
  | .record fields => fields.any fun field => field.1 = "track"
  | _ => false

/-- The document of a plain value.  A bare list stands for an untitled recipe of
the tracks among its items; its other items are passed over. -/
def documentOf : Datum → Except (RecipeError Float) Document
  | .list items => do
      let tracks ← (items.filter isTrackRecord).mapM fun item =>
        match TrackEntry.ofDatum? item with
        | some entry => .ok entry
        | none => .error (.invalid .whole .notTrackRecord)
      return ⟨"", tracks⟩
  | datum =>
      match Document.ofDatum? datum with
      | some document => .ok document
      | none => .error (.invalid .whole .notDocument)

def ofDocumentDatum (datum : Datum) : Except (RecipeError Float) (Recipe Float) :=
  documentOf datum >>= ofDocument

/-- The recipe that bytes hold as JSON. -/
def ofBytes (bytes : ByteArray) : Except (RecipeError Float) (Recipe Float) :=
  match (Json.readBytes? bytes).bind Datum.plain? with
  | some datum => ofDocumentDatum datum
  | none => .error (.invalid .whole .notJson)

end Recipe

/-! ## To documents -/

def Clip.toEntry (clip : Clip Float) : ClipEntry where
  filename := clip.source.filename?
  classification := if clip.source.isSilence then [silenceClass] else []
  duration :=
    match clip.timing with
    | .fixed duration => some duration
    | .elastic _ _ _ => none
  minLength :=
    match clip.timing with
    | .fixed _ => none
    | .elastic minLength _ _ => some minLength
  maxLength :=
    match clip.timing with
    | .fixed _ => none
    | .elastic _ maxLength _ => some maxLength
  volume := clip.volume
  effects := clip.effects.map Effect.display
  clipLength := []

def Track.toEntry (track : Track Float) : TrackEntry where
  track := some track.index
  index := none
  clips := track.clips.map Clip.toEntry
  volume := track.volume
  effects := track.effects.map Effect.display

def Recipe.toDocument (recipe : Recipe Float) : Document where
  title := recipe.title
  tracks := recipe.tracks.map Track.toEntry

end Mixdown
