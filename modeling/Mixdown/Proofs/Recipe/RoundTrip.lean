import Mixdown.Json.Writer
import Mixdown.Proofs.Datum.Equality
import Mixdown.Proofs.Recipe.Reread

/-!
# Recipes read back

A recipe that was loaded is written as a document that loads as the same recipe: file
names were trimmed, presets put in lower case and elastic clips left at their least
length when it was loaded, and its tracks were measured.
-/

namespace Mixdown

/-! ## Clips -/

/-- Effects that texts stand for are read as themselves. -/
theorem map_reread_eq
    {texts : List String} {effects : List Effect}
    (read : List.Forall₂ (fun text effect => Effect.ofText text = .ok effect) texts effects) :
    effects.map Effect.reread = effects := by
  refine (List.map_congr_left ?_).trans (List.map_id effects)
  intro effect member
  obtain ⟨text, _, reads⟩ := exists_mem_left_of_forall₂ read member
  exact (Effect.readable_of_ofText reads).reread_eq

section Clips

variable {entry : ClipEntry} {clip : Clip Float}

theorem ClipEntry.Describes.source_reread (describes : entry.Describes clip) :
    clip.source.reread = clip.source := by
  rcases describes.source_cases with ⟨_, silence⟩ | ⟨_, filename, _, file⟩
  · rw [silence]
    rfl
  · rw [file, ClipSource.reread, String.toList_ofList, Text.trim_trim]

theorem ClipEntry.Describes.timing_reread (describes : entry.Describes clip) :
    clip.timing.reread = clip.timing := by
  cases given : entry.duration with
  | some duration =>
      rw [describes.fixed duration given]
      rfl
  | none =>
      obtain ⟨minLength, maxLength, _, _, elastic⟩ := describes.elastic given
      rw [elastic]
      rfl

theorem ClipEntry.Describes.reread_eq (describes : entry.Describes clip) :
    clip.reread = clip := by
  rw [Clip.reread, describes.source_reread, describes.timing_reread,
    map_reread_eq describes.effects]

theorem IsVolume.isFinite {volume : Option Float} (isVolume : IsVolume volume) :
    ∀ percent ∈ volume, percent.isFinite = true :=
  fun percent given => (isVolume percent given).1

theorem Clip.writable_toEntry (admitted : checkClip clip = .ok ()) : clip.toEntry.Writable := by
  obtain ⟨_, timingAdmitted, volumeAdmitted⟩ := checkClip_eq_ok_iff.mp admitted
  have volume := (checkVolume_eq_ok_iff.mp volumeAdmitted).isFinite
  obtain ⟨source, timing, percent, effects⟩ := clip
  cases timing with
  | fixed duration =>
      obtain ⟨finite, _⟩ := checkFixed_eq_ok_iff.mp timingAdmitted
      refine ⟨?_, nofun, nofun, volume, rfl⟩
      rintro _ ⟨⟩
      exact finite
  | elastic minLength maxLength length =>
      obtain ⟨minFinite, maxFinite, _⟩ := checkElastic_eq_ok_iff.mp timingAdmitted
      refine ⟨nofun, ?_, ?_, volume, rfl⟩
      · rintro _ ⟨⟩
        exact minFinite
      · rintro _ ⟨⟩
        exact maxFinite

end Clips

/-! ## Tracks -/

section Tracks

variable {entry : TrackEntry} {position : Nat} {track : Track Float}

theorem TrackEntry.Describes.ofClips (describes : entry.Describes position track) :
    Track.ofClips track.index track.clips track.volume track.effects = track := by
  have duration := describes.duration
  have minLength := describes.minLength
  have maxLength := describes.maxLength
  obtain ⟨index, clips, volume, effects, total, least, most⟩ := track
  dsimp only at duration minLength maxLength
  rw [duration, minLength, maxLength]
  rfl

theorem TrackEntry.Describes.reread_eq (describes : entry.Describes position track) :
    track.reread = track := by
  have clips : track.clips.map Clip.reread = track.clips := by
    refine (List.map_congr_left ?_).trans (List.map_id track.clips)
    intro clip member
    obtain ⟨clipEntry, _, describesClip⟩ := exists_mem_left_of_forall₂ describes.clips member
    exact describesClip.reread_eq
  rw [Track.reread, clips, map_reread_eq describes.effects, describes.ofClips]

theorem Track.IsAdmitted.writable_toEntry (admitted : track.IsAdmitted) :
    track.toEntry.Writable := by
  obtain ⟨_, volume, clips⟩ := admitted
  refine ⟨(checkVolume_eq_ok_iff.mp volume).isFinite, ?_⟩
  exact List.forall_mem_map.mpr fun clip member => Clip.writable_toEntry (clips clip member)

end Tracks

/-! ## Recipes -/

namespace Recipe

variable {document : Document} {recipe : Recipe Float}

theorem reread_eq_of_describes (describes : document.Describes recipe) :
    recipe.reread = recipe := by
  have tracks : recipe.tracks.map Track.reread = recipe.tracks := by
    refine (List.map_congr_left ?_).trans (List.map_id recipe.tracks)
    intro track member
    obtain ⟨_, _, describesTrack⟩ := exists_mem_left_of_forall₂ describes.tracks member
    exact describesTrack.reread_eq
  rw [reread, tracks]

theorem strayRule?_of_describes (describes : document.Describes recipe) :
    strayRule? recipe.placedClips = none := by
  rw [strayRule?_eq_none_iff]
  intro entry member
  obtain ⟨track, trackMember, placed⟩ := List.mem_flatMap.mp member
  obtain ⟨⟨clip, position⟩, found, rfl⟩ := List.mem_map.mp placed
  obtain ⟨_, _, describesTrack⟩ := exists_mem_left_of_forall₂ describes.tracks trackMember
  obtain ⟨_, _, describesClip⟩ :=
    exists_mem_left_of_forall₂ describesTrack.clips (List.fst_mem_of_mem_zipIdx found)
  exact describesClip.noEndRule

theorem ofDocument_toDocument (loaded : ofDocument document = .ok recipe) :
    ofDocument recipe.toDocument = .ok recipe := by
  obtain ⟨title, tracksLoaded, admitted⟩ := ofDocument_eq_ok_iff.mp loaded
  have describes := describes_of_tracksOf title tracksLoaded
  rw [ofDocument_toDocument_outcome admitted, strayRule?_of_describes describes,
    reread_eq_of_describes describes]
  rfl

theorem writable_toDocument (admitted : recipe.check = .ok ()) : recipe.toDocument.Writable := by
  obtain ⟨_, _, tracks⟩ := check_eq_ok_iff.mp admitted
  exact List.forall_mem_map.mpr fun track member => (tracks track member).writable_toEntry

theorem exists_document {bytes : ByteArray} (loaded : ofBytes bytes = .ok recipe) :
    ∃ document, ofDocument document = .ok recipe := by
  rw [ofBytes] at loaded
  split at loaded
  next =>
    obtain ⟨document, _, fromDocument⟩ := bind_eq_ok_iff.mp loaded
    exact ⟨document, fromDocument⟩
  next => cases loaded

theorem ofDocumentDatum_collapse_toDatum (writable : document.Writable) :
    ofDocumentDatum document.toDatum.collapse = ofDocument document := by
  have isDocument : documentOf document.toDatum.collapse = .ok document := by
    have read := Document.ofDatum?_collapse_toDatum writable
    rw [Document.toDatum_eq] at read ⊢
    rw [Datum.collapse] at read ⊢
    rw [documentOf, read]
    rintro _ ⟨⟩
  rw [ofDocumentDatum, isDocument]
  rfl

theorem ofBytes_of_holds
    {bytes : ByteArray} (writable : document.Writable)
    (holds : Json.readBytes? bytes = some document.toDatum) :
    ofBytes bytes = ofDocument document := by
  have plain : document.toDatum.plain? = some document.toDatum.collapse :=
    if_pos (Document.readable_toDatum writable)
  rw [ofBytes, holds, Option.bind_some, plain]
  exact ofDocumentDatum_collapse_toDatum writable

/-- A recipe that bytes hold is held by the bytes that it is written as, if these hold
the data that was written. -/
theorem ofBytes_write
    {bytes : ByteArray} (write : Datum → ByteArray) (loaded : ofBytes bytes = .ok recipe)
    (readBack : Json.readBytes? (write recipe.toDocument.toDatum) =
      some recipe.toDocument.toDatum) :
    ofBytes (write recipe.toDocument.toDatum) = .ok recipe := by
  obtain ⟨document, fromDocument⟩ := exists_document loaded
  obtain ⟨_, _, admitted⟩ := ofDocument_eq_ok_iff.mp fromDocument
  rw [ofBytes_of_holds (writable_toDocument admitted) readBack]
  exact ofDocument_toDocument fromDocument

/-- A document with blanks, capital letters, second names and single values. -/
def rainText : String :=
  "\x7b\"track\":\x7b\"clip\":\x7b\"filename\":\" a.wav\",\"minLength\":2.5," ++
    "\"max_length\":8,\"effect\":\"Noise\x7bMain\x7d\"\x7d\x7d\x7d"

def rain : Recipe Float where
  title := ""
  tracks :=
    [.ofClips 0 [⟨.file "a.wav", .elasticFrom 2.5 8.0, none, [.wave "main"]⟩] none []]

theorem ofBytes_write_rain :
    ofBytes rainText.toUTF8 = .ok rain ∧
      ofBytes (Json.compact rain.toDocument.toDatum).toUTF8 = .ok rain := by
  have loaded : ofBytes rainText.toUTF8 = .ok rain := by decide +kernel
  have readBack :
      Json.readBytes? (Json.compact rain.toDocument.toDatum).toUTF8 =
        some rain.toDocument.toDatum := by
    decide +kernel
  exact ⟨loaded, ofBytes_write (fun datum => (Json.compact datum).toUTF8) loaded readBack⟩

end Recipe

end Mixdown
