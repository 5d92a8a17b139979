import Mixdown.Json.Writer
import Mixdown.Proofs.Datum.Equality
import Mixdown.Proofs.Datum.Unbracketed
import Mixdown.Proofs.Recipe.BareList

/-!
# Recipes without brackets

A document means the same with the brackets around single tracks, clips, effects and
classes as without, in whatever combination they are left out.
-/

namespace Mixdown

open Datum

/-! ## Entries -/

/-- Entries of clips that differ at most in the lengths that other programs noted. -/
def ClipEntry.Alike (entry other : ClipEntry) : Prop :=
  ∃ lengths, other = { entry with clipLength := lengths }

structure TrackEntry.Alike (entry other : TrackEntry) : Prop where
  track : entry.track = other.track
  index : entry.index = other.index
  clips : List.Forall₂ ClipEntry.Alike entry.clips other.clips
  volume : entry.volume = other.volume
  effects : entry.effects = other.effects

structure Document.Alike (document other : Document) : Prop where
  title : document.title = other.title
  tracks : List.Forall₂ TrackEntry.Alike document.tracks other.tracks

section Reading

variable {datum other : Datum}

/-- Noted lengths can be read or not, whatever they are. -/
theorem alike_noted :
    Datum.Alike (List.Forall₂ fun _ _ => True)
      (defaulted "clipLength" ["length"] [] (oneOrMany? plain?))
      (defaulted "clipLength" ["length"] [] (oneOrMany? plain?)) := by
  refine alike_oneOrMany (fun value other unbracketed => ?_) fun name isName single isOpened => ?_
  · rw [plain?, plain?, unbracketed.readable_eq]
    split
    next => exact .some trivial
    next => exact .none
  · have unopened : ∀ name ∈ ["clipLength", "length"], name ∉ recordLists ∧ name ∉ textLists := by
      decide
    obtain ⟨notRecords, notTexts⟩ := unopened name isName
    rcases of_opens isOpened with ⟨isRecords, _⟩ | ⟨isTexts, _⟩
    · exact absurd isRecords notRecords
    · exact absurd isTexts notTexts

theorem ClipEntry.alike_ofDatum? (unbracketed : datum.Unbracketed other) :
    Option.Rel ClipEntry.Alike (ClipEntry.ofDatum? datum) (ClipEntry.ofDatum? other) := by
  have optionalText := isScalar_optional isScalar_text
  have optionalNumber := isScalar_optional isScalar_float
  refine Datum.Alike.record? ?_ unbracketed
  refine (alike_scalar optionalText (by decide)).bind ?_
  rintro filename _ rfl
  refine (alike_texts "classification" ["classifications"]).bind ?_
  rintro classification _ rfl
  refine (alike_scalar optionalNumber (by decide)).bind ?_
  rintro duration _ rfl
  refine (alike_scalar optionalNumber (by decide)).bind ?_
  rintro minLength _ rfl
  refine (alike_scalar optionalNumber (by decide)).bind ?_
  rintro maxLength _ rfl
  refine (alike_scalar optionalNumber (by decide)).bind ?_
  rintro volume _ rfl
  refine (alike_texts "effects" ["effect"]).bind ?_
  rintro effects _ rfl
  refine alike_noted.bind fun _ lengths _ => ?_
  exact alike_pure ⟨lengths, rfl⟩

/-- The first item of a list that stands for a clip would be its file name. -/
theorem ClipEntry.ofDatum?_list_record (fields : List (String × Datum)) (rest : List Datum) :
    ClipEntry.ofDatum? (.list (.record fields :: rest)) = none :=
  rfl

theorem TrackEntry.alike_ofDatum? (unbracketed : datum.Unbracketed other) :
    Option.Rel TrackEntry.Alike (TrackEntry.ofDatum? datum) (TrackEntry.ofDatum? other) := by
  have optionalCount := isScalar_optional isScalar_unsigned64
  have optionalNumber := isScalar_optional isScalar_float
  refine Datum.Alike.record? ?_ unbracketed
  refine (alike_scalar optionalCount (by decide)).bind ?_
  rintro track _ rfl
  refine (alike_scalar optionalCount (by decide)).bind ?_
  rintro index _ rfl
  have clipsAlike :
      Datum.Alike (List.Forall₂ ClipEntry.Alike)
        (defaulted "clips" ["clip"] [] (oneOrMany? ClipEntry.ofDatum?))
        (defaulted "clips" ["clip"] [] (oneOrMany? ClipEntry.ofDatum?)) :=
    alike_records (fun _ _ => ClipEntry.alike_ofDatum?) (by decide)
      fun fields => ClipEntry.ofDatum?_list_record fields []
  refine clipsAlike.bind fun clips otherClips sameClips => ?_
  refine (alike_scalar optionalNumber (by decide)).bind ?_
  rintro volume _ rfl
  refine (alike_texts "effects" ["effect"]).bind ?_
  rintro effects _ rfl
  exact alike_pure ⟨rfl, rfl, sameClips, rfl, rfl⟩

theorem Document.alike_ofDatum? (unbracketed : datum.Unbracketed other) :
    Option.Rel Document.Alike (Document.ofDatum? datum) (Document.ofDatum? other) := by
  refine Datum.Alike.record? ?_ unbracketed
  refine (alike_scalar isScalar_text (by decide)).bind ?_
  rintro title _ rfl
  have tracksAlike :
      Datum.Alike (List.Forall₂ TrackEntry.Alike)
        (defaulted "tracks" ["track"] [] (oneOrMany? TrackEntry.ofDatum?))
        (defaulted "tracks" ["track"] [] (oneOrMany? TrackEntry.ofDatum?)) :=
    alike_records (fun _ _ => TrackEntry.alike_ofDatum?) (by decide)
      fun fields => TrackEntry.ofDatum?_list_record fields []
  refine tracksAlike.bind fun tracks otherTracks sameTracks => ?_
  exact alike_pure ⟨rfl, sameTracks⟩

end Reading

/-! ## Loading -/

theorem ClipEntry.Alike.toClip_eq {entry other : ClipEntry} (alike : entry.Alike other) :
    entry.toClip = other.toClip := by
  obtain ⟨lengths, rfl⟩ := alike
  rfl

theorem clipsOf_eq_of_alike
    {entries others : List ClipEntry} (alike : List.Forall₂ ClipEntry.Alike entries others)
    (track : UInt64) (position : Nat) :
    clipsOf track position entries = clipsOf track position others := by
  induction alike generalizing position with
  | nil => rfl
  | cons first _ inductionHypothesis =>
      rw [clipsOf, clipsOf, first.toClip_eq, inductionHypothesis]

theorem TrackEntry.Alike.toTrack_eq
    {entry other : TrackEntry} (alike : entry.Alike other) (position : Nat) :
    entry.toTrack position = other.toTrack position := by
  have index : entry.resolvedIndex position = other.resolvedIndex position := by
    rw [resolvedIndex, resolvedIndex, alike.index, alike.track]
  rw [toTrack, toTrack, index, alike.effects, alike.volume, clipsOf_eq_of_alike alike.clips]

theorem tracksOf_eq_of_alike
    {entries others : List TrackEntry} (alike : List.Forall₂ TrackEntry.Alike entries others)
    (position : Nat) : tracksOf position entries = tracksOf position others := by
  induction alike generalizing position with
  | nil => rfl
  | cons first _ inductionHypothesis =>
      rw [tracksOf, tracksOf, first.toTrack_eq, inductionHypothesis]

namespace Recipe

theorem ofDocument_eq_of_alike {document other : Document} (alike : document.Alike other) :
    ofDocument document = ofDocument other := by
  rw [ofDocument, ofDocument, tracksOf_eq_of_alike alike.tracks, alike.title]

theorem isTrackRecord_eq {item other : Datum} (unbracketed : item.Unbracketed other) :
    isTrackRecord item = isTrackRecord other := by
  cases unbracketed with
  | same => rfl
  | list => rfl
  | @record fields others inside =>
      have named (fields : List (String × Datum)) :
          isTrackRecord (.record fields) = (fields.map Prod.fst).any fun key => key = "track" := by
        rw [List.any_map]
        rfl
      rw [named, named, inside.map_fst_eq]

/-- What is loaded once a document is made of what was read. -/
theorem elim_bind_eq_of_rel
    {β : Type} {same : β → β → Prop} {read other : Option β} {make : β → Document}
    (alike : Option.Rel same read other)
    (madeAlike : ∀ value otherValue, same value otherValue →
      (make value).Alike (make otherValue))
    (error : RecipeError Float) :
    (read.elim (.error error) fun value => .ok (make value)) >>= ofDocument =
      (other.elim (.error error) fun value => .ok (make value)) >>= ofDocument := by
  cases alike with
  | none => rfl
  | some alike => exact ofDocument_eq_of_alike (madeAlike _ _ alike)

theorem documentOf_record (fields : List (String × Datum)) :
    documentOf (.record fields) =
      (Document.ofDatum? (.record fields)).elim (.error (.invalid .whole .notDocument))
        fun document => .ok document := by
  rw [documentOf]
  · cases Document.ofDatum? (.record fields) <;> rfl
  · rintro _ ⟨⟩

theorem ofDocumentDatum_eq_of_unbracketed {datum other : Datum}
    (unbracketed : datum.Unbracketed other) : ofDocumentDatum datum = ofDocumentDatum other := by
  rw [ofDocumentDatum, ofDocumentDatum]
  cases unbracketed with
  | same => rfl
  | list inside =>
      have tracks := inside.filter fun _ _ => isTrackRecord_eq
      rw [filter_isTrackRecord, filter_isTrackRecord] at tracks
      have read := rel_mapM (tracks.forall₂.imp fun _ _ => TrackEntry.alike_ofDatum?)
      rw [documentOf_list, documentOf_list]
      exact elim_bind_eq_of_rel read (fun _ _ alike => ⟨rfl, alike⟩) _
  | record inside =>
      have read := Document.alike_ofDatum? (.record inside)
      rw [documentOf_record, documentOf_record]
      exact elim_bind_eq_of_rel read (fun _ _ alike => alike) _

/-- A document gives the same recipe, or the same error, with and without the brackets
around single tracks, clips, effects and classes, wherever they are left out; so do texts
that hold such documents. -/
theorem ofBytes_eq_of_unbracketed {datum other : Datum} (unbracketed : datum.Unbracketed other) :
    ofDocumentDatum datum = ofDocumentDatum other ∧
      ∀ bytes others, Json.readBytes? bytes = some datum →
        Json.readBytes? others = some other → ofBytes bytes = ofBytes others := by
  refine ⟨ofDocumentDatum_eq_of_unbracketed unbracketed, fun bytes others read otherRead => ?_⟩
  rw [ofBytes, ofBytes, read, otherRead, Option.bind_some, Option.bind_some, plain?, plain?,
    unbracketed.readable_eq]
  by_cases readable : other.readable = true
  · rw [if_pos readable, if_pos readable]
    exact ofDocumentDatum_eq_of_unbracketed unbracketed.collapse
  · rw [if_neg readable, if_neg readable]

/-- One track with one clip that has one effect. -/
def soloist : Datum :=
  .record
    [("title", .text "solo"),
      ("track", .list
        [.record
          [("clips", .list
            [.record
              [("filename", .text "a.wav"), ("duration", .integer 3),
                ("effect", .list [.text "reverse"])]])]])]

/-- The same without any brackets. -/
def plainSoloist : Datum :=
  .record
    [("title", .text "solo"),
      ("track", .record
        [("clips", .record
          [("filename", .text "a.wav"), ("duration", .integer 3), ("effect", .text "reverse")])])]

theorem soloist_unbracketed : soloist.Unbracketed plainSoloist := by
  have clip :
      UnbracketedFields
        [("filename", .text "a.wav"), ("duration", .integer 3),
          ("effect", .list [.text "reverse"])]
        [("filename", .text "a.wav"), ("duration", .integer 3), ("effect", .text "reverse")] :=
    .cons (.kept (.same _)) (.cons (.kept (.same _)) (.cons (.opened rfl (.same _)) .nil))
  have track : UnbracketedField "clips" _ _ :=
    .opened rfl (.record clip)
  exact .record <| .cons (.kept (.same _)) <|
    .cons (.opened rfl (.record (.cons track .nil))) .nil

theorem ofBytes_eq_of_unbracketed_soloist :
    ∃ recipe, recipe.tracks.length = 1 ∧
      ofBytes (Json.compact soloist).toUTF8 = .ok recipe ∧
      ofBytes (Json.compact plainSoloist).toUTF8 = .ok recipe := by
  have loads :
      (ofBytes (Json.compact plainSoloist).toUTF8).toOption.any
        (fun recipe => recipe.tracks.length = 1) = true := by
    decide +kernel
  have read : Json.readBytes? (Json.compact soloist).toUTF8 = some soloist := by
    decide +kernel
  have plainRead : Json.readBytes? (Json.compact plainSoloist).toUTF8 = some plainSoloist := by
    decide +kernel
  obtain ⟨recipe, loaded, hasTrack⟩ := exists_ok_of_any loads
  have same := (ofBytes_eq_of_unbracketed soloist_unbracketed).2 _ _ read plainRead
  exact ⟨recipe, of_decide_eq_true hasTrack, same.trans loaded, loaded⟩

end Recipe

end Mixdown
