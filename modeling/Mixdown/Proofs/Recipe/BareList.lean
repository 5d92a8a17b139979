import Mixdown.Proofs.Datum.Reading
import Mixdown.Proofs.Recipe.Loading

/-!
# Bare lists of tracks

A document may be a bare list instead of a record.  It then means what the untitled record
means that has the list's tracks under `tracks`, where the tracks are the items that are
records with a field `track`.  A list that a record gives for its tracks may otherwise
stand for a single track; a list that starts with a record cannot.
-/

namespace Mixdown

namespace Datum

/-- A record with the field `key`, whatever that holds. -/
def Carries (key : String) (datum : Datum) : Prop :=
  ∃ fields value, datum = .record fields ∧ (key, value) ∈ fields

theorem isTrackRecord_iff {datum : Datum} :
    Recipe.isTrackRecord datum = true ↔ datum.Carries "track" := by
  cases datum with
  | record fields => simp [Recipe.isTrackRecord, Carries]
  | _ => simp [Recipe.isTrackRecord, Carries]

instance : DecidablePred (Carries "track") :=
  fun _ => decidable_of_iff _ isTrackRecord_iff

/-- The items that are records of tracks. -/
def tracksAmong (items : List Datum) : List Datum :=
  items.filter fun item => decide (item.Carries "track")

/-- The document that has nothing but tracks. -/
def untitled (tracks : List Datum) : Datum :=
  .record [("tracks", .list tracks)]

theorem filter_isTrackRecord (items : List Datum) :
    items.filter Recipe.isTrackRecord = tracksAmong items := by
  refine List.filter_congr fun item _ => ?_
  rw [Bool.eq_iff_iff, decide_eq_true_iff, isTrackRecord_iff]

theorem readable_tracksAmong {items : List Datum} (readable : (Datum.list items).readable = true) :
    (Datum.list (tracksAmong items)).readable = true := by
  simp only [Datum.readable, itemsReadable_eq, List.all_eq_true] at readable ⊢
  exact fun item member => readable item (List.mem_of_mem_filter member)

end Datum

open Datum

/-! ## Tracks in a record -/

/-- The first item of a list that stands for a track would be its number. -/
theorem TrackEntry.ofDatum?_list_record (fields : List (String × Datum)) (rest : List Datum) :
    TrackEntry.ofDatum? (.list (.record fields :: rest)) = none :=
  rfl

theorem oneOrMany?_tracks
    {tracks : List Datum} (carry : ∀ track ∈ tracks, track.Carries "track")
    (readable : (Datum.list tracks).readable = true) :
    oneOrMany? TrackEntry.ofDatum? (.list tracks) = tracks.mapM TrackEntry.ofDatum? := by
  rw [oneOrMany?, if_pos readable, list?]
  · cases tracks with
    | nil => rfl
    | cons first rest =>
        obtain ⟨fields, value, rfl, member⟩ := carry first List.mem_cons_self
        rw [TrackEntry.ofDatum?_list_record]
        cases (Datum.record fields :: rest).mapM TrackEntry.ofDatum? <;> rfl
  · rintro ⟨⟩

theorem Document.ofDatum?_untitled (tracks : List Datum) :
    Document.ofDatum? (untitled tracks) =
      (oneOrMany? TrackEntry.ofDatum? (.list tracks)).map fun entries => ⟨"", entries⟩ := by
  have slots : untitled tracks =
      .record (fieldsOf [("title", none), ("tracks", some (.list tracks))]) :=
    rfl
  have noTitle : ∀ slot ∈ [("tracks", some (Datum.list tracks))],
      slot.1 ≠ "title" ∧ slot.1 ∉ ([] : List String) := by
    simp
  rw [slots, Document.ofDatum?, record?, recordIn?, readFields?, run_defaulted_bind noTitle rfl,
    StateT.run_bind, run_defaulted_fieldsOf (by simp), Option.elim_some]
  cases oneOrMany? TrackEntry.ofDatum? (.list tracks) <;> rfl

/-! ## Documents -/

namespace Recipe

theorem documentOf_list (items : List Datum) :
    documentOf (.list items) =
      ((tracksAmong items).mapM TrackEntry.ofDatum?).elim
        (.error (.invalid .whole .notTrackRecord)) fun entries => .ok ⟨"", entries⟩ := by
  rw [documentOf, filter_isTrackRecord, mapM_eq_elim]
  · cases (tracksAmong items).mapM TrackEntry.ofDatum? <;> rfl
  · intro item _
    cases TrackEntry.ofDatum? item <;> rfl

theorem documentOf_untitled
    {items : List Datum} (readable : (Datum.list items).readable = true) :
    documentOf (untitled (tracksAmong items)) =
      ((tracksAmong items).mapM TrackEntry.ofDatum?).elim
        (.error (.invalid .whole .notDocument)) fun entries => .ok ⟨"", entries⟩ := by
  have carry : ∀ track ∈ tracksAmong items, track.Carries "track" := by
    intro track member
    exact of_decide_eq_true (List.mem_filter.mp member).2
  have read := Document.ofDatum?_untitled (tracksAmong items)
  rw [oneOrMany?_tracks carry (readable_tracksAmong readable)] at read
  rw [untitled] at read ⊢
  rw [documentOf, read]
  · cases (tracksAmong items).mapM TrackEntry.ofDatum? <;> rfl
  · rintro _ ⟨⟩

/-- A bare list gives the recipe, or the error, of the untitled document of its tracks;
only where one of the tracks is no track record do the two errors differ, in what they
say. -/
theorem ofDocumentDatum_list
    (items : List Datum) (readable : (Datum.list items).readable = true) :
    ((∀ track ∈ tracksAmong items, (TrackEntry.ofDatum? track).isSome = true) →
        ofDocumentDatum (.list items) = ofDocumentDatum (untitled (tracksAmong items)) ∧
          ∀ recipe, ofDocumentDatum (.list items) = .ok recipe → recipe.title = "") ∧
      ((∃ track ∈ tracksAmong items, TrackEntry.ofDatum? track = none) →
        ofDocumentDatum (.list items) = .error (.invalid .whole .notTrackRecord) ∧
          ofDocumentDatum (untitled (tracksAmong items)) =
            .error (.invalid .whole .notDocument)) := by
  rw [ofDocumentDatum, ofDocumentDatum, documentOf_list, documentOf_untitled readable]
  constructor
  · intro fits
    obtain ⟨entries, read⟩ := Option.isSome_iff_exists.mp (isSome_mapM_iff.mpr fits)
    rw [read, Option.elim_some, Option.elim_some]
    refine ⟨rfl, fun recipe loaded => ?_⟩
    exact (ofDocument_eq_ok_iff.mp loaded).1
  · rintro ⟨track, member, unfit⟩
    have unread : (tracksAmong items).mapM TrackEntry.ofDatum? = none := by
      rw [← Option.not_isSome_iff_eq_none, isSome_mapM_iff]
      intro fits
      simpa [unfit] using fits track member
    rw [unread]
    exact ⟨rfl, rfl⟩

def firstTake : Datum :=
  .record
    [("track", .null), ("clip", .record [("filename", .text "a.wav"), ("duration", .integer 3)])]

def secondTake : Datum :=
  .record
    [("clips", .list [.record [("minLength", .integer 1), ("filename", .text "b.wav"),
      ("maxLength", .integer 2)]]), ("track", .integer 1)]

/-- Among a heading and a number. -/
def takes : List Datum :=
  [.record [("name", .text "takes")], firstTake, .integer 7, secondTake]

/-- One recipe of two tracks, with and without the document around them. -/
theorem ofDocumentDatum_takes :
    (Datum.list takes).readable = true ∧
      ∃ recipe, recipe.tracks.length = 2 ∧ recipe.title = "" ∧
        ofDocumentDatum (.list takes) = .ok recipe ∧
        ofDocumentDatum (untitled [firstTake, secondTake]) = .ok recipe := by
  have readable : (Datum.list takes).readable = true := rfl
  have tracks : tracksAmong takes = [firstTake, secondTake] := by
    rw [← filter_isTrackRecord]
    rfl
  have fits : ∀ track ∈ tracksAmong takes, (TrackEntry.ofDatum? track).isSome = true := by
    have first : (TrackEntry.ofDatum? firstTake).isSome = true := rfl
    have second : (TrackEntry.ofDatum? secondTake).isSome = true := rfl
    simp [tracks, first, second]
  have loads :
      (ofDocumentDatum (untitled [firstTake, secondTake])).toOption.any
        (fun recipe => recipe.tracks.length = 2) = true := by
    decide +kernel
  obtain ⟨same, untitledTitle⟩ := (ofDocumentDatum_list takes readable).1 fits
  rw [tracks] at same
  obtain ⟨recipe, loaded, length⟩ := exists_ok_of_any loads
  have listLoaded : ofDocumentDatum (.list takes) = .ok recipe := same.trans loaded
  exact ⟨readable, recipe, of_decide_eq_true length, untitledTitle recipe listLoaded, listLoaded,
    loaded⟩

end Recipe

end Mixdown
