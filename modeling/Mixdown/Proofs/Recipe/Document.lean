import Mixdown.Proofs.Datum.Fields
import Mixdown.Recipe.Document

/-!
# Documents read back

A document whose numbers are finite reads back from the plain form of the data that is
written for it.
-/

namespace Mixdown

open Datum

/-! ## Clips -/

/-- What can be written without loss. -/
structure ClipEntry.Writable (entry : ClipEntry) : Prop where
  duration : ∀ number ∈ entry.duration, number.isFinite = true
  minLength : ∀ number ∈ entry.minLength, number.isFinite = true
  maxLength : ∀ number ∈ entry.maxLength, number.isFinite = true
  volume : ∀ number ∈ entry.volume, number.isFinite = true
  clipLength : entry.clipLength = []

def ClipEntry.slots (entry : ClipEntry) : List (String × Option Datum) :=
  [("filename", entry.filename.map .text),
    ("classification", listIfAny (entry.classification.map .text)),
    ("duration", entry.duration.map .ofFloat),
    ("minLength", entry.minLength.map .ofFloat),
    ("maxLength", entry.maxLength.map .ofFloat),
    ("volume", entry.volume.map .ofFloat),
    ("effects", listIfAny (entry.effects.map .text)),
    ("clipLength", listIfAny entry.clipLength)]

theorem ClipEntry.toDatum_eq (entry : ClipEntry) :
    entry.toDatum = .record (fieldsOf entry.slots) := by
  simp only [ClipEntry.toDatum, ClipEntry.slots, fieldIfSome_eq, fieldIfAny_eq,
    ← fieldsOf_append, List.cons_append, List.nil_append]

theorem reads_nothing {items : List Datum} (nothing : items = []) :
    ((listIfAny items).map collapse).elim (some []) (oneOrMany? plain?) = some items := by
  rw [nothing]
  rfl

theorem ClipEntry.ofDatum?_collapse_toDatum
    {entry : ClipEntry} (writable : entry.Writable) :
    ClipEntry.ofDatum? entry.toDatum.collapse = some entry := by
  rw [ClipEntry.toDatum_eq]
  unfold ClipEntry.ofDatum?
  rw [record?_collapse_fieldsOf]
  -- The fields are asked for in the order in which they were written.
  · rw [record?, recordIn?, readFields?, ClipEntry.slots]
    simp only [List.map_cons, List.map_nil]
    rw [run_defaulted_bind (by simp) (reads_text _),
      run_defaulted_bind (by simp) (reads_texts _),
      run_defaulted_bind (by simp) (reads_float writable.duration),
      run_defaulted_bind (by simp) (reads_float writable.minLength),
      run_defaulted_bind (by simp) (reads_float writable.maxLength),
      run_defaulted_bind (by simp) (reads_float writable.volume),
      run_defaulted_bind (by simp) (reads_texts _),
      run_defaulted_bind (by simp) (reads_nothing writable.clipLength)]
    rfl
  · refine (orderless_defaulted _ _ _ _).bind fun filename => ?_
    refine (orderless_defaulted _ _ _ _).bind fun classification => ?_
    refine (orderless_defaulted _ _ _ _).bind fun duration => ?_
    refine (orderless_defaulted _ _ _ _).bind fun minLength => ?_
    refine (orderless_defaulted _ _ _ _).bind fun maxLength => ?_
    refine (orderless_defaulted _ _ _ _).bind fun volume => ?_
    refine (orderless_defaulted _ _ _ _).bind fun effects => ?_
    refine (orderless_defaulted _ _ _ _).bind fun clipLength => ?_
    exact orderless_pure _
  · change List.Nodup ["filename", "classification", "duration", "minLength", "maxLength",
      "volume", "effects", "clipLength"]
    decide

theorem ClipEntry.readable_toDatum {entry : ClipEntry} (writable : entry.Writable) :
    entry.toDatum.readable = true := by
  rw [ClipEntry.toDatum_eq]
  refine readable_fieldsOf ?_
  simp only [ClipEntry.slots, List.forall_mem_cons]
  have nothing : ∀ datum ∈ listIfAny entry.clipLength, datum.readable = true := by
    rw [writable.clipLength]
    nofun
  exact ⟨readable_map_text _, readable_texts _, readable_map_ofFloat _, readable_map_ofFloat _,
    readable_map_ofFloat _, readable_map_ofFloat _, readable_texts _, nothing, nofun⟩

/-! ## Tracks -/

structure TrackEntry.Writable (entry : TrackEntry) : Prop where
  volume : ∀ number ∈ entry.volume, number.isFinite = true
  clips : ∀ clip ∈ entry.clips, clip.Writable

def TrackEntry.slots (entry : TrackEntry) : List (String × Option Datum) :=
  [("track", entry.track.map fun track => .ofNat track.toNat),
    ("index", entry.index.map fun index => .ofNat index.toNat),
    ("clips", some (.list (entry.clips.map ClipEntry.toDatum))),
    ("volume", entry.volume.map .ofFloat),
    ("effects", listIfAny (entry.effects.map .text))]

theorem TrackEntry.toDatum_eq (entry : TrackEntry) :
    entry.toDatum = .record (fieldsOf entry.slots) := by
  simp only [TrackEntry.toDatum, TrackEntry.slots, fieldIfSome_eq, fieldIfAny_eq, field_eq,
    ← fieldsOf_append, List.cons_append, List.nil_append]

theorem TrackEntry.readable_toDatum {entry : TrackEntry} (writable : entry.Writable) :
    entry.toDatum.readable = true := by
  rw [TrackEntry.toDatum_eq]
  refine readable_fieldsOf ?_
  simp only [TrackEntry.slots, List.forall_mem_cons]
  have clips : ∀ datum ∈ some (Datum.list (entry.clips.map ClipEntry.toDatum)),
      datum.readable = true := by
    rintro _ ⟨⟩
    exact readable_list (List.forall_mem_map.mpr fun clip member =>
      ClipEntry.readable_toDatum (writable.clips clip member))
  exact ⟨readable_map_ofNat _, readable_map_ofNat _, clips, readable_map_ofFloat _,
    readable_texts _, nofun⟩

theorem TrackEntry.ofDatum?_collapse_toDatum
    {entry : TrackEntry} (writable : entry.Writable) :
    TrackEntry.ofDatum? entry.toDatum.collapse = some entry := by
  have clips := reads_list fun clip member =>
    And.intro (ClipEntry.readable_toDatum (writable.clips clip member))
      (ClipEntry.ofDatum?_collapse_toDatum (writable.clips clip member))
  rw [TrackEntry.toDatum_eq]
  unfold TrackEntry.ofDatum?
  rw [record?_collapse_fieldsOf]
  · rw [record?, recordIn?, readFields?, TrackEntry.slots]
    simp only [List.map_cons, List.map_nil]
    rw [run_defaulted_bind (by simp) (reads_unsigned _),
      run_defaulted_bind (by simp) (reads_unsigned _),
      run_defaulted_bind (by simp) clips,
      run_defaulted_bind (by simp) (reads_float writable.volume),
      run_defaulted_bind (by simp) (reads_texts _)]
    rfl
  · refine (orderless_defaulted _ _ _ _).bind fun track => ?_
    refine (orderless_defaulted _ _ _ _).bind fun index => ?_
    refine (orderless_defaulted _ _ _ _).bind fun clips => ?_
    refine (orderless_defaulted _ _ _ _).bind fun volume => ?_
    refine (orderless_defaulted _ _ _ _).bind fun effects => ?_
    exact orderless_pure _
  · change List.Nodup ["track", "index", "clips", "volume", "effects"]
    decide

/-! ## Documents -/

def Document.Writable (document : Document) : Prop :=
  ∀ entry ∈ document.tracks, entry.Writable

theorem Document.toDatum_eq (document : Document) :
    document.toDatum = .record (fieldsOf
      [("title", some (.text document.title)),
        ("tracks", some (.list (document.tracks.map TrackEntry.toDatum)))]) :=
  rfl

theorem Document.readable_toDatum {document : Document} (writable : document.Writable) :
    document.toDatum.readable = true := by
  rw [Document.toDatum_eq]
  refine readable_fieldsOf ?_
  simp only [List.forall_mem_cons]
  have tracks : ∀ datum ∈ some (Datum.list (document.tracks.map TrackEntry.toDatum)),
      datum.readable = true := by
    rintro _ ⟨⟩
    exact readable_list (List.forall_mem_map.mpr fun entry member =>
      TrackEntry.readable_toDatum (writable entry member))
  exact ⟨readable_map_text (some document.title), tracks, nofun⟩

theorem Document.ofDatum?_collapse_toDatum
    {document : Document} (writable : document.Writable) :
    Document.ofDatum? document.toDatum.collapse = some document := by
  have tracks := reads_list fun entry member =>
    And.intro (TrackEntry.readable_toDatum (writable entry member))
      (TrackEntry.ofDatum?_collapse_toDatum (writable entry member))
  have title :
      ((some (Datum.text document.title)).map collapse).elim (some "") text? =
        some document.title :=
    rfl
  rw [Document.toDatum_eq]
  unfold Document.ofDatum?
  rw [record?_collapse_fieldsOf]
  · rw [record?, recordIn?, readFields?]
    simp only [List.map_cons, List.map_nil]
    rw [run_defaulted_bind (by simp) title, run_defaulted_bind (by simp) tracks]
    rfl
  · refine (orderless_defaulted _ _ _ _).bind fun title => ?_
    refine (orderless_defaulted _ _ _ _).bind fun tracks => ?_
    exact orderless_pure _
  · change List.Nodup ["title", "tracks"]
    decide

end Mixdown
