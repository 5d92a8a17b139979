import Mixdown.Proofs.Recipe.ClipEntry

/-!
# Documents that hold recipes

Which documents can be loaded, which recipe each of them describes, and what is wrong
with the others: loading stops at a fault that the document has where the error says.
-/

namespace Mixdown

/-! ## Tracks -/

section Tracks

variable {entry : TrackEntry} {position : Nat} {track : Track Float}

theorem clipsOf_eq_mapM (index : UInt64) (position : Nat) (entries : List ClipEntry) :
    clipsOf index position entries =
      (entries.zipIdx position).mapM fun placed =>
        placed.1.toClip.mapError (.invalid (.ofClip index placed.2)) := by
  induction entries generalizing position with
  | nil => rfl
  | cons entry rest inductionHypothesis =>
      rw [clipsOf, List.zipIdx_cons, List.mapM_cons, inductionHypothesis]

theorem clipsOf_eq_ok_iff
    {index : UInt64} {entries : List ClipEntry} {clips : List (Clip Float)} :
    clipsOf index position entries = .ok clips ↔
      List.Forall₂ (fun entry clip => entry.toClip = .ok clip) entries clips := by
  rw [clipsOf_eq_mapM, mapM_eq_ok_iff]
  simp only [mapError_eq_ok_iff]
  nth_rewrite 2 [← List.zipIdx_map_fst position entries]
  rw [List.forall₂_map_left_iff]

theorem exists_of_clipsOf_eq_error
    {index : UInt64} {entries : List ClipEntry} {error : RecipeError Float}
    (refused : clipsOf index 0 entries = .error error) :
    ∃ (place : Nat) (entry : ClipEntry) (reason : Reason Float),
      entries[place]? = some entry ∧ entry.Fault reason ∧
        error = .invalid (.ofClip index place) reason := by
  rw [clipsOf_eq_mapM] at refused
  obtain ⟨⟨entry, place⟩, member, failed⟩ := exists_of_mapM_eq_error refused
  obtain ⟨reason, unloaded, equality⟩ := mapError_eq_error_iff.mp failed
  exact ⟨place, entry, reason, List.mem_zipIdx_iff_getElem?.mp member,
    ClipEntry.fault_of_toClip unloaded, equality.symm⟩

theorem TrackEntry.describes_of_toTrack (loaded : entry.toTrack position = .ok track) :
    entry.Describes position track := by
  obtain ⟨effects, read, later⟩ := bind_eq_ok_iff.mp loaded
  obtain ⟨clips, clipsLoaded, equality⟩ := bind_eq_ok_iff.mp later
  cases equality
  exact {
    index := rfl
    clips := (clipsOf_eq_ok_iff.mp clipsLoaded).imp fun _ _ => ClipEntry.describes_of_toClip
    volume := rfl
    effects := effectsOf_eq_ok_iff.mp (mapError_eq_ok_iff.mp read)
    duration := rfl
    minLength := rfl
    maxLength := rfl }

theorem TrackEntry.fault_of_toTrack {error : RecipeError Float}
    (refused : entry.toTrack position = .error error) :
    entry.Fault (entry.resolvedIndex position) error := by
  rcases bind_eq_error_iff.mp refused with effects | ⟨_, _, later⟩
  · obtain ⟨reason, failed, rfl⟩ := mapError_eq_error_iff.mp effects
    obtain ⟨text, member, error, unreadable, rfl⟩ := exists_of_effectsOf_eq_error failed
    exact .effect member unreadable
  · rcases bind_eq_error_iff.mp later with clips | ⟨_, _, impossible⟩
    · obtain ⟨place, clip, reason, found, fault, rfl⟩ := exists_of_clipsOf_eq_error clips
      exact .clip found fault
    · cases impossible

theorem TrackEntry.Describes.admissible
    (describes : entry.Describes position track) (admitted : track.IsAdmitted) :
    entry.Admissible := by
  obtain ⟨hasClips, volumeAdmitted, clipsAdmitted⟩ := admitted
  constructor
  · intro empty
    have clips := describes.clips
    rw [empty, List.forall₂_nil_left_iff] at clips
    exact hasClips clips
  · intro text member
    obtain ⟨effect, _, reads⟩ := exists_mem_left_of_forall₂ describes.effects.flip member
    exact ⟨effect, reads⟩
  · rw [← describes.volume]
    exact checkVolume_eq_ok_iff.mp volumeAdmitted
  · intro clipEntry member
    obtain ⟨clip, found, describesClip⟩ :=
      exists_mem_left_of_forall₂ describes.clips.flip member
    exact ClipEntry.Describes.admissible describesClip (clipsAdmitted clip found)

theorem TrackEntry.Describes.fault {error : RecipeError Float}
    (describes : entry.Describes position track) (flaw : track.Flaw error) :
    entry.Fault (entry.resolvedIndex position) error := by
  rw [← describes.index]
  cases flaw with
  | noClips empty =>
      have clips := describes.clips
      rw [empty, List.forall₂_nil_right_iff] at clips
      exact .noClips clips
  | volume refused =>
      rw [describes.volume] at refused
      obtain ⟨percent, given, bad, rfl⟩ := exists_of_checkVolume_eq_error refused
      exact .badVolume given bad
  | clip found refused =>
      obtain ⟨clipEntry, entryFound, describesClip⟩ :=
        exists_getElem?_left_of_forall₂ describes.clips found
      exact .clip entryFound (describesClip.fault refused)

end Tracks

/-! ## Documents -/

theorem tracksOf_eq_mapM (position : Nat) (entries : List TrackEntry) :
    tracksOf position entries =
      (entries.zipIdx position).mapM fun placed => placed.1.toTrack placed.2 := by
  induction entries generalizing position with
  | nil => rfl
  | cons entry rest inductionHypothesis =>
      rw [tracksOf, List.zipIdx_cons, List.mapM_cons, inductionHypothesis]

theorem tracksOf_eq_ok_iff {entries : List TrackEntry} {tracks : List (Track Float)} :
    tracksOf 0 entries = .ok tracks ↔
      List.Forall₂ (fun placed track => placed.1.toTrack placed.2 = .ok track)
        entries.zipIdx tracks := by
  rw [tracksOf_eq_mapM, mapM_eq_ok_iff]

theorem exists_of_tracksOf_eq_error
    {entries : List TrackEntry} {error : RecipeError Float}
    (refused : tracksOf 0 entries = .error error) :
    ∃ (position : Nat) (entry : TrackEntry), entries[position]? = some entry ∧
      entry.toTrack position = .error error := by
  rw [tracksOf_eq_mapM] at refused
  obtain ⟨⟨entry, position⟩, member, failed⟩ := exists_of_mapM_eq_error refused
  exact ⟨position, entry, List.mem_zipIdx_iff_getElem?.mp member, failed⟩

namespace Recipe

variable {document : Document} {recipe : Recipe Float} {error : RecipeError Float}

theorem ofDocument_eq_ok_iff :
    ofDocument document = .ok recipe ↔
      recipe.title = document.title ∧ tracksOf 0 document.tracks = .ok recipe.tracks ∧
        recipe.check = .ok () := by
  simp only [ofDocument, bind_eq_ok_iff]
  constructor
  · rintro ⟨tracks, loaded, _, admitted, equality⟩
    cases equality
    exact ⟨rfl, loaded, admitted⟩
  · rintro ⟨title, loaded, admitted⟩
    refine ⟨recipe.tracks, loaded, (), ?_, ?_⟩
    · rw [← title]
      exact admitted
    · rw [← title]
      rfl

theorem describes_of_tracksOf
    (title : recipe.title = document.title)
    (loaded : tracksOf 0 document.tracks = .ok recipe.tracks) : document.Describes recipe :=
  ⟨title, (tracksOf_eq_ok_iff.mp loaded).imp fun _ _ => TrackEntry.describes_of_toTrack⟩

end Recipe

theorem Document.Describes.exists_entry
    {document : Document} {recipe : Recipe Float} {place : Nat} {track : Track Float}
    (describes : document.Describes recipe) (found : recipe.tracks[place]? = some track) :
    ∃ entry, document.tracks[place]? = some entry ∧ entry.Describes place track := by
  obtain ⟨⟨entry, position⟩, placed, describesTrack⟩ :=
    exists_getElem?_left_of_forall₂ describes.tracks found
  rw [List.getElem?_zipIdx, Nat.zero_add, Option.map_eq_some_iff] at placed
  obtain ⟨other, otherFound, equality⟩ := placed
  cases equality
  exact ⟨entry, otherFound, describesTrack⟩

theorem Document.Describes.admissible
    {document : Document} {recipe : Recipe Float} (describes : document.Describes recipe)
    (admitted : recipe.check = .ok ()) : document.Admissible := by
  obtain ⟨hasTracks, distinct, tracksAdmitted⟩ := Recipe.check_eq_ok_iff.mp admitted
  constructor
  · intro empty
    have tracks := describes.tracks
    rw [empty, List.zipIdx_nil, List.forall₂_nil_left_iff] at tracks
    exact hasTracks tracks
  · have indices := map_eq_map_of_forall₂
      (describes.tracks.imp fun _ _ describesTrack => describesTrack.index.symm)
    rw [indices]
    exact distinct
  · intro entry member
    obtain ⟨place, found⟩ := List.mem_iff_getElem?.mp member
    have placed : document.tracks.zipIdx[place]? = some (entry, place) := by
      rw [List.getElem?_zipIdx, found, Nat.zero_add]
      rfl
    obtain ⟨track, trackFound, describesTrack⟩ :=
      exists_getElem?_left_of_forall₂ describes.tracks.flip placed
    exact TrackEntry.Describes.admissible describesTrack
      (tracksAdmitted track (List.mem_of_getElem? trackFound))

theorem Document.Describes.fault
    {document : Document} {recipe : Recipe Float} {error : RecipeError Float}
    (describes : document.Describes recipe) (refused : recipe.check = .error error) :
    document.Fault error := by
  rw [Recipe.check] at refused
  split at refused
  next empty =>
    cases refused
    have tracks := describes.tracks
    rw [List.isEmpty_iff.mp empty, List.forall₂_nil_right_iff, List.zipIdx_eq_nil_iff] at tracks
    exact .noTracks tracks
  next =>
    obtain ⟨place, track, found, ⟨taken, rfl⟩ | flaw⟩ := exists_of_checkTracks_eq_error refused
    · rcases taken with impossible | ⟨before, less, other, otherFound, equal⟩
      · cases impossible
      · obtain ⟨entry, entryFound, describesTrack⟩ := describes.exists_entry found
        obtain ⟨otherEntry, otherEntryFound, describesOther⟩ := describes.exists_entry otherFound
        rw [describesTrack.index]
        refine .duplicateIndex otherEntryFound entryFound less ?_
        rw [← describesOther.index, equal, describesTrack.index]
    · obtain ⟨entry, entryFound, describesTrack⟩ := describes.exists_entry found
      exact .track entryFound (describesTrack.fault flaw)

/-- Exactly the admissible documents can be loaded, as the recipe that they describe;
of any other document an error names a fault, where the document has it. -/
theorem Recipe.ofDocument_outcome (document : Document) :
    match ofDocument document with
    | .ok recipe => document.Admissible ∧ document.Describes recipe
    | .error error => ¬ document.Admissible ∧ document.Fault error := by
  cases outcome : ofDocument document with
  | ok recipe =>
      obtain ⟨title, loaded, admitted⟩ := ofDocument_eq_ok_iff.mp outcome
      have describes := describes_of_tracksOf title loaded
      exact ⟨describes.admissible admitted, describes⟩
  | error error =>
      -- Either an entry does not load, or the checks refuse what all of them describe.
      have fault : document.Fault error := by
        rcases bind_eq_error_iff.mp outcome with unloaded | ⟨tracks, loaded, later⟩
        · obtain ⟨position, entry, found, failed⟩ := exists_of_tracksOf_eq_error unloaded
          exact .track found (TrackEntry.fault_of_toTrack failed)
        · have describes : document.Describes ⟨document.title, tracks⟩ :=
            describes_of_tracksOf rfl loaded
          rcases bind_eq_error_iff.mp later with refused | ⟨_, _, impossible⟩
          · exact describes.fault refused
          · cases impossible
      exact ⟨fault.not_admissible, fault⟩

/-- The position of a track counts as its index, also when another track states it. -/
example :
    let clip : ClipEntry := ⟨none, ["Silence"], some 2.0, none, none, none, [], []⟩
    let stating : TrackEntry := ⟨none, some 1, [clip], none, []⟩
    let silent : TrackEntry := ⟨none, none, [clip], none, []⟩
    Recipe.ofDocument ⟨"", [stating, silent]⟩ =
      .error (.invalid (.ofTrack 1) .duplicateIndex) := by
  decide +kernel

end Mixdown
