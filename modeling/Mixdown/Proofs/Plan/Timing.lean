import Mixdown.Proofs.Plan.Inputs
import Mixdown.Proofs.Timing.Overflow

/-!
# The timing of a plan

What a plan reports of its clips is read off the balanced recipe once more, after the
graph was made of it.  It is what the stages of the graph do: silence is made as long, and
a file cut to the length, as reported.
-/

namespace Mixdown

/-! ## Distinct keys -/

/-- An item is the only one of a list with its key, when keys are distinct. -/
theorem filter_eq_singleton
    {α β : Type} [DecidableEq β] {key : α → β} {items : List α} {item : α}
    (distinct : (items.map key).Nodup) (member : item ∈ items) :
    items.filter (fun other => decide (key other = key item)) = [item] := by
  obtain ⟨before, after, rfl⟩ := List.append_of_mem member
  rw [List.map_append, List.map_cons, List.nodup_append, List.nodup_cons] at distinct
  obtain ⟨_, ⟨notAfter, _⟩, apart⟩ := distinct
  have noneBefore : before.filter (fun other => decide (key other = key item)) = [] := by
    refine List.filter_eq_nil_iff.mpr fun other inBefore => ?_
    have different := apart (key other) (List.mem_map_of_mem inBefore) (key item)
      List.mem_cons_self
    simpa using different
  have noneAfter : after.filter (fun other => decide (key other = key item)) = [] := by
    refine List.filter_eq_nil_iff.mpr fun other inAfter => ?_
    intro same
    exact notAfter (of_decide_eq_true same ▸ List.mem_map_of_mem inAfter)
  rw [List.filter_append, List.filter_cons, noneBefore, noneAfter, if_pos (decide_eq_true rfl)]
  rfl

/-! ## Stages of one clip -/

namespace Stage

/-- Whether the stage cuts the signal of a label. -/
def trims (label : String) (stage : Stage) : Bool :=
  stage.isTrim && stage.inputs.contains label

end Stage

namespace Opened

variable {contentDir : String} {number : Nat} {before : List Cue} {stages : List Stage}
  {inputs : List InputFile}

theorem filter_trims_eq_nil
    {label : String} (opened : Opened contentDir number before stages inputs)
    (unmade : label ∉ stages.map Stage.output) : stages.filter (Stage.trims label) = [] := by
  refine List.filter_eq_nil_iff.mpr fun stage member trims => ?_
  obtain ⟨isTrim, takenIn⟩ := Bool.and_eq_true_iff.mp trims
  exact unmade (opened.mem_outputs_of_isTrim member isTrim label
    (List.contains_iff_mem.mp takenIn))

/-- The signals that a clip opens with are cut in its own opening only. -/
theorem filter_trims
    {after : List Cue} {own later : List Stage} {others : List InputFile} {next : Nat}
    {label : String} (opened : Opened contentDir number before stages inputs)
    (laterOpened : Opened contentDir next after later others)
    (made : label ∈ own.map Stage.output)
    (distinct : ((stages ++ (own ++ later)).map Stage.output).Nodup) :
    (stages ++ (own ++ later)).filter (Stage.trims label) = own.filter (Stage.trims label) := by
  rw [List.map_append, List.map_append, List.nodup_append, List.nodup_append] at distinct
  obtain ⟨_, ⟨_, _, apartLater⟩, apart⟩ := distinct
  have notBefore : label ∉ stages.map Stage.output :=
    fun member => apart label member label (List.mem_append_left _ made) rfl
  have notAfter : label ∉ later.map Stage.output :=
    fun member => apartLater label made label member rfl
  rw [List.filter_append, List.filter_append, opened.filter_trims_eq_nil notBefore,
    laterOpened.filter_trims_eq_nil notAfter, List.nil_append, List.append_nil]

theorem getElem?_ingest
    {own later : List Stage} {stage : Stage}
    (opened : Opened contentDir number before stages inputs)
    (takesIn : own.filter Stage.isIngest = [stage]) :
    ((stages ++ (own ++ later)).filter Stage.isIngest)[(before.filterMap Cue.file?).length]? =
      some stage := by
  have count : (stages.filter Stage.isIngest).length = (before.filterMap Cue.file?).length := by
    rw [opened.ingests.length_eq, List.length_zipIdx]
  rw [List.filter_append, List.filter_append, takesIn, ← count, List.getElem?_append_right le_rfl,
    Nat.sub_self]
  rfl

end Opened

/-! ## Clips -/

theorem Clip.kind_eq (clip : Clip Float) :
    clip.kind =
      if clip.source.isSilence then .silence
      else if clip.timing.isElastic then .elastic
      else .fixed := by
  obtain ⟨source, timing, volume, effects⟩ := clip
  cases source <;> cases timing <;> rfl

theorem getElem?_filterMap_file?
    {before after : List Cue} {cue : Cue} {file : FileCue} (isFile : cue.file? = some file) :
    ((before ++ cue :: after).filterMap Cue.file?)[(before.filterMap Cue.file?).length]? =
      some file := by
  rw [List.filterMap_append, List.filterMap_cons, isFile, List.getElem?_append_right le_rfl,
    Nat.sub_self]
  rfl

theorem Clip.Retimed.kind_eq {clip other : Clip Float} (retimed : clip.Retimed other) :
    clip.kind = other.kind := by
  rw [clip.kind_eq, other.kind_eq, retimed.source, retimed.timing.isElastic_eq]

theorem Cue.isCut_eq (cue : Cue) : cue.isCut = decide (cue.clip.kind = .elastic) := by
  obtain ⟨track, position, source, timing, volume, effects⟩ := cue
  cases source <;> cases timing <;> rfl

namespace Recipe

theorem countP_isCut (recipe : Recipe Float) :
    recipe.cues.countP Cue.isCut = (recipe.clips.map Clip.kind).count .elastic := by
  rw [← map_clip_cues, List.map_map, List.count, List.countP_map]
  exact List.countP_congr fun cue _ => by rw [cue.isCut_eq]; rfl

theorem Retimed.map_kind_eq
    {recipe other : Recipe Float} (retimed : recipe.Retimed other) :
    recipe.clips.map Clip.kind = other.clips.map Clip.kind := by
  have clips : List.Forall₂ Clip.Retimed recipe.clips other.clips :=
    List.rel_flatMap retimed.tracks fun _ _ tracks => tracks.clips
  exact map_eq_map_of_forall₂ (clips.imp fun _ _ => Clip.Retimed.kind_eq)

end Recipe

/-! ## What is reported -/

/-- The entry of a clip, which may have been retimed. -/
structure ClipReport.Tells (position : Nat) (clip : Clip Float) (entry : ClipReport) : Prop where
  position : entry.position = UInt64.ofNat position
  filename : entry.filename = clip.source.filename?
  kind : entry.kind = clip.kind
  minLength : entry.minLength = clip.timing.minLength
  maxLength : entry.maxLength = clip.timing.maxLength
  duration : clip.timing.isElastic = false → entry.duration = clip.timing.duration

namespace TrackReport

/-- The entry of a track, with those of its clips in their order. -/
structure Tells (track : Track Float) (entry : TrackReport) : Prop where
  index : entry.index = track.index
  clips :
    List.Forall₂ (fun placed report => ClipReport.Tells placed.2 placed.1 report)
      track.clips.zipIdx entry.clips

/-- The lengths of a track are those of its clips, added in their order. -/
structure AddsUp (entry : TrackReport) : Prop where
  duration : entry.duration = Scalar.sum (entry.clips.map ClipReport.duration)
  minLength : entry.minLength = Scalar.sum (entry.clips.map ClipReport.minLength)
  maxLength : entry.maxLength = Scalar.sum (entry.clips.map ClipReport.maxLength)

theorem tells_ofTrack
    {track other : Track Float} (retimed : track.Retimed other) (reference position : Nat) :
    Tells track (ofTrack reference position other) where
  index := retimed.index.symm
  clips := by
    refine forall₂_zipIdx_mapIdx retimed.clips fun {position clip altered} same => ?_
    refine ⟨rfl, ?_, same.kind_eq.symm, same.timing.minLength_eq.symm,
      same.timing.maxLength_eq.symm, ?_⟩
    · rw [same.source]
      rfl
    · intro fixed
      exact (same.timing.duration_eq fixed).symm

theorem map_clips_ofTrack
    {read : ClipReport → Float} {length : Clip Float → Float}
    (reads : ∀ position clip, read (.ofClip position clip) = length clip)
    (reference position : Nat) (track : Track Float) :
    (ofTrack reference position track).clips.map read = track.clips.map length := by
  have clips : (ofTrack reference position track).clips =
      track.clips.zipIdx.map fun placed => .ofClip placed.2 placed.1 :=
    List.mapIdx_eq_zipIdx_map
  rw [clips, List.map_map]
  nth_rewrite 2 [← List.zipIdx_map_fst 0 track.clips]
  rw [List.map_map]
  exact List.map_congr_left fun placed _ => reads placed.2 placed.1

theorem addsUp_ofTrack
    {track : Track Float} (measured : track.measure = track) (reference position : Nat) :
    (ofTrack reference position track).AddsUp where
  duration := by
    rw [map_clips_ofTrack fun _ _ => rfl]
    exact (congrArg Track.duration measured).symm
  minLength := by
    rw [map_clips_ofTrack fun _ _ => rfl]
    exact (congrArg Track.minLength measured).symm
  maxLength := by
    rw [map_clips_ofTrack fun _ _ => rfl]
    exact (congrArg Track.maxLength measured).symm

theorem filter_isReference
    {tracks : List (Track Float)} {reference : Nat} {leader : Track Float}
    (found : tracks[reference]? = some leader) :
    (tracks.mapIdx (ofTrack reference)).filter isReference =
      [ofTrack reference reference leader] := by
  have distinct : (tracks.zipIdx.map Prod.snd).Nodup := by
    rw [List.zipIdx_map_snd]
    exact List.nodup_range'
  have member : (leader, reference) ∈ tracks.zipIdx := List.mem_zipIdx_iff_getElem?.mpr found
  have only := filter_eq_singleton distinct member
  rw [List.mapIdx_eq_zipIdx_map, List.filter_map]
  exact congrArg (List.map fun placed => ofTrack reference placed.2 placed.1) only

end TrackReport

namespace Plan

/-- What the stages of a plan do for a clip, in its place, is what is reported of it. -/
inductive Renders
    (contentDir : String) (files : List FileCue) (plan : Plan) (track : UInt64) (position : Nat)
    (report : ClipReport) : Prop
  | silence (kind : report.kind = .silence)
      (made : plan.stages.filter
          (fun stage => stage.output = LabelPool.silenceLabel track position) =
        [.silence report.duration (LabelPool.silenceLabel track position)]) :
      Renders contentDir files plan track position report
  | whole {number : Nat} {filename path label : String} (kind : report.kind = .fixed)
      (found : files[number]? = some ⟨track, position, filename⟩)
      (takesIn : plan.TakesIn contentDir number ⟨track, position, filename⟩ path label)
      (uncut : plan.stages.filter (Stage.trims label) = []) :
      Renders contentDir files plan track position report
  | cut {number : Nat} {filename path label output : String} (kind : report.kind = .elastic)
      (found : files[number]? = some ⟨track, position, filename⟩)
      (takesIn : plan.TakesIn contentDir number ⟨track, position, filename⟩ path label)
      (once : plan.stages.filter (Stage.trims label) = [.trim label report.duration output]) :
      Renders contentDir files plan track position report

variable {settings : Settings} {mixId : Uuid} {seed : UInt64} {recipe balanced : Recipe Float}
  {report : Timing.Report Float} {graph : MixGraph} {plan : Plan}

theorem IsOf.renders
    (isOf : IsOf settings seed recipe plan report balanced graph) {cue : Cue}
    (member : cue ∈ balanced.cues) :
    Renders settings.surroundings.contentDir balanced.fileCues plan cue.track cue.position
      (.ofClip cue.position cue.clip) := by
  obtain ⟨before, after, shape⟩ := List.append_of_mem member
  have opened := MixGraph.opened_of_ofRecipe isOf.compiled
  have distinct := (MixGraph.completes_of_ofRecipe isOf.compiled).ordered.distinct
  rw [shape] at opened
  obtain ⟨earlier, own, later, files, openings, opens, ⟨_, earlierOpened⟩, _, _, laterOpened⟩ :=
    opened.exists_opens
  rw [Nat.zero_add] at opens
  have openingsDistinct : ((earlier ++ (own ++ later)).map Stage.output).Nodup := by
    rw [← openings]
    exact distinct.sublist (List.filter_sublist.map Stage.output)
  -- The stages of the graph that cut, or take in a file, are found among the openings.
  have cuts : ∀ label ∈ own.map Stage.output,
      plan.stages.filter (Stage.trims label) = own.filter (Stage.trims label) := by
    intro label made
    have opens (stage : Stage) (trims : stage.trims label = true) : stage.isOpening = true :=
      Stage.isOpening_of_isTrim (Bool.and_eq_true_iff.mp trims).1
    rw [isOf.stages, ← Stage.filter_filter_isOpening opens, openings]
    exact earlierOpened.filter_trims laterOpened made openingsDistinct
  have ingest : ∀ stage, own.filter Stage.isIngest = [stage] →
      (graph.stages.filter Stage.isIngest)[(before.filterMap Cue.file?).length]? = some stage := by
    intro stage takesIn
    rw [← Stage.filter_filter_isOpening fun _ => Stage.isOpening_of_isIngest, openings]
    exact earlierOpened.getElem?_ingest takesIn
  have found : ∀ file, cue.file? = some file →
      balanced.fileCues[(before.filterMap Cue.file?).length]? = some file := by
    intro file isFile
    rw [Recipe.fileCues, shape]
    exact getElem?_filterMap_file? isFile
  have kind : (ClipReport.ofClip cue.position cue.clip).kind = _ := cue.clip.kind_eq
  cases opens with
  | silence silent =>
      rw [silent] at kind
      refine .silence kind ?_
      have inOpenings : Stage.silence cue.clip.timing.duration
          (LabelPool.silenceLabel cue.track cue.position) ∈
            graph.stages.filter Stage.isOpening := by
        rw [openings]
        exact List.mem_append_right _ List.mem_cons_self
      rw [isOf.stages]
      exact filter_eq_singleton distinct (List.mem_of_mem_filter inOpenings)
  | @whole filename label plays fixed =>
      rw [plays, fixed] at kind
      have isFile : cue.file? = some ⟨cue.track, cue.position, filename⟩ := by
        rw [Cue.file?, plays]
        rfl
      have uncut : plan.stages.filter (Stage.trims label) = [] :=
        cuts label List.mem_cons_self
      have takesIn :=
        isOf.takesIn (found _ isFile) (resolves_joinPath _ filename) (ingest _ rfl)
      exact .whole kind (found _ isFile) takesIn uncut
  | @cut filename label output plays elastic =>
      rw [plays, elastic] at kind
      have isFile : cue.file? = some ⟨cue.track, cue.position, filename⟩ := by
        rw [Cue.file?, plays]
        rfl
      have trims : (Stage.trim label cue.clip.timing.duration output).trims label = true := by
        simp [Stage.trims, Stage.isTrim, Stage.trim]
      have once : plan.stages.filter (Stage.trims label) =
          [.trim label cue.clip.timing.duration output] := by
        rw [cuts label List.mem_cons_self, List.filter_cons_of_neg (by exact Bool.false_ne_true),
          List.filter_cons_of_pos trims]
        rfl
      have takesIn :=
        isOf.takesIn (found _ isFile) (resolves_joinPath _ filename) (ingest _ rfl)
      exact .cut kind (found _ isFile) takesIn once

/-- The timing of a plan, which is that of its recipe, adds up, and is what its stages
render. -/
structure ReportsTiming (contentDir : String) (recipe : Recipe Float) (plan : Plan) : Prop where
  tracks : List.Forall₂ TrackReport.Tells recipe.tracks plan.timing
  reference : ∃ leader, plan.timing.filter TrackReport.isReference = [leader] ∧
    leader.maxLength = plan.mixDuration
  addsUp : ∀ entry ∈ plan.timing, entry.AddsUp
  renders : ∀ entry ∈ plan.timing, ∀ position report, entry.clips[position]? = some report →
    plan.Renders contentDir recipe.fileCues entry.index position report
  /-- Nothing is cut but the elastic clips that play a file, each once. -/
  cuts : plan.stages.countP Stage.isTrim = (recipe.clips.map Clip.kind).count .elastic

theorem IsOf.exists_leader
    (isOf : IsOf settings seed recipe plan report balanced graph) :
    ∃ leader, plan.timing.filter TrackReport.isReference = [leader] ∧
      leader.maxLength = plan.mixDuration := by
  obtain ⟨next, balancing⟩ := isOf.balancing
  have admitted : recipe.check = .ok () := by
    rw [isOf.retimed.check_eq]
    exact ((MixGraph.exists_ofRecipe_iff _ _).mp ⟨graph, isOf.compiled⟩).1
  have totals := Timing.totals_of_balance admitted balancing
  obtain ⟨original, foundOriginal, mixDuration⟩ := totals.reference
  obtain ⟨leader, found, _⟩ :=
    exists_getElem?_left_of_forall₂ isOf.retimed.symm.tracks foundOriginal
  obtain ⟨_, _, other, foundOther, _, maximum⟩ := totals.tracks _ _ found
  obtain rfl : original = other := Option.some.inj (foundOriginal.symm.trans foundOther)
  refine ⟨.ofTrack report.reference report.reference leader, ?_, ?_⟩
  · rw [isOf.timing]
    exact TrackReport.filter_isReference found
  · rw [isOf.mixDuration, mixDuration]
    exact maximum

theorem timing_is_rendered (planned : ofRecipe settings mixId seed recipe = .ok (.ok plan)) :
    plan.ReportsTiming settings.surroundings.contentDir recipe := by
  obtain ⟨report, balanced, graph, isOf⟩ := exists_isOf planned
  obtain ⟨next, balancing⟩ := isOf.balancing
  obtain ⟨_, balancingTracks⟩ := Timing.exists_balanceTracks_of_balance balancing
  have measured := Timing.measure_eq_of_balanceTracks balancingTracks
  -- Every entry is that of a balanced track.
  have ofTrack : ∀ entry ∈ plan.timing, ∃ track ∈ balanced.tracks, ∃ position,
      entry = .ofTrack report.reference position track := by
    rw [isOf.timing]
    intro entry member
    obtain ⟨position, bound, rfl⟩ := List.mem_mapIdx.mp member
    exact ⟨_, List.getElem_mem bound, position, rfl⟩
  refine ⟨?_, isOf.exists_leader, ?_, ?_, ?_⟩
  · have placed : List.Forall₂ (fun placed => TrackReport.Tells (Prod.fst placed))
        recipe.tracks.zipIdx plan.timing := by
      rw [isOf.timing]
      exact forall₂_zipIdx_mapIdx isOf.retimed.tracks fun retimed =>
        TrackReport.tells_ofTrack retimed _ _
    rwa [← List.forall₂_map_left_iff, List.zipIdx_map_fst] at placed
  · intro entry member
    obtain ⟨track, trackMember, position, rfl⟩ := ofTrack entry member
    exact TrackReport.addsUp_ofTrack (measured track trackMember) _ _
  · intro entry member position clipReport found
    obtain ⟨track, trackMember, place, rfl⟩ := ofTrack entry member
    rw [TrackReport.ofTrack, List.getElem?_mapIdx] at found
    obtain ⟨clip, foundClip, rfl⟩ := Option.map_eq_some_iff.mp found
    have cue : (⟨track.index, position, clip⟩ : Cue) ∈ balanced.cues :=
      List.mem_flatMap.mpr ⟨track, trackMember,
        List.mem_map.mpr ⟨(clip, position), List.mem_zipIdx_iff_getElem?.mpr foundClip, rfl⟩⟩
    rw [isOf.retimed.fileCues_eq]
    exact isOf.renders cue
  · have opened := MixGraph.opened_of_ofRecipe isOf.compiled
    rw [isOf.stages, List.countP_eq_length_filter,
      ← Stage.filter_filter_isOpening fun _ => Stage.isOpening_of_isTrim,
      ← List.countP_eq_length_filter, opened.countP_isTrim, Recipe.countP_isCut,
      isOf.retimed.map_kind_eq]

theorem timing_is_rendered_demo :
    ∃ plan, ofRecipe .standard .zero 7 Recipe.demo = .ok (.ok plan) ∧
      plan.timing.map TrackReport.index = [0, 1, 2] ∧
      plan.ReportsTiming "content" Recipe.demo := by
  obtain ⟨plan, planned⟩ : ∃ plan, ofRecipe .standard .zero 7 Recipe.demo = .ok (.ok plan) :=
    exists_ok_of_isSome (by decide +kernel)
  have reports := timing_is_rendered planned
  have indices : Recipe.demo.tracks.map Track.index = plan.timing.map TrackReport.index :=
    map_eq_map_of_forall₂ (reports.tracks.imp fun _ _ tells => tells.index.symm)
  exact ⟨plan, planned, indices.symm, reports⟩

end Plan

end Mixdown
