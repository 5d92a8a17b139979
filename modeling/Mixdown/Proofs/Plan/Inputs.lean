import Mixdown.Plan.Arguments
import Mixdown.Proofs.Path
import Mixdown.Proofs.Plan.Fingerprint
import Mixdown.Proofs.Signal.Brackets

/-!
# The files of a plan

A plan names its files four times: in the stages that take them in, in its list of files,
in the arguments of the encoder and by number in the text of its graph.  All four go
through the file clips of the recipe in their order, by the paths that the names of their
files stand for in the directory of the files.
-/

namespace Mixdown

/-! ## File clips -/

theorem cuesFrom_map_clip (track : UInt64) (position : Nat) (clips : List (Clip Float)) :
    (cuesFrom track position clips).map Cue.clip = clips := by
  rw [cuesFrom, List.map_map]
  exact List.zipIdx_map_fst position clips

theorem filterMap_file?_cuesFrom
    {clips others : List (Clip Float)} (retimed : List.Forall₂ Clip.Retimed clips others)
    {track : UInt64} {position : Nat} :
    (cuesFrom track position clips).filterMap Cue.file? =
      (cuesFrom track position others).filterMap Cue.file? := by
  induction retimed generalizing position with
  | nil => rfl
  | @cons clip other rest others head _ inductionHypothesis =>
      have sameFile : Cue.file? ⟨track, position, clip⟩ = Cue.file? ⟨track, position, other⟩ := by
        rw [Cue.file?, Cue.file?, head.source]
      rw [cuesFrom_cons, cuesFrom_cons, List.filterMap_cons, List.filterMap_cons, sameFile,
        inductionHypothesis]

namespace Recipe

variable {recipe other : Recipe Float}

theorem map_clip_cues (recipe : Recipe Float) : recipe.cues.map Cue.clip = recipe.clips := by
  rw [cues, List.map_flatMap, clips]
  simp only [Track.cues, cuesFrom_map_clip]

theorem length_fileCues (recipe : Recipe Float) :
    recipe.fileCues.length = recipe.fileClipCount := by
  have plays (cue : Cue) : cue.file?.isSome = !cue.clip.source.isSilence := by
    rw [Cue.file?, Option.isSome_map]
    cases cue.clip.source <;> rfl
  rw [fileCues, List.length_filterMap_eq_countP, fileClipCount, ← map_clip_cues, List.countP_map]
  exact List.countP_congr fun cue _ => by rw [plays]; rfl

theorem Retimed.fileCues_eq (retimed : recipe.Retimed other) :
    recipe.fileCues = other.fileCues := by
  rw [fileCues, fileCues, cues, cues, List.filterMap_flatMap, List.filterMap_flatMap]
  refine flatMap_eq_flatMap_of_forall₂ (retimed.tracks.imp fun track changed tracks => ?_)
  rw [Track.cues, Track.cues, tracks.index, filterMap_file?_cuesFrom tracks.clips]

end Recipe

/-! ## Plans -/

namespace Plan

/-- How a plan takes in a file as number `number`, from a path and under a label. -/
structure TakesIn
    (contentDir : String) (plan : Plan) (number : Nat) (file : FileCue) (path label : String) :
    Prop where
  resolves : Resolves contentDir file.filename path
  stage : (plan.stages.filter Stage.isIngest)[number]? = some (.ingest number path label)
  input :
    plan.inputs[number]? =
      some ⟨UInt64.ofNat number, path, file.track, UInt64.ofNat file.position⟩
  /-- A number that fits in a signed word, as any position in a list in memory does, is kept
  as it is. -/
  kept :
    number < 2 ^ 63 →
      (∃ value, (Stage.ingest number path label).inputIndex? = some value ∧
        value.toInt = number) ∧
      (UInt64.ofNat number).toNat = number ∧
      (Stage.ingest number path label).chain =
        bracketed (toString number ++ ":a") ++ "anull" ++ bracketed label

/-- The files of a plan and their paths, by number, wherever the plan names them. -/
structure LinesUp
    (contentDir : String) (files : List FileCue) (paths : List String) (plan : Plan) : Prop where
  resolves : List.Forall₂ (fun file path => Resolves contentDir file.filename path) files paths
  stages : (plan.stages.filter Stage.isIngest).length = files.length
  inputs : plan.inputs.length = files.length
  takesIn : ∀ number file path, files[number]? = some file → paths[number]? = some path →
    ∃ label, plan.TakesIn contentDir number file path label
  arguments : ∀ output target, plan.arguments output target =
    ["-y", "-hide_banner", "-loglevel", "error"] ++ paths.flatMap (fun path => ["-i", path]) ++
      ["-filter_complex", graphText plan.stages, "-map", bracketed plan.finalLabel,
        "-codec:a", output.codec, "-b:a", output.bitrate, "-ac", toString output.channels,
        "-ar", toString output.sampleRate, target]
  /-- Where a number stands in brackets, its file is taken in. -/
  brackets : files.length ≤ 2 ^ 63 → ∀ number before after,
    graphText plan.stages = before ++ bracketed (toString number ++ ":a") ++ after →
      ∃ file path label more, files[number]? = some file ∧ paths[number]? = some path ∧
        plan.TakesIn contentDir number file path label ∧
        after = "anull" ++ bracketed label ++ more

variable {settings : Settings} {mixId : Uuid} {seed : UInt64} {recipe balanced : Recipe Float}
  {report : Timing.Report Float} {graph : MixGraph} {plan : Plan}

theorem IsOf.takesIn
    (isOf : IsOf settings seed recipe plan report balanced graph) {number : Nat} {file : FileCue}
    {path label : String} (found : balanced.fileCues[number]? = some file)
    (resolves : Resolves settings.surroundings.contentDir file.filename path)
    (stage : (graph.stages.filter Stage.isIngest)[number]? = some (.ingest number path label)) :
    plan.TakesIn settings.surroundings.contentDir number file path label where
  resolves := resolves
  stage := by
    rw [isOf.stages]
    exact stage
  input := by
    rw [isOf.inputs, MixGraph.inputs_eq_of_ofRecipe isOf.compiled, List.getElem?_map,
      List.getElem?_zipIdx, found, Nat.zero_add, ← resolves_iff.mp resolves]
    rfl
  kept := by
    intro fits
    refine ⟨Stage.inputIndex?_ingest fits, ?_, Stage.chain_ingest fits⟩
    exact UInt64.toNat_ofNat_of_lt (Nat.lt_trans fits (by decide))

/-- The paths of the files of a recipe. -/
def pathsOf (contentDir : String) (files : List FileCue) : List String :=
  files.map fun file => joinPath contentDir file.filename

theorem resolves_iff_pathsOf {contentDir : String} {files : List FileCue} {paths : List String} :
    List.Forall₂ (fun file path => Resolves contentDir file.filename path) files paths ↔
      pathsOf contentDir files = paths := by
  simp only [resolves_iff]
  rw [← List.forall₂_map_left_iff, List.forall₂_eq_eq_eq]
  rfl

theorem IsOf.linesUp (isOf : IsOf settings seed recipe plan report balanced graph) :
    plan.LinesUp settings.surroundings.contentDir balanced.fileCues
      (pathsOf settings.surroundings.contentDir balanced.fileCues) where
  resolves := resolves_iff_pathsOf.mpr rfl
  stages := by
    rw [isOf.stages, (MixGraph.ingests_of_ofRecipe isOf.compiled).length_eq, List.length_zipIdx]
  inputs := by
    rw [isOf.inputs, MixGraph.length_inputs_of_ofRecipe isOf.compiled]
  takesIn := by
    intro number file path found isPath
    rw [pathsOf, List.getElem?_map, found] at isPath
    cases isPath
    have placed : balanced.fileCues.zipIdx[number]? = some (file, number) := by
      rw [List.getElem?_zipIdx, found, Nat.zero_add]
      rfl
    obtain ⟨stage, taken, label, rfl⟩ :=
      exists_getElem?_left_of_forall₂ (MixGraph.ingests_of_ofRecipe isOf.compiled) placed
    exact ⟨label, isOf.takesIn found (resolves_joinPath _ _) taken⟩
  arguments := by
    intro output target
    have paths : plan.inputs.map InputFile.path =
        pathsOf settings.surroundings.contentDir balanced.fileCues := by
      rw [isOf.inputs, MixGraph.inputs_eq_of_ofRecipe isOf.compiled, List.map_map, pathsOf]
      nth_rewrite 2 [← List.zipIdx_map_fst 0 balanced.fileCues]
      rw [List.map_map]
      rfl
    rw [Plan.arguments, ← paths, List.flatMap_map]
  brackets := by
    intro few number before after split
    have fewInputs : graph.inputs.length ≤ 2 ^ 63 := by
      rw [MixGraph.length_inputs_of_ofRecipe isOf.compiled]
      exact few
    rw [isOf.stages] at split
    obtain ⟨path, label, more, taken, rest⟩ :=
      MixGraph.exists_ingest_of_text isOf.compiled fewInputs split
    obtain ⟨file, other, found, same⟩ := MixGraph.exists_file_of_ingest isOf.compiled taken
    obtain rfl : label = other := congrArg Stage.output same
    rw [same] at taken
    have isPath : (pathsOf settings.surroundings.contentDir balanced.fileCues)[number]? =
        some (joinPath settings.surroundings.contentDir file.filename) := by
      rw [pathsOf, List.getElem?_map, found]
      rfl
    have takesIn := isOf.takesIn found (resolves_joinPath _ _) taken
    exact ⟨file, _, label, more, found, isPath, takesIn, rest⟩

/-- The files of a plan are those of the file clips of its recipe, in their order. -/
theorem files_line_up (planned : ofRecipe settings mixId seed recipe = .ok (.ok plan)) :
    recipe.fileCues.length = recipe.fileClipCount ∧
      ∃ paths, plan.LinesUp settings.surroundings.contentDir recipe.fileCues paths := by
  obtain ⟨report, balanced, graph, isOf⟩ := exists_isOf planned
  rw [isOf.retimed.fileCues_eq]
  exact ⟨isOf.retimed.fileCues_eq ▸ recipe.length_fileCues, _, isOf.linesUp⟩

/-- Files in the directory of the settings and out of it, between pauses. -/
def strewn : Recipe Float where
  title := "strewn"
  tracks :=
    [.ofClips 4
        [⟨.silence, .fixed 1.0, none, []⟩, ⟨.file "rain.wav", .elasticFrom 1.0 3.0, none, []⟩]
        none [],
      .ofClips 2
        [⟨.file "/field/wind.wav", .fixed 2.0, none, []⟩, ⟨.silence, .fixed 1.0, none, []⟩,
          ⟨.file "near/rain.wav", .fixed 1.0, none, []⟩]
        none []]

theorem files_line_up_strewn :
    ∃ plan, ofRecipe .standard .zero 7 strewn = .ok (.ok plan) ∧
      plan.LinesUp "content"
        [⟨4, 1, "rain.wav"⟩, ⟨2, 0, "/field/wind.wav"⟩, ⟨2, 2, "near/rain.wav"⟩]
        ["content/rain.wav", "/field/wind.wav", "content/near/rain.wav"] := by
  obtain ⟨plan, planned⟩ : ∃ plan, ofRecipe .standard .zero 7 strewn = .ok (.ok plan) :=
    exists_ok_of_isSome (by decide +kernel)
  obtain ⟨_, paths, linesUp⟩ := files_line_up planned
  have same : ["content/rain.wav", "/field/wind.wav", "content/near/rain.wav"] = paths :=
    resolves_iff_pathsOf.mp linesUp.resolves
  rw [same]
  exact ⟨plan, planned, linesUp⟩

end Plan

end Mixdown
