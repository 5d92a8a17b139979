import Mathlib.Data.List.Forall2
import Mixdown.Proofs.Signal.Places
import Mixdown.Signal.Assembly

/-!
# How clips open

The chain of a clip opens with silence, with a file, or with a file that is cut to a
length.  The openings of all clips follow each other in the order of the recipe, and the
files are numbered along it.
-/

namespace Mixdown

/-! ## Clips in their places -/

/-- A clip with the index of its track and its position on it. -/
structure Cue where
  track : UInt64
  position : Nat
  clip : Clip Float

/-- A file to be played, with the place of its clip. -/
structure FileCue where
  track : UInt64
  position : Nat
  filename : String

namespace Cue

def place (cue : Cue) : UInt64 × Nat :=
  (cue.track, cue.position)

def file? (cue : Cue) : Option FileCue :=
  cue.clip.source.filename?.map fun filename => ⟨cue.track, cue.position, filename⟩

/-- Whether the clip plays a file that is cut to the length of the clip. -/
def isCut (cue : Cue) : Bool :=
  !cue.clip.source.isSilence && cue.clip.timing.isElastic

end Cue

/-- The clips of a track from `position` on. -/
def cuesFrom (track : UInt64) (position : Nat) (clips : List (Clip Float)) : List Cue :=
  (clips.zipIdx position).map fun placed => ⟨track, placed.2, placed.1⟩

theorem cuesFrom_cons
    (track : UInt64) (position : Nat) (clip : Clip Float) (rest : List (Clip Float)) :
    cuesFrom track position (clip :: rest) =
      ⟨track, position, clip⟩ :: cuesFrom track (position + 1) rest := by
  rw [cuesFrom, List.zipIdx_cons]
  rfl

def Track.cues (track : Track Float) : List Cue :=
  cuesFrom track.index 0 track.clips

/-- All clips, track by track. -/
def Recipe.cues (recipe : Recipe Float) : List Cue :=
  recipe.tracks.flatMap Track.cues

/-- The files that the recipe plays, in the order of its clips. -/
def Recipe.fileCues (recipe : Recipe Float) : List FileCue :=
  recipe.cues.filterMap Cue.file?

/-! ## Opening stages -/

namespace Stage

/-- Makes silence. -/
def silence (duration : Float) (output : String) : Stage :=
  ⟨[], some "aevalsrc", .ofList [("exprs", .integer 0), ("duration", .number duration)], output⟩

/-- Cuts a signal to a length. -/
def trim (signal : String) (duration : Float) (output : String) : Stage :=
  ⟨[signal], some "atrim", .ofList [("duration", .number duration)], output⟩

def isSilence (stage : Stage) : Bool :=
  stage.filter = some "aevalsrc"

def isTrim (stage : Stage) : Bool :=
  stage.filter = some "atrim"

/-- Whether the stage takes in a file, makes silence, or cuts a signal. -/
def isOpening (stage : Stage) : Bool :=
  stage.isIngest || stage.isSilence || stage.isTrim

/-- Stages of a kind that clips open with are among the opening stages. -/
theorem filter_filter_isOpening
    {kind : Stage → Bool} (opens : ∀ stage, kind stage = true → stage.isOpening = true)
    (stages : List Stage) : (stages.filter isOpening).filter kind = stages.filter kind := by
  rw [List.filter_filter]
  refine List.filter_congr fun stage _ => ?_
  cases isKind : kind stage with
  | false => rfl
  | true => rw [opens stage isKind]; rfl

theorem isOpening_of_isIngest {stage : Stage} (isIngest : stage.isIngest = true) :
    stage.isOpening = true := by
  rw [isOpening, isIngest]
  rfl

theorem isOpening_of_isTrim {stage : Stage} (isTrim : stage.isTrim = true) :
    stage.isOpening = true := by
  rw [isOpening, isTrim, Bool.or_true]

end Stage

/-- The file that the encoder takes in as number `number`. -/
def FileCue.input (contentDir : String) (number : Nat) (cue : FileCue) : InputFile where
  index := UInt64.ofNat number
  path := joinPath contentDir cue.filename
  track := cue.track
  clip := UInt64.ofNat cue.position

/-- The stages that a clip opens with, and the file taken in for it, when `number` files
were taken in before. -/
inductive Cue.Opens (contentDir : String) (number : Nat) (cue : Cue) :
    List Stage → List InputFile → Prop
  | silence (silent : cue.clip.source = .silence) :
      Opens contentDir number cue
        [.silence cue.clip.timing.duration (LabelPool.silenceLabel cue.track cue.position)] []
  | whole {filename label : String} (plays : cue.clip.source = .file filename)
      (fixed : cue.clip.timing.isElastic = false) :
      Opens contentDir number cue
        [.ingest number (joinPath contentDir filename) label]
        [FileCue.input contentDir number ⟨cue.track, cue.position, filename⟩]
  | cut {filename label output : String} (plays : cue.clip.source = .file filename)
      (elastic : cue.clip.timing.isElastic = true) :
      Opens contentDir number cue
        [.ingest number (joinPath contentDir filename) label,
          .trim label cue.clip.timing.duration output]
        [FileCue.input contentDir number ⟨cue.track, cue.position, filename⟩]

/-- The openings of clips that follow each other, from file number `number` on. -/
inductive Opened (contentDir : String) :
    Nat → List Cue → List Stage → List InputFile → Prop
  | nil (number : Nat) : Opened contentDir number [] [] []
  | cons {number : Nat} {cue : Cue} {cues : List Cue} {own stages : List Stage}
      {files inputs : List InputFile} (first : cue.Opens contentDir number own files)
      (later : Opened contentDir (number + files.length) cues stages inputs) :
      Opened contentDir number (cue :: cues) (own ++ stages) (files ++ inputs)

variable {contentDir : String} {number : Nat} {cue : Cue} {cues others : List Cue}
  {stages more : List Stage} {inputs files : List InputFile}

/-! ## One clip -/

namespace Cue.Opens

theorem isOpening (opens : cue.Opens contentDir number stages inputs) :
    ∀ stage ∈ stages, stage.isOpening = true := by
  cases opens with
  | silence => exact List.forall_mem_singleton.mpr rfl
  | whole => exact List.forall_mem_singleton.mpr rfl
  | cut => exact List.forall_mem_cons.mpr ⟨rfl, List.forall_mem_singleton.mpr rfl⟩

theorem inputs_eq (opens : cue.Opens contentDir number stages inputs) :
    inputs = cue.file?.toList.map (FileCue.input contentDir number) := by
  cases opens with
  | silence silent => rw [Cue.file?, silent]; rfl
  | whole plays => rw [Cue.file?, plays]; rfl
  | cut plays => rw [Cue.file?, plays]; rfl

/-- A file is taken in by one stage, with its number. -/
theorem ingests (opens : cue.Opens contentDir number stages inputs) :
    List.Forall₂
      (fun stage file => ∃ label,
        stage = .ingest number (joinPath contentDir file.filename) label)
      (stages.filter Stage.isIngest) cue.file?.toList := by
  cases opens with
  | silence silent => rw [Cue.file?, silent]; exact .nil
  | whole plays => rw [Cue.file?, plays]; exact .cons ⟨_, rfl⟩ .nil
  | cut plays => rw [Cue.file?, plays]; exact .cons ⟨_, rfl⟩ .nil

/-- A cut takes in a signal made just before. -/
theorem mem_outputs_of_isTrim
    (opens : cue.Opens contentDir number stages inputs) {stage : Stage} (member : stage ∈ stages)
    (isTrim : stage.isTrim = true) : ∀ signal ∈ stage.inputs, signal ∈ stages.map Stage.output := by
  cases opens with
  | silence =>
      cases List.mem_singleton.mp member
      cases isTrim
  | whole =>
      cases List.mem_singleton.mp member
      cases isTrim
  | cut =>
      rcases List.mem_pair.mp member with rfl | rfl
      · cases isTrim
      · exact List.forall_mem_singleton.mpr List.mem_cons_self

theorem countP_isTrim (opens : cue.Opens contentDir number stages inputs) :
    stages.countP Stage.isTrim = [cue].countP Cue.isCut := by
  have ofIsCut (isCut : Bool) (same : cue.isCut = isCut) :
      [cue].countP Cue.isCut = if isCut then 1 else 0 := by
    rw [List.countP_singleton, same]
  cases opens with
  | silence silent => rw [ofIsCut false (by rw [isCut, silent]; rfl)]; rfl
  | whole plays fixed => rw [ofIsCut false (by rw [isCut, plays, fixed]; rfl)]; rfl
  | cut plays elastic => rw [ofIsCut true (by rw [isCut, plays, elastic]; rfl)]; rfl

end Cue.Opens

/-! ## All clips -/

namespace Opened

theorem append
    (first : Opened contentDir number cues stages inputs)
    (second : Opened contentDir (number + inputs.length) others more files) :
    Opened contentDir number (cues ++ others) (stages ++ more) (inputs ++ files) := by
  induction first with
  | nil number => simpa using second
  | cons opens later inductionHypothesis =>
      rw [List.length_append, ← Nat.add_assoc] at second
      rw [List.append_assoc, List.append_assoc]
      exact .cons opens (inductionHypothesis second)

theorem singleton (opens : cue.Opens contentDir number stages inputs) :
    Opened contentDir number [cue] stages inputs := by
  have alone := Opened.cons opens (.nil _)
  rwa [List.append_nil, List.append_nil] at alone

/-- The opening of a clip stands between those of the clips before and after it. -/
theorem exists_opens
    {before after : List Cue}
    (opened : Opened contentDir number (before ++ cue :: after) stages inputs) :
    ∃ earlier own later files,
      stages = earlier ++ (own ++ later) ∧
        cue.Opens contentDir (number + (before.filterMap Cue.file?).length) own files ∧
        (∃ taken, Opened contentDir number before earlier taken) ∧
        ∃ next others, Opened contentDir next after later others := by
  induction before generalizing number stages inputs with
  | nil =>
      cases opened with
      | cons opens later =>
          exact ⟨[], _, _, _, rfl, opens, ⟨[], .nil number⟩, _, _, later⟩
  | cons first rest inductionHypothesis =>
      cases opened with
      | @cons _ _ _ own stages files inputs opens later =>
          obtain ⟨earlier, mine, more, taken, rfl, ownOpens, ⟨inputs, opened⟩, next⟩ :=
            inductionHypothesis later
          have count : number + ((first :: rest).filterMap Cue.file?).length =
              number + files.length + (rest.filterMap Cue.file?).length := by
            rw [opens.inputs_eq, List.filterMap_cons]
            cases first.file? with
            | none => rfl
            | some file =>
                simp only [Option.toList_some, List.map_cons, List.map_nil, List.length_cons,
                  List.length_nil]
                omega
          refine ⟨own ++ earlier, mine, more, taken, ?_, ?_, ⟨_, .cons opens opened⟩, next⟩
          · rw [List.append_assoc]
          · rw [count]
            exact ownOpens

/-! ### Files -/

theorem inputs_eq (opened : Opened contentDir number cues stages inputs) :
    inputs = ((cues.filterMap Cue.file?).zipIdx number).map fun placed =>
      placed.1.input contentDir placed.2 := by
  induction opened with
  | nil => rfl
  | @cons number cue cues own stages files inputs opens later inductionHypothesis =>
      have own := opens.inputs_eq
      rw [List.filterMap_cons]
      cases isFile : cue.file? with
      | none =>
          rw [isFile] at own
          subst own
          exact inductionHypothesis
      | some file =>
          rw [isFile] at own
          subst own
          rw [List.zipIdx_cons, List.map_cons]
          exact congrArg _ inductionHypothesis

theorem ingests (opened : Opened contentDir number cues stages inputs) :
    List.Forall₂
      (fun stage placed => ∃ label,
        stage = .ingest placed.2 (joinPath contentDir placed.1.filename) label)
      (stages.filter Stage.isIngest) ((cues.filterMap Cue.file?).zipIdx number) := by
  induction opened with
  | nil => exact .nil
  | @cons number cue cues own stages files inputs opens later inductionHypothesis =>
      have own := opens.ingests
      have taken := opens.inputs_eq
      rw [List.filter_append, List.filterMap_cons]
      cases isFile : cue.file? with
      | none =>
          rw [isFile] at own taken
          subst taken
          rw [List.forall₂_nil_right_iff.mp own]
          exact inductionHypothesis
      | some file =>
          rw [isFile] at own taken
          subst taken
          obtain ⟨stage, others, takesIn, none, shape⟩ := List.forall₂_cons_right_iff.mp own
          rw [shape, List.forall₂_nil_right_iff.mp none, List.zipIdx_cons]
          exact .cons takesIn inductionHypothesis

/-! ### Cuts -/

theorem mem_outputs_of_isTrim
    (opened : Opened contentDir number cues stages inputs) {stage : Stage}
    (member : stage ∈ stages) (isTrim : stage.isTrim = true) :
    ∀ signal ∈ stage.inputs, signal ∈ stages.map Stage.output := by
  induction opened with
  | nil => cases member
  | cons opens later inductionHypothesis =>
      intro signal takenIn
      rw [List.map_append, List.mem_append]
      rcases List.mem_append.mp member with own | more
      · exact Or.inl (opens.mem_outputs_of_isTrim own isTrim signal takenIn)
      · exact Or.inr (inductionHypothesis more signal takenIn)

/-- As many signals are cut as there are elastic clips that play a file. -/
theorem countP_isTrim (opened : Opened contentDir number cues stages inputs) :
    stages.countP Stage.isTrim = cues.countP Cue.isCut := by
  induction opened with
  | nil => rfl
  | @cons number cue cues own stages files inputs opens later inductionHypothesis =>
      rw [List.countP_append, opens.countP_isTrim, inductionHypothesis, ← List.countP_append]
      rfl

end Opened

end Mixdown
