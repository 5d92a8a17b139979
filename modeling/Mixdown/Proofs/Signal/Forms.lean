import Mixdown.Proofs.Keyed
import Mixdown.Proofs.Outcome
import Mixdown.Proofs.Recipe.Admission
import Mixdown.Proofs.Signal.Steps
import Mixdown.Proofs.Signal.Words

/-!
# The forms of stages

Building adds stages of a few forms only, all with words as labels, and keeps the
numbers of the files taken in below their count.
-/

namespace Mixdown

/-! ## Parameters -/

/-- Words as keys, and values shown in printed characters. -/
def AreShown (params : Keyed ParamValue) : Prop :=
  ∀ entry ∈ params.entries, IsWord entry.1 ∧ IsPrinted entry.2.display

namespace ParamValue

theorem isPrinted_integer (value : Int64) : IsPrinted (integer value).display :=
  isPrinted_toString_int value.toInt

theorem isPrinted_number (value : Float) : IsPrinted (number value).display :=
  Decimal.spoken.isPrinted_write value

end ParamValue

open ParamValue

theorem areShown_empty : AreShown .empty :=
  nofun

theorem areShown_single
    {key : String} {value : ParamValue} (word : IsWord key) (printed : IsPrinted value.display) :
    AreShown (.ofList [(key, value)]) := by
  intro entry member
  rw [List.mem_singleton.mp (Keyed.mem_of_mem_ofList member)]
  exact ⟨word, printed⟩

theorem areShown_ofList
    {entries : List (String × ParamValue)}
    (shown : ∀ entry ∈ entries, IsWord entry.1 ∧ IsPrinted entry.2.display) :
    AreShown (.ofList entries) :=
  fun entry member => shown entry (Keyed.mem_of_mem_ofList member)

/-! ## Effects -/

/-- A filter whose names are words and whose parameters are shown. -/
structure FilterStep.IsShown (step : FilterStep) : Prop where
  suffix : IsWord step.suffix
  filter : IsWord step.filter
  params : AreShown step.params

theorem Effect.isShown_of_mem_steps
    {presets : Keyed WavePreset} {effect : Effect} {step : FilterStep}
    (member : step ∈ effect.steps presets) : step.IsShown := by
  cases effect with
  | loop count =>
      cases List.mem_singleton.mp member
      have suffix : IsWord "loop" := by decide
      have filter : IsWord "aloop" := by decide
      refine ⟨suffix, filter, areShown_ofList ?_⟩
      simp only [List.forall_mem_cons]
      exact ⟨⟨by decide, isPrinted_integer _⟩, ⟨by decide, isPrinted_integer _⟩, nofun⟩
  | reverse =>
      cases List.mem_singleton.mp member
      exact ⟨by decide +kernel, by decide +kernel, areShown_empty⟩
  | faraway withVolume =>
      rcases List.mem_append.mp member with volume | others
      · cases withVolume with
        | false => cases volume
        | true =>
            cases List.mem_singleton.mp volume
            exact ⟨by decide +kernel, by decide,
              areShown_single (by decide) (isPrinted_number _)⟩
      · rcases List.mem_pair.mp others with rfl | rfl
        · refine ⟨by decide +kernel, by decide, areShown_ofList ?_⟩
          simp only [List.forall_mem_cons]
          exact ⟨⟨by decide, isPrinted_integer _⟩, ⟨by decide, isPrinted_integer _⟩, nofun⟩
        · refine ⟨by decide +kernel, by decide, areShown_ofList ?_⟩
          simp only [List.forall_mem_cons]
          exact ⟨⟨by decide, isPrinted_number _⟩, ⟨by decide +kernel, isPrinted_number _⟩,
            ⟨by decide, isPrinted_integer _⟩, ⟨by decide, isPrinted_number _⟩, nofun⟩
  | wave preset =>
      cases List.mem_singleton.mp member
      have suffix : IsWord "wave" := by decide
      have filter : IsWord "volume" := by decide
      refine ⟨suffix, filter, areShown_ofList ?_⟩
      simp only [List.forall_mem_cons]
      exact ⟨⟨by decide, WavePreset.isPrinted_expression _⟩, ⟨by decide, by decide⟩, nofun⟩
  | mixDuration rule => cases member

/-! ## Forms -/

/-- The stages that building can add while the files in `inputs` are taken in. -/
inductive Stage.IsBuilt (surroundings : Surroundings) (inputs : List InputFile) : Stage → Prop
  | ingest {index : Nat} {input : InputFile} {output : String}
      (taken : input ∈ inputs) (word : IsWord output) :
      IsBuilt surroundings inputs (.ingest index input.path output)
  | silence {duration : Float} {output : String}
      (lasts : ¬ duration ≤ 0) (word : IsWord output) :
      IsBuilt surroundings inputs
        ⟨[], some "aevalsrc", .ofList [("exprs", .integer 0), ("duration", .number duration)],
          output⟩
  | trim {signal : String} {duration : Float} {output : String}
      (lasts : ¬ duration ≤ 0) (word : IsWord output) :
      IsBuilt surroundings inputs
        ⟨[signal], some "atrim", .ofList [("duration", .number duration)], output⟩
  | gain {signal : String} {factor : Float} {output : String} (word : IsWord output) :
      IsBuilt surroundings inputs
        ⟨[signal], some "volume", .ofList [("volume", .number factor)], output⟩
  | effect {signal : String} {effect : Effect} {step : FilterStep} {output : String}
      (member : step ∈ effect.steps surroundings.presets) (word : IsWord output) :
      IsBuilt surroundings inputs ⟨[signal], some step.filter, step.params, output⟩
  | concat {signals : List String} {count : Nat} {output : String}
      (someSignal : signals ≠ []) (word : IsWord output) :
      IsBuilt surroundings inputs
        ⟨signals, some "concat",
          .ofList [("n", .ofCount count), ("v", .integer 0), ("a", .integer 1)], output⟩
  | mix {signals : List String} {count : Nat} {rule : EndRule} {output : String}
      (someSignal : signals ≠ []) (word : IsWord output) :
      IsBuilt surroundings inputs
        ⟨signals, some "amix",
          .ofList [("inputs", .ofCount count), ("duration", .text rule.word)], output⟩

/-- Stages of the forms that building adds, and files with numbers below their count. -/
structure AreBuilt
    (surroundings : Surroundings) (stages : List Stage) (inputs : List InputFile) : Prop where
  stages : ∀ stage ∈ stages, stage.IsBuilt surroundings inputs
  indices : ∀ input ∈ inputs, input.index.toNat < inputs.length

variable {surroundings : Surroundings} {stages : List Stage} {inputs : List InputFile}
  {stage : Stage}

/-! ## What the forms have in common -/

namespace Stage.IsBuilt

theorem mono {others : List InputFile} (built : stage.IsBuilt surroundings inputs)
    (included : inputs ⊆ others) : stage.IsBuilt surroundings others := by
  cases built with
  | ingest taken word => exact .ingest (included taken) word
  | silence lasts word => exact .silence lasts word
  | trim lasts word => exact .trim lasts word
  | gain word => exact .gain word
  | effect member word => exact .effect member word
  | concat someSignal word => exact .concat someSignal word
  | mix someSignal word => exact .mix someSignal word

theorem isWord_output (built : stage.IsBuilt surroundings inputs) : IsWord stage.output := by
  cases built <;> assumption

theorem isWord_filter
    (built : stage.IsBuilt surroundings inputs) {name : String} (named : stage.filter = some name) :
    IsWord name := by
  cases built with
  | ingest => cases named
  | effect member =>
      cases named
      exact (Effect.isShown_of_mem_steps member).filter
  | silence | trim | gain | concat | mix =>
      cases named
      decide +kernel

theorem areShown_params
    (built : stage.IsBuilt surroundings inputs) {name : String} (named : stage.filter = some name) :
    AreShown stage.params := by
  cases built with
  | ingest => cases named
  | silence =>
      refine areShown_ofList ?_
      simp only [List.forall_mem_cons]
      exact ⟨⟨by decide, isPrinted_integer _⟩, ⟨by decide, isPrinted_number _⟩, nofun⟩
  | trim => exact areShown_single (by decide) (isPrinted_number _)
  | gain => exact areShown_single (by decide) (isPrinted_number _)
  | effect among => exact (Effect.isShown_of_mem_steps among).params
  | concat =>
      refine areShown_ofList ?_
      simp only [List.forall_mem_cons]
      exact ⟨⟨by decide, isPrinted_integer _⟩, ⟨by decide, isPrinted_integer _⟩,
        ⟨by decide, isPrinted_integer _⟩, nofun⟩
  | @mix _ _ rule =>
      refine areShown_ofList ?_
      simp only [List.forall_mem_cons]
      refine ⟨⟨by decide, isPrinted_integer _⟩, ⟨by decide, ?_⟩, nofun⟩
      cases rule <;> decide

end Stage.IsBuilt

theorem AreBuilt.isWord_of_mem_inputs
    (built : AreBuilt surroundings stages inputs) (ordered : WellOrdered stages)
    (member : stage ∈ stages) : ∀ label ∈ stage.inputs, IsWord label := by
  intro label inputMember
  obtain ⟨before, after, shape⟩ := List.append_of_mem member
  have made := ordered.earlier before stage after shape label inputMember
  obtain ⟨maker, earlier, rfl⟩ := List.mem_map.mp made
  have makerMember : maker ∈ stages := by
    rw [shape]
    exact List.mem_append_left _ earlier
  exact (built.stages maker makerMember).isWord_output

/-! ## Steps that add such stages -/

theorem areBuilt_empty : AreBuilt surroundings Draft.empty.graph.stages Draft.empty.inputs :=
  ⟨nofun, nofun⟩

theorem AreBuilt.concat
    (built : AreBuilt surroundings stages inputs) (last : stage.IsBuilt surroundings inputs) :
    AreBuilt surroundings (stages ++ [stage]) inputs where
  stages := by
    intro tested member
    rcases List.mem_append.mp member with old | new
    · exact built.stages tested old
    · rw [List.mem_singleton.mp new]
      exact last
  indices := built.indices

/-- Taking in one more file, with the next number. -/
theorem AreBuilt.ingest
    (built : AreBuilt surroundings stages inputs) (input : InputFile) {output : String}
    (next : input.index = UInt64.ofNat inputs.length) (word : IsWord output) :
    AreBuilt surroundings (stages ++ [.ingest inputs.length input.path output])
      (inputs ++ [input]) where
  stages := by
    intro tested member
    rcases List.mem_append.mp member with old | new
    · exact (built.stages tested old).mono (List.subset_append_left _ _)
    · rw [List.mem_singleton.mp new]
      exact .ingest (List.mem_append_right _ List.mem_cons_self) word
  indices := by
    intro tested member
    rw [List.length_append, List.length_singleton]
    rcases List.mem_append.mp member with old | new
    · have below := built.indices tested old
      omega
    · rw [List.mem_singleton.mp new, next, UInt64.toNat_ofNat']
      have reduced := Nat.mod_le inputs.length (2 ^ 64)
      omega

namespace Build

/-- A step keeps to stages of these forms, and gives a good result. -/
def Keeps {β : Type} (surroundings : Surroundings) (build : Build β) (good : β → Prop) : Prop :=
  ∀ ⦃draft result after⦄,
    AreBuilt surroundings draft.graph.stages draft.inputs →
    build.run draft = .ok (result, after) →
    AreBuilt surroundings after.graph.stages after.inputs ∧ good result

section Keeps

variable {β γ : Type} {good : β → Prop} {final : γ → Prop}

theorem keeps_of_leaves
    {build : Build β}
    (leaves : ∀ draft, AreBuilt surroundings draft.graph.stages draft.inputs →
      Leaves build draft fun result after =>
        AreBuilt surroundings after.graph.stages after.inputs ∧ good result) :
    Keeps surroundings build good :=
  fun draft result after built ran => leaves draft built result after ran

theorem keeps_pure {result : β} (holds : good result) : Keeps surroundings (pure result) good :=
  keeps_of_leaves fun _ built => leaves_pure ⟨built, holds⟩

theorem keeps_throw (error : MixError) : Keeps surroundings (throw error) good :=
  keeps_of_leaves fun _ _ => leaves_throw error

theorem Keeps.bind
    {build : Build β} {next : β → Build γ} (first : Keeps surroundings build good)
    (rest : ∀ result, good result → Keeps surroundings (next result) final) :
    Keeps surroundings (build >>= next) final := by
  refine keeps_of_leaves fun draft built => Leaves.bind (fun _ _ ran => first built ran) ?_
  rintro result middle ⟨stillBuilt, holds⟩ _ _ ran
  exact rest result holds stillBuilt ran

end Keeps

theorem keeps_get :
    Keeps surroundings get fun draft => AreBuilt surroundings draft.graph.stages draft.inputs := by
  refine keeps_of_leaves fun draft built => leaves_get.mono ?_
  rintro _ _ ⟨rfl, rfl⟩
  exact ⟨built, built⟩

theorem keeps_label
    {take : LabelPool → String × LabelPool} (word : ∀ pool, IsWord (take pool).1) :
    Keeps surroundings (label take) IsWord := by
  refine keeps_of_leaves fun draft built => (leaves_label take).mono ?_
  rintro _ _ ⟨rfl, rfl⟩
  exact ⟨built, word draft.labels⟩

theorem keeps_emit (stageBuilt : ∀ inputs, stage.IsBuilt surroundings inputs) :
    Keeps surroundings (emit stage) fun _ => True := by
  refine keeps_of_leaves fun draft built => (leaves_emit stage).mono ?_
  rintro _ _ ⟨_, rfl⟩
  exact ⟨built.concat (stageBuilt _), trivial⟩

/-! ### Chains -/

theorem keeps_gain {base : String} (signal : String) (volume : Option Float) (word : IsWord base) :
    Keeps surroundings (gain base signal volume) fun _ => True := by
  unfold gain
  split
  next => exact keeps_pure trivial
  next factor _ =>
    refine (keeps_label fun pool => pool.isWord_reserveDerived word (by decide)).bind ?_
    intro output outputWord
    exact keeps_emit fun _ => .gain outputWord

theorem keeps_step
    {base : String} (signal : String) {effect : Effect} {step : FilterStep} (word : IsWord base)
    (member : step ∈ effect.steps surroundings.presets) :
    Keeps surroundings (Build.step base signal step) fun _ => True := by
  unfold Build.step
  have suffix := (Effect.isShown_of_mem_steps member).suffix
  refine (keeps_label fun pool => pool.isWord_reserveDerived word suffix).bind ?_
  intro output outputWord
  exact keeps_emit fun _ => .effect member outputWord

theorem keeps_effects
    {base : String} (signal : String) (effects : List Effect) (word : IsWord base) :
    Keeps surroundings (Build.effects surroundings.presets base signal effects)
      fun _ => True := by
  refine keeps_of_leaves fun draft built =>
    (leaves_steps ?_ built).mono fun _ _ stillBuilt => ⟨stillBuilt, trivial⟩
  intro step member signal draft built made after ran
  obtain ⟨effect, _, within⟩ := List.mem_flatMap.mp member
  exact (keeps_step signal word within built ran).1

/-! ### Clips -/

theorem keeps_ingest
    (contentDir : String) (track : UInt64) (position : Nat) (filename : String) :
    Keeps surroundings (ingest contentDir track position filename) IsWord := by
  refine keeps_of_leaves fun draft built =>
    (leaves_ingest contentDir track position filename).mono ?_
  rintro signal after ⟨labelled, stages, inputs, _⟩
  have word : IsWord signal := by
    rw [labelled]
    exact draft.labels.isWord_reserveFile filename track position
  refine ⟨?_, word⟩
  rw [stages, inputs]
  exact built.ingest ⟨_, joinPath contentDir filename, _, _⟩ rfl word

theorem keeps_source
    (contentDir : String) (track : UInt64) (position : Nat) {clip : Clip Float}
    (lasts : ¬ clip.timing.duration ≤ 0) :
    Keeps surroundings (source contentDir track position clip) fun found => IsWord found.1 := by
  unfold source
  cases clip.source with
  | silence =>
      refine (keeps_label fun pool => pool.isWord_reserveSilence track position).bind ?_
      intro base word
      refine (keeps_emit fun _ => .silence lasts word).bind ?_
      intro signal _
      exact keeps_pure word
  | file filename =>
      refine (keeps_ingest contentDir track position filename).bind ?_
      intro base word
      split
      next =>
        refine (keeps_label fun pool => pool.isWord_reserveDerived word (by decide)).bind ?_
        intro output outputWord
        refine (keeps_emit fun _ => .trim lasts outputWord).bind ?_
        intro signal _
        exact keeps_pure word
      next => exact keeps_pure word

theorem keeps_clip (track : UInt64) (position : Nat) (clip : Clip Float) :
    Keeps surroundings (Build.clip surroundings track position clip) fun _ => True := by
  unfold Build.clip
  split
  next => exact keeps_throw _
  next lasts =>
    refine (keeps_source surroundings.contentDir track position lasts).bind ?_
    rintro ⟨base, signal⟩ word
    refine (keeps_gain signal clip.volume word).bind ?_
    intro amplified _
    exact keeps_effects amplified clip.effects word

theorem keeps_clips (track : UInt64) (position : Nat) (clips : List (Clip Float)) :
    Keeps surroundings (Build.clips surroundings track position clips)
      fun signals => signals.length = clips.length := by
  induction clips generalizing position with
  | nil => exact keeps_pure rfl
  | cons clip rest inductionHypothesis =>
      refine (keeps_clip track position clip).bind ?_
      intro signal _
      refine (inductionHypothesis (position + 1)).bind ?_
      intro signals count
      exact keeps_pure (congrArg (· + 1) count)

/-! ### Tracks and the mix -/

theorem ne_nil_of_length_eq {β γ : Type} {list : List β} {other : List γ}
    (equality : list.length = other.length) (notEmpty : other ≠ []) : list ≠ [] := by
  rintro rfl
  exact notEmpty (List.eq_nil_of_length_eq_zero equality.symm)

theorem keeps_track {track : Track Float} (someClip : track.clips ≠ []) :
    Keeps surroundings (Build.track surroundings track) fun _ => True := by
  unfold Build.track
  have word := LabelPool.isWord_trackBase track.index
  refine (keeps_clips track.index 0 track.clips).bind ?_
  intro signals count
  have someSignal := ne_nil_of_length_eq count someClip
  refine (keeps_label fun pool => pool.isWord_reserveDerived word (by decide)).bind ?_
  intro output outputWord
  refine (keeps_emit fun _ => .concat someSignal outputWord).bind ?_
  intro joined _
  refine (keeps_gain joined track.volume word).bind ?_
  intro amplified _
  exact keeps_effects amplified track.effects word

theorem keeps_tracks
    {tracks : List (Track Float)} (someClips : ∀ track ∈ tracks, track.clips ≠ []) :
    Keeps surroundings (Build.tracks surroundings tracks)
      fun signals => signals.length = tracks.length := by
  induction tracks with
  | nil => exact keeps_pure rfl
  | cons track rest inductionHypothesis =>
      obtain ⟨someClip, others⟩ := List.forall_mem_cons.mp someClips
      refine (keeps_track someClip).bind ?_
      intro signal _
      refine (inductionHypothesis others).bind ?_
      intro signals count
      exact keeps_pure (congrArg (· + 1) count)

theorem keeps_mix
    {recipe : Recipe Float} (someTrack : recipe.tracks ≠ [])
    (someClips : ∀ track ∈ recipe.tracks, track.clips ≠ []) :
    Keeps surroundings (mix surroundings recipe)
      fun graph => AreBuilt surroundings graph.stages graph.inputs := by
  unfold mix
  have final : IsWord finalLabel := by decide
  refine (keeps_tracks someClips).bind ?_
  intro signals count
  have someSignal := ne_nil_of_length_eq count someTrack
  refine (keeps_label fun pool => pool.isWord_pick final).bind ?_
  intro output word
  refine (keeps_emit fun _ => .mix someSignal word).bind ?_
  intro made _
  refine keeps_get.bind ?_
  intro draft built
  exact keeps_pure built

end Build

namespace MixGraph

theorem areBuilt_of_ofRecipe
    {recipe : Recipe Float} {graph : MixGraph}
    (compiled : ofRecipe surroundings recipe = .ok graph) :
    AreBuilt surroundings graph.stages graph.inputs := by
  obtain ⟨checked, draft, mixed⟩ := mix_of_ofRecipe compiled
  obtain ⟨someTrack, _, admitted⟩ := Recipe.check_eq_ok_iff.mp checked
  have someClips : ∀ track ∈ recipe.tracks, track.clips ≠ [] :=
    fun track member => (admitted track member).1
  exact (Build.keeps_mix someTrack someClips areBuilt_empty mixed).2

end MixGraph

end Mixdown
