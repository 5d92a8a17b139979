import Mixdown.Proofs.Keyed
import Mixdown.Proofs.Signal.Draft

/-!
# What building leaves behind

Every step of building takes a draft that holds some signals to one that holds the
signal it made of them, with the tree that the recipe asks for.  The only steps
that fail are those for a clip that lasts no time.
-/

namespace Mixdown

/-! ## Clips that last no time -/

/-- Clips that follow each other, each with its place in the recipe. -/
def placedClips (track : UInt64) (position : Nat) (clips : List (Clip Float)) :
    List (Place × Clip Float) :=
  (clips.zipIdx position).map fun (clip, position) => (.ofClip track position, clip)

/-- The clips of a recipe, track by track, each with its place. -/
def Recipe.placedClips (recipe : Recipe Float) : List (Place × Clip Float) :=
  recipe.tracks.flatMap fun track => Mixdown.placedClips track.index 0 track.clips

/-- The first clip that lasts no time, as a problem. -/
def unplayable? (placed : List (Place × Clip Float)) : Option (RecipeError Float) :=
  (placed.find? fun entry => decide (entry.2.timing.duration ≤ 0)).map fun entry =>
    .invalid entry.1 (.unplayable entry.2.timing.duration)

@[simp]
theorem unplayable?_nil : unplayable? [] = none :=
  rfl

theorem unplayable?_append (first second : List (Place × Clip Float)) :
    unplayable? (first ++ second) = (unplayable? first).or (unplayable? second) := by
  rw [unplayable?, List.find?_append, Option.map_or]
  rfl

theorem placedClips_cons
    (track : UInt64) (position : Nat) (clip : Clip Float) (rest : List (Clip Float)) :
    placedClips track position (clip :: rest) =
      [(.ofClip track position, clip)] ++ placedClips track (position + 1) rest := by
  simp [placedClips, List.zipIdx_cons]

namespace Build

/-! ## Steps and how they end -/

/-- A step ends, from a draft, with the problem that is expected; where none is, it
gives a result and leaves a draft as in `post`. -/
def Ends {α : Type}
    (build : Build α) (draft : Draft) (problem : Option (RecipeError Float))
    (post : α → Draft → Prop) : Prop :=
  match problem with
  | some error => build.run draft = .error (.recipe error)
  | none => ∃ result after, build.run draft = .ok (result, after) ∧ post result after

section Ends

variable {α β : Type} {draft : Draft} {build : Build α}
  {problem later : Option (RecipeError Float)}
  {post : α → Draft → Prop} {final : β → Draft → Prop}

theorem ends_pure {result : α} (holds : post result draft) :
    Ends (pure result : Build α) draft none post :=
  ⟨result, draft, rfl, holds⟩

theorem ends_get :
    Ends get draft none fun found after => found = draft ∧ after = draft :=
  ⟨draft, draft, rfl, rfl, rfl⟩

/-- One step after another: the first problem counts. -/
theorem Ends.bind
    {next : α → Build β}
    (first : Ends build draft problem post)
    (rest : ∀ result after, post result after → Ends (next result) after later final) :
    Ends (build >>= next) draft (problem.or later) final := by
  cases problem with
  | some error =>
      change (build.run draft).bind _ = _
      rw [show build.run draft = _ from first]
      rfl
  | none =>
      obtain ⟨result, after, ran, holds⟩ := first
      have follows : (build >>= next).run draft = (next result).run after := by
        change (build.run draft).bind _ = _
        rw [ran]
        rfl
      rw [Option.none_or]
      have ended := rest result after holds
      unfold Ends at ended ⊢
      rw [follows]
      exact ended

theorem Ends.mono
    {weaker : α → Draft → Prop}
    (ends : Ends build draft problem post)
    (implies : ∀ result after, post result after → weaker result after) :
    Ends build draft problem weaker := by
  cases problem with
  | some error => exact ends
  | none =>
      obtain ⟨result, after, ran, holds⟩ := ends
      exact ⟨result, after, ran, implies result after holds⟩

end Ends

variable {draft : Draft} {files : Nat} {others taken : List (String × SignalTree)}
  {signal : String} {tree : SignalTree}

/-! ## Single stages -/

theorem ends_label
    {take : LabelPool → String × LabelPool}
    (holds : draft.Holds files taken) (fresh : LabelPool.TakesFresh take) :
    Ends (label take) draft none fun found after =>
      after.Holds files taken ∧ after.Awaits found :=
  ⟨_, _, rfl, holds.taking fresh⟩

theorem ends_emit
    {stage : Stage}
    (holds : draft.Holds files (others ++ taken))
    (awaits : draft.Awaits stage.output)
    (inputs : stage.inputs = taken.map Prod.fst)
    (counts : stage.CountsInputs) :
    Ends (emit stage) draft none fun made after =>
      made = stage.output ∧ after.graph.stages = draft.graph.stages ++ [stage] ∧
        after.Holds files
          (others ++ [(made, .made stage.filter stage.params (taken.map Prod.snd))]) := by
  have known : ∀ label ∈ stage.inputs, label ∈ draft.graph.labels := by
    intro label member
    rw [inputs] at member
    obtain ⟨source, sourceMember, rfl⟩ := List.mem_map.mp member
    exact holds.mem_labels (List.mem_append_right others sourceMember)
  have pushed := FilterGraph.push_eq_ok awaits.unmade known
  have ran : (emit stage).run draft = .ok (stage.output, draft.extended stage) := by
    simp only [emit, StateT.run_bind, StateT.run_get, pure_bind, pushed]
    rfl
  exact ⟨stage.output, draft.extended stage, ran, rfl, rfl,
    holds.extended awaits inputs counts⟩

/-! ## Chains -/

def effectFilters : List String :=
  ["aloop", "areverse", "volume", "lowpass", "aecho"]

theorem filter_mem_effectFilters
    {presets : Keyed WavePreset} {effect : Effect} {step : FilterStep}
    (member : step ∈ effect.steps presets) : step.filter ∈ effectFilters := by
  have all : ((effect.steps presets).map FilterStep.filter).all effectFilters.contains = true := by
    cases effect with
    | faraway withVolume => cases withVolume <;> rfl
    | _ => rfl
  exact List.contains_iff_mem.mp (List.all_eq_true.mp all _ (List.mem_map_of_mem member))

/-- A filter of an effect is not one that is told how many signals it takes in. -/
theorem uncounted_of_mem_steps
    {presets : Keyed WavePreset} {effect : Effect} {step : FilterStep}
    (member : step ∈ effect.steps presets) :
    step.filter ≠ "concat" ∧ step.filter ≠ "amix" := by
  have all : ∀ name ∈ effectFilters, name ≠ "concat" ∧ name ≠ "amix" := by
    decide
  exact all _ (filter_mem_effectFilters member)

theorem ends_step
    (base : String) {step : FilterStep}
    (uncounted : step.filter ≠ "concat" ∧ step.filter ≠ "amix")
    (holds : draft.Holds files (others ++ [(signal, tree)])) :
    Ends (Build.step base signal step) draft none fun made after =>
      after.Holds files (others ++ [(made, tree.through step)]) := by
  unfold Build.step
  refine (ends_label holds (LabelPool.takesFresh_reserveDerived base step.suffix)).bind ?_
  rintro output after ⟨stillHolds, awaits⟩
  refine (ends_emit stillHolds awaits rfl ?_).mono ?_
  · exact Stage.countsInputs_of_uncounted
      (fun equality => uncounted.1 (Option.some.inj equality))
      (fun equality => uncounted.2 (Option.some.inj equality))
  · rintro made last ⟨_, _, lastHolds⟩
    exact lastHolds

/-- The gain of a volume as a filter. -/
def gainStep (percent : Float) : FilterStep :=
  ⟨"volume", "volume", .ofList [("volume", .number (percent / 100.0))]⟩

theorem gain_eq
    (base signal : String) (percent : Float) :
    gain base signal (some percent) =
      if 1e-9 < Float.abs (percent - 100.0) then
        Build.step base signal (gainStep percent)
      else
        pure signal := by
  by_cases audible : 1e-9 < Float.abs (percent - 100.0)
  · simp only [gain, gain?, unityVolume, Option.filter_some, audible, decide_true,
      if_true, Option.map_some]
    rfl
  · simp only [gain, gain?, unityVolume, Option.filter_some, audible, decide_false,
      Bool.false_eq_true, if_false, Option.map_none]

theorem ends_gain
    (base : String) (volume : Option Float)
    (holds : draft.Holds files (others ++ [(signal, tree)])) :
    Ends (gain base signal volume) draft none fun made after =>
      after.Holds files (others ++ [(made, tree.amplified volume)]) := by
  cases volume with
  | none => exact ends_pure holds
  | some percent =>
      rw [gain_eq, SignalTree.amplified]
      split
      · exact ends_step base ⟨by simp [gainStep], by simp [gainStep]⟩ holds
      · exact ends_pure holds

theorem ends_steps
    (base : String) (steps : List FilterStep)
    (uncounted : ∀ step ∈ steps, step.filter ≠ "concat" ∧ step.filter ≠ "amix")
    (holds : draft.Holds files (others ++ [(signal, tree)])) :
    Ends (steps.foldlM (Build.step base) signal) draft none fun made after =>
      after.Holds files (others ++ [(made, steps.foldl SignalTree.through tree)]) := by
  induction steps generalizing draft signal tree with
  | nil => exact ends_pure holds
  | cons step rest inductionHypothesis =>
      rw [List.foldlM_cons, List.foldl_cons]
      refine (ends_step base (uncounted step List.mem_cons_self) holds).bind ?_
      intro made after afterHolds
      exact inductionHypothesis
        (fun other member => uncounted other (List.mem_cons_of_mem step member)) afterHolds

theorem ends_effects
    (presets : Keyed WavePreset) (base : String) (effects : List Effect)
    (holds : draft.Holds files (others ++ [(signal, tree)])) :
    Ends (Build.effects presets base signal effects) draft none fun made after =>
      after.Holds files (others ++ [(made, tree.processed presets effects)]) := by
  refine ends_steps base _ ?_ holds
  intro step member
  obtain ⟨effect, _, stepMember⟩ := List.mem_flatMap.mp member
  exact uncounted_of_mem_steps stepMember

/-! ## Clips -/

theorem ends_ingest
    (contentDir : String) (track : UInt64) (position : Nat) (filename : String)
    (holds : draft.Holds files others) :
    Ends (ingest contentDir track position filename) draft none fun made after =>
      after.Holds (files + 1)
        (others ++ [(made, .ingested files (joinPath contentDir filename))]) := by
  have noneTaken : draft.Holds files (others ++ []) := by simpa using holds
  obtain rfl := holds.counted
  unfold ingest
  refine ends_get.bind ?_
  rintro _ _ ⟨rfl, rfl⟩
  refine (ends_label noneTaken
    (LabelPool.takesFresh_reserveFile filename track position)).bind ?_
  rintro output reserved ⟨stillHolds, awaits⟩
  refine (ends_emit stillHolds awaits rfl ?_).bind ?_
  · exact Stage.countsInputs_of_uncounted (by simp [Stage.ingest]) (by simp [Stage.ingest])
  rintro made emitted ⟨_, _, emittedHolds⟩
  refine ⟨made, _, rfl, { emittedHolds with counted := ?_ }⟩
  simp [emittedHolds.counted]

theorem ends_source
    (contentDir : String) (track : UInt64) (position : Nat) (clip : Clip Float)
    (holds : draft.Holds files others) :
    Ends (source contentDir track position clip) draft none fun made after =>
      after.Holds (files + clip.fileCount)
        (others ++ [(made.2, clip.sourceTree contentDir files)]) := by
  obtain ⟨clipSource, timing, volume, clipEffects⟩ := clip
  unfold source Clip.sourceTree
  cases clipSource with
  | silence =>
      have noneTaken : draft.Holds files (others ++ []) := by simpa using holds
      refine (ends_label noneTaken
        (LabelPool.takesFresh_reserveSilence track position)).bind ?_
      rintro base reserved ⟨stillHolds, awaits⟩
      refine (ends_emit stillHolds awaits rfl ?_).bind ?_
      · exact Stage.countsInputs_of_uncounted (by simp) (by simp)
      rintro made emitted ⟨_, _, emittedHolds⟩
      exact ends_pure emittedHolds
  | file filename =>
      refine (ends_ingest contentDir track position filename holds).bind ?_
      intro base ingested ingestedHolds
      cases timing with
      | fixed duration => exact ends_pure ingestedHolds
      | elastic minLength maxLength duration =>
          let step : FilterStep :=
            ⟨"trim", "atrim", .ofList [("duration", .number duration)]⟩
          have uncounted : step.filter ≠ "concat" ∧ step.filter ≠ "amix" := by
            constructor <;> simp [step]
          have regrouped :
              (do let output ← label (·.reserveDerived base "trim")
                  let signal ← filter [base] "atrim" [("duration", .number duration)] output
                  return (base, signal) : Build (String × String)) =
                (do let signal ← Build.step base base step
                    return (base, signal)) := by
            rw [Build.step, bind_assoc]
            rfl
          simp only [ClipTiming.isElastic, ClipTiming.duration, if_true]
          rw [regrouped]
          refine (ends_step base uncounted ingestedHolds).bind ?_
          intro made after afterHolds
          exact ends_pure afterHolds

/-- A clip fails just when it lasts no time, and then nothing is built for it. -/
theorem ends_clip
    (surroundings : Surroundings) (track : UInt64) (position : Nat) (clip : Clip Float)
    (holds : draft.Holds files others) :
    Ends (Build.clip surroundings track position clip) draft
      (unplayable? [(.ofClip track position, clip)]) fun made after =>
        after.Holds (files + clip.fileCount)
          (others ++ [(made, clip.tree surroundings files)]) := by
  unfold Build.clip unplayable?
  by_cases unplayable : clip.timing.duration ≤ 0
  · simp only [List.find?_cons, unplayable, decide_true, Option.map_some, if_true]
    rfl
  · simp only [List.find?_cons, unplayable, decide_false, List.find?_nil,
      Option.map_none, if_false]
    refine (ends_source surroundings.contentDir track position clip holds).bind ?_
    rintro ⟨base, signal⟩ sourced sourcedHolds
    refine (ends_gain base clip.volume sourcedHolds).bind ?_
    intro amplified gained gainedHolds
    exact ends_effects surroundings.presets base clip.effects gainedHolds

theorem length_clipTrees
    (surroundings : Surroundings) (number : Nat) (clips : List (Clip Float)) :
    (Track.clipTrees surroundings number clips).length = clips.length := by
  induction clips generalizing number with
  | nil => rfl
  | cons clip rest inductionHypothesis =>
      rw [Track.clipTrees, List.length_cons, List.length_cons, inductionHypothesis]

theorem ends_clips
    (surroundings : Surroundings) (track : UInt64) (position : Nat)
    (clips : List (Clip Float)) (holds : draft.Holds files others) :
    Ends (Build.clips surroundings track position clips) draft
      (unplayable? (placedClips track position clips)) fun signals after =>
        ∃ made : List (String × SignalTree), made.map Prod.fst = signals ∧
          made.map Prod.snd = Track.clipTrees surroundings files clips ∧
          after.Holds (files + (clips.map Clip.fileCount).sum) (others ++ made) := by
  induction clips generalizing draft files others position with
  | nil => exact ends_pure ⟨[], rfl, rfl, by simpa using holds⟩
  | cons clip rest inductionHypothesis =>
      rw [Build.clips, placedClips_cons, unplayable?_append]
      refine (ends_clip surroundings track position clip holds).bind ?_
      intro signal after afterHolds
      rw [← Option.or_none (o := unplayable? _)]
      refine (inductionHypothesis (position + 1) afterHolds).bind ?_
      rintro _ last ⟨made, rfl, trees, lastHolds⟩
      refine ends_pure ⟨(signal, clip.tree surroundings files) :: made, rfl, ?_, ?_⟩
      · rw [Track.clipTrees, List.map_cons, trees]
      · simpa [Nat.add_assoc] using lastHolds

/-! ## Tracks and the mix -/

theorem ends_track
    (surroundings : Surroundings) (track : Track Float)
    (holds : draft.Holds files others) :
    Ends (Build.track surroundings track) draft
      (unplayable? (placedClips track.index 0 track.clips)) fun made after =>
        after.Holds (files + track.fileCount)
          (others ++ [(made, track.tree surroundings files)]) := by
  unfold Build.track
  rw [← Option.or_none (o := unplayable? _)]
  refine (ends_clips surroundings track.index 0 track.clips holds).bind ?_
  rintro _ clipped ⟨made, rfl, trees, clippedHolds⟩
  have count : made.length = track.clips.length := by
    rw [← List.length_map (f := Prod.snd), trees, length_clipTrees]
  refine (ends_label clippedHolds
    (LabelPool.takesFresh_reserveTrack track.index "concat")).bind ?_
  rintro output reserved ⟨stillHolds, awaits⟩
  refine (ends_emit stillHolds awaits rfl ?_).bind ?_
  · refine ⟨fun _ => ?_, by simp⟩
    simp [count, Keyed.ofList, Keyed.insertAll, Keyed.get?_insert]
  rintro joined emitted ⟨_, _, emittedHolds⟩
  rw [trees] at emittedHolds
  refine (ends_gain (LabelPool.trackBase track.index) track.volume emittedHolds).bind ?_
  intro amplified gained gainedHolds
  exact ends_effects surroundings.presets _ track.effects gainedHolds

theorem length_trackTrees
    (surroundings : Surroundings) (number : Nat) (tracks : List (Track Float)) :
    (Recipe.trackTrees surroundings number tracks).length = tracks.length := by
  induction tracks generalizing number with
  | nil => rfl
  | cons track rest inductionHypothesis =>
      rw [Recipe.trackTrees, List.length_cons, List.length_cons, inductionHypothesis]

theorem ends_tracks
    (surroundings : Surroundings) (tracks : List (Track Float))
    (holds : draft.Holds files others) :
    Ends (Build.tracks surroundings tracks) draft
      (unplayable? (tracks.flatMap fun track => placedClips track.index 0 track.clips))
      fun signals after =>
        ∃ made : List (String × SignalTree), made.map Prod.fst = signals ∧
          made.map Prod.snd = Recipe.trackTrees surroundings files tracks ∧
          after.Holds (files + (tracks.map Track.fileCount).sum) (others ++ made) := by
  induction tracks generalizing draft files others with
  | nil => exact ends_pure ⟨[], rfl, rfl, by simpa using holds⟩
  | cons track rest inductionHypothesis =>
      rw [Build.tracks, List.flatMap_cons, unplayable?_append]
      refine (ends_track surroundings track holds).bind ?_
      intro signal after afterHolds
      rw [← Option.or_none (o := unplayable? _)]
      refine (inductionHypothesis afterHolds).bind ?_
      rintro _ last ⟨made, rfl, trees, lastHolds⟩
      refine ends_pure ⟨(signal, track.tree surroundings files) :: made, rfl, ?_, ?_⟩
      · rw [Recipe.trackTrees, List.map_cons, trees]
      · simpa [Nat.add_assoc] using lastHolds

/-- A whole mix leaves one signal, its own, which the last stage makes. -/
theorem ends_mix (surroundings : Surroundings) (recipe : Recipe Float) :
    Ends (Build.mix surroundings recipe) .empty (unplayable? recipe.placedClips)
      fun graph after =>
        after.Holds (recipe.tracks.map Track.fileCount).sum
            [(graph.finalLabel, recipe.tree surroundings graph.endRule)] ∧
          graph.stages = after.graph.stages ∧
          graph.stages.getLast?.map Stage.output = some graph.finalLabel ∧
          graph.endRule = recipe.endRule := by
  unfold Build.mix
  rw [← Option.or_none (o := unplayable? _)]
  refine (ends_tracks surroundings recipe.tracks Draft.empty_holds).bind ?_
  rintro _ tracked ⟨made, rfl, trees, trackedHolds⟩
  have count : made.length = recipe.tracks.length := by
    rw [← List.length_map (f := Prod.snd), trees, length_trackTrees]
  refine (ends_label trackedHolds
    (LabelPool.takesFresh_reserve fun _ => finalLabel)).bind ?_
  rintro output reserved ⟨stillHolds, awaits⟩
  refine (ends_emit stillHolds awaits rfl ?_).bind ?_
  · refine ⟨by simp, fun _ => ?_⟩
    simp [count, Keyed.ofList, Keyed.insertAll, Keyed.get?_insert]
  rintro mixed emitted ⟨rfl, stages, emittedHolds⟩
  rw [trees] at emittedHolds
  refine ends_get.bind ?_
  rintro _ _ ⟨rfl, rfl⟩
  refine ends_pure ⟨?_, rfl, ?_, rfl⟩
  · simpa [Recipe.tree, SignalTree.filtered] using emittedHolds
  · simp [stages]

end Build

end Mixdown
