import Mixdown.Proofs.Signal.Chains
import Mixdown.Proofs.Signal.Opened

/-!
# The labels of a graph

While a graph is built, its stages are those that the chains of the recipe tell, and no
labels but theirs are taken.  So the next label of a chain is numbered by what the same
chain has with its suffix, and the name of the next chain is free.
-/

namespace Mixdown

open LabelPool

theorem LabelPool.pick_eq_chainLabel
    {pool : LabelPool} {base suffix : String} {count : Nat}
    (taken : ∀ number < count, chainLabel base suffix number ∈ pool.reserved)
    (free : chainLabel base suffix count ∉ pool.reserved) :
    pool.pick (base ++ "_" ++ suffix) = chainLabel base suffix count := by
  cases count with
  | zero => exact pick_eq_self free
  | succ count =>
      have first : base ++ "_" ++ suffix ∈ pool.reserved := taken 0 (Nat.zero_lt_succ count)
      obtain ⟨number, picked, lower, unused, skipped⟩ := pick_eq_numbered first
      rcases Nat.lt_trichotomy number (count + 1) with below | rfl | above
      · have reached := taken number below
        rw [chainLabel, if_neg (by omega)] at reached
        exact absurd reached unused
      · exact picked
      · exact absurd (skipped (count + 1) (by omega) above) free

/-! ## Drafts -/

/-- The stages of the draft are those of some chains, and their labels are all that are
taken. -/
structure Draft.Spells (draft : Draft) (chains : List Chain) : Prop where
  named : AreNamed chains
  headings : draft.graph.stages.map Stage.heading = chains.flatMap Chain.headings
  reserved : ∀ label, label ∈ draft.labels.reserved ↔ label ∈ draft.graph.labels

namespace Draft

variable {draft after : Draft} {chains others earlier : List Chain} {chain : Chain}
  {origin : Origin} {link : Link} {stage : Stage} {suffix : String}

theorem empty_spells : empty.Spells [] where
  named := areNamed_nil
  headings := rfl
  reserved := fun _ => Iff.rfl

namespace Spells

theorem mem_reserved_iff (spells : draft.Spells chains) {label : String} :
    label ∈ draft.labels.reserved ↔ ∃ chain ∈ chains, label ∈ chain.labels := by
  have labels : draft.graph.labels = chains.flatMap Chain.labels := by
    change draft.graph.stages.map (Prod.snd ∘ Stage.heading) = _
    rw [← List.map_map, spells.headings, List.map_flatMap]
    rfl
  rw [spells.reserved, labels, List.mem_flatMap]

/-- A stage is added that is the next of the chains. -/
theorem made
    (spells : draft.Spells chains) (named : AreNamed others)
    (stages : after.graph.stages = draft.graph.stages ++ [stage])
    (reserved : after.labels.reserved = stage.output :: draft.labels.reserved)
    (headings :
      others.flatMap Chain.headings = chains.flatMap Chain.headings ++ [stage.heading]) :
    after.Spells others where
  named := named
  headings := by
    rw [stages, List.map_append, spells.headings, headings]
    rfl
  reserved := by
    intro label
    rw [reserved, List.mem_cons, spells.reserved, FilterGraph.labels, FilterGraph.labels, stages,
      List.map_append, List.mem_append, or_comm]
    exact or_congr_right List.mem_singleton.symm

/-! ### Links -/

/-- Numbers come only from the links of the chain itself: no other chain has such a label. -/
theorem pick_link
    (spells : draft.Spells chains) (member : chain ∈ chains) (plain : IsPlain suffix) :
    draft.labels.pick (chain.base ++ "_" ++ suffix) =
      chainLabel chain.base suffix (chain.suffixes.count suffix) := by
  have called := spells.named.called
  apply pick_eq_chainLabel
  · intro number below
    exact spells.mem_reserved_iff.mpr
      ⟨chain, member, Chain.mem_labels_iff.mpr (Or.inr ⟨suffix, number, below, rfl⟩)⟩
  · intro taken
    -- A label like this can only be one of this very chain, and those have lower numbers.
    obtain ⟨other, among, label⟩ := spells.mem_reserved_iff.mp taken
    rcases Chain.mem_labels_iff.mp label with ⟨_, same⟩ | ⟨otherSuffix, number, below, same⟩
    · exact (called chain member).chainLabel_ne (called other among) plain same
    · obtain ⟨bases, rfl, rfl⟩ :=
        (called chain member).chainLabel_inj (called other among) plain
          (spells.named.isPlain_suffix among below) same
      obtain rfl := List.inj_on_of_nodup_map spells.named.distinct member among bases
      exact Nat.lt_irrefl _ below

theorem linked
    (spells : draft.Spells (earlier ++ [chain])) (plain : IsPlain link.suffix)
    (filter : stage.filter = some link.filter)
    (output : stage.output = draft.labels.pick (chain.base ++ "_" ++ link.suffix))
    (stages : after.graph.stages = draft.graph.stages ++ [stage])
    (reserved : after.labels.reserved = stage.output :: draft.labels.reserved) :
    after.Spells (earlier ++ [chain.extended [link]]) := by
  refine spells.made (spells.named.extended (by simpa using plain)) stages reserved ?_
  have last : chain ∈ earlier ++ [chain] := List.mem_append_right _ List.mem_cons_self
  rw [Stage.heading, filter, output, spells.pick_link last plain]
  simp only [List.flatMap_append, List.flatMap_singleton, Chain.headings_extended,
    List.append_assoc]

/-! ### Names of chains -/

theorem base_free
    (spells : draft.Spells chains)
    (unreached : origin.owner ∉ chains.map fun chain => chain.owner) :
    origin.base (fileLabels chains) ∉ draft.labels.reserved := by
  intro taken
  obtain ⟨chain, member, label⟩ := spells.mem_reserved_iff.mp taken
  rcases Chain.mem_labels_iff.mp label with ⟨_, same⟩ | ⟨suffix, number, below, same⟩
  · exact spells.named.base_not_mem unreached (same ▸ List.mem_map_of_mem member)
  · exact (spells.named.called chain member).chainLabel_ne
      (origin.isCalled_base (fileLabels chains)) (spells.named.isPlain_suffix member below)
      same.symm

/-- Only the files before it take the name of a file. -/
theorem isReserved_fileBase_iff
    (spells : draft.Spells chains) (filename : String) (index : UInt64) (position : Nat) :
    draft.labels.isReserved (fileBase filename index position) = true ↔
      fileBase filename index position ∈ fileLabels chains := by
  have isFileBase : (Origin.file filename index position).IsCalled
      (fileBase filename index position) :=
    Or.inl rfl
  rw [isReserved_iff_mem, spells.mem_reserved_iff]
  constructor
  · rintro ⟨chain, member, label⟩
    have called := spells.named.called chain member
    have initials := (Chain.head?_of_mem_labels called label).symm.trans isFileBase.head?_eq
    have isFile := Origin.isFile_of_initial_eq (Option.some.inj initials)
    rcases Chain.mem_labels_iff.mp label with ⟨_, same⟩ | ⟨suffix, number, below, same⟩
    · rw [same]
      exact List.mem_map_of_mem (List.mem_filter.mpr ⟨member, isFile⟩)
    · exact absurd same.symm
        (called.chainLabel_ne isFileBase (spells.named.isPlain_suffix member below))
  · intro taken
    obtain ⟨chain, isFileChain, same⟩ := List.mem_map.mp taken
    obtain ⟨member, isFile⟩ := List.mem_filter.mp isFileChain
    exact ⟨chain, member,
      Chain.mem_labels_iff.mpr (Or.inl ⟨Chain.opening_ne_nil_of_isFile isFile, same.symm⟩)⟩

theorem reserveFile_eq
    {filename : String} {index : UInt64} {position : Nat} (spells : draft.Spells chains)
    (unreached : (Origin.file filename index position).owner ∉
      chains.map fun chain => chain.owner) :
    draft.labels.reserveFile filename index position =
      let base := (Origin.file filename index position).base (fileLabels chains)
      (base, ⟨base :: draft.labels.reserved⟩) := by
  have requested : draft.labels.reserveFile filename index position =
      draft.labels.reserve ((Origin.file filename index position).base (fileLabels chains)) :=
    congrArg draft.labels.reserve
      (if_congr (spells.isReserved_fileBase_iff filename index position) rfl rfl)
  rw [requested, reserve, pick_eq_self (spells.base_free unreached)]

/-- A new chain opens with a stage that has its name. -/
theorem begun
    (spells : draft.Spells chains)
    (unreached : origin.owner ∉ chains.map fun chain => chain.owner)
    (opening : origin.opening = [stage.filter])
    (output : stage.output = origin.base (fileLabels chains))
    (stages : after.graph.stages = draft.graph.stages ++ [stage])
    (reserved : after.labels.reserved = stage.output :: draft.labels.reserved) :
    after.Spells (chains ++ [origin.begun chains]) := by
  refine spells.made (spells.named.begun unreached) stages reserved ?_
  have own : (origin.begun chains).headings = [stage.heading] := by
    rw [Origin.headings_begun, opening, ← output]
    rfl
  rw [List.flatMap_append, List.flatMap_singleton, own]

/-- A chain that opens with no stage only has its name. -/
theorem begun_of_opening_eq_nil
    (spells : draft.Spells chains) (origin : Origin)
    (unreached : origin.owner ∉ chains.map fun chain => chain.owner)
    (opening : origin.opening = []) : draft.Spells (chains ++ [origin.begun chains]) where
  named := spells.named.begun unreached
  headings := by
    have own : (origin.begun chains).headings = [] := by
      rw [Origin.headings_begun, opening, List.map_nil]
    rw [List.flatMap_append, List.flatMap_singleton, own, List.append_nil, spells.headings]
  reserved := spells.reserved

end Spells

end Draft

/-! ## Steps -/

def effectSuffixes : List String :=
  ["loop", "backward", "faraway_volume", "faraway_lowpass", "faraway_reverb", "wave"]

theorem Effect.isPlain_suffix
    {presets : Keyed WavePreset} {effect : Effect} {step : FilterStep}
    (member : step ∈ effect.steps presets) : IsPlain step.suffix := by
  have all : ((effect.steps presets).map FilterStep.suffix).all effectSuffixes.contains = true := by
    cases effect with
    | faraway withVolume => cases withVolume <;> rfl
    | _ => rfl
  have plain : ∀ suffix ∈ effectSuffixes, IsPlain suffix := by
    decide
  exact plain _ (List.contains_iff_mem.mp (List.all_eq_true.mp all _ (List.mem_map_of_mem member)))

namespace Build

variable {surroundings : Surroundings} {contentDir : String} {draft : Draft}
  {chains earlier : List Chain} {chain : Chain}

theorem spells_link
    (link : Link) {stage : String → Stage} (spells : draft.Spells (earlier ++ [chain]))
    (plain : IsPlain link.suffix)
    (heading : ∀ output, (stage output).heading = (some link.filter, output)) :
    Leaves (do let output ← label (·.reserveDerived chain.base link.suffix); emit (stage output))
      draft fun _ after => after.Spells (earlier ++ [chain.extended [link]]) := by
  refine (leaves_label _).bind ?_
  rintro output reserving ⟨rfl, rfl⟩
  refine (leaves_emit _).mono ?_
  rintro made emitted ⟨_, rfl⟩
  obtain ⟨filter, output⟩ := Prod.mk.inj (heading (draft.labels.pick _))
  exact spells.linked plain filter output rfl (congrArg (· :: _) output.symm)

theorem spells_gain
    (signal : String) (volume : Option Float) (spells : draft.Spells (earlier ++ [chain])) :
    Leaves (gain chain.base signal volume) draft fun _ after =>
      after.Spells (earlier ++ [chain.extended (gainLinks volume)]) := by
  unfold gain gainLinks
  cases gain? volume with
  | none =>
      refine leaves_pure ?_
      rw [Option.toList_none, List.map_nil, Chain.extended_nil]
      exact spells
  | some factor =>
      exact spells_link ⟨"volume", "volume"⟩ spells (by decide) fun _ => rfl

theorem spells_step
    {step : FilterStep} (signal : String) (spells : draft.Spells (earlier ++ [chain]))
    (plain : IsPlain step.suffix) :
    Leaves (Build.step chain.base signal step) draft fun _ after =>
      after.Spells (earlier ++ [chain.extended [step.link]]) :=
  spells_link step.link spells plain fun _ => rfl

theorem spells_steps
    {steps : List FilterStep} (signal : String) (spells : draft.Spells (earlier ++ [chain]))
    (plain : ∀ step ∈ steps, IsPlain step.suffix) :
    Leaves (steps.foldlM (Build.step chain.base) signal) draft fun _ after =>
      after.Spells (earlier ++ [chain.extended (steps.map FilterStep.link)]) := by
  induction steps generalizing signal draft chain with
  | nil =>
      refine leaves_pure ?_
      rw [List.map_nil, Chain.extended_nil]
      exact spells
  | cons step rest inductionHypothesis =>
      obtain ⟨first, later⟩ := List.forall_mem_cons.mp plain
      rw [List.foldlM_cons]
      refine (spells_step signal spells first).bind ?_
      intro made after afterSpells
      refine (inductionHypothesis made afterSpells later).mono ?_
      intro _ last lastSpells
      rwa [Chain.extended_extended] at lastSpells

theorem spells_effects
    (signal : String) (presets : Keyed WavePreset) (effects : List Effect)
    (spells : draft.Spells (earlier ++ [chain])) :
    Leaves (Build.effects presets chain.base signal effects) draft fun _ after =>
      after.Spells (earlier ++ [chain.extended (effectLinks presets effects)]) := by
  refine spells_steps signal spells ?_
  intro step member
  obtain ⟨effect, _, within⟩ := List.mem_flatMap.mp member
  exact effect.isPlain_suffix within

/-- What comes after the source of a clip, and after the joint of a track. -/
theorem spells_gain_effects
    (signal : String) (volume : Option Float) (presets : Keyed WavePreset)
    (effects : List Effect) (spells : draft.Spells (earlier ++ [chain])) :
    Leaves (do
        let amplified ← gain chain.base signal volume
        Build.effects presets chain.base amplified effects) draft fun _ after =>
      after.Spells
        (earlier ++ [chain.extended (gainLinks volume ++ effectLinks presets effects)]) := by
  refine (spells_gain signal volume spells).bind ?_
  intro amplified gained gainedSpells
  refine (spells_effects amplified presets effects gainedSpells).mono ?_
  intro _ last lastSpells
  rwa [Chain.extended_extended] at lastSpells

/-! ### Clips -/

theorem spells_source
    {cue : Cue} (spells : draft.Spells chains)
    (unreached : cue.origin.owner ∉ chains.map fun chain => chain.owner) :
    Leaves (source contentDir cue.track cue.position cue.clip) draft fun found after =>
      found.1 = (cue.origin.begun chains).base ∧
        after.Spells (chains ++ [(cue.origin.begun chains).extended cue.cutLinks]) := by
  unfold source
  cases isSource : cue.clip.source with
  | silence =>
      rw [Cue.origin_of_silence isSource] at unreached ⊢
      rw [Cue.cutLinks_of_silence isSource, Chain.extended_nil]
      refine (leaves_label _).bind ?_
      rintro base reserving ⟨rfl, rfl⟩
      rw [reserveSilence_eq (spells.base_free unreached)]
      refine (leaves_emit _).bind ?_
      rintro made emitted ⟨rfl, rfl⟩
      exact leaves_pure ⟨rfl, spells.begun unreached rfl rfl rfl rfl⟩
  | file filename =>
      rw [Cue.origin_of_file isSource] at unreached ⊢
      rw [Cue.cutLinks_of_file isSource]
      refine (leaves_ingest contentDir cue.track cue.position filename).bind ?_
      rintro base ingested ⟨labelled, stages, _, labels⟩
      rw [spells.reserveFile_eq unreached] at labelled labels
      have opened : ingested.Spells (chains ++ [(Origin.file filename cue.track cue.position).begun
          chains]) :=
        spells.begun unreached rfl labelled stages (by rw [labels, labelled]; rfl)
      split
      next =>
        rw [← bind_assoc, labelled]
        refine (spells_link ⟨"trim", "atrim"⟩ opened (by decide) fun _ => rfl).bind ?_
        intro signal trimmed trimmedSpells
        exact leaves_pure ⟨rfl, trimmedSpells⟩
      next =>
        rw [Chain.extended_nil]
        exact leaves_pure ⟨labelled, opened⟩

theorem spells_clip
    (cue : Cue) (spells : draft.Spells chains)
    (unreached : cue.origin.owner ∉ chains.map fun chain => chain.owner) :
    Leaves (Build.clip surroundings cue.track cue.position cue.clip) draft fun _ after =>
      after.Spells (chains ++ [(cue.strand surroundings.presets).named chains]) := by
  unfold Build.clip
  split
  next => exact leaves_throw _
  next =>
    refine (spells_source spells unreached).bind ?_
    rintro ⟨base, signal⟩ sourced ⟨called, sourcedSpells⟩
    dsimp only at called
    rw [called]
    refine (spells_gain_effects signal cue.clip.volume surroundings.presets cue.clip.effects
      sourcedSpells).mono ?_
    intro _ last lastSpells
    rwa [Chain.extended_extended, ← List.append_assoc] at lastSpells

theorem owner_not_mem_of_nodup
    {done rest : List Strand} {strand : Strand}
    (distinct : ((done ++ strand :: rest).map Strand.owner).Nodup) :
    strand.owner ∉ (chainsOf done).map fun chain => chain.owner := by
  rw [map_owner_chainsOf]
  exact not_mem_map_of_nodup distinct

theorem spells_clips
    {track : UInt64} {position : Nat} {clips : List (Clip Float)} {done : List Strand}
    (spells : draft.Spells (chainsOf done))
    (distinct : ((done ++ (cuesFrom track position clips).map
      (Cue.strand surroundings.presets)).map Strand.owner).Nodup) :
    Leaves (Build.clips surroundings track position clips) draft fun _ after =>
      after.Spells (chainsOf (done ++
        (cuesFrom track position clips).map (Cue.strand surroundings.presets))) := by
  induction clips generalizing draft done position with
  | nil =>
      refine leaves_pure ?_
      rwa [cuesFrom, List.zipIdx_nil, List.map_nil, List.map_nil, List.append_nil]
  | cons clip rest inductionHypothesis =>
      rw [cuesFrom_cons, List.map_cons] at distinct ⊢
      have unreached := owner_not_mem_of_nodup distinct
      refine (spells_clip ⟨track, position, clip⟩ spells unreached).bind ?_
      intro signal after afterSpells
      rw [← chainsOf_concat] at afterSpells
      rw [List.append_cons] at distinct ⊢
      refine (inductionHypothesis afterSpells distinct).bind ?_
      intro signals last lastSpells
      exact leaves_pure lastSpells

/-! ### Tracks and the mix -/

theorem spells_track
    {track : Track Float} {done : List Strand} (spells : draft.Spells (chainsOf done))
    (distinct : ((done ++ track.strands surroundings.presets).map Strand.owner).Nodup) :
    Leaves (Build.track surroundings track) draft fun _ after =>
      after.Spells (chainsOf (done ++ track.strands surroundings.presets)) := by
  rw [Track.strands, ← List.append_assoc] at distinct ⊢
  have clipsDistinct := distinct
  rw [List.map_append] at clipsDistinct
  unfold Build.track
  refine (spells_clips spells clipsDistinct.of_append_left).bind ?_
  intro signals clipped clippedSpells
  -- A track has no stage before the joint, so its chain begins with a name only.
  have unreached := owner_not_mem_of_nodup distinct
  have namedSpells := clippedSpells.begun_of_opening_eq_nil (.track track.index) unreached rfl
  rw [← bind_assoc]
  refine (spells_link ⟨"concat", "concat"⟩ namedSpells (by decide) fun _ => rfl).bind ?_
  intro joined linked linkedSpells
  refine (spells_gain_effects joined track.volume surroundings.presets track.effects
    linkedSpells).mono ?_
  intro _ last lastSpells
  rw [Chain.extended_extended] at lastSpells
  rw [chainsOf_concat]
  exact lastSpells

theorem spells_tracks
    {tracks : List (Track Float)} {done : List Strand} (spells : draft.Spells (chainsOf done))
    (distinct : ((done ++ tracks.flatMap (Track.strands surroundings.presets)).map
      Strand.owner).Nodup) :
    Leaves (Build.tracks surroundings tracks) draft fun _ after =>
      after.Spells (chainsOf (done ++ tracks.flatMap (Track.strands surroundings.presets))) := by
  induction tracks generalizing draft done with
  | nil =>
      refine leaves_pure ?_
      rwa [List.flatMap_nil, List.append_nil]
  | cons track rest inductionHypothesis =>
      rw [List.flatMap_cons, ← List.append_assoc] at distinct ⊢
      have own := distinct
      rw [List.map_append] at own
      refine (spells_track spells own.of_append_left).bind ?_
      intro signal after afterSpells
      refine (inductionHypothesis afterSpells distinct).bind ?_
      intro signals last lastSpells
      exact leaves_pure lastSpells

/-- No chain has a label that starts like that of the mix. -/
theorem finalLabel_free (spells : draft.Spells chains) :
    finalLabel ∉ draft.labels.reserved := by
  intro taken
  obtain ⟨chain, member, label⟩ := spells.mem_reserved_iff.mp taken
  have initial := Chain.head?_of_mem_labels (spells.named.called chain member) label
  have first : finalLabel.toList.head? = some 'o' := by
    decide
  rw [first] at initial
  cases shape : chain.origin with
  | file | silence | track =>
      rw [shape] at initial
      cases initial

theorem spells_mix
    {recipe : Recipe Float}
    (distinct : ((recipe.strands surroundings.presets).map Strand.owner).Nodup) :
    Leaves (mix surroundings recipe) .empty fun graph _ =>
      graph.finalLabel = finalLabel ∧
        graph.stages.map Stage.heading =
          (recipe.chains surroundings.presets).flatMap Chain.headings ++
            [(some "amix", finalLabel)] := by
  have start : Draft.empty.Spells (chainsOf []) := Draft.empty_spells
  unfold mix
  refine (spells_tracks start distinct).bind ?_
  intro signals tracked trackedSpells
  refine (leaves_label _).bind ?_
  rintro output reserving ⟨rfl, rfl⟩
  refine (leaves_emit _).bind ?_
  rintro mixed emitted ⟨_, rfl⟩
  refine leaves_get.bind ?_
  rintro draft after ⟨rfl, rfl⟩
  have picked : tracked.labels.pick finalLabel = finalLabel :=
    pick_eq_self (finalLabel_free trackedSpells)
  refine leaves_pure ⟨picked, ?_⟩
  rw [Draft.extended, List.map_append]
  exact congrArg₂ (· ++ ·) trackedSpells.headings
    (congrArg (fun label => [(some "amix", label)]) picked)

end Build

/-! ## Recipes -/

theorem Cue.owner_strand (presets : Keyed WavePreset) (cue : Cue) :
    (cue.strand presets).owner = Prod.map id some cue.place := by
  change cue.origin.owner = _
  unfold Cue.origin
  split <;> rfl

theorem map_owner_strands (presets : Keyed WavePreset) (track : Track Float) :
    (track.strands presets).map Strand.owner =
      ((List.range track.clips.length).map some ++ [none]).map (Prod.mk track.index) := by
  have owners : Strand.owner ∘ Cue.strand presets = Prod.map id some ∘ Cue.place :=
    funext fun cue => cue.owner_strand presets
  rw [Track.strands, List.map_append, List.map_append, List.map_map, owners, ← List.map_map,
    map_place_cues, List.map_map, List.map_map]
  rfl

theorem nodup_owners
    (presets : Keyed WavePreset) {recipe : Recipe Float}
    (distinct : (recipe.tracks.map Track.index).Nodup) :
    ((recipe.strands presets).map Strand.owner).Nodup := by
  rw [Recipe.strands, List.map_flatMap]
  simp only [map_owner_strands]
  refine nodup_flatMap_index distinct fun track _ => ?_
  rw [List.nodup_append_comm]
  refine List.nodup_cons.mpr ⟨by simp, ?_⟩
  exact List.nodup_range.map fun _ _ => Option.some.inj

namespace MixGraph

variable {surroundings : Surroundings} {recipe : Recipe Float} {graph : MixGraph}

theorem headings_of_ofRecipe (compiled : ofRecipe surroundings recipe = .ok graph) :
    graph.finalLabel = "out" ∧
      graph.stages.map Stage.heading =
        (recipe.chains surroundings.presets).flatMap Chain.headings ++ [(some "amix", "out")] := by
  obtain ⟨checked, draft, mixed⟩ := mix_of_ofRecipe compiled
  obtain ⟨_, distinct, _⟩ := Recipe.check_eq_ok_iff.mp checked
  exact Build.spells_mix (nodup_owners surroundings.presets distinct) graph draft mixed

/-- All labels of a graph are words.  Its stages have those that the chains of the recipe
tell, and a chain has its name from its place, or from its file and the files before it. -/
theorem labels_of_ofRecipe (compiled : ofRecipe surroundings recipe = .ok graph) :
    (∀ stage ∈ graph.stages, IsWord stage.output ∧ ∀ label ∈ stage.inputs, IsWord label) ∧
      graph.finalLabel = "out" ∧
      graph.stages.map Stage.heading =
        (recipe.chains surroundings.presets).flatMap Chain.headings ++ [(some "amix", "out")] ∧
      (recipe.chains surroundings.presets).map Chain.toStrand =
        recipe.strands surroundings.presets ∧
      (∀ earlier chain later,
        recipe.chains surroundings.presets = earlier ++ chain :: later →
          chain.base = chain.origin.base (fileLabels earlier)) ∧
      (∀ track ∈ recipe.tracks,
        (some "concat", "track" ++ toString track.index ++ "_concat") ∈
          graph.stages.map Stage.heading) ∧
      ∀ cue ∈ recipe.cues, cue.clip.source = .silence →
        (some "aevalsrc", "silence_" ++ place cue.track cue.position) ∈
          graph.stages.map Stage.heading := by
  have built := areBuilt_of_ofRecipe compiled
  obtain ⟨final, headings⟩ := headings_of_ofRecipe compiled
  have among (strand : Strand) {heading : Heading}
      (member : strand ∈ recipe.strands surroundings.presets)
      (within : ∀ earlier, heading ∈ (strand.named earlier).headings) :
      heading ∈ graph.stages.map Stage.heading := by
    obtain ⟨earlier, chainMember⟩ := exists_named_mem_chainsOf member
    rw [headings]
    exact List.mem_append_left _ (List.mem_flatMap.mpr ⟨_, chainMember, within earlier⟩)
  refine ⟨?_, final, headings, map_toStrand_chainsOf _, ?_, ?_, ?_⟩
  · intro stage member
    exact ⟨(built.stages stage member).isWord_output,
      built.isWord_of_mem_inputs (completes_of_ofRecipe compiled).ordered member⟩
  · exact fun earlier chain later shape => base_eq_of_chainsOf_eq shape
  · intro track member
    refine among (track.strand surroundings.presets) ?_ (track.mem_headings _)
    exact List.mem_flatMap.mpr
      ⟨track, member, List.mem_append_right _ List.mem_cons_self⟩
  · intro cue member silent
    obtain ⟨track, trackMember, cueMember⟩ := List.mem_flatMap.mp member
    refine among (cue.strand surroundings.presets) ?_
      fun earlier => cue.mem_headings _ earlier silent
    exact List.mem_flatMap.mpr
      ⟨track, trackMember, List.mem_append_left _ (List.mem_map_of_mem cueMember)⟩

/-- A file that is called like the place of the next clip, whose own file has no name in
letters, and effects that come twice. -/
def lookalikes : Recipe Float where
  title := "Lookalikes"
  tracks :=
    [.ofClips 0
      [Recipe.demoClip (.file "t0c1") (.fixed 8.0) none [.reverse, .reverse],
        Recipe.demoClip (.file "?") (.elasticFrom 2.0 6.0) (some 80.0) [],
        Recipe.demoClip .silence (.fixed 1.0) none [.reverse]]
      (some 60.0) [.wave "main", .reverse]]

theorem labels_of_ofRecipe_lookalikes :
    ∃ graph, ofRecipe .standard lookalikes = .ok graph ∧
      graph.stages.map Stage.heading =
        [(none, "in_t0c1"), (some "areverse", "in_t0c1_backward"),
          (some "areverse", "in_t0c1_backward_1"), (none, "in_t0c1_t0c1"),
          (some "atrim", "in_t0c1_t0c1_trim"), (some "volume", "in_t0c1_t0c1_volume"),
          (some "aevalsrc", "silence_t0c2"), (some "areverse", "silence_t0c2_backward"),
          (some "concat", "track0_concat"), (some "volume", "track0_volume"),
          (some "volume", "track0_wave"), (some "areverse", "track0_backward"),
          (some "amix", "out")] := by
  have succeeds : (ofRecipe .standard lookalikes).toOption.any (fun _ => true) = true := by
    decide +kernel
  obtain ⟨graph, compiled, _⟩ := exists_ok_of_any succeeds
  obtain ⟨_, _, headings, _⟩ := labels_of_ofRecipe compiled
  refine ⟨graph, compiled, headings.trans ?_⟩
  decide +kernel

end MixGraph

end Mixdown
