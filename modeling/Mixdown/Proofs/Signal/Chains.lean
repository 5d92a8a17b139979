import Mathlib.Data.List.Induction
import Mixdown.Proofs.Signal.Naming
import Mixdown.Proofs.Signal.Opening

/-!
# Chains of signals

What the stages of a graph are called can be told from the recipe alone, without a pool of
labels.  There is one chain for each clip and one for each track.  A chain of a file is
called by the file, with its place added if an earlier file has that name, and all others by
their place or track; what is called in a chain after the same suffix is counted.
-/

namespace Mixdown

open LabelPool

/-! ## Chains and their headings -/

/-- A filter in a chain, with the suffix of its label. -/
structure Link where
  suffix : String
  filter : String

/-- A chain that has no name yet. -/
structure Strand where
  origin : Origin
  links : List Link

def Strand.owner (strand : Strand) : UInt64 × Option Nat :=
  strand.origin.owner

structure Chain extends Strand where
  base : String

/-- The filter of a stage, which only a stage that takes in a file lacks, and its label. -/
abbrev Heading := Option String × String

def Stage.heading (stage : Stage) : Heading :=
  (stage.filter, stage.output)

/-- The stages that a chain opens with, and that have its name as their label. -/
def Origin.opening : Origin → List (Option String)
  | .file .. => [none]
  | .silence .. => [some "aevalsrc"]
  | .track .. => []

/-- The headings of links in the chain called `base`, before which stand links with the
suffixes in `earlier`. -/
def linkHeadings (base : String) (earlier : List String) : List Link → List Heading
  | [] => []
  | link :: rest =>
      (some link.filter, chainLabel base link.suffix (earlier.count link.suffix)) ::
        linkHeadings base (earlier ++ [link.suffix]) rest

namespace Chain

def headings (chain : Chain) : List Heading :=
  chain.origin.opening.map (fun filter => (filter, chain.base)) ++
    linkHeadings chain.base [] chain.links

def labels (chain : Chain) : List String :=
  chain.headings.map Prod.snd

def suffixes (chain : Chain) : List String :=
  chain.links.map Link.suffix

/-- The chain with more links at its end. -/
def extended (chain : Chain) (links : List Link) : Chain :=
  { chain with links := chain.links ++ links }

end Chain

/-- The labels of the files that chains play. -/
def fileLabels (chains : List Chain) : List String :=
  (chains.filter fun chain => chain.origin.isFile).map Chain.base

/-- Gives a strand its name, after some chains that have theirs. -/
def Strand.named (earlier : List Chain) (strand : Strand) : Chain :=
  { strand with base := strand.origin.base (fileLabels earlier) }

/-- A chain that has its name, and no links yet. -/
def Origin.begun (earlier : List Chain) (origin : Origin) : Chain :=
  (⟨origin, []⟩ : Strand).named earlier

/-- Gives strands their names, one after the other. -/
def chainsOf (strands : List Strand) : List Chain :=
  strands.foldl (fun earlier strand => earlier ++ [strand.named earlier]) []

/-! ## The chains of a recipe -/

def FilterStep.link (step : FilterStep) : Link :=
  ⟨step.suffix, step.filter⟩

def gainLinks (volume : Option Float) : List Link :=
  (gain? volume).toList.map fun _ => ⟨"volume", "volume"⟩

def effectLinks (presets : Keyed WavePreset) (effects : List Effect) : List Link :=
  (effects.flatMap (Effect.steps presets)).map FilterStep.link

def Cue.origin (cue : Cue) : Origin :=
  match cue.clip.source with
  | .silence => .silence cue.track cue.position
  | .file filename => .file filename cue.track cue.position

def Cue.cutLinks (cue : Cue) : List Link :=
  if cue.isCut then [⟨"trim", "atrim"⟩] else []

section

variable {cue : Cue} {filename : String}

theorem Cue.origin_of_silence (silent : cue.clip.source = .silence) :
    cue.origin = .silence cue.track cue.position := by
  rw [origin, silent]

theorem Cue.origin_of_file (plays : cue.clip.source = .file filename) :
    cue.origin = .file filename cue.track cue.position := by
  rw [origin, plays]

theorem Cue.cutLinks_of_silence (silent : cue.clip.source = .silence) : cue.cutLinks = [] := by
  rw [cutLinks, isCut, silent]
  rfl

theorem Cue.cutLinks_of_file (plays : cue.clip.source = .file filename) :
    cue.cutLinks = if cue.clip.timing.isElastic then [⟨"trim", "atrim"⟩] else [] := by
  rw [cutLinks, isCut, plays]
  rfl

end

def Cue.strand (presets : Keyed WavePreset) (cue : Cue) : Strand where
  origin := cue.origin
  links := cue.cutLinks ++ gainLinks cue.clip.volume ++ effectLinks presets cue.clip.effects

def Track.strand (presets : Keyed WavePreset) (track : Track Float) : Strand where
  origin := .track track.index
  links := [⟨"concat", "concat"⟩] ++ gainLinks track.volume ++ effectLinks presets track.effects

/-- The strands of the clips of a track, and then its own. -/
def Track.strands (presets : Keyed WavePreset) (track : Track Float) : List Strand :=
  track.cues.map (Cue.strand presets) ++ [track.strand presets]

def Recipe.strands (presets : Keyed WavePreset) (recipe : Recipe Float) : List Strand :=
  recipe.tracks.flatMap (Track.strands presets)

def Recipe.chains (presets : Keyed WavePreset) (recipe : Recipe Float) : List Chain :=
  chainsOf (recipe.strands presets)

/-! ## Labels of a chain -/

theorem linkHeadings_append (base : String) (earlier : List String) (links more : List Link) :
    linkHeadings base earlier (links ++ more) =
      linkHeadings base earlier links ++
        linkHeadings base (earlier ++ links.map Link.suffix) more := by
  induction links generalizing earlier with
  | nil => simp [linkHeadings]
  | cons link rest inductionHypothesis => simp [linkHeadings, inductionHypothesis]

theorem mem_linkHeadings_iff {base label : String} {earlier : List String} {links : List Link} :
    label ∈ (linkHeadings base earlier links).map Prod.snd ↔
      ∃ suffix number, earlier.count suffix ≤ number ∧
        number < (earlier ++ links.map Link.suffix).count suffix ∧
          label = chainLabel base suffix number := by
  induction links generalizing earlier with
  | nil =>
      rw [List.map_nil, List.append_nil]
      constructor
      · nofun
      · rintro ⟨suffix, number, lower, upper, _⟩
        omega
  | cons link rest inductionHypothesis =>
      have counts (suffix : String) :
          (earlier ++ [link.suffix]).count suffix =
            earlier.count suffix + if link.suffix = suffix then 1 else 0 := by
        rw [List.count_append, List.count_singleton]
        simp
      rw [linkHeadings, List.map_cons, List.mem_cons, inductionHypothesis, List.map_cons,
        ← List.append_cons]
      constructor
      · rintro (rfl | ⟨suffix, number, lower, upper, rfl⟩)
        · refine ⟨link.suffix, earlier.count link.suffix, Nat.le_refl _, ?_, rfl⟩
          rw [List.count_append, List.count_cons_self]
          omega
        · rw [counts] at lower
          exact ⟨suffix, number, Nat.le_of_add_right_le lower, upper, rfl⟩
      · rintro ⟨suffix, number, lower, upper, rfl⟩
        by_cases first : link.suffix = suffix ∧ earlier.count suffix = number
        · obtain ⟨rfl, rfl⟩ := first
          exact Or.inl rfl
        · refine Or.inr ⟨suffix, number, ?_, upper, rfl⟩
          rw [counts]
          split
          next same =>
            have different : earlier.count suffix ≠ number := fun equal => first ⟨same, equal⟩
            omega
          next => exact lower

theorem Origin.headings_begun (earlier : List Chain) (origin : Origin) :
    (origin.begun earlier).headings =
      origin.opening.map fun filter => (filter, origin.base (fileLabels earlier)) :=
  List.append_nil _

namespace Chain

theorem extended_nil (chain : Chain) : chain.extended [] = chain := by
  rw [extended, List.append_nil]

theorem extended_extended (chain : Chain) (links more : List Link) :
    (chain.extended links).extended more = chain.extended (links ++ more) := by
  simp [extended]

theorem headings_extended (chain : Chain) (link : Link) :
    (chain.extended [link]).headings =
      chain.headings ++
        [(some link.filter,
          chainLabel chain.base link.suffix (chain.suffixes.count link.suffix))] := by
  rw [headings, extended, linkHeadings_append, List.nil_append, ← List.append_assoc]
  rfl

/-- A chain has its name as a label, unless it is for a track, and each of its suffixes with
the numbers below its count. -/
theorem mem_labels_iff {chain : Chain} {label : String} :
    label ∈ chain.labels ↔
      (chain.origin.opening ≠ [] ∧ label = chain.base) ∨
        ∃ suffix number, number < chain.suffixes.count suffix ∧
          label = chainLabel chain.base suffix number := by
  rw [labels, headings, List.map_append, List.mem_append, mem_linkHeadings_iff]
  simp only [List.count_nil, Nat.zero_le, true_and, List.nil_append]
  refine or_congr_left ?_
  cases chain.origin <;> simp [Origin.opening]

/-- The labels of a chain start like its name. -/
theorem head?_of_mem_labels
    {chain : Chain} {label : String} (called : chain.origin.IsCalled chain.base)
    (member : label ∈ chain.labels) : label.toList.head? = some chain.origin.initial := by
  rcases mem_labels_iff.mp member with ⟨_, rfl⟩ | ⟨suffix, number, _, rfl⟩
  · exact called.head?_eq
  · obtain ⟨rest, shape⟩ := exists_chainLabel_eq_append chain.base suffix number
    rw [shape, String.toList_append, List.head?_append, called.head?_eq]
    rfl

theorem opening_ne_nil_of_isFile {chain : Chain} (isFile : chain.origin.isFile = true) :
    chain.origin.opening ≠ [] := by
  cases shape : chain.origin with
  | file => nofun
  | silence => nofun
  | track =>
      rw [shape] at isFile
      cases isFile

end Chain

/-- The chain of a track starts with the joint of its clips. -/
theorem Track.mem_headings
    (presets : Keyed WavePreset) (track : Track Float) (earlier : List Chain) :
    (some "concat", "track" ++ toString track.index ++ "_concat") ∈
      ((track.strand presets).named earlier).headings := by
  have label : "track" ++ toString track.index ++ "_concat" =
      chainLabel (trackBase track.index) "concat" 0 := by
    have joint : "_concat" = "_" ++ "concat" := rfl
    rw [joint, ← String.append_assoc]
    rfl
  rw [label]
  exact List.mem_of_head? rfl

theorem Cue.mem_headings
    (presets : Keyed WavePreset) {cue : Cue} (earlier : List Chain)
    (silent : cue.clip.source = .silence) :
    (some "aevalsrc", "silence_" ++ LabelPool.place cue.track cue.position) ∈
      ((cue.strand presets).named earlier).headings := by
  apply List.mem_append_left
  change _ ∈ cue.origin.opening.map fun filter => (filter, cue.origin.base (fileLabels earlier))
  rw [origin_of_silence silent]
  exact List.mem_cons_self

/-! ## Names of chains that follow each other -/

theorem chainsOf_concat (strands : List Strand) (strand : Strand) :
    chainsOf (strands ++ [strand]) = chainsOf strands ++ [strand.named (chainsOf strands)] := by
  rw [chainsOf, List.foldl_append]
  rfl

theorem map_toStrand_chainsOf (strands : List Strand) :
    (chainsOf strands).map Chain.toStrand = strands := by
  induction strands using List.reverseRecOn with
  | nil => rfl
  | append_singleton strands strand inductionHypothesis =>
      rw [chainsOf_concat, List.map_append, inductionHypothesis]
      rfl

theorem map_owner_chainsOf (strands : List Strand) :
    (chainsOf strands).map (fun chain => chain.owner) = strands.map Strand.owner := by
  have owners := congrArg (List.map Strand.owner) (map_toStrand_chainsOf strands)
  rwa [List.map_map] at owners

/-- Each chain gets the name that its origin has after the files before it. -/
theorem base_eq_of_chainsOf_eq
    {strands : List Strand} {earlier later : List Chain} {chain : Chain}
    (shape : chainsOf strands = earlier ++ chain :: later) :
    chain.base = chain.origin.base (fileLabels earlier) := by
  induction strands using List.reverseRecOn generalizing later with
  | nil => exact absurd shape.symm (by simp [chainsOf])
  | append_singleton strands strand inductionHypothesis =>
      rw [chainsOf_concat] at shape
      cases later using List.reverseRecOn with
      | nil =>
          obtain ⟨rfl, last⟩ := List.append_inj' shape rfl
          cases last
          rfl
      | append_singleton later last _ =>
          rw [← List.cons_append, ← List.append_assoc] at shape
          exact inductionHypothesis (List.append_inj' shape rfl).1

theorem exists_named_mem_chainsOf {strands : List Strand} {strand : Strand}
    (member : strand ∈ strands) : ∃ earlier, strand.named earlier ∈ chainsOf strands := by
  induction strands using List.reverseRecOn with
  | nil => cases member
  | append_singleton strands last inductionHypothesis =>
      rw [chainsOf_concat]
      rcases List.mem_append.mp member with before | own
      · obtain ⟨earlier, among⟩ := inductionHypothesis before
        exact ⟨earlier, List.mem_append_left _ among⟩
      · cases List.mem_singleton.mp own
        exact ⟨_, List.mem_append_right _ List.mem_cons_self⟩

/-- Chains have names that fit them, each its own, and suffixes without digits. -/
structure AreNamed (chains : List Chain) : Prop where
  called : ∀ chain ∈ chains, chain.origin.IsCalled chain.base
  distinct : (chains.map Chain.base).Nodup
  plain : ∀ chain ∈ chains, ∀ link ∈ chain.links, IsPlain link.suffix

theorem areNamed_nil : AreNamed [] :=
  ⟨nofun, List.nodup_nil, nofun⟩

namespace AreNamed

variable {chains : List Chain} {chain : Chain} {origin : Origin} {links : List Link}

theorem isPlain_suffix
    {suffix : String} {number : Nat} (named : AreNamed chains) (member : chain ∈ chains)
    (below : number < chain.suffixes.count suffix) : IsPlain suffix := by
  have present : suffix ∈ chain.suffixes := List.count_pos_iff.mp (Nat.zero_lt_of_lt below)
  obtain ⟨link, among, rfl⟩ := List.mem_map.mp present
  exact named.plain chain member link among

theorem extended
    (named : AreNamed (chains ++ [chain])) (plain : ∀ link ∈ links, IsPlain link.suffix) :
    AreNamed (chains ++ [chain.extended links]) where
  called := by
    have called := named.called
    simp only [List.forall_mem_append, List.forall_mem_singleton] at called ⊢
    exact called
  distinct := by
    have distinct := named.distinct
    rw [List.map_append] at distinct ⊢
    exact distinct
  plain := by
    have before := named.plain
    simp only [List.forall_mem_append, List.forall_mem_singleton] at before ⊢
    exact ⟨before.1, List.forall_mem_append.mpr ⟨before.2, plain⟩⟩

/-- The name of the next chain is new: one without a place is only given where no earlier
file has it, and all others tell their owner. -/
theorem base_not_mem
    (named : AreNamed chains)
    (unreached : origin.owner ∉ chains.map fun chain => chain.owner) :
    origin.base (fileLabels chains) ∉ chains.map Chain.base := by
  intro member
  obtain ⟨chain, earlier, same⟩ := List.mem_map.mp member
  have different : origin.owner ≠ chain.owner := by
    intro equal
    exact unreached (equal ▸ List.mem_map_of_mem (f := fun chain => chain.owner) earlier)
  have called := origin.isCalled_base (fileLabels chains)
  rw [← same] at called
  obtain ⟨isFile, filename, index, position, rfl, bare⟩ :=
    called.exists_file (named.called chain earlier) different
  have taken : fileBase filename index position ∈ fileLabels chains := by
    rw [← bare]
    exact List.mem_map_of_mem (List.mem_filter.mpr ⟨earlier, isFile⟩)
  -- But then the new chain has its place in its name, and so one piece more.
  rw [same, Origin.base, if_pos taken] at bare
  obtain ⟨piece, shape⟩ := Origin.exists_pieces_fileBase filename index position
  have split := congrArg pieces bare
  rw [pieces_append, shape, pieces_place] at split
  cases split

theorem begun
    (named : AreNamed chains)
    (unreached : origin.owner ∉ chains.map fun chain => chain.owner) :
    AreNamed (chains ++ [origin.begun chains]) where
  called := by
    simp only [List.forall_mem_append, List.forall_mem_singleton]
    exact ⟨named.called, origin.isCalled_base (fileLabels chains)⟩
  distinct := by
    rw [List.map_append, List.nodup_append_comm]
    exact List.nodup_cons.mpr ⟨named.base_not_mem unreached, named.distinct⟩
  plain := by
    simp only [List.forall_mem_append, List.forall_mem_singleton]
    exact ⟨named.plain, nofun⟩

end AreNamed

end Mixdown
