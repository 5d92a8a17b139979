import Mixdown.Proofs.Lockstep
import Mixdown.Proofs.Signal.Opened
import Mixdown.Signal.Chain

/-!
# Brackets in the text of a graph

A bracket that opens in the text of a graph opens a label, or the number of a file that
the encoder takes in; nothing else that is written there holds such a bracket.  So where
the number of a file stands in brackets, the stage that takes in that file is written.
-/

namespace Mixdown

theorem not_mem_of_isPrinted {text : String} (printed : IsPrinted text) : '[' ∉ text.toList :=
  fun member => (printed _ member).2 rfl

namespace Stage

/-! ## What follows a bracket -/

/-- How a text goes on after a bracket that opens, where `ingests` take in the files. -/
inductive Follows (ingests : List Stage) : List Char → Prop
  | label {label : String} {rest : List Char} (word : IsWord label) :
      Follows ingests (label.toList ++ ']' :: rest)
  | file {number : Nat} {path label : String} {rest : List Char}
      (taken : ingests[number]? = some (.ingest number path label)) :
      Follows ingests ((toString number ++ ":a]anull" ++ bracketed label).toList ++ rest)

variable {ingests : List Stage} {number : Nat} {rest after : List Char}

/-- The number of a file is no label, and only the stage of that number has it. -/
theorem Follows.exists_ingest
    (follows : Follows ingests rest) (split : rest = (toString number).toList ++ ':' :: after) :
    ∃ path label more, ingests[number]? = some (.ingest number path label) ∧
      after = ("a]anull" ++ bracketed label).toList ++ more := by
  have digits (value : Nat) : ∀ c ∈ (toString value).toList, isWordChar c = true :=
    (isWord_toString value).chars
  cases follows with
  | label word =>
      obtain ⟨_, impossible, _⟩ :=
        word_prefix_inj word.chars (digits number) (by decide) (by decide) split
      cases impossible
  | @file other path label rest taken =>
      have regrouped : (toString other ++ ":a]anull" ++ bracketed label).toList ++ rest =
          (toString other).toList ++ ':' :: (("a]anull" ++ bracketed label).toList ++ rest) := by
        simp
      rw [regrouped] at split
      obtain ⟨sameNumber, _, sameRest⟩ :=
        word_prefix_inj (digits other) (digits number) (by decide) (by decide) split
      obtain rfl : other = number := Text.toString_injective (String.toList_inj.mp sameNumber)
      exact ⟨path, label, rest, taken, sameRest.symm⟩

/-! ## Chains -/

theorem marked_bracketed {label : String} (word : IsWord label) :
    Marked '[' (Follows ingests) (bracketed label).toList := by
  have shape : (bracketed label).toList = '[' :: (label.toList ++ [']']) := by
    simp [bracketed]
  rw [shape]
  refine .cons (fun more => ?_) (.append (.of_not_mem ?_) (.of_not_mem (by decide)))
  · rw [List.append_assoc]
    exact .label word
  · exact not_mem_of_isPrinted word.isPrinted

theorem isPrinted_optionText {value : String} (printed : IsPrinted value) :
    IsPrinted (optionText value) := by
  rw [optionText]
  split
  next =>
    intro c member
    rw [String.toList_ofList, Text.singleQuoted] at member
    rcases List.mem_append.mp member with opened | closing
    · rcases List.mem_cons.mp opened with rfl | inside
      · decide
      · obtain ⟨other, inText, copied⟩ := List.mem_flatMap.mp inside
        split at copied
        next =>
          have quote : IsPrinted (.ofList ['\'', '\\', '\'', '\'']) := by decide +kernel
          rw [IsPrinted, String.toList_ofList] at quote
          exact quote c copied
        next =>
          rw [List.mem_singleton.mp copied]
          exact printed other inText
    · rw [List.mem_singleton.mp closing]
      decide
  next => exact printed

theorem isPrinted_optionList {params : Keyed ParamValue} (shown : AreShown params) :
    IsPrinted (optionList params) := by
  have colon : IsPrinted ":" := by decide +kernel
  have equals : IsPrinted "=" := by decide +kernel
  refine isPrinted_intercalate colon (List.forall_mem_map.mpr fun entry member => ?_)
  obtain ⟨key, value⟩ := shown entry member
  exact (key.isPrinted.append equals).append (isPrinted_optionText value)

theorem marked_chain_of_filter
    {surroundings : Surroundings} {inputs : List InputFile} {stage : Stage} {name : String}
    (built : stage.IsBuilt surroundings inputs) (named : stage.filter = some name)
    (words : ∀ label ∈ stage.inputs, IsWord label) :
    Marked '[' (Follows ingests) stage.chain.toList := by
  have options :
      IsPrinted (if stage.params.isEmpty then "" else "=" ++ optionList stage.params) := by
    have equals : IsPrinted "=" := by decide +kernel
    have list := isPrinted_optionList (built.areShown_params named)
    exact isPrinted_ite (by decide) (equals.append list)
  have labels : Marked '[' (Follows ingests) (String.join (stage.inputs.map bracketed)).toList := by
    rw [String.toList_join, List.flatMap_map]
    exact .flatMap fun label member => marked_bracketed (words label member)
  have body : stage.body = String.join (stage.inputs.map bracketed) ++ name ++
      if stage.params.isEmpty then "" else "=" ++ optionList stage.params := by
    rw [Stage.body, named]
  rw [chain, body, String.toList_append, String.toList_append, String.toList_append]
  refine ((labels.append (.of_not_mem ?_)).append (.of_not_mem ?_)).append
    (marked_bracketed built.isWord_output)
  · exact not_mem_of_isPrinted (built.isWord_filter named).isPrinted
  · exact not_mem_of_isPrinted options

theorem inputIndex?_ingest {path output : String} (fits : number < 2 ^ 63) :
    ∃ value, (Stage.ingest number path output).inputIndex? = some value ∧
      value.toInt = number := by
  obtain ⟨value, asInteger, same⟩ := ParamValue.ofCount_of_lt fits
  have found : (Stage.ingest number path output).params.get? "input" =
      some (.ofCount number) := by
    simp [Stage.ingest, Keyed.ofList, Keyed.insertAll, Keyed.get?_insert]
  refine ⟨value, ?_, same⟩
  rw [inputIndex?, found, asInteger]
  rfl

theorem chain_ingest {path output : String} (fits : number < 2 ^ 63) :
    (Stage.ingest number path output).chain =
      bracketed (toString number ++ ":a") ++ "anull" ++ bracketed output := by
  obtain ⟨value, found, same⟩ := @inputIndex?_ingest number path output fits
  have written : (Stage.ingest number path output).body =
      bracketed (toString value.toInt ++ ":a") ++ "anull" := by
    rw [body, found]
    rfl
  rw [chain, written, same]
  rfl

theorem marked_chain_ingest
    {path output : String} (fits : number < 2 ^ 63) (word : IsWord output)
    (taken : ingests[number]? = some (.ingest number path output)) :
    Marked '[' (Follows ingests) (Stage.ingest number path output).chain.toList := by
  have shape : (Stage.ingest number path output).chain.toList =
      '[' :: ((toString number ++ ":a]anull").toList ++ (bracketed output).toList) := by
    rw [chain_ingest fits]
    simp [bracketed]
  rw [shape]
  refine .cons (fun more => ?_) (.append (.of_not_mem ?_) (marked_bracketed word))
  · rw [← String.toList_append]
    exact .file taken
  · have closing : IsPrinted ":a]anull" := by decide +kernel
    exact not_mem_of_isPrinted ((isWord_toString number).isPrinted.append closing)

end Stage

/-! ## Graphs -/

theorem marked_graphText
    {next : List Char → Prop} {stages : List Stage}
    (each : ∀ stage ∈ stages, Marked '[' next stage.chain.toList) :
    Marked '[' next (graphText stages).toList := by
  rw [graphText]
  induction stages with
  | nil => exact .of_not_mem (by decide)
  | cons stage rest inductionHypothesis =>
      obtain ⟨here, later⟩ := List.forall_mem_cons.mp each
      have restMarked := inductionHypothesis later
      cases rest with
      | nil =>
          rw [List.map_singleton, String.intercalate_singleton]
          exact here
      | cons other others =>
          rw [List.map_cons, List.map_cons, String.intercalate_cons_cons, String.toList_append,
            String.toList_append]
          exact (here.append (.of_not_mem (by decide))).append restMarked

namespace MixGraph

variable {surroundings : Surroundings} {recipe : Recipe Float} {graph : MixGraph}

theorem exists_file_of_ingest
    (compiled : ofRecipe surroundings recipe = .ok graph) {number : Nat} {stage : Stage}
    (taken : (graph.stages.filter Stage.isIngest)[number]? = some stage) :
    ∃ file label, recipe.fileCues[number]? = some file ∧
      stage = .ingest number (joinPath surroundings.contentDir file.filename) label := by
  obtain ⟨placed, found, label, shape⟩ :=
    exists_getElem?_left_of_forall₂ (ingests_of_ofRecipe compiled).flip taken
  rw [List.getElem?_zipIdx, Nat.zero_add, Option.map_eq_some_iff] at found
  obtain ⟨file, isFile, rfl⟩ := found
  exact ⟨file, label, isFile, shape⟩

theorem length_inputs_of_ofRecipe (compiled : ofRecipe surroundings recipe = .ok graph) :
    graph.inputs.length = recipe.fileCues.length := by
  rw [inputs_eq_of_ofRecipe compiled, List.length_map, List.length_zipIdx]

theorem marked_text
    (compiled : ofRecipe surroundings recipe = .ok graph)
    (few : graph.inputs.length ≤ 2 ^ 63) :
    Marked '[' (Stage.Follows (graph.stages.filter Stage.isIngest)) graph.text.toList := by
  refine marked_graphText fun stage member => ?_
  have forms := areBuilt_of_ofRecipe compiled
  have built := forms.stages stage member
  cases named : stage.filter with
  | some name =>
      exact Stage.marked_chain_of_filter built named
        (forms.isWord_of_mem_inputs (completes_of_ofRecipe compiled).ordered member)
  | none =>
      have isIngest : stage ∈ graph.stages.filter Stage.isIngest :=
        List.mem_filter.mpr ⟨member, by rw [Stage.isIngest, named]; rfl⟩
      obtain ⟨number, taken⟩ := List.mem_iff_getElem?.mp isIngest
      obtain ⟨file, label, found, rfl⟩ := exists_file_of_ingest compiled taken
      have below : number < recipe.fileCues.length := (List.getElem?_eq_some_iff.mp found).1
      rw [← length_inputs_of_ofRecipe compiled] at below
      exact Stage.marked_chain_ingest (Nat.lt_of_lt_of_le below few) built.isWord_output taken

/-- Where the number of a file stands in brackets, that file is taken in. -/
theorem exists_ingest_of_text
    (compiled : ofRecipe surroundings recipe = .ok graph)
    (few : graph.inputs.length ≤ 2 ^ 63) {number : Nat} {before after : String}
    (split : graph.text = before ++ bracketed (toString number ++ ":a") ++ after) :
    ∃ path label more,
      (graph.stages.filter Stage.isIngest)[number]? = some (.ingest number path label) ∧
        after = "anull" ++ bracketed label ++ more := by
  have characters : graph.text.toList =
      before.toList ++ '[' :: ((toString number).toList ++ ':' :: ("a]" ++ after).toList) := by
    rw [split]
    simp [bracketed]
  have follows := marked_text compiled few before.toList _ [] characters
  rw [List.append_nil] at follows
  obtain ⟨path, label, more, taken, rest⟩ := follows.exists_ingest rfl
  refine ⟨path, label, String.ofList more, taken, ?_⟩
  have lists : ("a]" ++ after).toList =
      ("a]" ++ ("anull" ++ bracketed label ++ String.ofList more)).toList := by
    rw [rest]
    simp
  exact (String.append_right_inj "a]").mp (String.toList_inj.mp lists)

end MixGraph

end Mixdown
