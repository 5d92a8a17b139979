import Mathlib.Tactic.Choose
import Mixdown.Proofs.Outcome
import Mixdown.Proofs.Text.Integer
import Mixdown.Proofs.Text.Lexemes
import Mixdown.Proofs.Text.Pieces
import Mixdown.Signal.Chain

/-!
# Filter graphs read back

A reader for the text of filter graphs, told by what stands outside of quotes: semicolons
end chains, brackets enclose labels, the first equals sign of a chain ends the name of its
filter and that of an option its key, and colons end options.  From the text of a graph
whose names hold no mark it gives back every stage, whatever the values of its options.
-/

namespace Mixdown

open Text

/-! ## Reading -/

/-- What the text of a chain tells. -/
structure ChainText where
  inputs : List String
  name : String
  options : List (String × String)
  output : String
deriving DecidableEq, Inhabited, Repr

def readText (lexemes : List Lexeme) : String :=
  String.ofList (lexemeText lexemes)

/-- What stands before the first bare mark, and what comes after it, if there is one. -/
def cutAt (mark : Char) (lexemes : List Lexeme) : List Lexeme × Option (List Lexeme) :=
  (lexemes.takeWhile (· ≠ .bare mark), (lexemes.dropWhile (· ≠ .bare mark)).tail?)

def option? (lexemes : List Lexeme) : Option (String × String) :=
  (cutAt '=' lexemes).2.map fun value => (readText (cutAt '=' lexemes).1, readText value)

def options? (lexemes : List Lexeme) : Option (List (String × String)) :=
  (lexemes.splitOn (.bare ':')).mapM option?

/-- A filter with its options, up to the bracket that closes the label of its output. -/
def filter? (lexemes : List Lexeme) : Option ChainText := do
  let body := (cutAt '[' lexemes).1
  let output ← (cutAt '[' lexemes).2
  let options ← (cutAt '=' body).2.elim (some []) options?
  return { inputs := [], name := readText (cutAt '=' body).1, options, output := readText output }

/-- A chain is given by the pieces that its closing brackets end; what starts with an
opening one is the label of an input. -/
def chainOfPieces? : List (List Lexeme) → Option ChainText
  | (.bare '[' :: label) :: rest =>
      (chainOfPieces? rest).map fun chain =>
        { chain with inputs := readText label :: chain.inputs }
  | [piece, []] => filter? piece
  | _ => none

def chain? (lexemes : List Lexeme) : Option ChainText :=
  chainOfPieces? (lexemes.splitOn (.bare ']'))

/-- What the text of a stage tells. -/
inductive StageText where
  | ingest (input : Int) (output : String)
  | filter (inputs : List String) (name : String) (options : List (String × String))
      (output : String)
deriving DecidableEq, Repr

/-- The number of the file that a label such as `2:a` names. -/
def fileNumber? (label : String) : Option Int :=
  match splitAt ':' label.toList with
  | [number, ['a']] => integer? number
  | _ => none

namespace ChainText

/-- The number of the file that a chain does nothing with but take it in. -/
def file? (chain : ChainText) : Option Int :=
  match chain.inputs with
  | [label] =>
      if chain.name = "anull" ∧ chain.options.isEmpty then fileNumber? label else none
  | _ => none

def stage (chain : ChainText) : StageText :=
  chain.file?.elim (.filter chain.inputs chain.name chain.options chain.output)
    (.ingest · chain.output)

end ChainText

/-- The stages that the text of a filter graph tells. -/
def stageTexts? (text : String) : Option (List StageText) := do
  let lexemes ← lexemes? text.toList
  let chains ← (lexemes.splitOn (.bare ';')).mapM chain?
  return chains.map ChainText.stage

/-! ## Names without marks -/

def Lacks (marks : List Char) (text : String) : Prop :=
  ∀ c ∈ text.toList, c ∉ marks

/-- Characters that end a label or a chain, or have to do with quotes. -/
def labelMarks : List Char :=
  ['[', ']', ';', '\'', '\\']

instance (marks : List Char) (text : String) : Decidable (Lacks marks text) :=
  List.decidableBAll (fun c => c ∉ marks) text.toList

theorem labelMarks_subset : ∀ c ∈ labelMarks, c ∈ optionMarks ∧ c ≠ '=' ∧ c ≠ ':' := by
  simp [labelMarks, optionMarks]

structure ChainText.IsLegible (chain : ChainText) : Prop where
  inputs : ∀ label ∈ chain.inputs, Lacks labelMarks label
  name_ne_empty : chain.name ≠ ""
  name : Lacks optionMarks chain.name
  keys : ∀ entry ∈ chain.options, Lacks optionMarks entry.1
  output : Lacks labelMarks chain.output

theorem Lacks.isUnquoted
    {marks : List Char} {text : String} (lacks : Lacks marks text) (quote : '\'' ∈ marks)
    (backslash : '\\' ∈ marks) : IsUnquoted text.toList :=
  ⟨fun member => lacks _ member quote, fun member => lacks _ member backslash⟩

/-! ## The lexemes of a chain -/

def bares (text : String) : List Lexeme :=
  text.toList.map .bare

theorem readText_bares (text : String) : readText (bares text) = text := by
  rw [readText, bares, lexemeText_map_bare, String.ofList_toList]

theorem bare_not_mem_bares
    {marks : List Char} {text : String} {mark : Char} (lacks : Lacks marks text)
    (isMark : mark ∈ marks) : .bare mark ∉ bares text := by
  intro member
  obtain ⟨c, inText, same⟩ := List.mem_map.mp member
  cases same
  exact lacks mark inText isMark

def valueLexemes (value : String) : List Lexeme :=
  writtenLexemes (value.toList.any optionMarks.contains) value.toList

theorem readText_valueLexemes (value : String) : readText (valueLexemes value) = value := by
  rw [readText, valueLexemes, lexemeText_writtenLexemes, String.ofList_toList]

/-- A value that holds a mark is quoted. -/
theorem bare_not_mem_valueLexemes {mark : Char} (isMark : mark ∈ optionMarks) (value : String) :
    .bare mark ∉ valueLexemes value := by
  rw [valueLexemes, bare_mem_writtenLexemes_iff, List.any_eq_false]
  rintro ⟨noMark, member⟩
  exact noMark mark member (List.contains_iff_mem.mpr isMark)

theorem lexes_optionText (value : String) :
    Lexes (optionText value).toList (valueLexemes value) := by
  have shape : (optionText value).toList =
      if value.toList.any optionMarks.contains then singleQuoted value.toList
      else value.toList := by
    rw [optionText]
    split <;> simp
  rw [shape]
  refine lexes_written fun noMark => ?_
  rw [List.any_eq_false] at noMark
  have lacks : Lacks optionMarks value := fun c member isMark =>
    noMark c member (List.contains_iff_mem.mpr isMark)
  exact lacks.isUnquoted (by decide) (by decide)

theorem lexes_bares {text : String} (unquoted : IsUnquoted text.toList) :
    Lexes text.toList (bares text) :=
  lexes_bare unquoted

def optionLexemes (entry : String × String) : List Lexeme :=
  bares entry.1 ++ .bare '=' :: valueLexemes entry.2

theorem lexes_option {entry : String × String} (key : Lacks optionMarks entry.1) :
    Lexes (entry.1 ++ "=" ++ optionText entry.2).toList (optionLexemes entry) := by
  have keyLexes := lexes_bares (key.isUnquoted (by decide) (by decide))
  have equalsLexes : Lexes "=".toList [.bare '='] := lexes_bares (by decide)
  have lexes := (keyLexes.append equalsLexes).append (lexes_optionText entry.2)
  simpa [optionLexemes] using lexes

def labelLexemes (label : String) : List Lexeme :=
  .bare '[' :: bares label ++ [.bare ']']

theorem lexes_bracketed {label : String} (lacks : Lacks labelMarks label) :
    Lexes (bracketed label).toList (labelLexemes label) := by
  have openingLexes : Lexes "[".toList [.bare '['] := lexes_bares (by decide)
  have labelLexes := lexes_bares (lacks.isUnquoted (by decide) (by decide))
  have closingLexes : Lexes "]".toList [.bare ']'] := lexes_bares (by decide)
  have lexes := (openingLexes.append labelLexes).append closingLexes
  simpa [bracketed, labelLexemes] using lexes

namespace ChainText

def optionsLexemes (options : List (String × String)) : List Lexeme :=
  if options.isEmpty then [] else .bare '=' :: [.bare ':'].intercalate (options.map optionLexemes)

def optionsText (options : List (String × String)) : String :=
  if options.isEmpty then ""
  else "=" ++ ":".intercalate (options.map fun entry => entry.1 ++ "=" ++ optionText entry.2)

/-- The chain as it is written. -/
def text (chain : ChainText) : String :=
  .join (chain.inputs.map bracketed) ++ chain.name ++ optionsText chain.options ++
    bracketed chain.output

/-- What comes before the last closing bracket, after the inputs. -/
def filterLexemes (chain : ChainText) : List Lexeme :=
  bares chain.name ++ optionsLexemes chain.options ++ .bare '[' :: bares chain.output

def lexemes (chain : ChainText) : List Lexeme :=
  chain.inputs.flatMap labelLexemes ++ chain.filterLexemes ++ [.bare ']']

theorem lexes_optionsText
    {options : List (String × String)} (keys : ∀ entry ∈ options, Lacks optionMarks entry.1) :
    Lexes (optionsText options).toList (optionsLexemes options) := by
  rw [optionsText, optionsLexemes]
  split
  · exact .nil
  · have equalsLexes : Lexes "=".toList [.bare '='] := lexes_bares (by decide)
    have colonLexes : Lexes ":".toList [.bare ':'] := lexes_bares (by decide)
    have listLexes := colonLexes.intercalate fun entry member => lexes_option (keys entry member)
    rw [String.toList_append, String.toList_intercalate, List.map_map]
    exact equalsLexes.append listLexes

theorem IsLegible.lexes {chain : ChainText} (legible : chain.IsLegible) :
    Lexes chain.text.toList chain.lexemes := by
  have inputsLex : Lexes (String.join (chain.inputs.map bracketed)).toList
      (chain.inputs.flatMap labelLexemes) := by
    rw [String.toList_join, List.flatMap_map]
    exact .flatMap fun label member => lexes_bracketed (legible.inputs label member)
  have nameLexes := lexes_bares (legible.name.isUnquoted (by decide) (by decide))
  have optionsLex := lexes_optionsText legible.keys
  have outputLexes := lexes_bracketed legible.output
  have lexes := ((inputsLex.append nameLexes).append optionsLex).append outputLexes
  simpa [text, lexemes, filterLexemes, labelLexemes] using lexes

end ChainText

/-! ## Chains read back -/

theorem decide_ne_bare
    {mark : Char} {lexemes : List Lexeme} (absent : .bare mark ∉ lexemes) :
    ∀ lexeme ∈ lexemes, decide (lexeme ≠ .bare mark) = true :=
  fun _ member => decide_eq_true fun same => absent (same ▸ member)

theorem cutAt_append
    {mark : Char} {before : List Lexeme} (absent : .bare mark ∉ before) (after : List Lexeme) :
    cutAt mark (before ++ .bare mark :: after) = (before, some after) := by
  have different := decide_ne_bare absent
  rw [cutAt, List.takeWhile_append_of_pos different, List.dropWhile_append_of_pos different]
  simp

theorem cutAt_of_not_mem {mark : Char} {lexemes : List Lexeme} (absent : .bare mark ∉ lexemes) :
    cutAt mark lexemes = (lexemes, none) := by
  have different := decide_ne_bare absent
  rw [cutAt, List.takeWhile_eq_self_iff.mpr different, List.dropWhile_eq_nil_iff.mpr different]
  rfl

theorem mem_or_mem_of_mem_intercalate
    {β : Type} {separator : List β} {pieces : List (List β)} {item : β}
    (member : item ∈ separator.intercalate pieces) :
    item ∈ separator ∨ ∃ piece ∈ pieces, item ∈ piece := by
  induction pieces with
  | nil => cases member
  | cons piece rest inductionHypothesis =>
      cases rest with
      | nil => exact .inr ⟨piece, List.mem_singleton_self piece, by simpa using member⟩
      | cons next others =>
          rw [List.intercalate_cons_cons, List.append_assoc, List.mem_append,
            List.mem_append] at member
          rcases member with here | between | later
          · exact .inr ⟨piece, List.mem_cons_self, here⟩
          · exact .inl between
          · refine (inductionHypothesis later).imp_right ?_
            rintro ⟨other, inRest, inOther⟩
            exact ⟨other, List.mem_cons_of_mem piece inRest, inOther⟩

theorem bare_not_mem_optionLexemes
    {mark : Char} {entry : String × String} (isMark : mark ∈ optionMarks) (notEquals : mark ≠ '=')
    (key : Lacks optionMarks entry.1) : .bare mark ∉ optionLexemes entry := by
  simp [optionLexemes, bare_not_mem_bares key isMark, bare_not_mem_valueLexemes isMark, notEquals]

theorem option?_optionLexemes {entry : String × String} (key : Lacks optionMarks entry.1) :
    option? (optionLexemes entry) = some entry := by
  have noEquals : .bare '=' ∉ bares entry.1 := bare_not_mem_bares key (by decide)
  rw [option?, optionLexemes, cutAt_append noEquals, Option.map_some, readText_bares,
    readText_valueLexemes]

namespace ChainText

theorem options?_intercalate
    {options : List (String × String)} (notEmpty : options ≠ [])
    (keys : ∀ entry ∈ options, Lacks optionMarks entry.1) :
    options? ([.bare ':'].intercalate (options.map optionLexemes)) = some options := by
  rw [options?, List.splitOn_intercalate]
  · exact mapM_map fun entry member => option?_optionLexemes (keys entry member)
  · rw [List.forall_mem_map]
    intro entry member
    exact bare_not_mem_optionLexemes (by decide) (by decide) (keys entry member)
  · simpa using notEmpty

theorem bare_not_mem_optionsLexemes
    {mark : Char} {options : List (String × String)} (isMark : mark ∈ optionMarks)
    (notEquals : mark ≠ '=') (notColon : mark ≠ ':')
    (keys : ∀ entry ∈ options, Lacks optionMarks entry.1) :
    .bare mark ∉ optionsLexemes options := by
  rw [optionsLexemes]
  split
  · exact List.not_mem_nil
  · intro member
    rcases List.mem_cons.mp member with same | within
    · exact notEquals (Lexeme.bare.inj same)
    · rcases mem_or_mem_of_mem_intercalate within with separator | ⟨piece, written, inPiece⟩
      · exact notColon (Lexeme.bare.inj (List.mem_singleton.mp separator))
      · obtain ⟨entry, given, rfl⟩ := List.mem_map.mp written
        exact bare_not_mem_optionLexemes isMark notEquals (keys entry given) inPiece

/-- The options that a chain has after the name of its filter, if any. -/
theorem cutAt_name {chain : ChainText} (legible : chain.IsLegible) :
    cutAt '=' (bares chain.name ++ optionsLexemes chain.options) =
      (bares chain.name,
        if chain.options.isEmpty then none
        else some ([.bare ':'].intercalate (chain.options.map optionLexemes))) := by
  have noEquals : .bare '=' ∉ bares chain.name := bare_not_mem_bares legible.name (by decide)
  rw [optionsLexemes]
  split
  · rw [List.append_nil, cutAt_of_not_mem noEquals]
  · exact cutAt_append noEquals _

theorem filter?_filterLexemes {chain : ChainText} (legible : chain.IsLegible) :
    filter? chain.filterLexemes = some { chain with inputs := [] } := by
  have noBracket : .bare '[' ∉ bares chain.name ++ optionsLexemes chain.options := by
    rw [List.mem_append, not_or]
    exact ⟨bare_not_mem_bares legible.name (by decide),
      bare_not_mem_optionsLexemes (by decide) (by decide) (by decide) legible.keys⟩
  have readOptions : (cutAt '=' (bares chain.name ++ optionsLexemes chain.options)).2.elim
      (some []) options? = some chain.options := by
    rw [cutAt_name legible]
    split
    next none => rw [List.isEmpty_iff.mp none]; rfl
    next some =>
      exact options?_intercalate (fun none => some (List.isEmpty_iff.mpr none)) legible.keys
  have cutName := congrArg Prod.fst (cutAt_name legible)
  simp only [filter?, filterLexemes, cutAt_append noBracket, readOptions, cutName, readText_bares,
    Option.bind_eq_bind, Option.bind_some, Option.pure_def]

/-- A filter has a name, so its text does not begin with a bracket. -/
theorem filterLexemes_ne_bracket_cons
    {chain : ChainText} (legible : chain.IsLegible) (label : List Lexeme) :
    chain.filterLexemes ≠ .bare '[' :: label := by
  have notEmpty : chain.name.toList ≠ [] := mt String.toList_eq_nil_iff.mp legible.name_ne_empty
  obtain ⟨c, rest, shape⟩ := List.exists_cons_of_ne_nil notEmpty
  have notBracket : c ≠ '[' := by
    rintro rfl
    exact legible.name '[' (shape ▸ List.mem_cons_self) (by decide)
  simp [filterLexemes, bares, shape, notBracket]

theorem chainOfPieces?_filterLexemes {chain : ChainText} (legible : chain.IsLegible) :
    chainOfPieces? [chain.filterLexemes, []] = some { chain with inputs := [] } := by
  rw [chainOfPieces?]
  · exact filter?_filterLexemes legible
  · exact filterLexemes_ne_bracket_cons legible

theorem bare_not_mem_filterLexemes
    {chain : ChainText} (legible : chain.IsLegible) {mark : Char} (isMark : mark ∈ labelMarks)
    (notOpening : mark ≠ '[') : .bare mark ∉ chain.filterLexemes := by
  obtain ⟨amongOptions, notEquals, notColon⟩ := labelMarks_subset mark isMark
  have inName : .bare mark ∉ bares chain.name := bare_not_mem_bares legible.name amongOptions
  have inOptions := bare_not_mem_optionsLexemes amongOptions notEquals notColon legible.keys
  have inOutput : .bare mark ∉ bares chain.output := bare_not_mem_bares legible.output isMark
  simp [filterLexemes, inName, inOptions, inOutput, notOpening]

/-- The label of each input is a piece of its own. -/
theorem chain?_inputs_append
    {labels : List String} (lack : ∀ label ∈ labels, Lacks labelMarks label)
    {lexemes : List Lexeme} {chain : ChainText} (read : chain? lexemes = some chain) :
    chain? (labels.flatMap labelLexemes ++ lexemes) =
      some { chain with inputs := labels ++ chain.inputs } := by
  induction labels with
  | nil => simpa using read
  | cons label rest inductionHypothesis =>
      obtain ⟨here, later⟩ := List.forall_mem_cons.mp lack
      have noBracket : .bare ']' ∉ .bare '[' :: bares label := by
        have inLabel : .bare ']' ∉ bares label := bare_not_mem_bares here (by decide)
        simp [inLabel]
      have restRead := inductionHypothesis later
      rw [chain?] at restRead
      rw [chain?, List.flatMap_cons, labelLexemes, List.append_assoc, List.append_assoc,
        List.singleton_append, List.splitOn_append_cons_self_of_not_mem noBracket,
        chainOfPieces?, restRead]
      simp [readText_bares]

theorem chain?_lexemes {chain : ChainText} (legible : chain.IsLegible) :
    chain? chain.lexemes = some chain := by
  have noBracket : .bare ']' ∉ chain.filterLexemes :=
    bare_not_mem_filterLexemes legible (by decide) (by decide)
  have readFilter : chain? (chain.filterLexemes ++ [.bare ']']) =
      some { chain with inputs := [] } := by
    rw [chain?, List.splitOn_append_cons_self_of_not_mem noBracket, List.splitOn_nil,
      chainOfPieces?_filterLexemes legible]
  rw [lexemes, List.append_assoc, chain?_inputs_append legible.inputs readFilter]
  simp

theorem IsLegible.bare_semicolon_not_mem_lexemes {chain : ChainText} (legible : chain.IsLegible) :
    .bare ';' ∉ chain.lexemes := by
  have inFilter : .bare ';' ∉ chain.filterLexemes :=
    bare_not_mem_filterLexemes legible (by decide) (by decide)
  have inInputs : .bare ';' ∉ chain.inputs.flatMap labelLexemes := by
    intro member
    obtain ⟨label, given, within⟩ := List.mem_flatMap.mp member
    have inLabel : .bare ';' ∉ bares label :=
      bare_not_mem_bares (legible.inputs label given) (by decide)
    simp [labelLexemes, inLabel] at within
  simp [lexemes, inFilter, inInputs]

end ChainText

/-! ## Graphs read back -/

/-- A text that stands in a graph as it is. -/
def IsName (text : String) : Prop :=
  text ≠ "" ∧ Lacks optionMarks text

instance (text : String) : Decidable (IsName text) :=
  inferInstanceAs (Decidable (_ ∧ _))

theorem IsName.lacks_labelMarks {text : String} (name : IsName text) : Lacks labelMarks text :=
  fun c member isMark => name.2 c member (labelMarks_subset c isMark).1

namespace Stage

/-- The stage takes in a file by its number or has a filter, and all that is written of it
are names, and the values of its options. -/
structure IsNamed (stage : Stage) : Prop where
  ingest : stage.filter = none → stage.inputIndex?.isSome = true
  filter : ∀ name ∈ stage.filter, IsName name
  inputs : stage.filter.isSome = true → ∀ label ∈ stage.inputs, IsName label
  keys : stage.filter.isSome = true → ∀ entry ∈ stage.params.entries, IsName entry.1
  output : IsName stage.output

/-- What the text of a stage has to say. -/
inductive Tells (stage : Stage) : StageText → Prop
  | ingest {index : Int64} (unfiltered : stage.filter = none)
      (numbered : stage.inputIndex? = some index) :
      Tells stage (.ingest index.toInt stage.output)
  | filter {name : String} (filtered : stage.filter = some name) :
      Tells stage
        (.filter stage.inputs name
          (stage.params.entries.map fun entry => (entry.1, entry.2.display)) stage.output)

theorem Tells.unique
    {stage : Stage} {text other : StageText} (tells : stage.Tells text)
    (tellsOther : stage.Tells other) : text = other := by
  cases tells with
  | ingest unfiltered numbered =>
      cases tellsOther with
      | ingest _ numberedOther => rw [Option.some.inj (numbered.symm.trans numberedOther)]
      | filter filtered => cases unfiltered.symm.trans filtered
  | filter filtered =>
      cases tellsOther with
      | ingest unfiltered _ => cases unfiltered.symm.trans filtered
      | filter filteredOther => rw [Option.some.inj (filtered.symm.trans filteredOther)]

theorem fileNumber?_eq_none {label : String} (noColon : ':' ∉ label.toList) :
    fileNumber? label = none := by
  rw [fileNumber?, splitAt_of_not_mem noColon]

theorem file?_eq_none
    {chain : ChainText} (noFile : ∀ label ∈ chain.inputs, fileNumber? label = none) :
    chain.file? = none := by
  rw [ChainText.file?]
  split
  next label inputs =>
    split
    · exact noFile label (inputs ▸ List.mem_singleton_self label)
    · rfl
  next => rfl

/-- The label under which the encoder knows a file. -/
theorem fileNumber?_label (number : Int) :
    fileNumber? (toString number ++ ":a") = some number := by
  have noColon : ':' ∉ (toString number).toList := by
    intro member
    rcases mem_toList_toString member with minus | digit
    · exact absurd minus (by decide)
    · exact absurd digit (by decide)
  have pieces : splitAt ':' (toString number ++ ":a").toList =
      [(toString number).toList, ['a']] := by
    have shape : (toString number ++ ":a").toList = (toString number).toList ++ ':' :: ['a'] := by
      simp
    rw [shape, splitAt_append, splitAt_of_not_mem noColon, splitAt_of_not_mem (by decide),
      List.singleton_append]
  rw [fileNumber?, pieces]
  exact integer?_toList_toString number

theorem lacks_label (number : Int) : Lacks labelMarks (toString number ++ ":a") := by
  have notDigits : ∀ c ∈ labelMarks, c.isDigit = false := by simp [labelMarks]
  have ending : Lacks labelMarks ":a" := by decide
  intro c member isMark
  rw [String.toList_append, List.mem_append] at member
  rcases member with inNumber | inEnding
  · rcases mem_toList_toString inNumber with rfl | digit
    · exact absurd isMark (by decide)
    · rw [notDigits c isMark] at digit
      cases digit
  · exact ending c inEnding isMark

/-- The chain that takes in a file. -/
def ingestText (index : Int) (output : String) : ChainText where
  inputs := [toString index ++ ":a"]
  name := "anull"
  options := []
  output := output

theorem isLegible_ingestText {output : String} (name : IsName output) (index : Int) :
    (ingestText index output).IsLegible where
  inputs := by
    intro label member
    rw [List.mem_singleton.mp member]
    exact lacks_label index
  name_ne_empty := by simp [ingestText]
  name := by
    have lacks : Lacks optionMarks "anull" := by decide
    exact lacks
  keys := nofun
  output := name.lacks_labelMarks

theorem stage_ingestText (index : Int) (output : String) :
    (ingestText index output).stage = .ingest index output := by
  have file : (ingestText index output).file? = fileNumber? (toString index ++ ":a") := rfl
  rw [ChainText.stage, file, fileNumber?_label]
  rfl

theorem chain_eq_ingestText
    {stage : Stage} {index : Int64} (unfiltered : stage.filter = none)
    (numbered : stage.inputIndex? = some index) :
    stage.chain = (ingestText index.toInt stage.output).text := by
  rw [chain, body, unfiltered, numbered]
  simp [ingestText, ChainText.text, ChainText.optionsText, String.join]

/-- The chain of a stage whose filter has this name. -/
def filterText (stage : Stage) (name : String) : ChainText where
  inputs := stage.inputs
  name := name
  options := stage.params.entries.map fun entry => (entry.1, entry.2.display)
  output := stage.output

variable {stage : Stage} {name : String}

theorem isLegible_filterText (named : stage.IsNamed) (filtered : stage.filter = some name) :
    (stage.filterText name).IsLegible where
  inputs label member := (named.inputs (by rw [filtered]; rfl) label member).lacks_labelMarks
  name_ne_empty := (named.filter name filtered).1
  name := (named.filter name filtered).2
  keys := List.forall_mem_map.mpr fun entry member =>
    (named.keys (by rw [filtered]; rfl) entry member).2
  output := named.output.lacks_labelMarks

/-- No label of a signal is that of a file, which has a colon. -/
theorem stage_filterText (named : stage.IsNamed) (filtered : stage.filter = some name) :
    (stage.filterText name).stage =
      .filter stage.inputs name (stage.filterText name).options stage.output := by
  have noFile : (stage.filterText name).file? = none := by
    refine file?_eq_none fun label member => fileNumber?_eq_none fun colon => ?_
    have labelName := named.inputs (by rw [filtered]; rfl) label member
    exact labelName.2 ':' colon (by decide)
  rw [ChainText.stage, noFile]
  rfl

theorem chain_eq_filterText (filtered : stage.filter = some name) :
    stage.chain = (stage.filterText name).text := by
  rw [chain, body, filtered]
  simp [filterText, ChainText.text, ChainText.optionsText, optionList, Keyed.isEmpty,
    Function.comp_def]

theorem IsNamed.exists_chainText (named : stage.IsNamed) :
    ∃ written : ChainText,
      written.IsLegible ∧ stage.chain = written.text ∧ stage.Tells written.stage := by
  cases filtered : stage.filter with
  | none =>
      obtain ⟨index, numbered⟩ := Option.isSome_iff_exists.mp (named.ingest filtered)
      refine ⟨ingestText index.toInt stage.output, isLegible_ingestText named.output _,
        chain_eq_ingestText filtered numbered, ?_⟩
      rw [stage_ingestText]
      exact .ingest filtered numbered
  | some name =>
      refine ⟨stage.filterText name, isLegible_filterText named filtered,
        chain_eq_filterText filtered, ?_⟩
      rw [stage_filterText named filtered]
      exact .filter filtered

end Stage

theorem lexes_graphText
    {stages : List Stage} {write : Stage → ChainText}
    (legible : ∀ stage ∈ stages, (write stage).IsLegible)
    (same : ∀ stage ∈ stages, stage.chain = (write stage).text) :
    Lexes (graphText stages).toList
      ([.bare ';'].intercalate (stages.map fun stage => (write stage).lexemes)) := by
  have semicolon : Lexes ";".toList [.bare ';'] := lexes_bares (by decide)
  have chains : (graphText stages).toList =
      ";".toList.intercalate (stages.map fun stage => (write stage).text.toList) := by
    rw [graphText, List.map_congr_left same, String.toList_intercalate, List.map_map]
    rfl
  rw [chains]
  exact semicolon.intercalate fun stage member => (legible stage member).lexes

/-- The text of a graph tells each of its stages, in order. -/
theorem stageTexts?_graphText
    {stages : List Stage} (notEmpty : stages ≠ []) (named : ∀ stage ∈ stages, stage.IsNamed) :
    ∃ texts, stageTexts? (graphText stages) = some texts ∧
      List.Forall₂ Stage.Tells stages texts := by
  choose! write legible same tells using
    fun stage member => (named stage member).exists_chainText
  have noSemicolon : ∀ chain ∈ stages.map fun stage => (write stage).lexemes,
      .bare ';' ∉ chain :=
    List.forall_mem_map.mpr fun stage member =>
      (legible stage member).bare_semicolon_not_mem_lexemes
  have someChain : stages.map (fun stage => (write stage).lexemes) ≠ [] :=
    mt List.map_eq_nil_iff.mp notEmpty
  have split := List.splitOn_intercalate (Lexeme.bare ';') noSemicolon someChain
  have read : (stages.map fun stage => (write stage).lexemes).mapM chain? =
      some (stages.map write) := by
    have each : ∀ chain ∈ stages.map write, chain? chain.lexemes = some chain :=
      List.forall_mem_map.mpr fun stage member => ChainText.chain?_lexemes (legible stage member)
    have all := mapM_map each
    rwa [List.map_map] at all
  refine ⟨(stages.map write).map ChainText.stage, ?_, ?_⟩
  · simp [stageTexts?, (lexes_graphText legible same).lexemes?_eq, split, read]
  · rw [List.map_map, List.forall₂_map_right_iff, List.forall₂_same]
    exact tells

/-- A stage whose options hold what else ends an option, a label or a chain. -/
def captioned : Stage where
  inputs := ["s0"]
  filter := some "drawtext"
  params := .ofList [("text", .text "it's; [a]=b:\\"), ("font", .text "")]
  output := "s1"

/-- The options stand in key order, and the empty one ends with its equals sign. -/
theorem stageTexts?_captioned :
    stageTexts? (graphText [.ingest 0 "a.wav" "s0", captioned]) =
      some [.ingest 0 "s0",
        .filter ["s0"] "drawtext" [("font", ""), ("text", "it's; [a]=b:\\")] "s1"] := by
  have entries : captioned.params.entries =
      [("font", .text ""), ("text", .text "it's; [a]=b:\\")] := by
    decide +kernel
  have number : (Stage.ingest 0 "a.wav" "s0").inputIndex? = some 0 := by decide +kernel
  have namedIngest : (Stage.ingest 0 "a.wav" "s0").IsNamed :=
    { ingest := fun _ => by rw [number]; rfl
      filter := nofun
      inputs := nofun
      keys := nofun
      output := by decide }
  have namedFilter : captioned.IsNamed :=
    { ingest := nofun
      filter := by decide
      inputs := by decide
      keys := by rw [entries]; decide
      output := by decide }
  have named : ∀ stage ∈ [.ingest 0 "a.wav" "s0", captioned], stage.IsNamed := by
    simp [namedIngest, namedFilter]
  obtain ⟨texts, read, told⟩ := stageTexts?_graphText (List.cons_ne_nil _ _) named
  have tellsIngest : (Stage.ingest 0 "a.wav" "s0").Tells (.ingest 0 "s0") := .ingest rfl number
  have tellsFilter : captioned.Tells (.filter ["s0"] "drawtext" _ "s1") := .filter rfl
  rw [entries] at tellsFilter
  rw [List.forall₂_cons_left_iff] at told
  obtain ⟨first, others, toldFirst, toldOthers, rfl⟩ := told
  rw [List.forall₂_cons_left_iff] at toldOthers
  obtain ⟨second, rest, toldSecond, toldRest, rfl⟩ := toldOthers
  cases toldRest
  rw [read, toldFirst.unique tellsIngest, toldSecond.unique tellsFilter]
  rfl

end Mixdown
