import Mixdown.Effect.Wave
import Mixdown.Proofs.Effect.Formula

/-!
# Expressions of wave presets

The text of a wave preset is an expression of the encoder if the preset has a frequency,
and it then has the formula that the preset describes.
-/

namespace Mixdown

namespace Formula

/-! ## Tokens of texts -/

section Lexing

variable {text other word gap : List Char} {tokens others marks : List Token} {token : Token}

/-- A text ends at a mark and has these tokens, whatever comes after it. -/
def Lexes (text : List Char) (tokens : List Token) : Prop :=
  ∀ rest, tokensFrom? [] (text ++ rest) = (tokensFrom? [] rest).map (tokens ++ ·)

theorem Lexes.append (first : Lexes text tokens) (second : Lexes other others) :
    Lexes (text ++ other) (tokens ++ others) := by
  intro rest
  rw [List.append_assoc, first, second, Option.map_map]
  congr 1
  funext later
  exact (List.append_assoc tokens others later).symm

/-- At the end of a text. -/
theorem Lexes.tokensFrom?_eq (lexes : Lexes text tokens) :
    tokensFrom? [] text = some tokens := by
  have all := lexes []
  rw [List.append_nil] at all
  rw [all, tokensFrom?, wordTokens?, if_pos List.isEmpty_nil, Option.map_some, List.append_nil]

theorem lexes_nil : Lexes [] [] := by
  intro rest
  rw [List.nil_append]
  cases tokensFrom? [] rest <;> rfl

theorem tokensFrom?_mark
    {c : Char} (isMark : mark? c = some marks) (before : List Char) (rest : List Char) :
    tokensFrom? before (c :: rest) =
      (wordTokens? before).bind fun first =>
        (tokensFrom? [] rest).map fun later => first ++ (marks ++ later) := by
  rw [tokensFrom?, isMark]
  dsimp only
  cases wordTokens? before with
  | none => rfl
  | some first =>
      cases tokensFrom? [] rest with
      | none => rfl
      | some later => exact congrArg some (List.append_assoc first marks later)

theorem lexes_mark {c : Char} (isMark : mark? c = some marks) : Lexes [c] marks := by
  intro rest
  rw [List.singleton_append, tokensFrom?_mark isMark]
  rfl

/-- What the characters between two words stand for. -/
def marks? : List Char → Option (List Token)
  | [] => some []
  | c :: rest => do
      let first ← mark? c
      let later ← marks? rest
      return first ++ later

theorem lexes_of_marks? (found : marks? gap = some marks) : Lexes gap marks := by
  induction gap generalizing marks with
  | nil =>
      cases found
      exact lexes_nil
  | cons c rest inductionHypothesis =>
      obtain ⟨first, isMark, found⟩ := Option.bind_eq_some_iff.mp found
      obtain ⟨later, foundLater, equality⟩ := Option.bind_eq_some_iff.mp found
      cases equality
      exact (lexes_mark isMark).append (inductionHypothesis foundLater)

theorem tokensFrom?_word
    (plain : ∀ c ∈ word, mark? c = none) (before rest : List Char) :
    tokensFrom? before (word ++ rest) = tokensFrom? (before ++ word) rest := by
  induction word generalizing before with
  | nil => rw [List.nil_append, List.append_nil]
  | cons c word inductionHypothesis =>
      obtain ⟨notMark, plainRest⟩ := List.forall_mem_cons.mp plain
      rw [List.cons_append, tokensFrom?, notMark]
      dsimp only
      rw [inductionHypothesis plainRest, List.append_assoc, List.singleton_append]

/-- A word with the marks after it. -/
theorem lexes_word
    (word gap : List Char) (isToken : wordToken? word = some token)
    (plain : word.all (fun c => (mark? c).isNone) = true)
    (notEmpty : word ≠ []) (gapNotEmpty : gap ≠ []) (found : marks? gap = some marks) :
    Lexes (word ++ gap) (token :: marks) := by
  have wordRead : wordTokens? word = some [token] := by
    rw [wordTokens?, if_neg (by simpa using notEmpty), isToken, Option.map_some]
  have unmarked : ∀ c ∈ word, mark? c = none :=
    fun c member => Option.isNone_iff_eq_none.mp (List.all_eq_true.mp plain c member)
  intro rest
  rw [List.append_assoc, tokensFrom?_word unmarked, List.nil_append]
  cases gap with
  | nil => exact absurd rfl gapNotEmpty
  | cons c later =>
      obtain ⟨first, isMark, foundLater⟩ := Option.bind_eq_some_iff.mp found
      obtain ⟨last, foundLast, equality⟩ := Option.bind_eq_some_iff.mp foundLater
      cases equality
      rw [List.cons_append, tokensFrom?_mark isMark, wordRead, Option.bind_some,
        lexes_of_marks? foundLast, Option.map_map]
      congr 1
      funext tokens
      exact congrArg (token :: ·) (List.append_assoc first last tokens).symm

theorem mark?_of_isNumeralChar {c : Char} (numeral : Decimal.isNumeralChar c = true) :
    mark? c = none := by
  unfold mark?
  split <;> first | rfl | cases numeral

/-- Numbers are spoken as single words. -/
theorem lexes_spoken
    {value : Float} (gap : List Char) (finite : value.isFinite = true) (gapNotEmpty : gap ≠ [])
    (found : marks? gap = some marks) :
    Lexes ((Decimal.spoken.write value).toList ++ gap)
      (.number (Decimal.spokenNumber value) :: marks) := by
  have chars : ∀ c ∈ (Decimal.spoken.write value).toList, Decimal.isNumeralChar c = true :=
    fun _ => Decimal.isNumeralChar_of_mem_write finite
  have read := Decimal.numeral?_write finite
  generalize (Decimal.spoken.write value).toList = word at chars read
  have noName : names.lookup word = none := by
    rw [List.lookup_eq_none_iff]
    intro name member
    have hasLetter : ∀ name ∈ names, name.1.all Decimal.isNumeralChar = false := by
      decide
    rw [bne_iff_ne]
    rintro rfl
    exact Bool.false_ne_true ((hasLetter name member).symm.trans (List.all_eq_true.mpr chars))
  have plain : word.all (fun c => (mark? c).isNone) = true := by
    rw [List.all_eq_true]
    intro c member
    rw [mark?_of_isNumeralChar (chars c member)]
    rfl
  apply lexes_word word gap _ plain _ gapNotEmpty found
  · rw [wordToken?, noName, read]
    rfl
  · rintro rfl
    cases read

end Lexing

end Formula

/-! ## Wave presets -/

namespace WavePreset

open Formula

def spoken (value : Float) : Formula :=
  .number (Decimal.spokenNumber value)

/-- The wave of one frequency. -/
def wave (n frequency : Float) (amplitude : Formula) : Formula :=
  .scaled .times
    (.cosine
      (.scaled .over (.scaled .times (.scaled .times .pi .time) (spoken n)) (spoken frequency)))
    amplitude

/-- The waves of all frequencies; a missing amplitude is one. -/
def waves (preset : WavePreset) : List Formula :=
  preset.f.zipIdx.map fun (frequency, index) =>
    wave preset.n frequency (preset.a[index]?.elim (.number 1) spoken)

/-- The volume that a preset describes, if it has any waves. -/
def volume? (preset : WavePreset) : Option Formula :=
  match preset.waves with
  | [] => none
  | first :: rest =>
      let shifted := Formula.sum (rest.foldl .sum first) (spoken preset.o)
      let scaled := Formula.scaled .times shifted (spoken preset.s)
      let turned := Formula.scaled .times scaled (spoken preset.p)
      some (.chosen .least (.number 1)
        (.chosen .greatest (.number 0) (.sum turned (spoken preset.q))))

/-- All numbers of a preset. -/
def numbers (preset : WavePreset) : List Float :=
  preset.f ++ preset.a ++ [preset.n, preset.s, preset.p, preset.o, preset.q]

theorem spokenNumber_one : Decimal.spokenNumber 1.0 = 1 := by
  have finite : (1.0 : Float).isFinite = true := by decide +kernel
  have read : Decimal.numeral? (Decimal.spoken.write 1.0).toList = some 1 := by decide +kernel
  rw [Decimal.numeral?_write finite] at read
  exact Option.some.inj read

/-- The frequencies with their amplitudes. -/
def generatorPairs (frequencies amplitudes : List Float) : List (Float × Float) :=
  frequencies.zipIdx.map fun (frequency, index) => (frequency, amplitudes[index]?.getD 1.0)

theorem generatorPairs_cons (frequency : Float) (rest amplitudes : List Float) :
    generatorPairs (frequency :: rest) amplitudes =
      (frequency, amplitudes.head?.getD 1.0) :: generatorPairs rest amplitudes.tail := by
  rw [generatorPairs, generatorPairs, List.zipIdx_cons', List.map_cons, List.map_map]
  cases amplitudes <;> rfl

theorem generators_eq (n : Float) (frequencies amplitudes : List Float) :
    generators n frequencies amplitudes =
      (generatorPairs frequencies amplitudes).map fun pair => generator n pair.1 pair.2 := by
  induction frequencies generalizing amplitudes with
  | nil => rfl
  | cons frequency rest inductionHypothesis =>
      rw [generatorPairs_cons, List.map_cons, ← inductionHypothesis]
      cases amplitudes <;> rfl

theorem waves_eq (preset : WavePreset) :
    preset.waves =
      (generatorPairs preset.f preset.a).map fun pair =>
        wave preset.n pair.1 (spoken pair.2) := by
  rw [waves, generatorPairs, List.map_map]
  apply List.map_congr_left
  intro placed _
  obtain ⟨frequency, index⟩ := placed
  dsimp only [Function.comp_apply]
  cases preset.a[index]? with
  | none => rw [Option.elim_none, Option.getD_none, spoken, spokenNumber_one]
  | some amplitude => rfl

/-! ## Tokens -/

def spokenToken (value : Float) : Token :=
  .number (Decimal.spokenNumber value)

def waveTokens (n frequency amplitude : Float) : List Token :=
  [.cosine, .opening, .pi, .scale .times, .time, .scale .times, spokenToken n, .scale .over,
    spokenToken frequency, .closing, .scale .times, spokenToken amplitude]

/-- Tokens of waves with plus signs between them. -/
def sumTokens (n : Float) : List (Float × Float) → List Token
  | [] => []
  | first :: rest =>
      waveTokens n first.1 first.2 ++ rest.flatMap fun pair => .plus :: waveTokens n pair.1 pair.2

def volumeTokens (preset : WavePreset) : List Token :=
  [.choice .least, .opening, .number 1, .comma, .choice .greatest, .opening, .number 0, .comma,
    .opening, .opening] ++
  (sumTokens preset.n (generatorPairs preset.f preset.a) ++
  [.closing, .plus, spokenToken preset.o, .closing, .scale .times, spokenToken preset.s,
    .scale .times, spokenToken preset.p, .plus, spokenToken preset.q, .closing, .closing])

theorem lexes_generator
    {n frequency amplitude : Float} {marks : List Token} (gap : List Char)
    (nFinite : n.isFinite = true) (frequencyFinite : frequency.isFinite = true)
    (amplitudeFinite : amplitude.isFinite = true) (gapNotEmpty : gap ≠ [])
    (found : marks? gap = some marks) :
    Lexes ((generator n frequency amplitude).toList ++ gap)
      (waveTokens n frequency amplitude ++ marks) := by
  have cosine : Lexes "cos(".toList [.cosine, .opening] :=
    lexes_word ['c', 'o', 's'] ['('] rfl (by decide) (by decide) (by decide) rfl
  have pi : Lexes "PI * ".toList [.pi, .scale .times] :=
    lexes_word ['P', 'I'] [' ', '*', ' '] rfl (by decide) (by decide) (by decide) rfl
  have time : Lexes "t * ".toList [.time, .scale .times] :=
    lexes_word ['t'] [' ', '*', ' '] rfl (by decide) (by decide) (by decide) rfl
  have factor := lexes_spoken [' ', '/', ' '] nFinite (by decide) rfl
  have divisor := lexes_spoken [')', ' ', '*', ' '] frequencyFinite (by decide) rfl
  have last := lexes_spoken gap amplitudeFinite gapNotEmpty found
  have all := ((((cosine.append pi).append time).append factor).append divisor).append last
  have texts :
      (generator n frequency amplitude).toList ++ gap =
        "cos(".toList ++ "PI * ".toList ++ "t * ".toList ++
          ((Decimal.spoken.write n).toList ++ [' ', '/', ' ']) ++
          ((Decimal.spoken.write frequency).toList ++ [')', ' ', '*', ' ']) ++
          ((Decimal.spoken.write amplitude).toList ++ gap) := by
    unfold generator
    generalize Decimal.spoken.write n = first
    generalize Decimal.spoken.write frequency = second
    generalize Decimal.spoken.write amplitude = third
    simp
  rw [texts]
  exact all

/-- The waves of a sum, up to the bracket after them. -/
theorem lexes_generators
    {n : Float} {pairs : List (Float × Float)} (nFinite : n.isFinite = true)
    (finite : ∀ pair ∈ pairs, pair.1.isFinite = true ∧ pair.2.isFinite = true) :
    Lexes
      ((" + ".intercalate (pairs.map fun pair => generator n pair.1 pair.2)).toList ++
        [')', ' ', '+', ' '])
      (sumTokens n pairs ++ [.closing, .plus]) := by
  induction pairs with
  | nil => exact lexes_of_marks? rfl
  | cons pair rest inductionHypothesis =>
      obtain ⟨pairFinite, restFinite⟩ := List.forall_mem_cons.mp finite
      cases rest with
      | nil =>
          rw [List.map_singleton, String.intercalate_singleton]
          exact lexes_generator _ nFinite pairFinite.1 pairFinite.2 (by decide) rfl
      | cons next later =>
          have first := lexes_generator [' ', '+', ' '] nFinite pairFinite.1 pairFinite.2
            (by decide) rfl
          have all := first.append (inductionHypothesis restFinite)
          rw [List.map_cons, List.map_cons, String.intercalate_cons_cons]
          simpa [sumTokens] using all

theorem lexes_opening :
    Lexes "min(1, max(0, ((".toList
      [.choice .least, .opening, .number 1, .comma, .choice .greatest, .opening, .number 0,
        .comma, .opening, .opening] := by
  have least : Lexes "min(".toList [.choice .least, .opening] :=
    lexes_word ['m', 'i', 'n'] ['('] rfl (by decide) (by decide) (by decide) rfl
  have one : Lexes "1, ".toList [.number 1, .comma] :=
    lexes_word ['1'] [',', ' '] (by decide +kernel) (by decide) (by decide) (by decide) rfl
  have greatest : Lexes "max(".toList [.choice .greatest, .opening] :=
    lexes_word ['m', 'a', 'x'] ['('] rfl (by decide) (by decide) (by decide) rfl
  have zero : Lexes "0, ((".toList [.number 0, .comma, .opening, .opening] :=
    lexes_word ['0'] [',', ' ', '(', '('] (by decide +kernel) (by decide) (by decide)
      (by decide) rfl
  exact ((least.append one).append greatest).append zero

/-- The text around the waves, in pieces that end at marks. -/
theorem toList_frame (sum shift scale turn move : String) :
    ("min(1, max(0, ((" ++ sum ++ ") + " ++ shift ++ ") * " ++ scale ++ " * " ++ turn ++ " + " ++
        move ++ "))").toList =
      "min(1, max(0, ((".toList ++ (sum.toList ++ [')', ' ', '+', ' ']) ++
        (shift.toList ++ [')', ' ', '*', ' ']) ++ (scale.toList ++ [' ', '*', ' ']) ++
        (turn.toList ++ [' ', '+', ' ']) ++ (move.toList ++ [')', ')']) := by
  simp

theorem tokensFrom?_expression {preset : WavePreset}
    (finite : ∀ value ∈ preset.numbers, value.isFinite = true) :
    tokensFrom? [] preset.expression.toList = some preset.volumeTokens := by
  have pairsFinite : ∀ pair ∈ generatorPairs preset.f preset.a,
      pair.1.isFinite = true ∧ pair.2.isFinite = true := by
    intro pair member
    obtain ⟨⟨frequency, index⟩, placed, rfl⟩ := List.mem_map.mp member
    have inList : frequency ∈ preset.f := List.fst_mem_of_mem_zipIdx placed
    constructor
    · exact finite frequency (List.mem_append_left _ (List.mem_append_left _ inList))
    · dsimp only
      cases found : preset.a[index]? with
      | none => decide +kernel
      | some amplitude =>
          have inAmplitudes := List.mem_of_getElem? found
          exact finite amplitude (List.mem_append_left _ (List.mem_append_right _ inAmplitudes))
  have globalFinite : ∀ value ∈ [preset.n, preset.s, preset.p, preset.o, preset.q],
      value.isFinite = true :=
    fun value member => finite value (List.mem_append_right _ member)
  simp only [List.forall_mem_cons] at globalFinite
  obtain ⟨nFinite, sFinite, pFinite, oFinite, qFinite, _⟩ := globalFinite
  have waves := lexes_generators nFinite pairsFinite
  have shift := lexes_spoken [')', ' ', '*', ' '] oFinite (by decide) rfl
  have scale := lexes_spoken [' ', '*', ' '] sFinite (by decide) rfl
  have turn := lexes_spoken [' ', '+', ' '] pFinite (by decide) rfl
  have move := lexes_spoken [')', ')'] qFinite (by decide) rfl
  have all := ((((lexes_opening.append waves).append shift).append scale).append turn).append move
  have texts :
      preset.expression.toList =
        "min(1, max(0, ((".toList ++
          ((" + ".intercalate ((generatorPairs preset.f preset.a).map
            fun pair => generator preset.n pair.1 pair.2)).toList ++ [')', ' ', '+', ' ']) ++
          ((Decimal.spoken.write preset.o).toList ++ [')', ' ', '*', ' ']) ++
          ((Decimal.spoken.write preset.s).toList ++ [' ', '*', ' ']) ++
          ((Decimal.spoken.write preset.p).toList ++ [' ', '+', ' ']) ++
          ((Decimal.spoken.write preset.q).toList ++ [')', ')']) := by
    unfold expression
    rw [generators_eq]
    exact toList_frame _ _ _ _ _
  rw [texts]
  refine all.tokensFrom?_eq.trans ?_
  rw [volumeTokens]
  simp [spokenToken]

/-! ## Formulas -/

theorem isProduct_waveTokens (n frequency amplitude : Float) :
    IsProduct (waveTokens n frequency amplitude) (wave n frequency (spoken amplitude)) := by
  have turning : IsProduct [.pi, .scale .times, .time] (.scaled .times .pi .time) :=
    .scaled .times (.factor .pi) .time
  have faster := IsProduct.scaled .times turning (.number (Decimal.spokenNumber n))
  have angle := IsProduct.scaled .over faster (.number (Decimal.spokenNumber frequency))
  have cosine := IsProduct.factor (.cosine (.product angle))
  exact .scaled .times cosine (.number (Decimal.spokenNumber amplitude))

theorem isSum_flatMap
    (n : Float) {tokens : List Token} {formula : Formula} (before : IsSum tokens formula)
    (pairs : List (Float × Float)) :
    IsSum (tokens ++ pairs.flatMap fun pair => .plus :: waveTokens n pair.1 pair.2)
      ((pairs.map fun pair => wave n pair.1 (spoken pair.2)).foldl .sum formula) := by
  induction pairs generalizing tokens formula with
  | nil =>
      rw [List.flatMap_nil, List.append_nil]
      exact before
  | cons pair rest inductionHypothesis =>
      have longer := inductionHypothesis (before.plus (isProduct_waveTokens n pair.1 pair.2))
      rw [List.append_assoc, List.cons_append] at longer
      exact longer

theorem isSum_volumeTokens {preset : WavePreset} {formula : Formula}
    (described : preset.volume? = some formula) : IsSum preset.volumeTokens formula := by
  rw [volume?, waves_eq] at described
  cases pairs : generatorPairs preset.f preset.a with
  | nil =>
      rw [pairs] at described
      cases described
  | cons first rest =>
      rw [pairs] at described
      cases described
      have opened := isProduct_waveTokens preset.n first.1 first.2
      have waves := isSum_flatMap preset.n (.product opened) rest
      have shifted := IsSum.plus (.product (.factor (.bracketed waves)))
        (.factor (.number (Decimal.spokenNumber preset.o)))
      have scaled := IsProduct.scaled .times (.factor (.bracketed shifted))
        (.number (Decimal.spokenNumber preset.s))
      have turned := IsProduct.scaled .times scaled (.number (Decimal.spokenNumber preset.p))
      have moved := IsSum.plus (.product turned)
        (.factor (.number (Decimal.spokenNumber preset.q)))
      have above := IsFactor.chosen .greatest (.product (.factor (.number 0))) moved
      have all := IsFactor.chosen .least (.product (.factor (.number 1)))
        (.product (.factor above))
      have isSum := IsSum.product (.factor all)
      rw [volumeTokens, pairs, sumTokens]
      simpa [spokenToken, spoken] using isSum

theorem not_isSum_volumeTokens {preset : WavePreset} (silent : preset.f = [])
    (formula : Formula) : ¬ IsSum preset.volumeTokens formula := by
  intro isSum
  have read := isSum.factor?_eq
  rw [volumeTokens, silent] at read
  cases read

theorem volume?_eq_none_iff {preset : WavePreset} : preset.volume? = none ↔ preset.f = [] := by
  have described : preset.volume? = none ↔ preset.waves = [] := by
    rw [volume?]
    cases preset.waves with
    | nil => exact iff_of_true rfl rfl
    | cons first rest => exact iff_of_false (Option.some_ne_none _) (List.cons_ne_nil first rest)
  rw [described, waves, List.map_eq_nil_iff, List.zipIdx_eq_nil_iff]

/-- The formula of an expression, if it is one. -/
theorem isReadFrom_expression {preset : WavePreset}
    (finite : ∀ value ∈ preset.numbers, value.isFinite = true) (formula : Formula) :
    formula.IsReadFrom preset.expression ↔ IsSum preset.volumeTokens formula := by
  rw [IsReadFrom, tokensFrom?_expression finite]
  constructor
  · rintro ⟨tokens, equality, isSum⟩
    cases equality
    exact isSum
  · exact fun isSum => ⟨preset.volumeTokens, rfl, isSum⟩

/-- The text of a preset has the formula that the preset describes and no other, and it
has one exactly if there is a frequency.  Its numbers are read as the doubles of the
preset. -/
theorem isReadFrom_expression_iff {preset : WavePreset}
    (finite : ∀ value ∈ preset.numbers, value.isFinite = true) :
    (∀ formula, formula.IsReadFrom preset.expression ↔ preset.volume? = some formula) ∧
      ((∃ formula, Formula.IsReadFrom formula preset.expression) ↔ preset.f ≠ []) ∧
      ∀ value ∈ preset.numbers, Decimal.RoundsTo (Decimal.spokenNumber value) value := by
  have reads : ∀ formula,
      formula.IsReadFrom preset.expression ↔ preset.volume? = some formula := by
    intro formula
    rw [isReadFrom_expression finite]
    constructor
    · intro isSum
      cases described : preset.volume? with
      | none =>
          have silent := volume?_eq_none_iff.mp described
          exact absurd isSum (not_isSum_volumeTokens silent formula)
      | some volume => exact congrArg some ((isSum_volumeTokens described).unique isSum)
    · exact isSum_volumeTokens
  refine ⟨reads, ?_, fun value member => Decimal.roundsTo_spokenNumber (finite value member)⟩
  rw [exists_congr reads, ← Option.ne_none_iff_exists']
  exact not_congr volume?_eq_none_iff

/-- Two frequencies and one amplitude. -/
def gusts : WavePreset :=
  { standard with f := [5.0, 2.0], a := [0.5] }

theorem isReadFrom_expression_iff_gusts :
    (∀ value ∈ gusts.numbers, value.isFinite = true) ∧
      gusts.expression =
        "min(1, max(0, ((" ++ "cos(PI * t * 1 / 5) * 0.5 + cos(PI * t * 1 / 2) * 1" ++
          ") + -0.5) * 3 * 1 + 0.5))" ∧
      Formula.IsReadFrom
        (.chosen .least (.number 1)
          (.chosen .greatest (.number 0)
            (.sum
              (.scaled .times
                (.scaled .times
                  (.sum
                    (.sum (wave 1.0 5.0 (.number (1 / 2))) (wave 1.0 2.0 (.number 1)))
                    (.number (-1 / 2)))
                  (.number 3))
                (.number 1))
              (.number (1 / 2)))))
        gusts.expression := by
  have finite : ∀ value ∈ gusts.numbers, value.isFinite = true := by decide +kernel
  refine ⟨finite, by decide +kernel, ((isReadFrom_expression_iff finite).1 _).mpr ?_⟩
  decide +kernel

/-- No frequency. -/
def calm : WavePreset :=
  { standard with f := [] }

/-- Without a frequency there is an empty pair of brackets. -/
theorem not_isReadFrom_expression_calm :
    (∀ value ∈ calm.numbers, value.isFinite = true) ∧
      calm.expression = "min(1, max(0, (() + -0.5) * 3 * 1 + 0.5))" ∧
      ¬ ∃ formula, Formula.IsReadFrom formula calm.expression := by
  have finite : ∀ value ∈ calm.numbers, value.isFinite = true := by decide +kernel
  refine ⟨finite, by decide +kernel, fun ⟨formula, read⟩ => ?_⟩
  exact not_isSum_volumeTokens rfl formula ((isReadFrom_expression finite formula).mp read)

end WavePreset

end Mixdown
