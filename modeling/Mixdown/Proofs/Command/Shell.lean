import Mixdown.Command.Shell
import Mixdown.Proofs.Text.Lexemes

/-!
# Command lines split by a shell

A shell splits a command line at the blanks that stand outside of quotes, and there some
characters are no part of a word.  A line gives back the arguments that it was made of just
if each of them is put in quotes or is plain: characters such as parentheses and
backslashes mean something to the shell too, but no argument is quoted for them.
-/

namespace Mixdown.Shell

open Text

/-! ## Splitting -/

/-- The characters, blanks aside, that mean something to a shell wherever they stand. -/
def specials : List Char :=
  "|&;<>()$`\\\"'*?[\n".toList

def isGap : Lexeme → Bool
  | .bare c => c = ' ' || c = '\t'
  | .verbatim _ => false

def isSpecial : Lexeme → Bool
  | .bare c => specials.contains c
  | .verbatim _ => false

/-- The argument that a word gives, if it is plain text: at its start a number sign begins a
comment, and a tilde stands for a directory. -/
def word? (lexemes : List Lexeme) : Option String :=
  if lexemes.any isSpecial ∨ lexemes.head? = some (.bare '#') ∨
      lexemes.head? = some (.bare '~') then
    none
  else
    some (String.ofList (lexemeText lexemes))

/-- Blanks between words count once. -/
def pieces (lexemes : List Lexeme) : List (List Lexeme) :=
  (lexemes.splitOnP isGap).filter fun piece => !piece.isEmpty

def wordsIn? (lexemes : List Lexeme) : Option (List String) :=
  (pieces lexemes).mapM word?

def words? (text : String) : Option (List String) :=
  (lexemes? text.toList).bind wordsIn?

/-! ## Single words -/

/-- Nothing in the text means something to a shell. -/
def IsPlain (text : List Char) : Prop :=
  text.any specials.contains = false ∧ text.head? ≠ some '#' ∧ text.head? ≠ some '~'

instance (text : List Char) : Decidable (IsPlain text) :=
  inferInstanceAs (Decidable (_ ∧ _))

theorem any_isSpecial_map_bare (text : List Char) :
    (text.map Lexeme.bare).any isSpecial = text.any specials.contains := by
  rw [List.any_map]
  rfl

theorem word?_map_bare (text : List Char) :
    word? (text.map .bare) = if IsPlain text then some (String.ofList text) else none := by
  have means : ((text.map Lexeme.bare).any isSpecial = true ∨
      (text.map Lexeme.bare).head? = some (.bare '#') ∨
        (text.map Lexeme.bare).head? = some (.bare '~')) ↔ ¬ IsPlain text := by
    rw [any_isSpecial_map_bare, IsPlain, Classical.not_and_iff_not_or_not,
      Classical.not_and_iff_not_or_not, Bool.not_eq_false]
    simp
  simp only [word?, means, ite_not, lexemeText_map_bare]

theorem any_isSpecial_quotedLexemes (text : List Char) :
    (quotedLexemes [] text).any isSpecial = false := by
  rw [List.any_eq_false]
  intro lexeme member
  cases lexeme with
  | bare c => exact absurd member (bare_not_mem_quotedLexemes c [] text)
  | verbatim text => nofun

theorem word?_quotedLexemes (text : List Char) :
    word? (quotedLexemes [] text) = some (String.ofList text) := by
  rw [word?, if_neg, lexemeText_quotedLexemes, List.nil_append]
  rintro (special | comment | tilde)
  · rw [any_isSpecial_quotedLexemes] at special
    cases special
  · exact bare_not_mem_quotedLexemes '#' [] text (List.mem_of_head? comment)
  · exact bare_not_mem_quotedLexemes '~' [] text (List.mem_of_head? tilde)

/-! ## Arguments as words -/

/-- An argument that is quoted, or need not be. -/
def IsSafe (argument : String) : Prop :=
  needsQuotes argument.toList = true ∨ IsPlain argument.toList

instance (argument : String) : Decidable (IsSafe argument) :=
  inferInstanceAs (Decidable (_ ∨ _))

/-- The lexemes of an argument as a word of a line. -/
def wordLexemes (argument : String) : List Lexeme :=
  writtenLexemes (needsQuotes argument.toList) argument.toList

theorem toList_word (argument : String) :
    (word argument).toList =
      if needsQuotes argument.toList then singleQuoted argument.toList else argument.toList := by
  rw [word]
  split <;> simp

theorem needsQuotes_eq_false_iff {text : List Char} :
    needsQuotes text = false ↔
      text ≠ [] ∧ ∀ c ∈ text, isBlank c = false ∧ marks.contains c = false := by
  simp [needsQuotes]

section Unquoted

variable {text : List Char}

theorem quote_not_mem (unquoted : needsQuotes text = false) : '\'' ∉ text := by
  intro member
  have mark := ((needsQuotes_eq_false_iff.mp unquoted).2 _ member).2
  revert mark
  decide

theorem isGap_of_mem (unquoted : needsQuotes text = false) {c : Char} (member : c ∈ text) :
    isGap (.bare c) = false := by
  have notBlank := ((needsQuotes_eq_false_iff.mp unquoted).2 c member).1
  rw [isGap, Bool.or_eq_false_iff, decide_eq_false_iff_not, decide_eq_false_iff_not]
  constructor
  · rintro rfl
    exact absurd notBlank (by decide)
  · rintro rfl
    exact absurd notBlank (by decide)

end Unquoted

theorem wordLexemes_ne_nil (argument : String) : wordLexemes argument ≠ [] := by
  rw [wordLexemes]
  cases quoted : needsQuotes argument.toList with
  | false =>
      rw [writtenLexemes]
      simpa using (needsQuotes_eq_false_iff.mp quoted).1
  | true => exact quotedLexemes_ne_nil [] argument.toList

theorem isGap_of_mem_wordLexemes
    {argument : String} {lexeme : Lexeme} (member : lexeme ∈ wordLexemes argument) :
    isGap lexeme = false := by
  cases lexeme with
  | verbatim text => rfl
  | bare c =>
      obtain ⟨unquoted, inText⟩ := bare_mem_writtenLexemes_iff.mp member
      exact isGap_of_mem unquoted inText

/-- Read on its own a word gives its argument, unless that should have been quoted. -/
theorem word?_wordLexemes (argument : String) :
    word? (wordLexemes argument) = if IsSafe argument then some argument else none := by
  rw [wordLexemes, writtenLexemes]
  cases quoted : needsQuotes argument.toList with
  | false => simp [word?_map_bare, IsSafe, quoted]
  | true => simp [word?_quotedLexemes, IsSafe, quoted]

/-- Nothing in the word of the argument escapes what comes after it. -/
theorem lexes_word
    {argument : String}
    (noBackslash : needsQuotes argument.toList = false → '\\' ∉ argument.toList) :
    Lexes (word argument).toList (wordLexemes argument) := by
  rw [toList_word]
  exact lexes_written fun unquoted => ⟨quote_not_mem unquoted, noBackslash unquoted⟩

/-! ## Lines -/

section Pieces

variable {lexemes : List Lexeme}

theorem pieces_of_no_gap
    (notEmpty : lexemes ≠ []) (noGap : ∀ lexeme ∈ lexemes, isGap lexeme = false) :
    pieces lexemes = [lexemes] := by
  rw [pieces, List.splitOnP_eq_singleton noGap, List.filter_cons_of_pos (by simpa using notEmpty),
    List.filter_nil]

theorem pieces_append_gap
    (notEmpty : lexemes ≠ []) (noGap : ∀ lexeme ∈ lexemes, isGap lexeme = false) {gap : Lexeme}
    (ends : isGap gap = true) (rest : List Lexeme) :
    pieces (lexemes ++ gap :: rest) = lexemes :: pieces rest := by
  rw [pieces, List.splitOnP_append_cons_of_forall_mem noGap gap ends,
    List.filter_cons_of_pos (by simpa using notEmpty), pieces]

/-- What is read up to the first gap. -/
def firstPiece (lexemes : List Lexeme) : List Lexeme :=
  lexemes.takeWhile fun lexeme => !isGap lexeme

theorem firstPiece_map_bare_append
    {text : List Char} (noGap : ∀ c ∈ text, isGap (.bare c) = false) :
    firstPiece (text.map .bare ++ lexemes) = text.map .bare ++ firstPiece lexemes := by
  refine List.takeWhile_append_of_pos (List.forall_mem_map.mpr fun c member => ?_)
  simp [noGap c member]

theorem pieces_eq_cons (notEmpty : firstPiece lexemes ≠ []) :
    ∃ others, pieces lexemes = firstPiece lexemes :: others := by
  have noGap : ∀ lexeme ∈ firstPiece lexemes, isGap lexeme = false := by
    intro lexeme member
    have kept := List.all_eq_true.mp List.all_takeWhile lexeme member
    simpa using kept
  have whole : firstPiece lexemes ++ lexemes.dropWhile (fun lexeme => !isGap lexeme) = lexemes :=
    List.takeWhile_append_dropWhile
  cases after : lexemes.dropWhile fun lexeme => !isGap lexeme with
  | nil =>
      rw [after, List.append_nil] at whole
      refine ⟨[], ?_⟩
      rw [← pieces_of_no_gap notEmpty noGap, whole]
  | cons gap rest =>
      have ends := List.head?_dropWhile_not (fun lexeme => !isGap lexeme) lexemes
      rw [after] at ends whole
      refine ⟨pieces rest, ?_⟩
      rw [← pieces_append_gap notEmpty noGap (by simpa using ends) rest, whole]

end Pieces

theorem wordsIn?_of_pieces_eq_cons
    {lexemes first : List Lexeme} {others : List (List Lexeme)}
    (split : pieces lexemes = first :: others) :
    wordsIn? lexemes = (word? first).bind fun word => (others.mapM word?).map (word :: ·) := by
  rw [wordsIn?, split, List.mapM_cons]
  cases word? first <;> cases others.mapM word? <;> rfl

theorem toList_eq_of_word?
    {lexemes : List Lexeme} {word : String} (read : word? lexemes = some word) :
    word.toList = lexemeText lexemes := by
  rw [word?] at read
  split at read
  · cases read
  · rw [← Option.some.inj read, String.toList_ofList]

theorem toList_eq_of_wordsIn?
    {lexemes : List Lexeme} {word : String} {others : List String}
    (notEmpty : firstPiece lexemes ≠ []) (read : wordsIn? lexemes = some (word :: others)) :
    word.toList = lexemeText (firstPiece lexemes) := by
  obtain ⟨later, split⟩ := pieces_eq_cons notEmpty
  rw [wordsIn?_of_pieces_eq_cons split] at read
  obtain ⟨first, readFirst, readLater⟩ := Option.bind_eq_some_iff.mp read
  obtain ⟨_, _, same⟩ := Option.map_eq_some_iff.mp readLater
  cases same
  exact toList_eq_of_word? readFirst

theorem words?_line_nil : words? (line []) = some [] :=
  rfl

/-- What comes after the first word of a line. -/
def afterWord (rest : List String) : List Char :=
  if rest.isEmpty then [] else ' ' :: (line rest).toList

theorem toList_line_cons (argument : String) (rest : List String) :
    (line (argument :: rest)).toList = (word argument).toList ++ afterWord rest := by
  rw [line, afterWord]
  cases rest with
  | nil => simp
  | cons next others => simp [line, String.intercalate_cons_cons]

/-- A word that ends at its gap is read on its own. -/
theorem words?_line_cons
    {argument : String}
    (noBackslash : needsQuotes argument.toList = false → '\\' ∉ argument.toList)
    (rest : List String) :
    words? (line (argument :: rest)) =
      (word? (wordLexemes argument)).bind fun first =>
        (words? (line rest)).map (first :: ·) := by
  have read := lexes_word noBackslash (afterWord rest)
  have notEmpty := wordLexemes_ne_nil argument
  have noGap : ∀ lexeme ∈ wordLexemes argument, isGap lexeme = false :=
    fun lexeme => isGap_of_mem_wordLexemes
  rw [words?, toList_line_cons, read]
  cases rest with
  | nil =>
      have alone := wordsIn?_of_pieces_eq_cons (pieces_of_no_gap notEmpty noGap)
      simp [afterWord, lexemes?, lexemesFrom?, alone, words?_line_nil]
  | cons next others =>
      have space : Lexes [' '] [.bare ' '] := lexes_bare (by decide)
      rw [afterWord, if_neg (by simp), ← List.singleton_append, space, words?]
      cases lexemes? (line (next :: others)).toList with
      | none => simp
      | some lexemes =>
          exact wordsIn?_of_pieces_eq_cons (pieces_append_gap notEmpty noGap rfl lexemes)

/-! ## Backslashes that are not quoted -/

/-- Up to the first gap, the lexemes hold a space or at most so many characters. -/
def Reaches (length : Nat) (lexemes : List Lexeme) : Prop :=
  ' ' ∈ lexemeText (firstPiece lexemes) ∨ (lexemeText (firstPiece lexemes)).length ≤ length

theorem Reaches.mono
    {length longer : Nat} {lexemes : List Lexeme} (reaches : Reaches length lexemes)
    (le : length ≤ longer) : Reaches longer lexemes :=
  reaches.imp_right fun short => Nat.le_trans short le

theorem Reaches.cons
    {length : Nat} {lexeme : Lexeme} {lexemes : List Lexeme} (reaches : Reaches length lexemes)
    (noGap : isGap lexeme = false) {c : Char} (single : lexeme.text = [c]) :
    Reaches (length + 1) (lexeme :: lexemes) := by
  have first : lexemeText (firstPiece (lexeme :: lexemes)) =
      c :: lexemeText (firstPiece lexemes) := by
    simp [firstPiece, noGap, lexemeText, single]
  rw [Reaches, first]
  exact reaches.imp (List.mem_cons_of_mem c) Nat.succ_le_succ

/-- Outside of quotes every lexeme but a gap stands for one character, and what ends a text without
gaps is a space, unless that is escaped. -/
theorem reaches_length
    {text rest : List Char} (noQuote : '\'' ∉ text) (noGap : ∀ c ∈ text, isGap (.bare c) = false)
    (ends : rest = [] ∨ ∃ more, rest = ' ' :: more) {quoting : Quoting}
    (between : quoting = .outside ∨ quoting = .escaped) {lexemes : List Lexeme}
    (read : lexemesFrom? quoting (text ++ rest) = some lexemes) :
    Reaches text.length lexemes := by
  -- A backslash turns one way of being between quotes into the other, so both go along.
  induction text generalizing quoting lexemes with
  | nil =>
      rw [List.nil_append] at read
      rcases ends with rfl | ⟨more, rfl⟩ <;> rcases between with rfl | rfl
      · cases read
        exact .inr (Nat.le_refl 0)
      · cases read
      · obtain ⟨others, _, rfl⟩ := Option.map_eq_some_iff.mp read
        exact .inr (Nat.le_refl 0)
      · obtain ⟨others, _, rfl⟩ := Option.map_eq_some_iff.mp read
        exact .inl List.mem_cons_self
  | cons c text inductionHypothesis =>
      obtain ⟨notQuote, noQuoteLater⟩ := List.ne_and_not_mem_of_not_mem_cons noQuote
      obtain ⟨here, later⟩ := List.forall_mem_cons.mp noGap
      rw [List.cons_append] at read
      rcases between with rfl | rfl
      · rw [lexemesFrom?, if_neg notQuote.symm] at read
        split at read
        · have reaches := inductionHypothesis noQuoteLater later (.inr rfl) read
          exact reaches.mono (Nat.le_succ text.length)
        · obtain ⟨others, readOthers, rfl⟩ := Option.map_eq_some_iff.mp read
          exact (inductionHypothesis noQuoteLater later (.inl rfl) readOthers).cons here rfl
      · rw [lexemesFrom?] at read
        obtain ⟨others, readOthers, rfl⟩ := Option.map_eq_some_iff.mp read
        exact (inductionHypothesis noQuoteLater later (.inl rfl) readOthers).cons rfl rfl

/-- So a backslash before the text is no part of what is read. -/
theorem Reaches.text_ne
    {text : List Char} {lexemes : List Lexeme} (reaches : Reaches text.length lexemes)
    (noGap : ∀ c ∈ text, isGap (.bare c) = false) :
    lexemeText (firstPiece lexemes) ≠ '\\' :: text := by
  intro same
  rw [Reaches, same] at reaches
  rcases reaches with space | short
  · have inText : ' ' ∈ text := List.mem_of_ne_of_mem (by decide) space
    cases noGap ' ' inText
  · exact Nat.not_succ_le_self text.length short

theorem firstPiece_ne_nil_of_escaped
    {text : List Char} {lexemes : List Lexeme}
    (read : lexemesFrom? .escaped text = some lexemes) : firstPiece lexemes ≠ [] := by
  cases text with
  | nil => cases read
  | cons c rest =>
      obtain ⟨others, _, rfl⟩ := Option.map_eq_some_iff.mp read
      nofun

theorem afterWord_eq (rest : List String) :
    afterWord rest = [] ∨ ∃ more, afterWord rest = ' ' :: more := by
  rw [afterWord]
  split
  · exact .inl rfl
  · exact .inr ⟨_, rfl⟩

/-- An argument with a backslash is not read back unless it is quoted. -/
theorem words?_line_ne_of_backslash
    {argument : String} (unquoted : needsQuotes argument.toList = false)
    (backslash : '\\' ∈ argument.toList) (rest others : List String) :
    words? (line (argument :: rest)) ≠ some (argument :: others) := by
  intro split
  obtain ⟨lexemes, read, words⟩ := Option.bind_eq_some_iff.mp split
  -- Up to the first backslash the argument is read as it stands.
  obtain ⟨before, after, shape, noBackslash⟩ := List.eq_append_cons_of_mem backslash
  have noQuote := quote_not_mem unquoted
  have noGap : ∀ c ∈ argument.toList, isGap (.bare c) = false := fun c => isGap_of_mem unquoted
  rw [shape, List.mem_append, List.mem_cons, not_or, not_or] at noQuote
  rw [shape, List.forall_mem_append, List.forall_mem_cons] at noGap
  rw [toList_line_cons, toList_word, if_neg (by simp [unquoted]), shape, List.append_assoc,
    lexes_bare ⟨noQuote.1, noBackslash⟩] at read
  obtain ⟨escaped, readEscaped, rfl⟩ := Option.map_eq_some_iff.mp read
  change lexemesFrom? .escaped (after ++ afterWord rest) = some escaped at readEscaped
  have reaches := reaches_length noQuote.2.2 noGap.2.2 (afterWord_eq rest) (.inr rfl) readEscaped
  have first := @firstPiece_map_bare_append escaped before noGap.1
  have notEmpty : firstPiece (before.map .bare ++ escaped) ≠ [] := by
    rw [first]
    exact List.append_ne_nil_of_right_ne_nil _ (firstPiece_ne_nil_of_escaped readEscaped)
  have text := toList_eq_of_wordsIn? notEmpty words
  rw [first, shape, lexemeText_append, lexemeText_map_bare] at text
  exact reaches.text_ne noGap.2.2 (List.append_cancel_left text).symm

/-- The arguments of a line are read back just if each of them is quoted or plain. -/
theorem words?_line_eq_some_iff (arguments : List String) :
    words? (line arguments) = some arguments ↔ ∀ argument ∈ arguments, IsSafe argument := by
  induction arguments with
  | nil => simp [words?_line_nil]
  | cons argument rest inductionHypothesis =>
      rw [List.forall_mem_cons, ← inductionHypothesis]
      -- Only a backslash can take the text of the next word with it.
      by_cases lost : needsQuotes argument.toList = false ∧ '\\' ∈ argument.toList
      · have notSafe : ¬ IsSafe argument := by
          rintro (quoted | plain)
          · rw [lost.1] at quoted
            cases quoted
          · exact List.any_eq_false.mp plain.1 '\\' lost.2 (by decide)
        simp [words?_line_ne_of_backslash lost.1 lost.2, notSafe]
      · rw [words?_line_cons fun unquoted member => lost ⟨unquoted, member⟩, word?_wordLexemes]
        by_cases safe : IsSafe argument
        · simp [safe]
        · simp [safe]

/-- The name of a mix keeps the parentheses of its title, and is not quoted for them. -/
theorem words?_line_take :
    words? (line ["-i", "content/take.wav", "mixes/take_(2).mp3"]) ≠
      some ["-i", "content/take.wav", "mixes/take_(2).mp3"] := by
  decide

end Mixdown.Shell
