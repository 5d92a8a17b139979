import Mixdown.Text.Quoted

/-!
# Quoted text taken apart

Text in which single quotes enclose what is to be taken as it stands, and in which, outside
of quotes, a backslash escapes the character after it.  Such a text falls into lexemes,
and only the bare ones may be marks for its reader.  Text in single quotes reads as
itself, whatever it holds.
-/

namespace Mixdown.Text

inductive Lexeme where
  | bare (c : Char)
  /-- What a pair of quotes encloses, or an escaped character. -/
  | verbatim (text : List Char)
deriving DecidableEq, Repr

/-- The characters that a lexeme stands for. -/
def Lexeme.text : Lexeme → List Char
  | .bare c => [c]
  | .verbatim text => text

def lexemeText (lexemes : List Lexeme) : List Char :=
  lexemes.flatMap Lexeme.text

theorem lexemeText_append (lexemes others : List Lexeme) :
    lexemeText (lexemes ++ others) = lexemeText lexemes ++ lexemeText others :=
  List.flatMap_append

/-- Where in a text a reader is. -/
inductive Quoting where
  | outside
  /-- After a backslash. -/
  | escaped
  /-- Inside of quotes, where `sofar` came after the opening one. -/
  | inside (sofar : List Char)

/-- The lexemes of what is left of a text; quotes that stay open, and a backslash at the
end, cannot be read. -/
def lexemesFrom? : Quoting → List Char → Option (List Lexeme)
  | .outside, [] => some []
  | .escaped, [] => none
  | .inside _, [] => none
  | .outside, c :: rest =>
      if c = '\'' then
        lexemesFrom? (.inside []) rest
      else if c = '\\' then
        lexemesFrom? .escaped rest
      else
        (lexemesFrom? .outside rest).map (.bare c :: ·)
  | .escaped, c :: rest => (lexemesFrom? .outside rest).map (.verbatim [c] :: ·)
  | .inside sofar, c :: rest =>
      if c = '\'' then
        (lexemesFrom? .outside rest).map (.verbatim sofar :: ·)
      else
        lexemesFrom? (.inside (sofar ++ [c])) rest

def lexemes? (text : List Char) : Option (List Lexeme) :=
  lexemesFrom? .outside text

/-! ## Texts that read on their own -/

/-- The text has these lexemes, whatever comes after it. -/
def Lexes (text : List Char) (lexemes : List Lexeme) : Prop :=
  ∀ rest, lexemes? (text ++ rest) = (lexemes? rest).map (lexemes ++ ·)

namespace Lexes

variable {text other : List Char} {lexemes others : List Lexeme}

theorem nil : Lexes [] [] := by
  intro rest
  simp

theorem append (first : Lexes text lexemes) (second : Lexes other others) :
    Lexes (text ++ other) (lexemes ++ others) := by
  intro rest
  rw [List.append_assoc, first, second, Option.map_map]
  simp [Function.comp_def]

theorem lexemes?_eq (lexes : Lexes text lexemes) : lexemes? text = some lexemes := by
  have alone := lexes []
  rw [List.append_nil] at alone
  rw [alone, lexemes?, lexemesFrom?]
  simp

theorem flatMap
    {β : Type} {items : List β} {write : β → List Char} {read : β → List Lexeme}
    (each : ∀ item ∈ items, Lexes (write item) (read item)) :
    Lexes (items.flatMap write) (items.flatMap read) := by
  induction items with
  | nil => exact nil
  | cons item rest inductionHypothesis =>
      obtain ⟨here, later⟩ := List.forall_mem_cons.mp each
      rw [List.flatMap_cons, List.flatMap_cons]
      exact here.append (inductionHypothesis later)

theorem intercalate
    {β : Type} {items : List β} {write : β → List Char} {read : β → List Lexeme}
    (separates : Lexes text lexemes) (each : ∀ item ∈ items, Lexes (write item) (read item)) :
    Lexes (text.intercalate (items.map write)) (lexemes.intercalate (items.map read)) := by
  induction items with
  | nil => simpa using nil
  | cons item rest inductionHypothesis =>
      obtain ⟨here, later⟩ := List.forall_mem_cons.mp each
      have restLexes := inductionHypothesis later
      cases rest with
      | nil => simpa using here
      | cons next others =>
          simp only [List.map_cons, List.intercalate_cons_cons] at restLexes ⊢
          exact (here.append separates).append restLexes

end Lexes

/-! ## Text outside of quotes -/

/-- Neither a quote nor a backslash. -/
def IsUnquoted (text : List Char) : Prop :=
  '\'' ∉ text ∧ '\\' ∉ text

instance (text : List Char) : Decidable (IsUnquoted text) :=
  inferInstanceAs (Decidable (_ ∧ _))

theorem lexes_bare {text : List Char} (unquoted : IsUnquoted text) :
    Lexes text (text.map .bare) := by
  obtain ⟨noQuote, noBackslash⟩ := unquoted
  induction text with
  | nil => exact .nil
  | cons c rest inductionHypothesis =>
      obtain ⟨notQuote, restNoQuote⟩ := List.ne_and_not_mem_of_not_mem_cons noQuote
      obtain ⟨notBackslash, restNoBackslash⟩ := List.ne_and_not_mem_of_not_mem_cons noBackslash
      intro more
      have restLexes := inductionHypothesis restNoQuote restNoBackslash more
      rw [List.cons_append, lexemes?, lexemesFrom?, if_neg notQuote.symm,
        if_neg notBackslash.symm]
      change (lexemes? (rest ++ more)).map _ = _
      rw [restLexes, Option.map_map]
      rfl

theorem lexemeText_map_bare (text : List Char) : lexemeText (text.map .bare) = text := by
  induction text with
  | nil => rfl
  | cons c rest inductionHypothesis =>
      rw [lexemeText] at inductionHypothesis
      simp [lexemeText, Lexeme.text, inductionHypothesis]

/-! ## Text in quotes -/

/-- The lexemes of text in quotes, of which `sofar` is read: a quote in it closes the
quotes, stands escaped and opens them again. -/
def quotedLexemes (sofar : List Char) : List Char → List Lexeme
  | [] => [.verbatim sofar]
  | c :: rest =>
      if c = '\'' then
        .verbatim sofar :: .verbatim ['\''] :: quotedLexemes [] rest
      else
        quotedLexemes (sofar ++ [c]) rest

theorem lexemesFrom?_inside (sofar text rest : List Char) :
    lexemesFrom? (.inside sofar)
        (text.flatMap (fun c => if c = '\'' then ['\'', '\\', '\'', '\''] else [c]) ++
          '\'' :: rest) =
      (lexemes? rest).map (quotedLexemes sofar text ++ ·) := by
  induction text generalizing sofar with
  | nil => simp [lexemesFrom?, quotedLexemes, lexemes?]
  | cons c more inductionHypothesis =>
      by_cases quote : c = '\''
      · simp [lexemesFrom?, quotedLexemes, quote, inductionHypothesis, Function.comp_def]
      · simp [lexemesFrom?, quotedLexemes, quote, inductionHypothesis]

theorem lexes_singleQuoted (text : List Char) :
    Lexes (singleQuoted text) (quotedLexemes [] text) := by
  intro rest
  have read := lexemesFrom?_inside [] text rest
  rw [singleQuoted, lexemes?]
  simpa [lexemesFrom?] using read

theorem lexemeText_quotedLexemes (sofar text : List Char) :
    lexemeText (quotedLexemes sofar text) = sofar ++ text := by
  induction text generalizing sofar with
  | nil => simp [quotedLexemes, lexemeText, Lexeme.text]
  | cons c rest inductionHypothesis =>
      simp only [lexemeText] at inductionHypothesis
      by_cases quote : c = '\''
      · simp [quotedLexemes, quote, lexemeText, Lexeme.text, inductionHypothesis]
      · simp [quotedLexemes, quote, lexemeText, inductionHypothesis]

theorem bare_not_mem_quotedLexemes (c : Char) (sofar text : List Char) :
    .bare c ∉ quotedLexemes sofar text := by
  induction text generalizing sofar with
  | nil => simp [quotedLexemes]
  | cons first rest inductionHypothesis =>
      by_cases quote : first = '\''
      · simp [quotedLexemes, quote, inductionHypothesis]
      · simp [quotedLexemes, quote, inductionHypothesis]

theorem quotedLexemes_ne_nil (sofar text : List Char) : quotedLexemes sofar text ≠ [] := by
  induction text generalizing sofar with
  | nil => simp [quotedLexemes]
  | cons c rest inductionHypothesis =>
      by_cases quote : c = '\''
      · simp [quotedLexemes, quote]
      · simp [quotedLexemes, quote, inductionHypothesis]

/-! ## Text in quotes where it needs them -/

/-- The lexemes of a text that is put in quotes or left as it is. -/
def writtenLexemes (quoted : Bool) (text : List Char) : List Lexeme :=
  if quoted then quotedLexemes [] text else text.map .bare

theorem lexes_written
    {quoted : Bool} {text : List Char} (unquoted : quoted = false → IsUnquoted text) :
    Lexes (if quoted then singleQuoted text else text) (writtenLexemes quoted text) := by
  cases quoted with
  | false => exact lexes_bare (unquoted rfl)
  | true => exact lexes_singleQuoted text

theorem lexemeText_writtenLexemes (quoted : Bool) (text : List Char) :
    lexemeText (writtenLexemes quoted text) = text := by
  cases quoted with
  | false => exact lexemeText_map_bare text
  | true => exact lexemeText_quotedLexemes [] text

theorem bare_mem_writtenLexemes_iff {quoted : Bool} {text : List Char} {c : Char} :
    .bare c ∈ writtenLexemes quoted text ↔ quoted = false ∧ c ∈ text := by
  cases quoted with
  | false => simp [writtenLexemes]
  | true => simp [writtenLexemes, bare_not_mem_quotedLexemes]

end Mixdown.Text
