import Mixdown.Proofs.Decimal.Plain

/-!
# Formulas of the encoder

The encoder evaluates arithmetic expressions of the time.  Their grammar has sums of
products of numbers, constants, calls and bracketed sums, and operators of one rank group
to the left.  A reader that keeps what is open on a stack finds what the grammar derives,
so that no text has two formulas.
-/

namespace Mixdown

/-- A function of two arguments. -/
inductive Choice where
  | least
  | greatest
deriving DecidableEq, Repr

/-- An operator between factors. -/
inductive Scale where
  | times
  | over
deriving DecidableEq, Repr

inductive Formula where
  | number (value : ℚ)
  | time
  | pi
  | sum (left right : Formula)
  | scaled (scale : Scale) (left right : Formula)
  | cosine (angle : Formula)
  | chosen (choice : Choice) (first second : Formula)
deriving DecidableEq, Repr

namespace Formula

inductive Token where
  | number (value : ℚ)
  | time
  | pi
  | cosine
  | choice (choice : Choice)
  | plus
  | scale (scale : Scale)
  | opening
  | closing
  | comma
deriving DecidableEq, Repr

/-! ## Grammar -/

mutual

/-- A number, a constant, a call, or a sum in brackets. -/
inductive IsFactor : List Token → Formula → Prop
  | number (value : ℚ) : IsFactor [.number value] (.number value)
  | time : IsFactor [.time] .time
  | pi : IsFactor [.pi] .pi
  | bracketed {tokens : List Token} {formula : Formula} (inside : IsSum tokens formula) :
      IsFactor (.opening :: (tokens ++ [.closing])) formula
  | cosine {tokens : List Token} {angle : Formula} (inside : IsSum tokens angle) :
      IsFactor (.cosine :: .opening :: (tokens ++ [.closing])) (.cosine angle)
  | chosen {tokens others : List Token} {first second : Formula} (choice : Choice)
      (before : IsSum tokens first) (after : IsSum others second) :
      IsFactor (.choice choice :: .opening :: (tokens ++ .comma :: (others ++ [.closing])))
        (.chosen choice first second)

/-- Factors with operators between them. -/
inductive IsProduct : List Token → Formula → Prop
  | factor {tokens : List Token} {formula : Formula} (only : IsFactor tokens formula) :
      IsProduct tokens formula
  | scaled {tokens others : List Token} {left right : Formula} (scale : Scale)
      (before : IsProduct tokens left) (last : IsFactor others right) :
      IsProduct (tokens ++ .scale scale :: others) (.scaled scale left right)

/-- Products with plus signs between them. -/
inductive IsSum : List Token → Formula → Prop
  | product {tokens : List Token} {formula : Formula} (only : IsProduct tokens formula) :
      IsSum tokens formula
  | plus {tokens others : List Token} {left right : Formula}
      (before : IsSum tokens left) (last : IsProduct others right) :
      IsSum (tokens ++ .plus :: others) (.sum left right)

end

/-! ## Texts -/

/-- The names of constants and functions. -/
def names : List (List Char × Token) :=
  [(['t'], .time), (['P', 'I'], .pi), (['c', 'o', 's'], .cosine),
    (['m', 'i', 'n'], .choice .least), (['m', 'a', 'x'], .choice .greatest)]

/-- A name or a number. -/
def wordToken? (word : List Char) : Option Token :=
  names.lookup word <|> (Decimal.numeral? word).map .number

/-- What a character between words stands for; a space is nothing. -/
def mark? : Char → Option (List Token)
  | ' ' => some []
  | '(' => some [.opening]
  | ')' => some [.closing]
  | ',' => some [.comma]
  | '+' => some [.plus]
  | '*' => some [.scale .times]
  | '/' => some [.scale .over]
  | _ => none

def wordTokens? (word : List Char) : Option (List Token) :=
  if word.isEmpty then some [] else (wordToken? word).map fun token => [token]

/-- The tokens of a text, of which `word` was already read without its end. -/
def tokensFrom? (word : List Char) : List Char → Option (List Token)
  | [] => wordTokens? word
  | c :: rest =>
      match mark? c with
      | some marks => do
          let before ← wordTokens? word
          let after ← tokensFrom? [] rest
          return before ++ marks ++ after
      | none => tokensFrom? (word ++ [c]) rest

/-- A text is an expression, and this is its formula. -/
def IsReadFrom (formula : Formula) (text : String) : Prop :=
  ∃ tokens, tokensFrom? [] text.toList = some tokens ∧ IsSum tokens formula

/-! ## A reader -/

/-- What stands before a factor in its sum: the products before its own one, and the
factors before it with the operator after them. -/
structure Level where
  summand : Option Formula := none
  factor : Option (Formula × Scale) := none

/-- What is open around a sum. -/
inductive Frame where
  | bracket
  | cosine
  | first (choice : Choice)
  | second (choice : Choice) (before : Formula)

def extend (before : Option (Formula × Scale)) (factor : Formula) : Formula :=
  match before with
  | none => factor
  | some (left, scale) => .scaled scale left factor

def total (before : Option Formula) (product : Formula) : Formula :=
  match before with
  | none => product
  | some left => .sum left product

mutual

/-- Reads on where a factor must come. -/
def factor? (level : Level) (stack : List (Frame × Level)) : List Token → Option Formula
  | .number value :: rest =>
      operator? level.summand (extend level.factor (.number value)) stack rest
  | .time :: rest => operator? level.summand (extend level.factor .time) stack rest
  | .pi :: rest => operator? level.summand (extend level.factor .pi) stack rest
  | .opening :: rest => factor? {} ((.bracket, level) :: stack) rest
  | .cosine :: .opening :: rest => factor? {} ((.cosine, level) :: stack) rest
  | .choice choice :: .opening :: rest => factor? {} ((.first choice, level) :: stack) rest
  | _ => none

/-- Reads on after a product, which further factors may continue. -/
def operator? (summand : Option Formula) (product : Formula) (stack : List (Frame × Level)) :
    List Token → Option Formula
  | [] => if stack.isEmpty then some (total summand product) else none
  | .plus :: rest => factor? { summand := some (total summand product) } stack rest
  | .scale scale :: rest => factor? { summand, factor := some (product, scale) } stack rest
  | .comma :: rest =>
      match stack with
      | (.first choice, level) :: outer =>
          factor? {} ((.second choice (total summand product), level) :: outer) rest
      | _ => none
  | .closing :: rest =>
      match stack with
      | (.bracket, level) :: outer =>
          operator? level.summand (extend level.factor (total summand product)) outer rest
      | (.cosine, level) :: outer =>
          operator? level.summand (extend level.factor (.cosine (total summand product))) outer rest
      | (.second choice before, level) :: outer =>
          operator? level.summand
            (extend level.factor (.chosen choice before (total summand product))) outer rest
      | _ => none
  | _ => none

end

mutual

theorem IsFactor.factor?_append {tokens : List Token} {formula : Formula} :
    IsFactor tokens formula → ∀ level stack rest,
      factor? level stack (tokens ++ rest) =
        operator? level.summand (extend level.factor formula) stack rest
  | .number _, _, _, _ => by rw [List.singleton_append, factor?]
  | .time, _, _, _ => by rw [List.singleton_append, factor?]
  | .pi, _, _, _ => by rw [List.singleton_append, factor?]
  | .bracketed inside, level, stack, rest => by
      obtain ⟨summand, product, rfl, reads⟩ := inside.factor?_append
      rw [List.cons_append, List.append_assoc, factor?, reads, List.singleton_append, operator?]
  | .cosine inside, level, stack, rest => by
      obtain ⟨summand, product, rfl, reads⟩ := inside.factor?_append
      rw [List.cons_append, List.cons_append, List.append_assoc, factor?, reads,
        List.singleton_append, operator?]
  | .chosen choice before after, level, stack, rest => by
      obtain ⟨summand, product, rfl, reads⟩ := before.factor?_append
      obtain ⟨lastSummand, lastProduct, rfl, lastReads⟩ := after.factor?_append
      rw [List.cons_append, List.cons_append, List.append_assoc, factor?, reads,
        List.cons_append, operator?, List.append_assoc, lastReads, List.singleton_append,
        operator?]

theorem IsProduct.factor?_append {tokens : List Token} {formula : Formula} :
    IsProduct tokens formula → ∀ summand stack rest,
      factor? { summand } stack (tokens ++ rest) = operator? summand formula stack rest
  | .factor only, summand, stack, rest => only.factor?_append { summand } stack rest
  | .scaled scale before last, summand, stack, rest => by
      rw [List.append_assoc, before.factor?_append, List.cons_append, operator?,
        last.factor?_append]
      rfl

theorem IsSum.factor?_append {tokens : List Token} {formula : Formula} :
    IsSum tokens formula → ∃ summand product, total summand product = formula ∧ ∀ stack rest,
      factor? {} stack (tokens ++ rest) = operator? summand product stack rest
  | .product only => ⟨none, _, rfl, only.factor?_append none⟩
  | .plus before last => by
      obtain ⟨summand, product, rfl, reads⟩ := before.factor?_append
      refine ⟨some (total summand product), _, rfl, fun stack rest => ?_⟩
      rw [List.append_assoc, reads, List.cons_append, operator?, last.factor?_append]

end

/-- The reader finds the formula of a sum. -/
theorem IsSum.factor?_eq {tokens : List Token} {formula : Formula} (isSum : IsSum tokens formula) :
    factor? {} [] tokens = some formula := by
  obtain ⟨summand, product, rfl, reads⟩ := isSum.factor?_append
  have all := reads [] []
  rw [List.append_nil] at all
  rw [all, operator?]
  rfl

theorem IsSum.unique {tokens : List Token} {formula other : Formula}
    (isSum : IsSum tokens formula) (otherIsSum : IsSum tokens other) : formula = other := by
  have equal := isSum.factor?_eq
  rw [otherIsSum.factor?_eq] at equal
  exact (Option.some.inj equal).symm

/-- A text has at most one formula. -/
theorem IsReadFrom.unique {formula other : Formula} {text : String}
    (read : formula.IsReadFrom text) (otherRead : other.IsReadFrom text) : formula = other := by
  obtain ⟨tokens, found, isSum⟩ := read
  obtain ⟨otherTokens, otherFound, otherIsSum⟩ := otherRead
  cases found.symm.trans otherFound
  exact isSum.unique otherIsSum

end Formula

end Mixdown
