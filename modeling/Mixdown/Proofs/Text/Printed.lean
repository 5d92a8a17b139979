import Mixdown.Effect.Wave
import Mixdown.Proofs.Text.Integer

/-!
# Words and printed texts

Which characters the names and the numbers in a filter graph are made of.
-/

namespace Mixdown

/-! ## Texts by their characters -/

def isWordChar (c : Char) : Bool :=
  c.isAlphanum || c = '_'

/-- One or more letters and digits of ASCII and underscores. -/
structure IsWord (text : String) : Prop where
  notEmpty : text ≠ ""
  chars : ∀ c ∈ text.toList, isWordChar c = true

/-- No control characters below the space, and no bracket that opens a label. -/
def IsPrinted (text : String) : Prop :=
  ∀ c ∈ text.toList, 0x20 ≤ c.toNat ∧ c.toNat ≠ 0x5b

instance (text : String) : Decidable (IsWord text) :=
  decidable_of_iff (text ≠ "" ∧ text.toList.all isWordChar = true)
    ⟨fun ⟨notEmpty, chars⟩ => ⟨notEmpty, List.all_eq_true.mp chars⟩,
      fun word => ⟨word.notEmpty, List.all_eq_true.mpr word.chars⟩⟩

instance (text : String) : Decidable (IsPrinted text) :=
  List.decidableBAll (fun c : Char => 0x20 ≤ c.toNat ∧ c.toNat ≠ 0x5b) text.toList

theorem toNat_of_isWordChar {c : Char} (char : isWordChar c = true) :
    0x30 ≤ c.toNat ∧ c.toNat ≠ 0x3d ∧ c.toNat ≠ 0x5b := by
  rw [isWordChar, Bool.or_eq_true] at char
  rcases char with alphanumeric | underscore
  · change ((decide ('A'.val ≤ c.val ∧ c.val ≤ 'Z'.val) ||
      decide ('a'.val ≤ c.val) && decide (c.val ≤ 'z'.val)) ||
      decide ('0'.val ≤ c.val) && decide (c.val ≤ '9'.val)) = true at alphanumeric
    simp only [Bool.or_eq_true, Bool.and_eq_true, decide_eq_true_eq, UInt32.le_iff_toNat_le]
      at alphanumeric
    change ((65 ≤ c.toNat ∧ c.toNat ≤ 90) ∨ (97 ≤ c.toNat ∧ c.toNat ≤ 122)) ∨
      (48 ≤ c.toNat ∧ c.toNat ≤ 57) at alphanumeric
    omega
  · have isUnderscore : c = '_' := of_decide_eq_true underscore
    subst isUnderscore
    decide

theorem IsWord.isPrinted {text : String} (word : IsWord text) : IsPrinted text := by
  intro c member
  have char := toNat_of_isWordChar (word.chars c member)
  omega

theorem IsWord.append {first second : String} (word : IsWord first) (other : IsWord second) :
    IsWord (first ++ second) where
  notEmpty := by
    intro empty
    apply word.notEmpty
    have lists := congrArg String.toList empty
    rw [String.toList_append, String.toList_empty] at lists
    exact String.toList_eq_nil_iff.mp (List.append_eq_nil_iff.mp lists).1
  chars := by
    intro c member
    rw [String.toList_append, List.mem_append] at member
    rcases member with inFirst | inSecond
    · exact word.chars c inFirst
    · exact other.chars c inSecond

theorem IsPrinted.append
    {first second : String} (printed : IsPrinted first) (other : IsPrinted second) :
    IsPrinted (first ++ second) := by
  intro c member
  rw [String.toList_append, List.mem_append] at member
  rcases member with inFirst | inSecond
  · exact printed c inFirst
  · exact other c inSecond

theorem isPrinted_ite
    {condition : Prop} [Decidable condition] {first second : String}
    (printedFirst : IsPrinted first) (printedSecond : IsPrinted second) :
    IsPrinted (if condition then first else second) := by
  split
  · exact printedFirst
  · exact printedSecond

theorem isPrinted_intercalate
    {separator : String} {texts : List String} (printedSeparator : IsPrinted separator)
    (printed : ∀ text ∈ texts, IsPrinted text) : IsPrinted (separator.intercalate texts) := by
  induction texts with
  | nil =>
      rw [String.intercalate_nil]
      decide
  | cons text rest inductionHypothesis =>
      obtain ⟨printedText, printedRest⟩ := List.forall_mem_cons.mp printed
      cases rest with
      | nil =>
          rw [String.intercalate_singleton]
          exact printedText
      | cons next others =>
          rw [String.intercalate_cons_cons]
          exact (printedText.append printedSeparator).append (inductionHypothesis printedRest)

/-- A word ends where a character follows that is in no word. -/
theorem word_prefix_inj
    {word other rest otherRest : List Char} {mark otherMark : Char}
    (inWord : ∀ c ∈ word, isWordChar c = true) (inOther : ∀ c ∈ other, isWordChar c = true)
    (outside : isWordChar mark = false) (otherOutside : isWordChar otherMark = false)
    (equal : word ++ mark :: rest = other ++ otherMark :: otherRest) :
    word = other ∧ mark = otherMark ∧ rest = otherRest := by
  have taken := congrArg (List.takeWhile isWordChar) equal
  rw [List.takeWhile_append_of_pos inWord, List.takeWhile_append_of_pos inOther,
    List.takeWhile_cons_of_neg (by simp [outside]),
    List.takeWhile_cons_of_neg (by simp [otherOutside]), List.append_nil, List.append_nil] at taken
  subst taken
  obtain ⟨marks, rests⟩ := List.cons.inj (List.append_cancel_left equal)
  exact ⟨rfl, marks, rests⟩

/-! ## Integers -/

theorem isWord_toString (value : Nat) : IsWord (toString value) where
  notEmpty := by
    intro empty
    have digits : Nat.toDigits 10 value = [] := by
      simpa only [Nat.toString_eq_repr, Nat.toList_repr, String.toList_empty] using
        congrArg String.toList empty
    exact Nat.toDigits_ne_nil digits
  chars := by
    intro c member
    rw [Nat.toString_eq_repr, Nat.toList_repr] at member
    have digit := Text.isDigit_of_mem_toDigits member
    simp [isWordChar, Char.isAlphanum, digit]

theorem isPrinted_toString_int (value : Int) : IsPrinted (toString value) := by
  intro c member
  rcases Text.mem_toList_toString member with rfl | digit
  · decide
  · have char : isWordChar c = true := by simp [isWordChar, Char.isAlphanum, digit]
    have range := toNat_of_isWordChar char
    omega

/-! ## Doubles -/

namespace Decimal

theorem isPrinted_zeros (count : Nat) : IsPrinted (zeros count) := by
  intro c member
  rw [zeros, String.toList_ofList] at member
  rw [List.eq_of_mem_replicate member]
  decide

theorem isPrinted_ofList_of_subset
    {characters : List Char} {text : String} (printed : IsPrinted text)
    (included : characters ⊆ text.toList) : IsPrinted (String.ofList characters) := by
  intro c member
  rw [String.toList_ofList] at member
  exact printed c (included member)

theorem Layout.isPrinted_plain
    (style : Layout) {digits : String} (power : Int) (printed : IsPrinted digits) :
    IsPrinted (style.plain digits power) := by
  have point : IsPrinted (if style.wholePart then ".0" else "") := by
    split <;> decide
  rw [Layout.plain]
  dsimp only
  split
  next => exact (printed.append (isPrinted_zeros _)).append point
  next =>
    have printedPoint : IsPrinted "." := by decide +kernel
    split
    next =>
      refine IsPrinted.append (IsPrinted.append ?_ printedPoint) ?_
      · exact isPrinted_ofList_of_subset printed (List.take_subset _ _)
      · exact isPrinted_ofList_of_subset printed (List.drop_subset _ _)
    next =>
      have front : IsPrinted "0." := by decide +kernel
      exact (front.append (isPrinted_zeros _)).append printed

theorem isPrinted_scientific
    {digits : String} (leading : Int) (printed : IsPrinted digits) :
    IsPrinted (scientific digits leading) := by
  have mark : IsPrinted "e" := by decide +kernel
  have sign : IsPrinted (if leading < 0 then "-" else "+") := by
    split <;> decide
  have exponent : IsPrinted (toString leading.natAbs) := (isWord_toString _).isPrinted
  rw [scientific]
  refine IsPrinted.append (IsPrinted.append (IsPrinted.append ?_ mark) sign) exponent
  split
  next => decide
  next single equality =>
    apply isPrinted_ofList_of_subset printed
    rw [equality]
    exact List.Subset.refl _
  next first rest _ equality =>
    intro c member
    rw [String.toList_ofList] at member
    have inDigits : c = '.' ∨ c ∈ digits.toList := by
      rw [equality]
      simp only [List.mem_cons] at member ⊢
      exact or_left_comm.mp member
    rcases inDigits with rfl | here
    · decide
    · exact printed c here

/-- A number is written in printed characters, whatever its layout. -/
theorem Layout.isPrinted_write (style : Layout) (value : Float) :
    IsPrinted (style.write value) := by
  have sign (negative : Bool) : IsPrinted (if negative then "-" else "") := by
    cases negative <;> decide
  rw [Layout.write]
  split
  next => decide
  next negative _ =>
    have infinity : IsPrinted "inf" := by decide +kernel
    exact (sign negative).append infinity
  next negative mantissa exponent _ =>
    dsimp only
    split
    next =>
      have zero : IsPrinted "0" := by decide +kernel
      exact (sign negative).append (style.isPrinted_plain 0 zero)
    next =>
      generalize shortest style.tie mantissa exponent = found
      have digits : IsPrinted (toString found.digits) := (isWord_toString _).isPrinted
      have plain := style.isPrinted_plain found.power digits
      have scientific :=
        isPrinted_scientific (found.power + (toString found.digits).length - 1) digits
      exact (sign negative).append (isPrinted_ite plain scientific)

end Decimal

/-! ## Expressions -/

namespace WavePreset

theorem isPrinted_generator (n frequency amplitude : Float) :
    IsPrinted (generator n frequency amplitude) := by
  have number (value : Float) : IsPrinted (Decimal.spoken.write value) :=
    Decimal.spoken.isPrinted_write value
  have opening : IsPrinted "cos(PI * t * " := by decide +kernel
  have divided : IsPrinted " / " := by decide +kernel
  have closing : IsPrinted ") * " := by decide +kernel
  exact (((opening.append (number n)).append divided).append (number frequency)).append closing
    |>.append (number amplitude)

theorem isPrinted_of_mem_generators
    {n : Float} {frequencies amplitudes : List Float} {text : String}
    (member : text ∈ generators n frequencies amplitudes) : IsPrinted text := by
  induction frequencies generalizing amplitudes with
  | nil =>
      rw [generators] at member
      cases member
  | cons frequency rest inductionHypothesis =>
      cases amplitudes with
      | nil =>
          rw [generators, List.mem_cons] at member
          rcases member with rfl | later
          · exact isPrinted_generator n frequency 1.0
          · exact inductionHypothesis later
      | cons amplitude others =>
          rw [generators, List.mem_cons] at member
          rcases member with rfl | later
          · exact isPrinted_generator n frequency amplitude
          · exact inductionHypothesis later

theorem isPrinted_expression (preset : WavePreset) : IsPrinted preset.expression := by
  have number (value : Float) : IsPrinted (Decimal.spoken.write value) :=
    Decimal.spoken.isPrinted_write value
  have plus : IsPrinted " + " := by decide +kernel
  have times : IsPrinted " * " := by decide +kernel
  have opening : IsPrinted "min(1, max(0, ((" := by decide +kernel
  have shift : IsPrinted ") + " := by decide +kernel
  have scale : IsPrinted ") * " := by decide +kernel
  have closing : IsPrinted "))" := by decide +kernel
  have sum : IsPrinted (" + ".intercalate (generators preset.n preset.f preset.a)) :=
    isPrinted_intercalate plus fun _ => isPrinted_of_mem_generators
  have shifted := ((opening.append sum).append shift).append (number preset.o)
  have scaled := ((shifted.append scale).append (number preset.s)).append times
  have moved := ((scaled.append (number preset.p)).append plus).append (number preset.q)
  exact moved.append closing

end WavePreset

end Mixdown
