import Mixdown.Proofs.Decimal.Nearest
import Mixdown.Proofs.Text.Integer
import Mixdown.Proofs.Text.Pieces

/-!
# Decimal numerals

What a numeral without an exponent stands for, and that numbers which are spoken are
such numerals.
-/

namespace Mixdown

namespace Text

theorem natural?_of_all {digits : List Char} (notEmpty : digits ≠ [])
    (all : ∀ c ∈ digits, c.isDigit = true) : natural? digits = some (digitsValue digits) := by
  have isSome : (!digits.isEmpty && digits.all Char.isDigit) = true := by
    simpa [notEmpty] using all
  rw [natural?, if_pos isSome]

theorem digitsValue_append (digits others : List Char) :
    digitsValue (digits ++ others) =
      digitsValue digits * 10 ^ others.length + digitsValue others := by
  induction others using List.reverseRecOn with
  | nil => simp [digitsValue]
  | append_singleton others last inductionHypothesis =>
      have snoc (digits : List Char) (last : Char) :
          digitsValue (digits ++ [last]) =
            digitsValue digits * 10 + (last.toNat - '0'.toNat) := by
        simp [digitsValue]
      rw [← List.append_assoc, snoc, snoc, inductionHypothesis, List.length_append,
        List.length_singleton, Nat.pow_succ]
      ring

theorem digitsValue_zeros (count : Nat) : digitsValue (List.replicate count '0') = 0 := by
  induction count with
  | zero => rfl
  | succ count inductionHypothesis =>
      rw [List.replicate_succ', digitsValue_append, inductionHypothesis]
      rfl

end Text

namespace Decimal

/-- A numeral without a sign: digits, with a point among them or not. -/
def unsigned? (word : List Char) : Option ℚ :=
  match Text.splitAt '.' word with
  | [whole] => (Text.natural? whole).map Nat.cast
  | [whole, fraction] => do
      let value ← Text.natural? whole
      let parts ← Text.natural? fraction
      return (value : ℚ) + (parts : ℚ) / 10 ^ fraction.length
  | _ => none

/-- The number that a numeral stands for. -/
def numeral? : List Char → Option ℚ
  | '-' :: word => (unsigned? word).map fun value => -value
  | word => unsigned? word

/-! ## Plain numerals -/

theorem point_not_mem {digits : List Char} (all : ∀ c ∈ digits, c.isDigit = true) :
    '.' ∉ digits := by
  intro point
  cases all _ point

theorem isDigit_of_mem_zeros {count : Nat} {c : Char} (member : c ∈ List.replicate count '0') :
    c.isDigit = true := by
  rw [List.eq_of_mem_replicate member]
  rfl

theorem unsigned?_whole {whole : List Char} (notEmpty : whole ≠ [])
    (all : ∀ c ∈ whole, c.isDigit = true) :
    unsigned? whole = some (Text.digitsValue whole : ℚ) := by
  rw [unsigned?, Text.splitAt_of_not_mem (point_not_mem all)]
  dsimp only
  rw [Text.natural?_of_all notEmpty all, Option.map_some]

theorem unsigned?_fraction {whole fraction : List Char} (notEmpty : whole ≠ [])
    (all : ∀ c ∈ whole, c.isDigit = true) (fractionNotEmpty : fraction ≠ [])
    (fractionAll : ∀ c ∈ fraction, c.isDigit = true) :
    unsigned? (whole ++ '.' :: fraction) =
      some ((Text.digitsValue (whole ++ fraction) : ℚ) / 10 ^ fraction.length) := by
  have powerPos : (0 : ℚ) < 10 ^ fraction.length := by positivity
  rw [unsigned?, Text.splitAt_append, Text.splitAt_of_not_mem (point_not_mem all),
    Text.splitAt_of_not_mem (point_not_mem fractionAll), List.singleton_append]
  dsimp only
  rw [Text.natural?_of_all notEmpty all, Text.natural?_of_all fractionNotEmpty fractionAll,
    Text.digitsValue_append]
  push_cast
  rw [add_div, mul_div_cancel_right₀ _ powerPos.ne']
  rfl

/-- Digits with the point `places` from their right end. -/
def placed (digits : List Char) (places : Nat) : List Char :=
  if places < digits.length then
    digits.take (digits.length - places) ++ '.' :: digits.drop (digits.length - places)
  else
    '0' :: '.' :: (List.replicate (places - digits.length) '0' ++ digits)

theorem toList_plain (digits : String) (power : Int) :
    (spoken.plain digits power).toList =
      if (-power).toNat = 0 then digits.toList ++ List.replicate power.toNat '0'
      else placed digits.toList (-power).toNat := by
  rw [Layout.plain, placed, ← String.length_toList]
  dsimp only
  split
  next => simp [zeros, spoken]
  next => split <;> simp [zeros]

theorem unsigned?_placed {digits : List Char} {places : Nat} (positive : 0 < places)
    (notEmpty : digits ≠ []) (all : ∀ c ∈ digits, c.isDigit = true) :
    unsigned? (placed digits places) = some ((Text.digitsValue digits : ℚ) / 10 ^ places) := by
  rw [placed]
  split
  next inside =>
    have joined := List.take_append_drop (digits.length - places) digits
    have dropped : (digits.drop (digits.length - places)).length = places := by
      rw [List.length_drop]
      omega
    have fractionNotEmpty : digits.drop (digits.length - places) ≠ [] := by
      rw [← List.length_pos_iff, dropped]
      exact positive
    have wholeNotEmpty : digits.take (digits.length - places) ≠ [] := by
      rw [← List.length_pos_iff, List.length_take]
      omega
    rw [unsigned?_fraction wholeNotEmpty (fun c member => all c (List.mem_of_mem_take member))
      fractionNotEmpty (fun c member => all c (List.mem_of_mem_drop member)), joined, dropped]
  next outside =>
    have fractionAll : ∀ c ∈ List.replicate (places - digits.length) '0' ++ digits,
        c.isDigit = true := by
      intro c member
      exact (List.mem_append.mp member).elim isDigit_of_mem_zeros (all c)
    have fractionLength :
        (List.replicate (places - digits.length) '0' ++ digits).length = places := by
      rw [List.length_append, List.length_replicate]
      omega
    have read := unsigned?_fraction (List.cons_ne_nil '0' [])
      (List.forall_mem_singleton.mpr rfl) (List.append_ne_nil_of_right_ne_nil _ notEmpty)
      fractionAll
    have sameValue :
        Text.digitsValue (['0'] ++ (List.replicate (places - digits.length) '0' ++ digits)) =
          Text.digitsValue digits := by
      rw [Text.digitsValue_append, Text.digitsValue_append, Text.digitsValue_zeros]
      simp [Text.digitsValue]
    rw [fractionLength, sameValue] at read
    exact read

theorem unsigned?_plain (digits : Nat) (power : Int) :
    unsigned? (spoken.plain (toString digits) power).toList =
      some ((digits : ℚ) * 10 ^ power) := by
  have listed : (toString digits).toList = Nat.toDigits 10 digits := by
    rw [Nat.toString_eq_repr, Nat.toList_repr]
  have notEmpty : Nat.toDigits 10 digits ≠ [] := Nat.toDigits_ne_nil
  have all : ∀ c ∈ Nat.toDigits 10 digits, c.isDigit = true :=
    fun _ => Text.isDigit_of_mem_toDigits
  have value := Text.digitsValue_toDigits digits
  rw [toList_plain, listed]
  split
  next noPlaces =>
    obtain ⟨count, rfl⟩ : ∃ count : Nat, power = count := ⟨power.toNat, by omega⟩
    have allDigits : ∀ c ∈ Nat.toDigits 10 digits ++ List.replicate count '0',
        c.isDigit = true := by
      intro c member
      exact (List.mem_append.mp member).elim (all c) isDigit_of_mem_zeros
    rw [Int.toNat_natCast, unsigned?_whole (List.append_ne_nil_of_left_ne_nil notEmpty _) allDigits,
      Text.digitsValue_append, Text.digitsValue_zeros, List.length_replicate, value, zpow_natCast]
    push_cast
    rw [add_zero]
  next somePlaces =>
    obtain ⟨count, rfl⟩ : ∃ count : Nat, power = -count := ⟨(-power).toNat, by omega⟩
    rw [unsigned?_placed (Nat.pos_of_ne_zero somePlaces) notEmpty all, value, zpow_neg,
      div_eq_mul_inv, neg_neg, Int.toNat_natCast, zpow_natCast]

/-- Plain numerals are made of digits and points. -/
theorem mem_placed {digits : List Char} {places : Nat} {c : Char}
    (all : ∀ c ∈ digits, c.isDigit = true) (member : c ∈ placed digits places) :
    c.isDigit = true ∨ c = '.' := by
  rw [placed] at member
  split at member
  next =>
    rcases List.mem_append.mp member with inWhole | later
    · exact Or.inl (all c (List.mem_of_mem_take inWhole))
    · rcases List.mem_cons.mp later with point | inFraction
      · exact Or.inr point
      · exact Or.inl (all c (List.mem_of_mem_drop inFraction))
  next =>
    rcases List.mem_cons.mp member with rfl | later
    · exact Or.inl rfl
    · rcases List.mem_cons.mp later with point | inFraction
      · exact Or.inr point
      · exact Or.inl ((List.mem_append.mp inFraction).elim isDigit_of_mem_zeros (all c))

theorem mem_plain {digits : Nat} {power : Int} {c : Char}
    (member : c ∈ (spoken.plain (toString digits) power).toList) :
    c.isDigit = true ∨ c = '.' := by
  have all : ∀ c ∈ (toString digits).toList, c.isDigit = true := by
    rw [Nat.toString_eq_repr, Nat.toList_repr]
    exact fun _ => Text.isDigit_of_mem_toDigits
  rw [toList_plain] at member
  split at member
  next =>
    exact Or.inl ((List.mem_append.mp member).elim (all c) isDigit_of_mem_zeros)
  next => exact mem_placed all member

/-! ## Spoken numbers -/

/-- A character of a spoken number. -/
def isNumeralChar (c : Char) : Bool :=
  c.isDigit || c = '.' || c = '-'

/-- The plain text of a finite number, with its sign. -/
theorem exists_write_eq {value : Float} (finite : value.isFinite = true) :
    ∃ negative digits power,
      (spoken.write value).toList =
          (if negative then ['-'] else []) ++
            (spoken.plain (toString (digits : Nat)) power).toList ∧
        spokenNumber value = signedMantissa negative digits * 10 ^ power := by
  obtain ⟨negative, mantissa, exponent, parts⟩ := exists_ofFloat_eq finite
  have sign : (if negative then "-" else "").toList = if negative then ['-'] else [] := by
    cases negative <;> rfl
  by_cases zero : mantissa = 0
  · refine ⟨negative, 0, 0, ?_, ?_⟩
    · rw [Layout.write, parts]
      dsimp only
      rw [if_pos zero, String.toList_append, sign]
      rfl
    · rw [spokenNumber, parts]
      dsimp only
      rw [if_pos zero]
      cases negative <;> simp [signedMantissa]
  · refine ⟨negative, (shortest .up mantissa exponent).digits,
      (shortest .up mantissa exponent).power, ?_, ?_⟩
    · rw [Layout.write, parts]
      dsimp only
      rw [if_neg zero, String.toList_append, sign]
      rfl
    · rw [spokenNumber, parts]
      dsimp only
      rw [if_neg zero]

/-- A numeral without a sign in front. -/
theorem numeral?_of_not_minus {word : List Char} (noMinus : '-' ∉ word) :
    numeral? word = unsigned? word := by
  cases word with
  | nil => rfl
  | cons c rest =>
      rw [numeral?]
      rintro _ ⟨⟩
      exact noMinus List.mem_cons_self

theorem numeral?_write {value : Float} (finite : value.isFinite = true) :
    numeral? (spoken.write value).toList = some (spokenNumber value) := by
  obtain ⟨negative, digits, power, written, number⟩ := exists_write_eq finite
  rw [written, number]
  cases negative with
  | false =>
      have noMinus : '-' ∉ (spoken.plain (toString digits) power).toList := by
        intro minus
        rcases mem_plain minus with digit | point
        · cases digit
        · cases point
      rw [if_neg Bool.false_ne_true, List.nil_append, numeral?_of_not_minus noMinus,
        unsigned?_plain]
      simp [signedMantissa]
  | true =>
      rw [if_pos rfl, List.singleton_append, numeral?, unsigned?_plain]
      simp [signedMantissa]

theorem isNumeralChar_of_mem_write {value : Float} {c : Char} (finite : value.isFinite = true)
    (member : c ∈ (spoken.write value).toList) : isNumeralChar c = true := by
  obtain ⟨negative, digits, power, written, _⟩ := exists_write_eq finite
  rw [written] at member
  rcases List.mem_append.mp member with sign | inPlain
  · cases negative with
    | false => cases sign
    | true =>
        cases List.mem_singleton.mp sign
        rfl
  · rcases mem_plain inPlain with digit | rfl
    · simp [isNumeralChar, digit]
    · rfl

end Decimal

end Mixdown
