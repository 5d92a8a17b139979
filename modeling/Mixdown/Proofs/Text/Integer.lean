import Mixdown.Text.Integer

/-!
# Integers read back

An integer reads back from its decimal text, and from the width that it came from.
-/

namespace Mixdown.Text

theorem digitsValue_toDigits (value : Nat) : digitsValue (Nat.toDigits 10 value) = value := by
  have folded := Nat.ofDigitChars_ten_toDigits (n := value)
  rw [Nat.ofDigitChars_eq_foldl] at folded
  simpa only [digitsValue, Nat.mul_comm] using folded

theorem isDigit_of_mem_toDigits {value : Nat} {c : Char} (member : c ∈ Nat.toDigits 10 value) :
    c.isDigit = true :=
  Nat.isDigit_of_mem_toDigits (by decide) (by decide) member

theorem natural?_toDigits (value : Nat) : natural? (Nat.toDigits 10 value) = some value := by
  have notEmpty : (Nat.toDigits 10 value).isEmpty = false :=
    List.isEmpty_eq_false_iff.mpr Nat.toDigits_ne_nil
  have allDigits : (Nat.toDigits 10 value).all Char.isDigit = true :=
    List.all_eq_true.mpr fun _ => isDigit_of_mem_toDigits
  rw [natural?, notEmpty, allDigits, digitsValue_toDigits]
  rfl

theorem toString_injective : Function.Injective (toString : Nat → String) := by
  intro left right equal
  have digits : Nat.toDigits 10 left = Nat.toDigits 10 right := by
    simpa only [Nat.toString_eq_repr, Nat.toList_repr] using congrArg String.toList equal
  have read := natural?_toDigits left
  rw [digits, natural?_toDigits] at read
  exact (Option.some.inj read).symm

theorem toList_toString_ofNat (value : Nat) :
    (toString (Int.ofNat value)).toList = Nat.toDigits 10 value := by
  simp [Int.toString_eq_repr, Int.repr]

theorem toList_toString_negSucc (value : Nat) :
    (toString (Int.negSucc value)).toList = '-' :: Nat.toDigits 10 (value + 1) := by
  simp [Int.toString_eq_repr, Int.repr]

theorem mem_toList_toString {value : Int} {c : Char} (member : c ∈ (toString value).toList) :
    c = '-' ∨ c.isDigit = true := by
  cases value with
  | ofNat value =>
      rw [toList_toString_ofNat] at member
      exact Or.inr (isDigit_of_mem_toDigits member)
  | negSucc value =>
      rw [toList_toString_negSucc] at member
      exact (List.mem_cons.mp member).imp_right isDigit_of_mem_toDigits

theorem integer?_toList_toString (value : Int) : integer? (toString value).toList = some value := by
  cases value with
  | ofNat value =>
      rw [toList_toString_ofNat]
      have unsigned : ∀ c ∈ Nat.toDigits 10 value, c ≠ '-' ∧ c ≠ '+' := by
        intro c member
        have digit := isDigit_of_mem_toDigits member
        constructor <;> rintro rfl <;> cases digit
      have first := Nat.toDigits_ne_nil (n := value) (b := 10)
      have read := natural?_toDigits value
      generalize Nat.toDigits 10 value = digits at unsigned first read
      match digits with
      | [] => exact absurd rfl first
      | c :: rest =>
          obtain ⟨notMinus, notPlus⟩ := unsigned c List.mem_cons_self
          rw [integer?]
          · rw [read]
            rfl
          · rintro _ ⟨⟩
            exact notMinus rfl
          · rintro _ ⟨⟩
            exact notPlus rfl
  | negSucc value =>
      rw [toList_toString_negSucc, integer?, natural?_toDigits]
      rfl

/-! ## Words -/

theorem signed64?_toInt (word : Int64) : signed64? word.toInt = some word := by
  rw [signed64?, if_pos ⟨Int64.minValue_le_toInt word, Int64.toInt_le word⟩, Int64.ofInt_toInt]

theorem unsigned64?_toNat (word : UInt64) : unsigned64? (word.toNat : Int) = some word := by
  have small : (word.toNat : Int) < UInt64.size := Int.ofNat_lt.mpr word.toNat_lt
  rw [unsigned64?, if_pos ⟨Int.natCast_nonneg _, small⟩, Int.toNat_natCast,
    UInt64.ofNat_toNat]

end Mixdown.Text
