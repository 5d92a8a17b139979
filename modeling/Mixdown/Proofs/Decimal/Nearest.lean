import Mixdown.Decimal.Layout
import Mixdown.Proofs.Decimal.Shortest

/-!
# Nearest doubles

The doubles next to a double are at least a step away, so that no other double is nearer
to a number that is read as it.
-/

namespace Mixdown.Decimal

open Float.Model Float.Model.UnpackedFloat

/-! ## The values of doubles -/

def signedMantissa (negative : Bool) (mantissa : Nat) : Int :=
  if negative then -mantissa else mantissa

/-- The number that a double with a sign stands for. -/
def signed (negative : Bool) (mantissa : Nat) (exponent : Int) : ℚ :=
  signedMantissa negative mantissa * 2 ^ exponent

/-- The number that a double stands for, if it is one. -/
def Double.rational? : Double → Option ℚ
  | .finite negative mantissa exponent => some (signed negative mantissa exponent)
  | _ => none

/-- A mantissa has all its bits unless the exponent is the least one. -/
structure IsBinary64 (mantissa : Nat) (exponent : Int) : Prop where
  small : mantissa < 2 ^ 53
  least : -1074 ≤ exponent
  greatest : exponent ≤ 971
  full : exponent ≠ -1074 → 2 ^ 52 ≤ mantissa

theorem leastNormalMantissa_eq : leastNormalMantissa = 2 ^ 52 := by
  decide

theorem isBinary64_of_ofBits
    {bits mantissa : Nat} {negative : Bool} {exponent : Int}
    (parts : Double.ofBits bits = .finite negative mantissa exponent) :
    IsBinary64 mantissa exponent := by
  have scaleSmall : bits / leastNormalMantissa % 2048 < 2048 := Nat.mod_lt _ (by decide)
  have fractionSmall : bits % leastNormalMantissa < 2 ^ 52 := by
    rw [leastNormalMantissa_eq]
    exact Nat.mod_lt _ (by decide)
  unfold Double.ofBits at parts
  dsimp only at parts
  generalize bits / leastNormalMantissa % 2048 = scale at scaleSmall parts
  generalize bits % leastNormalMantissa = fraction at fractionSmall parts
  rw [leastNormalMantissa_eq] at parts
  split at parts
  next => split at parts <;> cases parts
  next notGreatest =>
    split at parts
    next =>
      cases parts
      exact ⟨by omega, le_refl _, by decide, fun different => absurd rfl different⟩
    next notLeast =>
      cases parts
      exact ⟨by omega, by omega, by omega, fun _ => Nat.le_add_right _ _⟩

/-- A finite double has a mantissa and an exponent. -/
theorem exists_ofFloat_eq {value : Float} (finite : value.isFinite = true) :
    ∃ negative mantissa exponent,
      Double.ofFloat value = .finite negative mantissa exponent := by
  rw [Double.ofFloat]
  unfold Double.ofBits
  dsimp only
  split
  next greatest =>
    exfalso
    have allOnes : @unpackExponent .binary64 value.toModel.toBits.toBitVec = -1#_ := by
      apply BitVec.eq_of_toNat_eq
      rw [unpackExponent, BitVec.toNat_cast, BitVec.extractLsb_toNat, Nat.shiftRight_eq_div_pow]
      exact greatest
    change (UnpackedFloat.unpack .binary64 value.toModel.toBits.toBitVec).isFinite = true at finite
    unfold UnpackedFloat.unpack at finite
    rw [allOnes, if_pos rfl] at finite
    split at finite <;> cases finite
  next =>
    split
    next => exact ⟨_, _, _, rfl⟩
    next => exact ⟨_, _, _, rfl⟩

/-! ## Steps between doubles -/

section Steps

variable {mantissa : Nat} {exponent : Int}

/-- In quarters of its step. -/
theorem two_zpow_eq (exponent : Int) : (2 : ℚ) ^ exponent = 4 * 2 ^ (exponent - 2) := by
  rw [zpow_sub₀ (by norm_num)]
  norm_num
  ring

theorem signedMantissa_le (negative : Bool) (mantissa : Nat) :
    signedMantissa negative mantissa ≤ mantissa := by
  cases negative <;> simp [signedMantissa]

/-- A double with a smaller exponent stays below those with all bits. -/
theorem le_step_of_lt_exponent
    (binary : IsBinary64 mantissa exponent) {negative : Bool} {otherMantissa : Nat}
    {otherExponent : Int} (otherBinary : IsBinary64 otherMantissa otherExponent)
    (less : otherExponent < exponent) :
    signed negative otherMantissa otherExponent ≤
      (4 * mantissa - 2 * reach mantissa exponent) * 2 ^ (exponent - 2) := by
  have positive : (0 : ℚ) < 2 ^ (exponent - 2) := by positivity
  have full : 2 ^ 52 ≤ mantissa := binary.full (by have := otherBinary.least; omega)
  have bounded : 2 ^ 54 - 2 ≤ 4 * mantissa - 2 * reach mantissa exponent := by
    have notLeast : exponent ≠ leastExponent := by
      have := otherBinary.least
      rw [leastExponent]
      omega
    rw [reach, leastNormalMantissa_eq]
    split <;> omega
  have roomy : 2 * reach mantissa exponent ≤ 4 * mantissa := by omega
  have boundedAbove :
      (2 ^ 54 - 2 : ℚ) ≤ 4 * mantissa - 2 * reach mantissa exponent := by
    have counted := (Nat.cast_le (α := ℚ)).mpr bounded
    rw [Nat.cast_sub roomy] at counted
    push_cast at counted
    exact le_trans (by norm_num) counted
  have mantissaBound : (signedMantissa negative otherMantissa : ℚ) ≤ 2 ^ 53 - 1 := by
    have small := otherBinary.small
    have signedSmall := signedMantissa_le negative otherMantissa
    have counted : signedMantissa negative otherMantissa ≤ 2 ^ 53 - 1 := by omega
    exact_mod_cast counted
  calc
    signed negative otherMantissa otherExponent
    _ ≤ (2 ^ 53 - 1) * 2 ^ otherExponent :=
      mul_le_mul_of_nonneg_right mantissaBound (by positivity)
    _ ≤ (2 ^ 53 - 1) * 2 ^ (exponent - 1) := by
      apply mul_le_mul_of_nonneg_left _ (by norm_num)
      exact zpow_le_zpow_right₀ (by norm_num) (by omega)
    _ = (2 ^ 54 - 2) * 2 ^ (exponent - 2) := by
      have halved : (2 : ℚ) ^ (exponent - 1) = 2 * 2 ^ (exponent - 2) := by
        rw [← zpow_one_add₀ (by norm_num)]
        congr 1
        omega
      rw [halved]
      ring
    _ ≤ (4 * mantissa - 2 * reach mantissa exponent) * 2 ^ (exponent - 2) :=
      mul_le_mul_of_nonneg_right boundedAbove positive.le

/-- Any other double is a step above or below. -/
theorem step_of_ne
    (binary : IsBinary64 mantissa exponent)
    {negative : Bool} {otherMantissa : Nat} {otherExponent : Int}
    (otherBinary : IsBinary64 otherMantissa otherExponent)
    (different : signed negative otherMantissa otherExponent ≠ mantissa * 2 ^ exponent) :
    signed negative otherMantissa otherExponent ≤
        (4 * mantissa - 2 * reach mantissa exponent) * 2 ^ (exponent - 2) ∨
      (4 * mantissa + 4) * 2 ^ (exponent - 2) ≤ signed negative otherMantissa otherExponent := by
  rcases lt_or_ge otherExponent exponent with less | notLess
  · exact Or.inl (le_step_of_lt_exponent binary otherBinary less)
  · obtain ⟨shift, rfl⟩ := Int.le.dest notLess
    have quarterPos : (0 : ℚ) < 2 ^ (exponent - 2) := by positivity
    -- The other double is a whole number of steps.
    have whole :
        signed negative otherMantissa (exponent + shift) =
          (signedMantissa negative otherMantissa * 2 ^ shift : ℤ) * 2 ^ exponent := by
      rw [signed, zpow_add₀ (by norm_num), zpow_natCast]
      push_cast
      ring
    rw [whole] at different ⊢
    generalize signedMantissa negative otherMantissa * 2 ^ shift = steps at different
    rw [two_zpow_eq, ← mul_assoc, mul_comm _ (4 : ℚ)]
    have notSame : steps ≠ mantissa := by
      rintro rfl
      exact different (by norm_num)
    rcases lt_or_gt_of_ne notSame with below | above
    · left
      apply mul_le_mul_of_nonneg_right _ quarterPos.le
      have reachSmall := (reach_bounds mantissa exponent).2
      have counted : 4 * steps ≤ 4 * mantissa - 2 * reach mantissa exponent := by omega
      exact_mod_cast counted
    · right
      apply mul_le_mul_of_nonneg_right _ quarterPos.le
      have counted : (4 * mantissa + 4 : ℤ) ≤ 4 * steps := by omega
      exact_mod_cast counted

/-- One number is nearer to a double than to another one, or it is as near to both and the
double has an even mantissa. -/
def Prefers (number double other : ℚ) (mantissa : Nat) : Prop :=
  |number - double| < |number - other| ∨
    |number - double| = |number - other| ∧ mantissa % 2 = 0

theorem prefers_of_le {number double other : ℚ}
    (near : |number - double| ≤ |number - other|)
    (even : |number - double| = |number - other| → mantissa % 2 = 0) :
    Prefers number double other mantissa :=
  (lt_or_eq_of_le near).imp_right fun same => ⟨same, even same⟩

theorem IsReadAs.prefers {number other : ℚ}
    (reads : IsReadAs mantissa exponent number)
    (apart : other ≤ (4 * mantissa - 2 * reach mantissa exponent) * 2 ^ (exponent - 2) ∨
      (4 * mantissa + 4) * 2 ^ (exponent - 2) ≤ other) :
    Prefers number (mantissa * 2 ^ exponent) other mantissa := by
  obtain ⟨notBelow, notAbove, atEnds⟩ := reads
  have quarterPos : (0 : ℚ) < 2 ^ (exponent - 2) := by positivity
  have reachPos : (0 : ℚ) < reach mantissa exponent := by exact_mod_cast (reach_bounds _ _).1
  rw [two_zpow_eq]
  generalize (2 : ℚ) ^ (exponent - 2) = part at *
  generalize (reach mantissa exponent : ℚ) = below at *
  have lengthPos : 0 < below * part := mul_pos reachPos quarterPos
  rcases apart with otherBelow | otherAbove
  · have distance : |number - other| = number - other := abs_of_nonneg (by linarith)
    rcases le_total (mantissa * (4 * part)) number with above | under
    · left
      rw [distance, abs_of_nonneg (by linarith)]
      linarith
    · have ownDistance : |number - mantissa * (4 * part)| = mantissa * (4 * part) - number := by
        rw [abs_sub_comm]
        exact abs_of_nonneg (by linarith)
      apply prefers_of_le
      · rw [distance, ownDistance]
        linarith
      · rw [distance, ownDistance]
        exact fun same => atEnds (Or.inl (by linarith))
  · have distance : |number - other| = other - number := by
      rw [abs_sub_comm]
      exact abs_of_nonneg (by linarith)
    rcases le_total number (mantissa * (4 * part)) with under | above
    · left
      rw [distance, abs_sub_comm, abs_of_nonneg (by linarith)]
      linarith
    · have ownDistance : |number - mantissa * (4 * part)| = number - mantissa * (4 * part) :=
        abs_of_nonneg (by linarith)
      apply prefers_of_le
      · rw [distance, ownDistance]
        linarith
      · rw [distance, ownDistance]
        exact fun same => atEnds (Or.inr (by linarith))

end Steps

/-! ## Rounding -/

/-- A number is read as a double: of all doubles that is the one it prefers. -/
def RoundsTo (number : ℚ) (value : Float) : Prop :=
  ∃ negative mantissa exponent,
    Double.ofFloat value = .finite negative mantissa exponent ∧
      ∀ other rational, (Double.ofFloat other).rational? = some rational →
        rational ≠ signed negative mantissa exponent →
          Prefers number (signed negative mantissa exponent) rational mantissa

/-- The decimal number that a double is spoken as. -/
def spokenNumber (value : Float) : ℚ :=
  match Double.ofFloat value with
  | .finite negative mantissa exponent =>
      if mantissa = 0 then
        0
      else
        let found := shortest .up mantissa exponent
        signedMantissa negative found.digits * 10 ^ found.power
  | _ => 0

theorem signed_false (mantissa : Nat) (exponent : Int) :
    signed false mantissa exponent = mantissa * 2 ^ exponent := by
  simp [signed, signedMantissa]

theorem signed_true (mantissa : Nat) (exponent : Int) :
    signed true mantissa exponent = -(mantissa * 2 ^ exponent) := by
  simp [signed, signedMantissa]

theorem signed_not (negative : Bool) (mantissa : Nat) (exponent : Int) :
    signed (!negative) mantissa exponent = -signed negative mantissa exponent := by
  cases negative <;> simp [signed_false, signed_true]

theorem Prefers.neg {number double other : ℚ} {mantissa : Nat}
    (prefers : Prefers number double (-other) mantissa) :
    Prefers (-number) (-double) other mantissa := by
  have own : |-number - -double| = |number - double| := by
    rw [neg_sub_neg, abs_sub_comm]
  have distance : |-number - other| = |number - -other| := by
    rw [sub_neg_eq_add, ← abs_neg, neg_sub, sub_neg_eq_add, add_comm]
  rw [Prefers, own, distance]
  exact prefers

/-- The shortest decimal of a double that is not zero, without its sign. -/
theorem prefers_shortest
    {mantissa otherMantissa : Nat} {exponent otherExponent : Int}
    (binary : IsBinary64 mantissa exponent) (positive : 0 < mantissa)
    (otherBinary : IsBinary64 otherMantissa otherExponent) (negative : Bool)
    (different : signed negative otherMantissa otherExponent ≠ mantissa * 2 ^ exponent) :
    Prefers
      ((shortest .up mantissa exponent).digits * 10 ^ (shortest .up mantissa exponent).power)
      (mantissa * 2 ^ exponent) (signed negative otherMantissa otherExponent) mantissa := by
  have reads := isReadAs_shortest .up positive binary.small binary.least binary.greatest
  exact reads.prefers (step_of_ne binary otherBinary different)

/-- A double is the nearest one to the number that it is spoken as. -/
theorem roundsTo_spokenNumber {value : Float} (finite : value.isFinite = true) :
    RoundsTo (spokenNumber value) value := by
  obtain ⟨negative, mantissa, exponent, parts⟩ := exists_ofFloat_eq finite
  refine ⟨negative, mantissa, exponent, parts, fun other rational isRational different => ?_⟩
  have binary := isBinary64_of_ofBits parts
  rw [spokenNumber, parts]
  dsimp only
  by_cases zero : mantissa = 0
  · rw [if_pos zero]
    subst zero
    apply prefers_of_le
    · simp [signed, signedMantissa]
    · intro
      rfl
  · rw [if_neg zero]
    have positive := Nat.pos_of_ne_zero zero
    cases otherParts : Double.ofFloat other with
    | notANumber =>
        rw [otherParts] at isRational
        cases isRational
    | infinite =>
        rw [otherParts] at isRational
        cases isRational
    | finite otherNegative otherMantissa otherExponent =>
        rw [otherParts] at isRational
        cases isRational
        have otherBinary := isBinary64_of_ofBits otherParts
        cases negative with
        | false =>
            rw [signed_false] at different
            rw [signed_false]
            exact prefers_shortest binary positive otherBinary otherNegative different
        | true =>
            rw [signed_true] at different
            have opposite : signed (!otherNegative) otherMantissa otherExponent ≠
                mantissa * 2 ^ exponent := by
              rw [signed_not]
              exact fun same => different (neg_eq_iff_eq_neg.mp same)
            have prefers := prefers_shortest binary positive otherBinary (!otherNegative) opposite
            rw [signed_not] at prefers
            have digitsNeg :
                (signedMantissa true (shortest .up mantissa exponent).digits : ℚ) *
                    10 ^ (shortest .up mantissa exponent).power =
                  -((shortest .up mantissa exponent).digits *
                    10 ^ (shortest .up mantissa exponent).power) := by
              rw [signedMantissa, if_pos rfl, Int.cast_neg, Int.cast_natCast, neg_mul]
            rw [signed_true, digitsNeg]
            exact prefers.neg

end Mixdown.Decimal
