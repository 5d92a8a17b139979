import Mathlib
import Mixdown.Proofs.Double

/-!
# How doubles are rounded

Rounding keeps the sign, and rounds no positive number of whole least units to zero.
What is rounded fits a double, so that packing it keeps how it compares to zero.

The lemmas on the bits of doubles, such as `unpackSign_packComponents` and `pack_unpack`,
come with no smaller import than that of all of Mathlib.
-/

namespace Mixdown.Double

open Float.Model (Format UnpackedFloat totalExponent)
open Float.Model.UnpackedFloat

/-! ## Shifting -/

theorem mantissa_shiftRight (extended : ExtendedMantissa) (amount : Nat) :
    (extended >>> amount).mantissa = extended.mantissa / 2 ^ amount := by
  change (amount.repeat ExtendedMantissa.shiftRightOne extended).mantissa = _
  induction amount with
  | zero => exact (Nat.div_one _).symm
  | succ amount inductionHypothesis =>
      rw [Nat.repeat, Nat.pow_succ, ← Nat.div_div_eq_div_mul, ← inductionHypothesis]
      rfl

theorem mantissa_ofMantissaAndAccuracy (mantissa : Nat) (accuracy : Accuracy) :
    (ExtendedMantissa.ofMantissaAndAccuracy mantissa accuracy).mantissa = mantissa := by
  cases accuracy with
  | exact => rfl
  | inexact half => cases half <;> rfl

theorem le_roundedMantissa (extended : ExtendedMantissa) :
    extended.mantissa ≤ extended.roundedMantissa := by
  obtain ⟨mantissa, roundBit, stickyBit⟩ := extended
  cases roundBit with
  | false => cases stickyBit <;> exact Nat.le_refl mantissa
  | true =>
      cases stickyBit with
      | false => exact Nat.le_add_right mantissa _
      | true => exact Nat.le_succ mantissa

/-- The exponent that leaves 53 bits of a number, unless it is below the least one. -/
theorem targetExponent_eq (total : Int) :
    Format.binary64.targetExponent total = max (total - 53) (-1074) :=
  rfl

section Shifted

variable (mantissa : Nat) (exponent : Int) (accuracy : Accuracy)

/-- How far a mantissa is shifted for it to fit a double. -/
def excess : Nat :=
  (Format.binary64.targetExponent (totalExponent mantissa exponent) - exponent).toNat

theorem mantissa_shifted :
    (shiftToTargetExponent .binary64 mantissa exponent accuracy).1.mantissa =
      mantissa / 2 ^ excess mantissa exponent := by
  refine (mantissa_shiftRight _ (excess mantissa exponent)).trans ?_
  rw [mantissa_ofMantissaAndAccuracy]

theorem exponent_shifted :
    (shiftToTargetExponent .binary64 mantissa exponent accuracy).2 =
      exponent + excess mantissa exponent := by
  rfl

theorem least_le_exponent_shifted : -1074 ≤ exponent + excess mantissa exponent := by
  simp only [excess, targetExponent_eq]
  omega

theorem mantissa_shifted_lt : mantissa / 2 ^ excess mantissa exponent < 2 ^ 53 := by
  have enough : mantissa.log2 + 1 ≤ excess mantissa exponent + 53 := by
    simp only [excess, targetExponent_eq, totalExponent]
    omega
  rw [Nat.div_lt_iff_lt_mul (Nat.two_pow_pos _), ← Nat.pow_add, Nat.add_comm]
  exact Nat.lt_of_lt_of_le Nat.lt_log2_self (Nat.pow_le_pow_right Nat.two_pos enough)

/-- Only surplus bits are shifted out of a number of whole least units. -/
theorem mantissa_shifted_pos (positive : 0 < mantissa) (least : -1074 ≤ exponent) :
    0 < mantissa / 2 ^ excess mantissa exponent := by
  have few : excess mantissa exponent ≤ mantissa.log2 := by
    simp only [excess, targetExponent_eq, totalExponent]
    omega
  apply Nat.div_pos _ (Nat.two_pow_pos _)
  exact Nat.le_trans (Nat.pow_le_pow_right Nat.two_pos few)
    (Nat.log2_self_le (Nat.pos_iff_ne_zero.mp positive))

end Shifted

/-! ## Rounding -/

/-- What rounding with a sign gives. -/
inductive Rounded (sign : Sign) : UnpackedFloat → Prop
  | zero : Rounded sign (.zero sign)
  | finite (mantissa : Nat) (exponent : Int) (positive : 0 < mantissa)
      (fits : mantissa < 2 ^ 53) (least : -1074 ≤ exponent) :
      Rounded sign (.finite sign mantissa exponent positive)

section Rounding

variable (sign : Sign) (mantissa : Nat) (exponent : Int) (accuracy : Accuracy)

theorem rounded_roundWithAccuracy :
    Rounded sign (roundWithAccuracy .binary64 sign mantissa exponent accuracy) := by
  unfold roundWithAccuracy
  dsimp only
  split
  next => exact .zero
  next =>
    refine .finite _ _ _ ?_ ?_
    · rw [mantissa_shifted]
      exact mantissa_shifted_lt _ _
    · rw [exponent_shifted]
      exact least_le_exponent_shifted _ _

/-- A positive number of whole least units is not rounded to zero. -/
theorem roundWithAccuracy_ne_zero (positive : 0 < mantissa) (least : -1074 ≤ exponent) :
    roundWithAccuracy .binary64 sign mantissa exponent accuracy ≠ .zero sign := by
  have first := mantissa_shifted_pos mantissa exponent positive least
  rw [← mantissa_shifted mantissa exponent accuracy] at first
  have second :=
    mantissa_shifted_pos _ _ (Nat.lt_of_lt_of_le first (le_roundedMantissa _))
      (least_le_exponent_shifted mantissa exponent)
  rw [← mantissa_shifted _ _ .exact] at second
  unfold roundWithAccuracy
  dsimp only
  split
  next vanished => exact absurd vanished (Nat.pos_iff_ne_zero.mp second)
  next => exact UnpackedFloat.noConfusion

theorem rounded_round : Rounded sign (UnpackedFloat.round .binary64 sign mantissa exponent) :=
  rounded_roundWithAccuracy _ _ _ _

theorem round_ne_zero (positive : 0 < mantissa) (least : -1074 ≤ exponent) :
    UnpackedFloat.round .binary64 sign mantissa exponent ≠ .zero sign := by
  apply roundWithAccuracy_ne_zero
  · rw [Nat.shiftLeft_eq]
    exact Nat.mul_pos positive (Nat.two_pow_pos _)
  · rw [targetExponent_eq]
    omega

end Rounding

/-! ## What fits a double -/

/-- A finite number has at most 53 bits, and is made of whole least units. -/
def Fits : UnpackedFloat → Prop
  | .finite _ mantissa exponent _ => mantissa < 2 ^ 53 ∧ -1074 ≤ exponent
  | _ => True

theorem Rounded.fits {sign : Sign} {value : UnpackedFloat} (rounded : Rounded sign value) :
    Fits value := by
  cases rounded with
  | zero => exact trivial
  | finite mantissa exponent positive fits least => exact ⟨fits, least⟩

theorem fits_unpack (bits : BitVec Format.binary64.numBits) :
    Fits (unpack .binary64 bits) := by
  have bias : Format.binary64.exponentBias = 1023 := by decide
  unfold unpack
  dsimp only
  split
  · split <;> exact trivial
  · split
    · split
      · exact trivial
      · refine ⟨?_, ?_⟩
        · have small := (@unpackMantissa .binary64 bits).isLt
          simp only at small
          omega
        · rw [bias]
          omega
    next notLeast =>
      refine ⟨?_, ?_⟩
      · exact (1#1 ++ @unpackMantissa .binary64 bits).isLt
      · have positive := BitVec.toNat_pos_of_ne_zero notLeast
        rw [bias]
        omega

/-- A number with fewer bits than others has the least exponent. -/
def Filled : UnpackedFloat → Prop
  | .finite _ mantissa exponent _ => exponent = -1074 ∨ 2 ^ 52 ≤ mantissa
  | _ => True

theorem filled_unpack (bits : BitVec Format.binary64.numBits) :
    Filled (unpack .binary64 bits) := by
  have bias : Format.binary64.exponentBias = 1023 := by decide
  unfold unpack
  dsimp only
  split
  · split <;> exact trivial
  · split
    next least =>
      split
      · exact trivial
      · left
        have zero : (@unpackExponent .binary64 bits).toNat = 0 := congrArg BitVec.toNat least
        rw [zero, bias]
        rfl
    next =>
      right
      rw [BitVec.toNat_append]
      exact Nat.left_le_or

/-! ## Comparing to zero -/

/-- How a number compares to zero; what is no number does not. -/
def signum (value : UnpackedFloat) : Option Ordering :=
  value.compare (.zero .positive)

theorem signum_unpack_packedInfinity (sign : Sign) :
    signum (unpack .binary64 (packedInfinity .binary64 sign)) = signum (.infinity sign) := by
  cases sign <;> decide +kernel

theorem signum_finite
    (sign : Sign) (mantissa : Nat) (exponent : Int) (positive : 0 < mantissa) :
    signum (.finite sign mantissa exponent positive) = signum (.infinity sign) := by
  cases sign <;> rfl

theorem signum_unpack_packComponents
    (sign : Sign) {exponent : BitVec 11} {mantissa : BitVec 52} (notMaximal : exponent ≠ -1#11)
    (nonzero : exponent ≠ 0#11 ∨ mantissa ≠ 0#52) :
    signum (unpack .binary64 (packComponents .binary64 sign exponent mantissa)) =
      signum (.infinity sign) := by
  unfold unpack
  simp only [unpackMantissa_packComponents, unpackExponent_packComponents,
    unpackSign_packComponents, Sign.ofBitVec_toBitVec, if_neg notMaximal]
  by_cases least : exponent = 0#11
  · rw [if_pos least, dif_neg (nonzero.resolve_left (not_not_intro least))]
    exact signum_finite _ _ _ _
  · rw [if_neg least]
    exact signum_finite _ _ _ _

/-- Packing what fits keeps how it compares to zero. -/
theorem signum_unpack_pack {value : UnpackedFloat} (fits : Fits value) :
    signum (unpack .binary64 (pack .binary64 value)) = signum value := by
  cases value with
  | infinity sign => exact signum_unpack_packedInfinity sign
  | notANumber => decide +kernel
  | zero sign => cases sign <;> decide +kernel
  | finite sign mantissa exponent positive =>
      have bias : Format.binary64.exponentBias = 1023 := by decide
      obtain ⟨small, least⟩ := fits
      unfold pack
      dsimp only
      split
      next =>
        rw [signum_unpack_packedInfinity, signum_finite]
      next inRange =>
        split
        next normal =>
          have biased : BitVec.ofNat 11 (exponent + 1023 + 52).toNat ≠ -1#11 ∧
              BitVec.ofNat 11 (exponent + 1023 + 52).toNat ≠ 0#11 := by
            rw [bias] at inRange
            simp only [ne_eq, ← BitVec.toNat_inj, BitVec.toNat_ofNat]
            simp
            omega
          rw [signum_finite]
          exact signum_unpack_packComponents sign biased.1 (Or.inl biased.2)
        next subnormal =>
          have few : mantissa < 2 ^ 52 := by
            have bits : Format.binary64.mantissaBits = 53 := by decide
            have below := (Nat.log2_lt (Nat.pos_iff_ne_zero.mp positive)).mpr small
            rw [← Nat.log2_lt (Nat.pos_iff_ne_zero.mp positive)]
            omega
          have nonzero : BitVec.ofNat 52 mantissa ≠ 0#52 := by
            rw [ne_eq, ← BitVec.toNat_inj, BitVec.toNat_ofNat, Nat.mod_eq_of_lt few]
            exact Nat.pos_iff_ne_zero.mp positive
          rw [signum_finite]
          exact signum_unpack_packComponents sign (by decide) (Or.inr nonzero)

end Mixdown.Double
