import Mixdown.Proofs.Nearest
import Mixdown.Proofs.Signs

/-!
# Doubles by their values

A finite double has a rational value, and doubles are ordered as their values are.  A double
rounds a number if it is the nearest one that there is, or infinite where the number is too
great.
-/

namespace Mixdown.Double

open Float.Model (Format UnpackedFloat totalExponent)
open Float.Model.UnpackedFloat

/-! ## Comparing -/

section Comparing

variable {mantissa otherMantissa : ℕ} {exponent otherExponent : ℤ}

theorem compare_of_lt_exponent
    (small : mantissa < 2 ^ 53) (least : -1074 ≤ exponent)
    (filled : otherExponent = -1074 ∨ 2 ^ 52 ≤ otherMantissa) (less : exponent < otherExponent) :
    (mantissa : ℚ) * 2 ^ exponent < otherMantissa * 2 ^ otherExponent := by
  have many : (2 ^ 52 : ℚ) ≤ otherMantissa := by
    exact_mod_cast filled.resolve_left (by omega)
  have few : (mantissa : ℚ) < 2 ^ 53 := by
    exact_mod_cast small
  calc
    (mantissa : ℚ) * 2 ^ exponent < 2 ^ 53 * 2 ^ exponent :=
      mul_lt_mul_of_pos_right few (by positivity)
    _ = 2 ^ 52 * 2 ^ (exponent + 1) := by
      rw [zpow_add₀ (by norm_num)]
      ring
    _ ≤ 2 ^ 52 * 2 ^ otherExponent := by
      apply mul_le_mul_of_nonneg_left _ (by norm_num)
      exact zpow_le_zpow_right₀ (by norm_num) less
    _ ≤ otherMantissa * 2 ^ otherExponent := mul_le_mul_of_nonneg_right many (by positivity)

theorem compare_parts
    (small : mantissa < 2 ^ 53) (otherSmall : otherMantissa < 2 ^ 53) (least : -1074 ≤ exponent)
    (otherLeast : -1074 ≤ otherExponent) (filled : exponent = -1074 ∨ 2 ^ 52 ≤ mantissa)
    (otherFilled : otherExponent = -1074 ∨ 2 ^ 52 ≤ otherMantissa) :
    (compare exponent otherExponent).then (compare mantissa otherMantissa) =
      compare ((mantissa : ℚ) * 2 ^ exponent) (otherMantissa * 2 ^ otherExponent) := by
  rcases lt_trichotomy exponent otherExponent with less | rfl | greater
  · rw [Int.compare_eq_lt.mpr less, Ordering.lt_then, eq_comm, compare_lt_iff_lt]
    exact compare_of_lt_exponent small least otherFilled less
  · rw [Std.compare_self, Ordering.eq_then]
    have positive : (0 : ℚ) < 2 ^ exponent := by positivity
    rcases lt_trichotomy mantissa otherMantissa with below | rfl | above
    · rw [Nat.compare_eq_lt.mpr below, eq_comm, compare_lt_iff_lt]
      exact mul_lt_mul_of_pos_right (Nat.cast_lt.mpr below) positive
    · rw [Std.compare_self, Std.compare_self]
    · rw [Nat.compare_eq_gt.mpr above, eq_comm, compare_gt_iff_gt]
      exact mul_lt_mul_of_pos_right (Nat.cast_lt.mpr above) positive
  · rw [Int.compare_eq_gt.mpr greater, Ordering.gt_then, eq_comm, compare_gt_iff_gt]
    exact compare_of_lt_exponent otherSmall otherLeast filled greater

end Comparing

section Values

variable {first second : UnpackedFloat}

theorem rational_pos {mantissa : ℕ} (positive : 0 < mantissa) (exponent : ℤ) :
    (0 : ℚ) < mantissa * 2 ^ exponent :=
  mul_pos (Nat.cast_pos.mpr positive) (by positivity)

theorem compare_neg (number other : ℚ) : compare (-number) (-other) = compare other number := by
  rw [← cmp_eq_compare, ← cmp_eq_compare]
  exact StrictAnti.cmp_map_eq (fun _ _ => neg_lt_neg) number other

/-- Finite doubles compare as the numbers that they stand for. -/
theorem compare_eq (canonical : IsCanonical first) (otherCanonical : IsCanonical second) :
    first.compare second = some (compare (rational first) (rational second)) := by
  cases first with
  | notANumber => cases canonical.finite
  | infinity sign => cases canonical.finite
  | zero sign =>
      cases second with
      | notANumber => cases otherCanonical.finite
      | infinity otherSign => cases otherCanonical.finite
      | zero otherSign => exact congrArg some (Std.compare_self (a := (0 : ℚ))).symm
      | finite otherSign mantissa exponent positive =>
          have above := rational_pos positive exponent
          cases otherSign with
          | positive => exact congrArg some (compare_lt_iff_lt.mpr above).symm
          | negative => exact congrArg some (compare_gt_iff_gt.mpr (neg_neg_of_pos above)).symm
  | finite sign mantissa exponent positive =>
      have above := rational_pos positive exponent
      cases second with
      | notANumber => cases otherCanonical.finite
      | infinity otherSign => cases otherCanonical.finite
      | zero otherSign =>
          cases sign with
          | positive => exact congrArg some (compare_gt_iff_gt.mpr above).symm
          | negative => exact congrArg some (compare_lt_iff_lt.mpr (neg_neg_of_pos above)).symm
      | finite otherSign otherMantissa otherExponent otherPositive =>
          have otherAbove := rational_pos otherPositive otherExponent
          have parts := compare_parts canonical.fits.1 otherCanonical.fits.1 canonical.fits.2
            otherCanonical.fits.2 canonical.filled otherCanonical.filled
          cases sign with
          | positive =>
              cases otherSign with
              | positive => exact congrArg some parts
              | negative =>
                  have below := (neg_neg_of_pos otherAbove).trans above
                  exact congrArg some (compare_gt_iff_gt.mpr below).symm
          | negative =>
              cases otherSign with
              | positive =>
                  have below := (neg_neg_of_pos above).trans otherAbove
                  exact congrArg some (compare_lt_iff_lt.mpr below).symm
              | negative =>
                  change some (Ordering.swap _) = _
                  rw [parts, ← Std.OrientedOrd.eq_swap]
                  exact congrArg some (compare_neg _ _).symm

end Values

/-! ## Packing -/

section Packing

variable {sign : Sign} {mantissa : ℕ} {exponent : ℤ} {positive : 0 < mantissa}

theorem finite_congr
    {otherMantissa : ℕ} {otherExponent : ℤ} (otherPositive : 0 < otherMantissa)
    (sameMantissa : otherMantissa = mantissa) (sameExponent : otherExponent = exponent) :
    UnpackedFloat.finite sign otherMantissa otherExponent otherPositive =
      .finite sign mantissa exponent positive := by
  subst sameMantissa sameExponent
  rfl

theorem unpack_normal
    {biased : BitVec 11} {fraction : BitVec 52} (notMaximal : biased ≠ -1#11)
    (notLeast : biased ≠ 0#11) (sameMantissa : 2 ^ 52 + fraction.toNat = mantissa)
    (sameExponent : (biased.toNat : ℤ) - 1075 = exponent) :
    unpack .binary64 (packComponents .binary64 sign biased fraction) =
      .finite sign mantissa exponent positive := by
  unfold unpack
  simp only [unpackMantissa_packComponents, unpackExponent_packComponents,
    unpackSign_packComponents, Sign.ofBitVec_toBitVec, if_neg notMaximal, if_neg notLeast]
  apply finite_congr
  · rw [BitVec.toNat_append, ← Nat.shiftLeft_add_eq_or_of_lt fraction.isLt]
    exact sameMantissa
  · rw [← sameExponent]
    have bias : Format.binary64.exponentBias = 1023 := by decide
    rw [bias]
    rfl

theorem unpack_subnormal
    {fraction : BitVec 52} (notZero : fraction ≠ 0#52) (same : fraction.toNat = mantissa) :
    unpack .binary64 (packComponents .binary64 sign 0#11 fraction) =
      .finite sign mantissa (-1074) positive := by
  have notMaximal : 0#11 ≠ -1#11 := by decide
  unfold unpack
  simp only [unpackMantissa_packComponents, unpackExponent_packComponents,
    unpackSign_packComponents, Sign.ofBitVec_toBitVec, if_neg notMaximal]
  rw [if_true, dif_neg notZero]
  exact finite_congr _ same rfl

/-- A canonical value up to the greatest exponent is a double. -/
theorem unpack_pack_of_le
    (canonical : IsCanonical (.finite sign mantissa exponent positive))
    (inRange : exponent ≤ 971) :
    unpack .binary64 (pack .binary64 (.finite sign mantissa exponent positive)) =
      .finite sign mantissa exponent positive := by
  have bias : Format.binary64.exponentBias = 1023 := by decide
  obtain ⟨small, least⟩ := canonical.fits
  have nonzero := Nat.pos_iff_ne_zero.mp positive
  unfold pack
  dsimp only
  rw [if_neg (by rw [bias]; omega)]
  by_cases large : 2 ^ 52 ≤ mantissa
  · have log : mantissa.log2 = 52 := (Nat.log2_eq_iff nonzero).mpr ⟨large, small⟩
    rw [if_pos (by rw [log]; rfl)]
    have biased : (BitVec.ofNat 11 (exponent + 1023 + 52).toNat).toNat =
        (exponent + 1023 + 52).toNat := by
      rw [BitVec.toNat_ofNat]
      omega
    have notMaximal : BitVec.ofNat 11 (exponent + 1023 + 52).toNat ≠ -1#11 := by
      rw [ne_eq, ← BitVec.toNat_inj, biased]
      change ¬ _ = 2047
      omega
    have notLeast : BitVec.ofNat 11 (exponent + 1023 + 52).toNat ≠ 0#11 := by
      rw [ne_eq, ← BitVec.toNat_inj, biased]
      change ¬ _ = 0
      omega
    apply unpack_normal notMaximal notLeast
    · rw [BitVec.toNat_ofNat]
      omega
    · rw [biased]
      omega
  · have log : mantissa.log2 < 52 := (Nat.log2_lt nonzero).mpr (by omega)
    rw [if_neg (by change ¬ mantissa.log2 + 1 = 53; omega)]
    obtain rfl : exponent = -1074 := canonical.filled.resolve_right large
    have bits : (BitVec.ofNat 52 mantissa).toNat = mantissa := by
      rw [BitVec.toNat_ofNat]
      omega
    apply unpack_subnormal _ bits
    rw [ne_eq, ← BitVec.toNat_inj, bits]
    exact nonzero

/-- A canonical value with a greater exponent is packed as infinite. -/
theorem unpack_pack_of_lt (positive : 0 < mantissa) (beyond : 971 < exponent) :
    unpack .binary64 (pack .binary64 (.finite sign mantissa exponent positive)) =
      .infinity sign := by
  have bias : Format.binary64.exponentBias = 1023 := by decide
  unfold pack
  dsimp only
  rw [if_pos (by rw [bias]; omega)]
  cases sign <;> rfl

end Packing

/-! ## Rounded results -/

/-- The least power of two that is greater than any finite double. -/
@[irreducible]
def limit : ℚ :=
  2 ^ (1024 : ℤ)

theorem limit_pos : 0 < limit := by
  rw [limit]
  positivity

/-- The number that a finite double stands for. -/
def valueOf (double : Float) : ℚ :=
  rational double.toModel.unpack

/-- A double is the nearest one to a number, and infinite if that is too great. -/
inductive Rounds (number : ℚ) (value : Float) : Prop
  | finite (isFinite : value.isFinite = true)
      (same : valueOf value = nearest number) : Rounds number value
  | infinite (sign : Sign) (isInfinite : value.toModel.unpack = .infinity sign)
      (beyond : limit ≤ withSign sign (nearest number)) : Rounds number value

theorem withSign_withSign (sign : Sign) (number : ℚ) :
    withSign sign (withSign sign number) = number := by
  cases sign with
  | positive => rfl
  | negative => exact neg_neg number

theorem rounds_of_isNearest
    {number : ℚ} {value : UnpackedFloat} (near : IsNearest number value) :
    Rounds number (Float.ofModel (.pack value)) := by
  obtain ⟨canonical, same⟩ := near
  cases value with
  | notANumber => cases canonical.finite
  | infinity sign => cases canonical.finite
  | zero sign => cases sign <;> exact .finite rfl same
  | finite sign mantissa exponent positive =>
      rcases le_or_gt exponent 971 with inRange | beyond
      · have unpacked := unpack_pack_of_le canonical inRange
        have isFinite : (Float.ofModel (.pack (.finite sign mantissa exponent positive))).isFinite =
            true :=
          congrArg UnpackedFloat.isFinite unpacked
        exact .finite isFinite ((congrArg rational unpacked).trans same)
      · refine .infinite sign (unpack_pack_of_lt positive beyond) ?_
        have large : (2 ^ 52 : ℚ) ≤ mantissa := by
          exact_mod_cast canonical.filled.resolve_left (by omega)
        rw [← same, rational, withSign_withSign]
        calc
          limit = 2 ^ 52 * 2 ^ (972 : ℤ) := by
            rw [limit, ← zpow_natCast, ← zpow_add₀ (by norm_num)]
            rfl
          _ ≤ mantissa * 2 ^ exponent := by
            apply mul_le_mul large _ (by positivity) (by positivity)
            exact zpow_le_zpow_right₀ (by norm_num) beyond

/-! ## Finite doubles -/

theorem nearest_rational {value : UnpackedFloat} (canonical : IsCanonical value) :
    nearest (rational value) = rational value := by
  cases value with
  | notANumber => exact nearest_zero
  | infinity sign => exact nearest_zero
  | zero sign => exact nearest_zero
  | finite sign mantissa exponent positive =>
      obtain ⟨small, least⟩ := canonical.fits
      have long : IsLong mantissa exponent :=
        canonical.filled.symm.imp_right le_of_eq
      have step := stepExponent_mul_zpow long (Nat.cast_pos.mpr positive)
        (le_refl (mantissa : ℚ)) (lt_add_one _)
      have noExcess : excess mantissa exponent = 0 := by
        rcases excess_of_le small.le least with ⟨_, none⟩ | ⟨large, _⟩
        · exact none
        · omega
      rw [noExcess, Nat.cast_zero, add_zero] at step
      rw [rational, nearest_withSign, nearest, ← step, mul_div_cancel_right₀ _ (by positivity),
        ← Int.cast_natCast, toEven_intCast]

theorem exponent_unpack_le
    {bits : BitVec Format.binary64.numBits} {sign : Sign} {mantissa : ℕ} {exponent : ℤ}
    {positive : 0 < mantissa}
    (unpacked : unpack .binary64 bits = .finite sign mantissa exponent positive) :
    exponent ≤ 971 := by
  have bias : Format.binary64.exponentBias = 1023 := by decide
  unfold unpack at unpacked
  dsimp only at unpacked
  split at unpacked
  · split at unpacked <;> cases unpacked
  next notMaximal =>
    have small : (@unpackExponent .binary64 bits).toNat ≠ 2047 := by
      intro maximal
      exact notMaximal (BitVec.eq_of_toNat_eq maximal)
    have bounded := (@unpackExponent .binary64 bits).isLt
    change _ < 2048 at bounded
    split at unpacked
    next least =>
      split at unpacked
      · cases unpacked
      · cases unpacked
        have zero : (@unpackExponent .binary64 bits).toNat = 0 := congrArg BitVec.toNat least
        rw [zero, bias]
        decide
    · cases unpacked
      rw [bias]
      omega

section Doubles

variable {first second : Float}

theorem isCanonical (finite : first.isFinite = true) : IsCanonical first.toModel.unpack :=
  ⟨finite, fits_toModel first, filled_unpack _⟩

theorem rounds_self (finite : first.isFinite = true) :
    Rounds (valueOf first) first :=
  .finite finite (nearest_rational (isCanonical finite)).symm

theorem abs_rational_lt (finite : first.isFinite = true) :
    |valueOf first| < limit := by
  have canonical := isCanonical finite
  unfold valueOf
  cases unpacked : first.toModel.unpack with
  | notANumber => exact abs_zero.trans_lt limit_pos
  | infinity sign => exact abs_zero.trans_lt limit_pos
  | zero sign => exact abs_zero.trans_lt limit_pos
  | finite sign mantissa exponent positive =>
      rw [unpacked] at canonical
      have atMost : exponent ≤ 971 := exponent_unpack_le unpacked
      have few : (mantissa : ℚ) < 2 ^ 53 := by
        exact_mod_cast canonical.fits.1
      have withoutSign : |rational (.finite sign mantissa exponent positive)| =
          mantissa * 2 ^ exponent := by
        have above := rational_pos positive exponent
        cases sign with
        | positive => exact abs_of_pos above
        | negative => exact (abs_neg _).trans (abs_of_pos above)
      rw [withoutSign]
      calc
        (mantissa : ℚ) * 2 ^ exponent < 2 ^ 53 * 2 ^ exponent :=
          mul_lt_mul_of_pos_right few (by positivity)
        _ ≤ 2 ^ 53 * 2 ^ (971 : ℤ) := by
          apply mul_le_mul_of_nonneg_left _ (by norm_num)
          exact zpow_le_zpow_right₀ (by norm_num) atMost
        _ = limit := by
          rw [limit, ← zpow_natCast, ← zpow_add₀ (by norm_num)]
          rfl

theorem le_iff_rational (finite : first.isFinite = true) (otherFinite : second.isFinite = true) :
    first ≤ second ↔ valueOf first ≤ valueOf second := by
  rw [le_iff_compare, compare_eq (isCanonical finite) (isCanonical otherFinite)]
  exact Std.LawfulBCmp.isLE_iff_le

theorem le_infinity {value : UnpackedFloat} (number : value ≠ .notANumber) :
    (value.compare (.infinity .positive)).any Ordering.isLE = true := by
  cases value with
  | notANumber => exact absurd rfl number
  | infinity sign => cases sign <;> rfl
  | zero sign => rfl
  | finite sign => cases sign <;> rfl

theorem infinity_le {value : UnpackedFloat} (number : value ≠ .notANumber) :
    (UnpackedFloat.compare (.infinity .negative) value).any Ordering.isLE = true := by
  cases value with
  | notANumber => exact absurd rfl number
  | infinity sign => cases sign <;> rfl
  | zero sign => rfl
  | finite sign => cases sign <;> rfl

theorem Rounds.ne_notANumber {number : ℚ} (rounds : Rounds number first) :
    first.toModel.unpack ≠ .notANumber := by
  intro isNaN
  cases rounds with
  | finite isFinite same =>
      change first.toModel.unpack.isFinite = true at isFinite
      rw [isNaN] at isFinite
      cases isFinite
  | infinite sign isInfinite beyond =>
      rw [isNaN] at isInfinite
      cases isInfinite

/-- Doubles nearest to numbers are ordered as these are. -/
theorem Rounds.le
    {number other : ℚ} (rounds : Rounds number first) (otherRounds : Rounds other second)
    (ordered : number ≤ other) : first ≤ second := by
  have near := nearest_mono ordered
  have isNumber := rounds.ne_notANumber
  have otherIsNumber := otherRounds.ne_notANumber
  cases rounds with
  | finite isFinite same =>
      have bounds := abs_lt.mp (abs_rational_lt isFinite)
      cases otherRounds with
      | finite otherIsFinite otherSame =>
          rw [le_iff_rational isFinite otherIsFinite, same, otherSame]
          exact near
      | infinite sign isInfinite beyond =>
          cases sign with
          | positive =>
              rw [le_iff_compare, isInfinite]
              exact le_infinity isNumber
          | negative =>
              change limit ≤ -nearest other at beyond
              linarith
  | infinite sign isInfinite beyond =>
      cases sign with
      | positive =>
          change limit ≤ nearest number at beyond
          cases otherRounds with
          | finite otherIsFinite otherSame =>
              have bounds := abs_lt.mp (abs_rational_lt otherIsFinite)
              linarith
          | infinite otherSign otherIsInfinite otherBeyond =>
              cases otherSign with
              | positive =>
                  rw [le_iff_compare, otherIsInfinite]
                  exact le_infinity isNumber
              | negative =>
                  have positive := limit_pos
                  change limit ≤ -nearest other at otherBeyond
                  linarith
      | negative =>
          rw [le_iff_compare, isInfinite]
          exact infinity_le otherIsNumber

end Doubles

end Mixdown.Double
