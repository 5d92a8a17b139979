import Mixdown.Proofs.Values

/-!
# Arithmetic of doubles

Sums, differences, products and quotients of finite doubles round the exact results.
-/

namespace Mixdown.Double

open Float.Model (Format UnpackedFloat totalExponent)
open Float.Model.UnpackedFloat

/-! ## Operations -/

section Rounding

variable {mantissa : ℕ} {exponent : ℤ}

theorem isLong_decreased (positive : 0 < mantissa) (exponent : ℤ) :
    let amount :=
      (exponent - Format.binary64.targetExponent (totalExponent mantissa exponent)).toNat
    IsLong (mantissa <<< amount) (exponent - amount) := by
  simp only [IsLong, targetExponent_eq, totalExponent]
  rw [or_iff_not_imp_right]
  intro notLeast
  rw [Nat.shiftLeft_eq]
  calc
    2 ^ 52 ≤ 2 ^ (mantissa.log2 + _) := Nat.pow_le_pow_right Nat.two_pos (by omega)
    _ = 2 ^ mantissa.log2 * 2 ^ _ := Nat.pow_add _ _ _
    _ ≤ mantissa * 2 ^ _ :=
      Nat.mul_le_mul_right _ (Nat.log2_self_le (Nat.pos_iff_ne_zero.mp positive))

theorem represents_exact (mantissa : ℕ) :
    Represents (.ofMantissaAndAccuracy mantissa .exact) mantissa :=
  rfl

theorem isNearest_round (positive : 0 < mantissa) (exponent : ℤ) (sign : Sign) :
    IsNearest (withSign sign (mantissa * 2 ^ exponent))
      (UnpackedFloat.round .binary64 sign mantissa exponent) := by
  have long := isLong_decreased positive exponent
  dsimp only at long
  generalize isAmount : (exponent - Format.binary64.targetExponent
    (totalExponent mantissa exponent)).toNat = amount at long
  have same : (mantissa : ℚ) * 2 ^ exponent =
      (mantissa <<< amount : ℕ) * 2 ^ (exponent - amount) := by
    rw [Nat.shiftLeft_eq, zpow_sub₀ (by norm_num), zpow_natCast]
    push_cast
    field_simp
  have shifted : (0 : ℚ) < (mantissa <<< amount : ℕ) := by
    rw [Nat.shiftLeft_eq]
    exact_mod_cast Nat.mul_pos positive (Nat.two_pow_pos amount)
  rw [same]
  have near := isNearest_roundWithAccuracy long shifted (represents_exact _) sign
  rw [← isAmount] at near ⊢
  exact near

theorem isNearest_normalize (mantissa exponent : ℤ) (sign : Sign) :
    IsNearest (mantissa * 2 ^ exponent)
      (UnpackedFloat.normalize .binary64 mantissa exponent sign) := by
  unfold UnpackedFloat.normalize
  split
  next below =>
    have negative := Int.compare_eq_lt.mp below
    have near := isNearest_round (show 0 < (-mantissa).toNat by omega) exponent .negative
    have whole : (((-mantissa).toNat : ℕ) : ℚ) = -mantissa := by
      exact_mod_cast Int.toNat_of_nonneg (by omega : 0 ≤ -mantissa)
    rw [whole, neg_mul] at near
    change IsNearest (- -_) _ at near
    rwa [neg_neg] at near
  next same =>
    rw [Int.compare_eq_eq.mp same, Int.cast_zero, zero_mul]
    exact ⟨isCanonical_zero sign, nearest_zero.symm⟩
  next above =>
    have positive := Int.compare_eq_gt.mp above
    have near := isNearest_round (show 0 < mantissa.toNat by omega) exponent .positive
    have whole : ((mantissa.toNat : ℕ) : ℚ) = mantissa := by
      exact_mod_cast Int.toNat_of_nonneg positive.le
    rwa [whole] at near

end Rounding

section Operations

variable {first second : UnpackedFloat}

theorem isNearest_self (canonical : IsCanonical first) : IsNearest (rational first) first :=
  ⟨canonical, (nearest_rational canonical).symm⟩

/-- A mantissa is shifted by as many bits as its exponent is lowered. -/
theorem shiftLeft_mul_zpow (mantissa : ℕ) {exponent common : ℤ} (notAbove : common ≤ exponent) :
    ((mantissa <<< (exponent - common).toNat : ℕ) : ℚ) * 2 ^ common = mantissa * 2 ^ exponent := by
  rw [Nat.shiftLeft_eq, Nat.cast_mul, mul_assoc, Nat.cast_pow, ← zpow_natCast]
  rw [Nat.cast_ofNat, ← zpow_add₀ (by norm_num), Int.toNat_of_nonneg (by omega)]
  congr 2
  omega

/-- The number of a value whose exponent is lowered to a common one. -/
theorem rational_aligned
    {sign : Sign} {mantissa : ℕ} {exponent common : ℤ} {positive : 0 < mantissa}
    (notAbove : common ≤ exponent) :
    rational (.finite sign mantissa exponent positive) =
      (sign.apply (mantissa <<< (exponent - common).toNat : ℕ) : ℤ) * 2 ^ common := by
  rw [rational, ← shiftLeft_mul_zpow mantissa notAbove]
  cases sign with
  | positive => rfl
  | negative =>
      rw [Sign.apply]
      push_cast
      exact (neg_mul _ _).symm

theorem isNearest_add (canonical : IsCanonical first) (otherCanonical : IsCanonical second) :
    IsNearest (rational first + rational second) (UnpackedFloat.add .binary64 first second) := by
  cases first with
  | notANumber => cases canonical.finite
  | infinity sign => cases canonical.finite
  | zero sign =>
      cases second with
      | notANumber => cases otherCanonical.finite
      | infinity otherSign => cases otherCanonical.finite
      | zero otherSign =>
          rw [rational_zero, rational_zero, add_zero]
          cases sign <;> cases otherSign <;> exact ⟨isCanonical_zero _, nearest_zero.symm⟩
      | finite otherSign mantissa exponent positive =>
          rw [rational_zero, zero_add]
          exact isNearest_self otherCanonical
  | finite sign mantissa exponent positive =>
      cases second with
      | notANumber => cases otherCanonical.finite
      | infinity otherSign => cases otherCanonical.finite
      | zero otherSign =>
          rw [rational_zero, add_zero]
          exact isNearest_self canonical
      | finite otherSign otherMantissa otherExponent otherPositive =>
          rw [rational_aligned (min_le_left exponent otherExponent),
            rational_aligned (min_le_right exponent otherExponent), ← add_mul, ← Int.cast_add]
          exact isNearest_normalize _ _ _

theorem rational_neg_sign {mantissa : ℕ} {exponent : ℤ} {positive : 0 < mantissa} (sign : Sign) :
    rational (.finite (-sign) mantissa exponent positive) =
      -rational (.finite sign mantissa exponent positive) := by
  cases sign with
  | positive => rfl
  | negative => exact (neg_neg _).symm

theorem isNearest_sub (canonical : IsCanonical first) (otherCanonical : IsCanonical second) :
    IsNearest (rational first - rational second) (UnpackedFloat.sub .binary64 first second) := by
  cases first with
  | notANumber => cases canonical.finite
  | infinity sign => cases canonical.finite
  | zero sign =>
      cases second with
      | notANumber => cases otherCanonical.finite
      | infinity otherSign => cases otherCanonical.finite
      | zero otherSign =>
          rw [rational_zero, rational_zero, sub_zero]
          cases sign <;> cases otherSign <;> exact ⟨isCanonical_zero _, nearest_zero.symm⟩
      | finite otherSign mantissa exponent positive =>
          rw [rational_zero, zero_sub, ← rational_neg_sign]
          exact isNearest_self ⟨rfl, otherCanonical.fits, otherCanonical.filled⟩
  | finite sign mantissa exponent positive =>
      cases second with
      | notANumber => cases otherCanonical.finite
      | infinity otherSign => cases otherCanonical.finite
      | zero otherSign =>
          rw [rational_zero, sub_zero]
          exact isNearest_self canonical
      | finite otherSign otherMantissa otherExponent otherPositive =>
          rw [rational_aligned (min_le_left exponent otherExponent),
            rational_aligned (min_le_right exponent otherExponent), ← sub_mul, ← Int.cast_sub]
          exact isNearest_normalize _ _ _

theorem withSign_mul (sign otherSign : Sign) (number other : ℚ) :
    withSign (sign * otherSign) (number * other) =
      withSign sign number * withSign otherSign other := by
  cases sign <;> cases otherSign
  · exact (neg_mul_neg number other).symm
  · exact (neg_mul number other).symm
  · exact (mul_neg number other).symm
  · rfl

theorem isLong_mul
    {mantissa otherMantissa : ℕ} {exponent otherExponent : ℤ} (positive : 0 < mantissa)
    (otherPositive : 0 < otherMantissa) (filled : exponent = -1074 ∨ 2 ^ 52 ≤ mantissa)
    (otherFilled : otherExponent = -1074 ∨ 2 ^ 52 ≤ otherMantissa) :
    IsLong (mantissa * otherMantissa) (exponent + otherExponent) := by
  by_cases large : 2 ^ 52 ≤ mantissa
  · exact Or.inl (large.trans (Nat.le_mul_of_pos_right mantissa otherPositive))
  · by_cases otherLarge : 2 ^ 52 ≤ otherMantissa
    · exact Or.inl (otherLarge.trans (Nat.le_mul_of_pos_left otherMantissa positive))
    · have least := filled.resolve_right large
      have otherLeast := otherFilled.resolve_right otherLarge
      exact Or.inr (by omega)

theorem isNearest_mul (canonical : IsCanonical first) (otherCanonical : IsCanonical second) :
    IsNearest (rational first * rational second) (UnpackedFloat.mul .binary64 first second) := by
  cases first with
  | notANumber => cases canonical.finite
  | infinity sign => cases canonical.finite
  | zero sign =>
      rw [rational_zero, zero_mul]
      cases second with
      | notANumber => cases otherCanonical.finite
      | infinity otherSign => cases otherCanonical.finite
      | zero otherSign => exact ⟨isCanonical_zero _, nearest_zero.symm⟩
      | finite otherSign => exact ⟨isCanonical_zero _, nearest_zero.symm⟩
  | finite sign mantissa exponent positive =>
      cases second with
      | notANumber => cases otherCanonical.finite
      | infinity otherSign => cases otherCanonical.finite
      | zero otherSign =>
          rw [rational_zero, mul_zero]
          exact ⟨isCanonical_zero _, nearest_zero.symm⟩
      | finite otherSign otherMantissa otherExponent otherPositive =>
          have long := isLong_mul positive otherPositive canonical.filled otherCanonical.filled
          have shifted : (0 : ℚ) < (mantissa * otherMantissa : ℕ) := by
            exact_mod_cast Nat.mul_pos positive otherPositive
          have near :=
            isNearest_roundWithAccuracy long shifted (represents_exact _) (sign * otherSign)
          have same : ((mantissa * otherMantissa : ℕ) : ℚ) * 2 ^ (exponent + otherExponent) =
              (mantissa * 2 ^ exponent) * (otherMantissa * 2 ^ otherExponent) := by
            rw [zpow_add₀ (by norm_num)]
            push_cast
            ring
          rw [same, withSign_mul] at near
          exact near

theorem represents_fraction (mantissa : ℕ) {divisor : ℕ} (positive : 0 < divisor) :
    Represents
      (.ofMantissaAndAccuracy (mantissa / divisor)
        (accuracyOfFraction (mantissa % divisor) divisor))
      (mantissa / divisor) := by
  have divisorPositive : (0 : ℚ) < divisor := Nat.cast_pos.mpr positive
  have parts : (mantissa : ℚ) / divisor =
      (mantissa / divisor : ℕ) + (mantissa % divisor : ℕ) / divisor := by
    rw [eq_comm, eq_div_iff divisorPositive.ne', add_mul, div_mul_cancel₀ _ divisorPositive.ne']
    exact_mod_cast Nat.div_add_mod' mantissa divisor
  have small : ((mantissa % divisor : ℕ) : ℚ) < divisor :=
    Nat.cast_lt.mpr (Nat.mod_lt mantissa positive)
  rw [parts]
  generalize mantissa / divisor = quotient
  generalize mantissa % divisor = remainder at small ⊢
  unfold accuracyOfFraction
  split
  next none =>
    rw [none, Nat.cast_zero, zero_div, add_zero]
    exact represents_exact quotient
  next some =>
    have remainderPositive : (0 : ℚ) < remainder := Nat.cast_pos.mpr (Nat.pos_of_ne_zero some)
    have fraction : (remainder : ℚ) / divisor < 1 := (div_lt_one divisorPositive).mpr small
    have fractionPositive := div_pos remainderPositive divisorPositive
    rcases lt_trichotomy (2 * remainder) divisor with less | half | more
    · rw [Nat.compare_eq_lt.mpr less]
      have below : (remainder : ℚ) / divisor < 1 / 2 := by
        rw [div_lt_div_iff₀ divisorPositive (by norm_num)]
        exact_mod_cast (by omega : remainder * 2 < 1 * divisor)
      change (quotient : ℚ) < _ ∧ _ < (quotient : ℚ) + 1 / 2
      constructor <;> linarith
    · rw [half, Std.compare_self]
      have same : (remainder : ℚ) / divisor = 1 / 2 := by
        rw [div_eq_div_iff divisorPositive.ne' (by norm_num)]
        exact_mod_cast (by omega : remainder * 2 = 1 * divisor)
      rw [same]
      rfl
    · rw [Nat.compare_eq_gt.mpr more]
      have above : 1 / 2 < (remainder : ℚ) / divisor := by
        rw [div_lt_div_iff₀ (by norm_num) divisorPositive]
        exact_mod_cast (by omega : 1 * divisor < remainder * 2)
      change (quotient : ℚ) + 1 / 2 < _ ∧ _ < (quotient : ℚ) + 1
      constructor <;> linarith

/-- The exponent that a quotient is computed to. -/
def quotientExponent (mantissa : ℕ) (exponent : ℤ) (divisor : ℕ) (otherExponent : ℤ) : ℤ :=
  min (exponent - otherExponent)
    (Format.binary64.targetExponent
      (totalExponent mantissa exponent - totalExponent divisor otherExponent))

theorem isLong_div
    {mantissa divisor : ℕ} (positive : 0 < mantissa) (otherPositive : 0 < divisor)
    (exponent otherExponent : ℤ) :
    let target := quotientExponent mantissa exponent divisor otherExponent
    IsLong (mantissa <<< (exponent - otherExponent - target).toNat / divisor) target := by
  simp only [IsLong, quotientExponent, targetExponent_eq, totalExponent]
  rw [or_iff_not_imp_right]
  intro notLeast
  rw [Nat.le_div_iff_mul_le otherPositive, Nat.shiftLeft_eq]
  have divisorBits : divisor ≤ 2 ^ (divisor.log2 + 1) := Nat.lt_log2_self.le
  calc
    2 ^ 52 * divisor ≤ 2 ^ 52 * 2 ^ (divisor.log2 + 1) := Nat.mul_le_mul_left _ divisorBits
    _ = 2 ^ (52 + (divisor.log2 + 1)) := (Nat.pow_add _ _ _).symm
    _ ≤ 2 ^ (mantissa.log2 + _) := Nat.pow_le_pow_right Nat.two_pos (by omega)
    _ = 2 ^ mantissa.log2 * 2 ^ _ := Nat.pow_add _ _ _
    _ ≤ mantissa * 2 ^ _ :=
      Nat.mul_le_mul_right _ (Nat.log2_self_le (Nat.pos_iff_ne_zero.mp positive))

theorem withSign_div (sign otherSign : Sign) (number other : ℚ) :
    withSign (sign / otherSign) (number / other) =
      withSign sign number / withSign otherSign other := by
  cases sign <;> cases otherSign
  · exact (neg_div_neg_eq number other).symm
  · exact (neg_div other number).symm
  · exact (div_neg number).symm
  · rfl

theorem isNearest_div
    (canonical : IsCanonical first) (otherCanonical : IsCanonical second)
    (nonzero : rational second ≠ 0) :
    IsNearest (rational first / rational second) (UnpackedFloat.div .binary64 first second) := by
  cases second with
  | notANumber => cases otherCanonical.finite
  | infinity otherSign => cases otherCanonical.finite
  | zero otherSign => exact absurd rfl nonzero
  | finite otherSign otherMantissa otherExponent otherPositive =>
      cases first with
      | notANumber => cases canonical.finite
      | infinity sign => cases canonical.finite
      | zero sign =>
          rw [rational_zero, zero_div]
          exact ⟨isCanonical_zero _, nearest_zero.symm⟩
      | finite sign mantissa exponent positive =>
          have long := isLong_div positive otherPositive exponent otherExponent
          have notAbove :
              quotientExponent mantissa exponent otherMantissa otherExponent ≤
                exponent - otherExponent :=
            min_le_left _ _
          generalize isTarget :
            quotientExponent mantissa exponent otherMantissa otherExponent = target
            at long notAbove
          have same : (mantissa : ℚ) * 2 ^ exponent / (otherMantissa * 2 ^ otherExponent) =
              (mantissa <<< (exponent - otherExponent - target).toNat : ℕ) / otherMantissa *
                2 ^ target := by
            rw [div_mul_eq_mul_div, shiftLeft_mul_zpow mantissa notAbove, zpow_sub₀ (by norm_num)]
            field_simp
          have shifted :
              (0 : ℚ) < (mantissa <<< (exponent - otherExponent - target).toNat : ℕ) /
                otherMantissa := by
            rw [Nat.shiftLeft_eq]
            positivity
          have near := isNearest_roundWithAccuracy long shifted
            (represents_fraction _ otherPositive) (sign / otherSign)
          rw [← same, withSign_div, ← isTarget] at near
          exact near

end Operations

/-! ## Operations on doubles -/

section Results

variable {first second : Float}

theorem rounds_add (finite : first.isFinite = true) (otherFinite : second.isFinite = true) :
    Rounds (valueOf first + valueOf second) (first + second) :=
  rounds_of_isNearest (isNearest_add (isCanonical finite) (isCanonical otherFinite))

theorem rounds_sub (finite : first.isFinite = true) (otherFinite : second.isFinite = true) :
    Rounds (valueOf first - valueOf second) (first - second) :=
  rounds_of_isNearest (isNearest_sub (isCanonical finite) (isCanonical otherFinite))

theorem rounds_mul (finite : first.isFinite = true) (otherFinite : second.isFinite = true) :
    Rounds (valueOf first * valueOf second) (first * second) :=
  rounds_of_isNearest (isNearest_mul (isCanonical finite) (isCanonical otherFinite))

theorem rounds_div
    (finite : first.isFinite = true) (otherFinite : second.isFinite = true)
    (nonzero : valueOf second ≠ 0) : Rounds (valueOf first / valueOf second) (first / second) :=
  rounds_of_isNearest (isNearest_div (isCanonical finite) (isCanonical otherFinite) nonzero)

theorem Rounds.valueOf_eq
    {number : ℚ} (rounds : Rounds number first) (finite : first.isFinite = true) :
    valueOf first = nearest number := by
  cases rounds with
  | finite _ same => exact same
  | infinite sign isInfinite _ =>
      change first.toModel.unpack.isFinite = true at finite
      rw [isInfinite] at finite
      cases finite

/-- A result is finite where its exact size is at most that of another finite one. -/
theorem Rounds.bounded
    {number bound : ℚ} (rounds : Rounds number first) (near : Rounds bound second)
    (finite : second.isFinite = true) (small : |number| ≤ bound) :
    first.isFinite = true ∧ |valueOf first| ≤ valueOf second := by
  have isBound := near.valueOf_eq finite
  have bounds := abs_le.mp small
  have above : nearest number ≤ valueOf second := by
    rw [isBound]
    exact nearest_mono bounds.2
  have below : -valueOf second ≤ nearest number := by
    rw [isBound, ← nearest_neg]
    exact nearest_mono bounds.1
  cases rounds with
  | finite isFinite same =>
      rw [same]
      exact ⟨isFinite, abs_le.mpr ⟨below, above⟩⟩
  | infinite sign isInfinite beyond =>
      have range := abs_lt.mp (abs_rational_lt finite)
      exfalso
      cases sign with
      | positive =>
          change limit ≤ nearest number at beyond
          linarith
      | negative =>
          change limit ≤ -nearest number at beyond
          linarith

theorem Rounds.isNaN {number : ℚ} (rounds : Rounds number first) : first.isNaN = false := by
  have isNumber := rounds.ne_notANumber
  change first.toModel.unpack.isNaN = false
  cases unpacked : first.toModel.unpack with
  | notANumber => exact absurd unpacked isNumber
  | infinity sign => rfl
  | zero sign => rfl
  | finite sign mantissa exponent positive => rfl

end Results

end Mixdown.Double
