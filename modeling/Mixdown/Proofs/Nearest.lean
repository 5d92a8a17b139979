import Mixdown.Proofs.Rounding

/-!
# The nearest double

What rounding gives is the nearest multiple of the step between doubles, of two equally near
ones the even one.  Of two numbers the greater one is not rounded to less.
-/

namespace Mixdown.Double

open Float.Model (Format UnpackedFloat totalExponent)
open Float.Model.UnpackedFloat

/-! ## Whole numbers -/

/-- The nearest whole number, of two equally near ones the even one. -/
def toEven (number : ℚ) : ℤ :=
  if number - ⌊number⌋ < 1 / 2 then
    ⌊number⌋
  else if 1 / 2 < number - ⌊number⌋ then
    ⌊number⌋ + 1
  else
    ⌊number⌋ + ⌊number⌋ % 2

section ToEven

variable {number other : ℚ}

theorem toEven_bounds (number : ℚ) : ⌊number⌋ ≤ toEven number ∧ toEven number ≤ ⌊number⌋ + 1 := by
  unfold toEven
  split_ifs <;> omega

theorem toEven_intCast (whole : ℤ) : toEven whole = whole := by
  simp [toEven]

theorem toEven_mono (ordered : number ≤ other) : toEven number ≤ toEven other := by
  rcases lt_or_eq_of_le (Int.floor_mono ordered) with less | same
  · calc
      toEven number ≤ ⌊number⌋ + 1 := (toEven_bounds number).2
      _ ≤ ⌊other⌋ := less
      _ ≤ toEven other := (toEven_bounds other).1
  · unfold toEven
    rw [same]
    split_ifs <;> first | omega | (exfalso; linarith)

theorem toEven_neg (number : ℚ) : toEven (-number) = -toEven number := by
  rcases eq_or_lt_of_le (Int.floor_le number) with whole | above
  · rw [← whole, ← Int.cast_neg, toEven_intCast, toEven_intCast]
  · have below := Int.lt_floor_add_one number
    have opposite : ⌊-number⌋ = -⌊number⌋ - 1 := by
      rw [Int.floor_eq_iff]
      push_cast
      constructor <;> linarith
    unfold toEven
    rw [opposite]
    push_cast
    split_ifs <;> first | omega | (exfalso; linarith)

theorem le_toEven {whole : ℤ} (notBelow : whole ≤ number) : whole ≤ toEven number := by
  rw [← toEven_intCast whole]
  exact toEven_mono notBelow

theorem toEven_le {whole : ℤ} (notAbove : number ≤ whole) : toEven number ≤ whole := by
  rw [← toEven_intCast whole]
  exact toEven_mono notAbove

end ToEven

/-! ## Multiples of a step -/

/-- The power of two that is the step between the doubles about a number. -/
def stepExponent (number : ℚ) : ℤ :=
  max (Int.log 2 |number| - 52) (-1074)

/-- The nearest double, were there no greatest one. -/
def nearest (number : ℚ) : ℚ :=
  toEven (number / 2 ^ stepExponent number) * 2 ^ stepExponent number

theorem nearest_zero : nearest 0 = 0 := by
  rw [nearest, zero_div, ← Int.cast_zero, toEven_intCast, Int.cast_zero, zero_mul]

theorem nearest_neg (number : ℚ) : nearest (-number) = -nearest number := by
  have sameStep : stepExponent (-number) = stepExponent number := by
    rw [stepExponent, abs_neg, stepExponent]
  rw [nearest, sameStep, neg_div, toEven_neg, Int.cast_neg, neg_mul, nearest]

theorem nearest_nonneg {number : ℚ} (nonnegative : 0 ≤ number) : 0 ≤ nearest number := by
  have whole : (0 : ℤ) ≤ toEven (number / 2 ^ stepExponent number) := by
    apply le_toEven
    rw [Int.cast_zero]
    positivity
  exact mul_nonneg (Int.cast_nonneg whole) (by positivity)

section Positive

variable {number other : ℚ}

theorem stepExponent_mono (positive : 0 < number) (ordered : number ≤ other) :
    stepExponent number ≤ stepExponent other := by
  unfold stepExponent
  rw [abs_of_pos positive, abs_of_pos (positive.trans_le ordered)]
  have logs : Int.log 2 number ≤ Int.log 2 other := Int.log_mono_right positive ordered
  omega

/-- A number has at most 53 bits above its step. -/
theorem nearest_le (positive : 0 < number) : nearest number ≤ 2 ^ (stepExponent number + 53) := by
  have bounded : number < 2 ^ (stepExponent number + 53) := by
    calc
      number < 2 ^ (Int.log 2 number + 1) := Int.lt_zpow_succ_log_self (by norm_num) number
      _ ≤ 2 ^ (stepExponent number + 53) := by
        apply zpow_le_zpow_right₀ (by norm_num)
        rw [stepExponent, abs_of_pos positive]
        omega
  have split : (2 : ℚ) ^ (stepExponent number + 53) = 2 ^ 53 * 2 ^ stepExponent number := by
    rw [zpow_add₀ (by norm_num), mul_comm]
    norm_num
  rw [split] at bounded ⊢
  have whole : toEven (number / 2 ^ stepExponent number) ≤ (2 ^ 53 : ℤ) := by
    apply toEven_le
    push_cast
    rw [div_le_iff₀ (by positivity)]
    exact bounded.le
  apply mul_le_mul_of_nonneg_right _ (by positivity)
  exact_mod_cast whole

/-- A number has 53 bits above its step unless that is the least one. -/
theorem le_nearest (positive : 0 < number) (notLeast : -1074 < stepExponent number) :
    2 ^ (stepExponent number + 52) ≤ nearest number := by
  have bounded : 2 ^ (stepExponent number + 52) ≤ number := by
    have exponent : stepExponent number + 52 = Int.log 2 number := by
      rw [stepExponent, abs_of_pos positive] at notLeast ⊢
      omega
    rw [exponent]
    exact Int.zpow_log_le_self (by norm_num) positive
  have split : (2 : ℚ) ^ (stepExponent number + 52) = 2 ^ 52 * 2 ^ stepExponent number := by
    rw [zpow_add₀ (by norm_num), mul_comm]
    norm_num
  rw [split] at bounded ⊢
  have whole : (2 ^ 52 : ℤ) ≤ toEven (number / 2 ^ stepExponent number) := by
    apply le_toEven
    push_cast
    rw [le_div_iff₀ (by positivity)]
    exact bounded
  apply mul_le_mul_of_nonneg_right _ (by positivity)
  exact_mod_cast whole

theorem nearest_mono_of_pos (positive : 0 < number) (ordered : number ≤ other) :
    nearest number ≤ nearest other := by
  rcases lt_or_eq_of_le (stepExponent_mono positive ordered) with less | same
  · have least : -1074 ≤ stepExponent number := le_max_right _ _
    calc
      nearest number ≤ 2 ^ (stepExponent number + 53) := nearest_le positive
      _ ≤ 2 ^ (stepExponent other + 52) := zpow_le_zpow_right₀ (by norm_num) (by omega)
      _ ≤ nearest other := le_nearest (positive.trans_le ordered) (by omega)
  · unfold nearest
    rw [same]
    apply mul_le_mul_of_nonneg_right _ (by positivity)
    apply Int.cast_le.mpr
    apply toEven_mono
    exact div_le_div_of_nonneg_right ordered (by positivity)

end Positive

theorem nearest_mono : Monotone nearest := by
  intro number other ordered
  rcases lt_or_ge 0 number with positive | nonpositive
  · exact nearest_mono_of_pos positive ordered
  · rcases lt_or_ge other 0 with negative | nonnegative
    · rw [← neg_le_neg_iff, ← nearest_neg, ← nearest_neg]
      exact nearest_mono_of_pos (neg_pos.mpr negative) (neg_le_neg ordered)
    · have notAbove : nearest number ≤ 0 := by
        rw [← neg_nonneg, ← nearest_neg]
        exact nearest_nonneg (neg_nonneg.mpr nonpositive)
      exact notAbove.trans (nearest_nonneg nonnegative)

/-! ## Bits that are kept for rounding -/

/-- An extended mantissa stands for a number: the mantissa is its whole part, and the two
bits tell its fraction from none and from one half. -/
def Represents (extended : ExtendedMantissa) (number : ℚ) : Prop :=
  match extended.roundBit, extended.stickyBit with
  | false, false => number = extended.mantissa
  | false, true => extended.mantissa < number ∧ number < extended.mantissa + 1 / 2
  | true, false => number = extended.mantissa + 1 / 2
  | true, true => extended.mantissa + 1 / 2 < number ∧ number < extended.mantissa + 1

namespace Represents

variable {extended : ExtendedMantissa} {number : ℚ}

theorem bounds (represents : Represents extended number) :
    extended.mantissa ≤ number ∧ number < extended.mantissa + 1 := by
  obtain ⟨mantissa, roundBit, stickyBit⟩ := extended
  unfold Represents at represents
  cases roundBit <;> cases stickyBit <;> dsimp only at represents <;>
    constructor <;> linarith

theorem floor (represents : Represents extended number) : ⌊number⌋ = extended.mantissa := by
  rw [Int.floor_eq_iff]
  exact_mod_cast represents.bounds

theorem roundedMantissa (represents : Represents extended number) :
    extended.roundedMantissa = toEven number := by
  have whole := represents.floor
  obtain ⟨mantissa, roundBit, stickyBit⟩ := extended
  unfold toEven
  rw [whole, Int.cast_natCast]
  unfold Represents at represents
  cases roundBit <;> cases stickyBit <;> dsimp only at represents <;>
    simp only [ExtendedMantissa.roundedMantissa, ExtendedMantissa.accuracy,
      Accuracy.roundToNearestEven] <;>
    split_ifs <;> first | omega | (exfalso; linarith)

theorem shiftRightOne (represents : Represents extended number) :
    Represents extended.shiftRightOne (number / 2) := by
  obtain ⟨mantissa, roundBit, stickyBit⟩ := extended
  have halves : (mantissa : ℚ) = 2 * (mantissa / 2 : ℕ) + (mantissa % 2 : ℕ) := by
    exact_mod_cast (Nat.div_add_mod mantissa 2).symm
  unfold Represents at represents ⊢
  rcases Nat.mod_two_eq_zero_or_one mantissa with even | odd
  · have roundBit' : (mantissa % 2 != 0) = false := by rw [even]; rfl
    rw [even, Nat.cast_zero, add_zero] at halves
    cases roundBit <;> cases stickyBit <;>
      simp only [ExtendedMantissa.shiftRightOne, roundBit', Bool.or_true, Bool.or_false]
        at represents ⊢ <;>
      first | linarith | (constructor <;> linarith)
  · have roundBit' : (mantissa % 2 != 0) = true := by rw [odd]; rfl
    rw [odd, Nat.cast_one] at halves
    cases roundBit <;> cases stickyBit <;>
      simp only [ExtendedMantissa.shiftRightOne, roundBit', Bool.or_true, Bool.or_false]
        at represents ⊢ <;>
      first | linarith | (constructor <;> linarith)

theorem shiftRight (represents : Represents extended number) (amount : ℕ) :
    Represents (extended >>> amount) (number / 2 ^ amount) := by
  change Represents (amount.repeat ExtendedMantissa.shiftRightOne extended) _
  induction amount with
  | zero => rwa [pow_zero, div_one]
  | succ amount inductionHypothesis =>
      rw [Nat.repeat, pow_succ, ← div_div]
      exact inductionHypothesis.shiftRightOne

end Represents

/-! ## Rounding -/

/-- The number with a sign. -/
def withSign (sign : Sign) (number : ℚ) : ℚ :=
  match sign with
  | .positive => number
  | .negative => -number

theorem nearest_withSign (sign : Sign) (number : ℚ) :
    nearest (withSign sign number) = withSign sign (nearest number) := by
  cases sign with
  | positive => rfl
  | negative => exact nearest_neg number

/-- The number that a finite value stands for. -/
def rational : UnpackedFloat → ℚ
  | .finite sign mantissa exponent _ => withSign sign (mantissa * 2 ^ exponent)
  | .zero _ => 0
  | .infinity _ => 0
  | .notANumber => 0

theorem rational_zero (sign : Sign) : rational (.zero sign) = 0 :=
  rfl

/-- A finite value as it is unpacked from a double, were there no greatest exponent. -/
structure IsCanonical (value : UnpackedFloat) : Prop where
  finite : value.isFinite = true
  fits : Fits value
  filled : Filled value

/-- A canonical value is the nearest one to a number. -/
structure IsNearest (number : ℚ) (value : UnpackedFloat) : Prop where
  canonical : IsCanonical value
  rational : rational value = nearest number

theorem isCanonical_zero (sign : Sign) : IsCanonical (.zero sign) :=
  ⟨rfl, trivial, trivial⟩

/-- A value from its parts, which is zero if the mantissa is. -/
def ofParts (sign : Sign) (mantissa : ℕ) (exponent : ℤ) : UnpackedFloat :=
  if zero : mantissa = 0 then
    .zero sign
  else
    .finite sign mantissa exponent (Nat.pos_of_ne_zero zero)

theorem rational_ofParts (sign : Sign) (mantissa : ℕ) (exponent : ℤ) :
    rational (ofParts sign mantissa exponent) = withSign sign (mantissa * 2 ^ exponent) := by
  unfold ofParts
  split
  next zero =>
    rw [zero, Nat.cast_zero, zero_mul]
    cases sign with
    | positive => rfl
    | negative => exact neg_zero.symm
  next => rfl

theorem isCanonical_ofParts
    (sign : Sign) {mantissa : ℕ} {exponent : ℤ} (small : mantissa < 2 ^ 53)
    (least : -1074 ≤ exponent) (filled : exponent = -1074 ∨ 2 ^ 52 ≤ mantissa) :
    IsCanonical (ofParts sign mantissa exponent) := by
  unfold ofParts
  split
  next => exact isCanonical_zero sign
  next => exact ⟨rfl, ⟨small, least⟩, filled⟩

/-- A mantissa has all bits that are kept for a double. -/
def IsLong (mantissa : ℕ) (exponent : ℤ) : Prop :=
  2 ^ 52 ≤ mantissa ∨ exponent ≤ -1074

section Rounding

variable {mantissa : ℕ} {exponent : ℤ} {number : ℚ}

theorem log_mul_zpow
    (positive : 0 < mantissa) (atLeast : mantissa ≤ number) (below : number < mantissa + 1)
    (exponent : ℤ) : Int.log 2 (number * 2 ^ exponent) = mantissa.log2 + exponent := by
  have scale : (0 : ℚ) < 2 ^ exponent := by positivity
  have numberPositive : 0 < number := lt_of_lt_of_le (Nat.cast_pos.mpr positive) atLeast
  apply le_antisymm
  · rw [← Int.lt_add_one_iff, ← Int.lt_zpow_iff_log_lt (by norm_num) (by positivity)]
    have bits : (mantissa + 1 : ℚ) ≤ 2 ^ (mantissa.log2 + 1) := by
      exact_mod_cast Nat.lt_log2_self
    calc
      number * 2 ^ exponent < (mantissa + 1) * 2 ^ exponent := mul_lt_mul_of_pos_right below scale
      _ ≤ 2 ^ (mantissa.log2 + 1) * 2 ^ exponent := mul_le_mul_of_nonneg_right bits scale.le
      _ = ((2 : ℕ) : ℚ) ^ ((mantissa.log2 : ℤ) + exponent + 1) := by
        rw [← zpow_natCast, ← zpow_add₀ (by norm_num)]
        push_cast
        ring_nf
  · rw [← Int.zpow_le_iff_le_log (by norm_num) (by positivity)]
    have bits : (2 ^ mantissa.log2 : ℚ) ≤ mantissa := by
      exact_mod_cast Nat.log2_self_le (Nat.pos_iff_ne_zero.mp positive)
    calc
      ((2 : ℕ) : ℚ) ^ ((mantissa.log2 : ℤ) + exponent) = 2 ^ mantissa.log2 * 2 ^ exponent := by
        rw [← zpow_natCast, ← zpow_add₀ (by norm_num)]
        push_cast
        ring_nf
      _ ≤ number * 2 ^ exponent := mul_le_mul_of_nonneg_right (bits.trans atLeast) scale.le

theorem stepExponent_mul_zpow
    (long : IsLong mantissa exponent) (positive : 0 < number) (atLeast : mantissa ≤ number)
    (below : number < mantissa + 1) :
    exponent + excess mantissa exponent = stepExponent (number * 2 ^ exponent) := by
  rw [stepExponent, abs_of_pos (by positivity)]
  simp only [excess, targetExponent_eq, totalExponent]
  by_cases large : 2 ^ 52 ≤ mantissa
  · have log := log_mul_zpow (by omega) atLeast below exponent
    have atLeast52 : 52 ≤ mantissa.log2 := (Nat.le_log2 (by omega)).mpr large
    rw [log]
    omega
  · have least : exponent ≤ -1074 := long.resolve_left large
    have small : mantissa.log2 < 52 := by
      rcases Nat.eq_zero_or_pos mantissa with rfl | mantissaPositive
      · decide
      · rw [Nat.log2_lt (by omega)]
        omega
    have log : Int.log 2 (number * 2 ^ exponent) < -1022 := by
      rw [← Int.lt_zpow_iff_log_lt (by norm_num) (by positivity)]
      have bounded : (mantissa + 1 : ℚ) ≤ 2 ^ 52 := by
        exact_mod_cast not_le.mp large
      calc
        number * 2 ^ exponent < 2 ^ 52 * 2 ^ exponent :=
          mul_lt_mul_of_pos_right (below.trans_le bounded) (by positivity)
        _ ≤ 2 ^ 52 * 2 ^ (-1074 : ℤ) := by
          apply mul_le_mul_of_nonneg_left _ (by norm_num)
          exact zpow_le_zpow_right₀ (by norm_num) least
        _ = ((2 : ℕ) : ℚ) ^ (-1022 : ℤ) := by
          rw [← zpow_natCast, ← zpow_add₀ (by norm_num)]
          norm_num
    omega

/-- Bits are shifted out only down to the 53 that are kept. -/
theorem filled_shifted (long : IsLong mantissa exponent) :
    exponent + excess mantissa exponent = -1074 ∨
      2 ^ 52 ≤ mantissa / 2 ^ excess mantissa exponent := by
  rw [or_iff_not_imp_left]
  intro notLeast
  have few : 52 + excess mantissa exponent ≤ mantissa.log2 := by
    have large (notSmall : ¬ exponent ≤ -1074) : 52 ≤ mantissa.log2 := by
      have manyBits := long.resolve_right notSmall
      exact (Nat.le_log2 (by omega)).mpr manyBits
    simp only [excess, targetExponent_eq, totalExponent] at notLeast ⊢
    omega
  have nonzero : mantissa ≠ 0 := by
    rintro rfl
    rw [Nat.log2_zero] at few
    omega
  rw [Nat.le_div_iff_mul_le (Nat.two_pow_pos _), ← Nat.pow_add]
  exact (Nat.pow_le_pow_right Nat.two_pos few).trans (Nat.log2_self_le nonzero)

/-- A mantissa that is rounded up to one bit too many ends in zero. -/
theorem excess_of_le
    (small : mantissa ≤ 2 ^ 53) (least : -1074 ≤ exponent) :
    mantissa < 2 ^ 53 ∧ excess mantissa exponent = 0 ∨
      mantissa = 2 ^ 53 ∧ excess mantissa exponent = 1 := by
  simp only [excess, targetExponent_eq, totalExponent]
  rcases lt_or_eq_of_le small with less | same
  · left
    have few : mantissa.log2 < 53 := by
      rcases Nat.eq_zero_or_pos mantissa with rfl | positive
      · decide
      · rwa [Nat.log2_lt (by omega)]
    exact ⟨less, by omega⟩
  · right
    have log : mantissa.log2 = 53 := by
      rw [same]
      exact Nat.log2_two_pow
    exact ⟨same, by omega⟩

theorem roundWithAccuracy_eq (sign : Sign) (accuracy : Accuracy) :
    roundWithAccuracy .binary64 sign mantissa exponent accuracy =
      let rounded :=
        (shiftToTargetExponent .binary64 mantissa exponent accuracy).1.roundedMantissa
      let step := exponent + excess mantissa exponent
      ofParts sign (rounded / 2 ^ excess rounded step) (step + excess rounded step) := by
  dsimp only
  rw [← exponent_shifted mantissa exponent accuracy, ← mantissa_shifted _ _ .exact,
    ← exponent_shifted _ _ .exact]
  rfl

/-- A number rounded to a multiple of its step is a value after one more shift. -/
theorem isNearest_ofParts
    {whole : ℕ} (rounded : whole = toEven (number / 2 ^ stepExponent number))
    (small : whole ≤ 2 ^ 53) (filled : stepExponent number = -1074 ∨ 2 ^ 52 ≤ whole)
    (sign : Sign) :
    IsNearest (withSign sign number)
      (ofParts sign (whole / 2 ^ excess whole (stepExponent number))
        (stepExponent number + excess whole (stepExponent number))) := by
  have least : -1074 ≤ stepExponent number := le_max_right _ _
  have value : nearest number = whole * 2 ^ stepExponent number := by
    rw [nearest, ← rounded, Int.cast_natCast]
  rcases excess_of_le small least with ⟨fits, none⟩ | ⟨large, one⟩
  · rw [none, pow_zero, Nat.div_one, Nat.cast_zero, add_zero]
    refine ⟨isCanonical_ofParts sign fits least filled, ?_⟩
    rw [rational_ofParts, nearest_withSign, value]
  · rw [one, large]
    refine ⟨isCanonical_ofParts sign (by norm_num) (by omega) (Or.inr (by norm_num)), ?_⟩
    rw [rational_ofParts, nearest_withSign, value, large, Nat.cast_one, zpow_add₀ (by norm_num)]
    congr 1
    norm_num
    ring

/-- Rounding gives the nearest value to the number that the bits stand for. -/
theorem isNearest_roundWithAccuracy
    {accuracy : Accuracy} (long : IsLong mantissa exponent) (positive : 0 < number)
    (represents : Represents (.ofMantissaAndAccuracy mantissa accuracy) number) (sign : Sign) :
    IsNearest (withSign sign (number * 2 ^ exponent))
      (roundWithAccuracy .binary64 sign mantissa exponent accuracy) := by
  have bounds := represents.bounds
  rw [mantissa_ofMantissaAndAccuracy] at bounds
  have step := stepExponent_mul_zpow long positive bounds.1 bounds.2
  have scaled : number * 2 ^ exponent / 2 ^ stepExponent (number * 2 ^ exponent) =
      number / 2 ^ excess mantissa exponent := by
    rw [← step, zpow_add₀ (by norm_num), zpow_natCast]
    field_simp
  have shifted := represents.shiftRight (excess mantissa exponent)
  have rounded :
      ((shiftToTargetExponent .binary64 mantissa exponent accuracy).1.roundedMantissa : ℤ) =
        toEven (number / 2 ^ excess mantissa exponent) :=
    shifted.roundedMantissa
  have near := toEven_bounds (number / 2 ^ excess mantissa exponent)
  rw [shifted.floor, ← rounded, mantissa_shiftRight, mantissa_ofMantissaAndAccuracy] at near
  have few := mantissa_shifted_lt mantissa exponent
  have filled := filled_shifted long
  rw [roundWithAccuracy_eq]
  dsimp only
  rw [step] at filled ⊢
  apply isNearest_ofParts
  · rw [scaled]
    exact rounded
  · omega
  · omega

end Rounding

end Mixdown.Double
