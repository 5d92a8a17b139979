import Mixdown.Proofs.Monotone
import Mixdown.Random.Uniform

/-!
# Uniform doubles

A draw between bounds that are in order, and not too far apart for a double, gives a
number within them; where the lower bound is above zero, so is the draw.
-/

namespace Mixdown.Double

open Float.Model (Format UnpackedFloat)
open Float.Model.UnpackedFloat

/-! ## Bits -/

theorem toBits_ofBits (bits : UInt64) :
    (Float.ofBits bits).toBits = bits ∨ Float.ofBits bits = Float.nan := by
  have packed := @pack_unpack .binary64 bits.toBitVec
  by_cases isNaN : @isNaNBits .binary64 bits.toBitVec = true
  · right
    rw [if_pos isNaN] at packed
    rw [← Float.toBits_inj, ← UInt64.toBitVec_inj]
    exact packed
  · left
    rw [if_neg isNaN] at packed
    rw [← UInt64.toBitVec_inj]
    exact packed

theorem toNat_unpackSign (bits : BitVec Format.binary64.numBits) :
    (unpackSign bits).toNat = bits.toNat / 2 ^ 63 := by
  have bounded : bits.toNat < 2 ^ 64 := bits.isLt
  rw [unpackSign_def, BitVec.extractLsb'_toNat, Nat.shiftRight_eq_div_pow]
  change bits.toNat / 2 ^ 63 % 2 = _
  omega

theorem notBelow_unpack
    {bits : BitVec Format.binary64.numBits} (small : bits.toNat < 2 ^ 63) :
    NotBelow (unpack .binary64 bits) := by
  have sign : unpackSign bits = 0#1 := by
    apply BitVec.eq_of_toNat_eq
    rw [toNat_unpackSign, Nat.div_eq_of_lt small]
    rfl
  unfold unpack
  simp only [sign]
  split
  · split
    · exact .above .infinity
    · exact .above .notANumber
  · split
    · split
      · exact .zero .positive
      · exact .above (.finite _ _ _)
    · exact .above (.finite _ _ _)

theorem toNat_le_of_notBelow
    {bits : BitVec Format.binary64.numBits} (valid : Format.binary64.Valid bits)
    (notBelow : NotBelow (unpack .binary64 bits)) : bits.toNat ≤ 2 ^ 63 := by
  by_contra large
  have sign : unpackSign bits = 1#1 := by
    have bounded : bits.toNat < 2 ^ 64 := bits.isLt
    apply BitVec.eq_of_toNat_eq
    rw [toNat_unpackSign]
    change _ = 1
    omega
  unfold unpack at notBelow
  simp only [sign] at notBelow
  split at notBelow
  next maximal =>
    split at notBelow
    next => exact absurd rfl (notBelow_iff.mp notBelow)
    next nonzero =>
      apply large
      rw [valid.eq_packedNaN maximal nonzero]
      decide
  next =>
    split at notBelow
    next least =>
      split at notBelow
      next zero =>
        have exponent : bits.toNat / 2 ^ 52 % 2 ^ 11 = 0 := by
          have found := congrArg BitVec.toNat least
          rwa [unpackExponent_def, BitVec.extractLsb'_toNat, Nat.shiftRight_eq_div_pow] at found
        have mantissa : bits.toNat % 2 ^ 52 = 0 := by
          have found := congrArg BitVec.toNat zero
          rwa [unpackMantissa_def, BitVec.extractLsb'_toNat] at found
        have bounded : bits.toNat < 2 ^ 64 := bits.isLt
        omega
      next => exact absurd rfl (notBelow_iff.mp notBelow)
    next => exact absurd rfl (notBelow_iff.mp notBelow)

/-- The bits of a number that is not below zero are those of a positive number, or of
negative zero. -/
theorem toBits_le_of_not_lt_zero {value : Float} (notBelow : ¬ value < 0) :
    value.toBits.toNat ≤ 2 ^ 63 :=
  toNat_le_of_notBelow value.toModel.valid (not_lt_zero_iff.mp notBelow)

theorem not_nan_lt_zero : ¬ Float.nan < 0 := by
  decide +kernel

theorem not_ofBits_lt_zero {bits : UInt64} (small : bits.toNat < 2 ^ 63) :
    ¬ Float.ofBits bits < 0 := by
  rcases toBits_ofBits bits with same | isNaN
  · rw [not_lt_zero_iff]
    apply notBelow_unpack
    change (Float.ofBits bits).toBits.toNat < 2 ^ 63
    rwa [same]
  · rw [isNaN]
    exact not_nan_lt_zero

/-! ### Between one and two -/

theorem exists_unpack_of_one_le
    {bits : BitVec Format.binary64.numBits} (exponent : bits.toNat / 2 ^ 52 = 1023) :
    ∃ mantissa positive,
      unpack .binary64 bits = .finite .positive mantissa (-52) positive ∧ 2 ^ 52 ≤ mantissa := by
  have sign : unpackSign bits = 0#1 := by
    apply BitVec.eq_of_toNat_eq
    rw [toNat_unpackSign]
    change _ = 0
    omega
  have biased : unpackExponent bits = 1023#11 := by
    apply BitVec.eq_of_toNat_eq
    rw [unpackExponent_def, BitVec.extractLsb'_toNat, Nat.shiftRight_eq_div_pow, exponent]
    rfl
  have large : 2 ^ 52 ≤ (1#1 ++ @unpackMantissa .binary64 bits).toNat := by
    rw [BitVec.toNat_append]
    exact Nat.left_le_or
  refine ⟨_, Nat.lt_of_lt_of_le (Nat.two_pow_pos 52) large, ?_, large⟩
  unfold unpack
  simp only [sign, biased]
  rfl

theorem one_le_ofBits {bits : UInt64} (exponent : bits.toNat / 2 ^ 52 = 1023) :
    1.0 ≤ Float.ofBits bits := by
  obtain ⟨mantissa, positive, unpacked, large⟩ :=
    @exists_unpack_of_one_le bits.toBitVec exponent
  have same : (Float.ofBits bits).toBits = bits := by
    rcases toBits_ofBits bits with same | isNaN
    · exact same
    · have positive := signum_unpack_pack (fits_unpack bits.toBitVec)
      change signum (Float.ofBits bits).toModel.unpack = _ at positive
      rw [isNaN, unpacked, signum_finite] at positive
      exact absurd positive (by decide +kernel)
  rw [le_iff_compare]
  have number : (Float.ofBits bits).toModel.unpack = unpack .binary64 bits.toBitVec :=
    congrArg (fun bits : UInt64 => unpack .binary64 bits.toBitVec) same
  have one : (1.0 : Float).toModel.unpack = .finite .positive (2 ^ 52) (-52) (by decide) := by
    rfl
  rw [number, unpacked, one]
  change ((compare (-52 : Int) (-52)).then (compare (2 ^ 52) mantissa)).isLE = true
  rw [Std.compare_self, Ordering.eq_then, Nat.isLE_compare]
  exact large

/-! ## Bits of finite doubles -/

theorem toNat_unpackExponent (bits : BitVec Format.binary64.numBits) :
    (unpackExponent bits).toNat = bits.toNat / 2 ^ 52 % 2 ^ 11 := by
  rw [unpackExponent_def, BitVec.extractLsb'_toNat, Nat.shiftRight_eq_div_pow]

theorem unpackExponent_ne
    {bits : BitVec Format.binary64.numBits} (small : bits.toNat < 2047 * 2 ^ 52) :
    unpackExponent bits ≠ -1#_ := by
  intro maximal
  have exponent := toNat_unpackExponent bits
  rw [maximal] at exponent
  change 2047 = _ at exponent
  omega

/-- Bits of no negative number that are less than those of the infinite one. -/
theorem ofBits_of_lt {bits : UInt64} (small : bits.toNat < 2047 * 2 ^ 52) :
    (Float.ofBits bits).toBits = bits ∧ (Float.ofBits bits).isFinite = true := by
  have notMaximal := @unpackExponent_ne bits.toBitVec small
  have same : (Float.ofBits bits).toBits = bits := by
    have packed := @pack_unpack .binary64 bits.toBitVec
    have notNaN : ¬ @isNaNBits .binary64 bits.toBitVec = true := by
      unfold isNaNBits
      rw [decide_eq_true_iff]
      exact fun both => notMaximal both.1
    rw [if_neg notNaN] at packed
    rw [← UInt64.toBitVec_inj]
    exact packed
  refine ⟨same, ?_⟩
  change (unpack .binary64 (Float.ofBits bits).toBits.toBitVec).isFinite = true
  rw [same]
  unfold unpack
  dsimp only
  rw [if_neg notMaximal]
  split
  · split <;> rfl
  · rfl

theorem valueOf_ofBits {bits : UInt64} (exponent : bits.toNat / 2 ^ 52 = 1023) :
    (Float.ofBits bits).isFinite = true ∧ 1 ≤ valueOf (Float.ofBits bits) ∧
      valueOf (Float.ofBits bits) ≤ 2 - 2 ^ (-52 : ℤ) := by
  obtain ⟨mantissa, positive, unpacked, large⟩ := @exists_unpack_of_one_le bits.toBitVec exponent
  obtain ⟨same, finite⟩ := @ofBits_of_lt bits (by omega)
  have fits := fits_unpack bits.toBitVec
  rw [unpacked] at fits
  have value : valueOf (Float.ofBits bits) = mantissa * 2 ^ (-52 : ℤ) := by
    change rational (unpack .binary64 (Float.ofBits bits).toBits.toBitVec) = _
    rw [same, unpacked]
    rfl
  have atLeast : (2 ^ 52 : ℚ) ≤ mantissa := by
    exact_mod_cast large
  have atMost : (mantissa : ℚ) ≤ 2 ^ 53 - 1 := by
    have few : mantissa + 1 ≤ 2 ^ 53 := fits.1
    rw [le_sub_iff_add_le]
    exact_mod_cast few
  rw [value]
  refine ⟨finite, ?_, ?_⟩
  · norm_num
    linarith
  · norm_num
    linarith

theorem toBits_lt_of_isFinite
    {value : Float} (finite : value.isFinite = true) (notBelow : ¬ value < 0) :
    value.toBits.toNat < 2047 * 2 ^ 52 ∨ value.toBits.toNat = 2 ^ 63 := by
  have bounded := toBits_le_of_not_lt_zero notBelow
  by_contra outside
  obtain ⟨large, notZero⟩ := not_or.mp outside
  have maximal : @unpackExponent .binary64 value.toBits.toBitVec = -1#_ := by
    apply BitVec.eq_of_toNat_eq
    rw [toNat_unpackExponent]
    change value.toBits.toNat / 2 ^ 52 % 2 ^ 11 = 2047
    omega
  change (unpack .binary64 value.toBits.toBitVec).isFinite = true at finite
  unfold unpack at finite
  dsimp only at finite
  rw [if_pos maximal] at finite
  split at finite <;> cases finite

end Mixdown.Double

namespace Mixdown.Random

open Double

/-! ## Scales -/

theorem towardsZero_nan : towardsZero Float.nan = Float.nan := by
  decide +kernel

/-- Steps towards zero from a number that is not below it do not get below it, unless
there are more of them than doubles up to it. -/
theorem not_settleScale_lt_zero
    {low high scale : Float} {steps : Nat} (notBelow : ¬ scale < 0)
    (enough : steps ≤ scale.toBits.toNat ∨ scale = Float.nan) :
    ¬ settleScale low high steps scale < 0 := by
  induction steps generalizing scale with
  | zero => exact notBelow
  | succ steps inductionHypothesis =>
      unfold settleScale
      split
      · rcases enough with many | isNaN
        · have small := toBits_le_of_not_lt_zero notBelow
          have lowered : (scale.toBits - 1).toNat = scale.toBits.toNat - 1 := by
            apply UInt64.toNat_sub_of_le
            rw [UInt64.le_iff_toNat_le, UInt64.toNat_one]
            omega
          apply inductionHypothesis
          · exact not_ofBits_lt_zero (by omega)
          · rcases toBits_ofBits (scale.toBits - 1) with same | isNaN
            · left
              rw [towardsZero, same]
              omega
            · exact Or.inr isNaN
        · rw [isNaN, towardsZero_nan]
          exact inductionHypothesis not_nan_lt_zero (Or.inr rfl)
      · exact notBelow

/-! ## Draws -/

/-- The bits of a unit, before one is taken away, are those of a double of `[1, 2)`. -/
theorem toNat_unitBits (word : UInt64) :
    ((word >>> 12) ||| 0x3ff0000000000000).toNat / 2 ^ 52 = 1023 := by
  have fraction : (word >>> 12).toNat < 2 ^ 52 := by
    have bounded := word.toNat_lt
    rw [UInt64.toNat_shiftRight, Nat.shiftRight_eq_div_pow]
    change word.toNat / 2 ^ 12 < 2 ^ 52
    omega
  rw [UInt64.toNat_or, Nat.or_comm]
  change (1023 * 2 ^ 52 ||| (word >>> 12).toNat) / 2 ^ 52 = 1023
  rw [Nat.mul_comm, ← Nat.two_pow_add_eq_or_of_lt fraction]
  omega

theorem not_unit_lt_zero (word : UInt64) : ¬ unit word < 0 :=
  not_sub_lt_zero (one_le_ofBits (toNat_unitBits word))

variable {σ : Type} {words : σ → UInt64 × σ}

theorem not_greatestUnit_le_zero : ¬ greatestUnit ≤ 0 := by
  decide +kernel

/-- Whether the bounds of a draw are not too far apart for a double. -/
def IsDrawable (low high : Float) : Prop :=
  ((high - low) / greatestUnit).isFinite = true

instance (low high : Float) : Decidable (IsDrawable low high) :=
  inferInstanceAs (Decidable (_ = _))

theorem exists_uniformOf
    {low high : Float} (ordered : low ≤ high) (drawable : IsDrawable low high) (state : σ) :
    ∃ length next, uniformOf words low high state = .ok (length, next) ∧
      (¬ low ≤ 0 → ¬ length ≤ 0) := by
  have notBelow : ¬ (high - low) / greatestUnit < 0 :=
    not_div_lt_zero (not_sub_lt_zero ordered) not_greatestUnit_le_zero
  unfold uniformOf
  dsimp only
  rw [if_pos ⟨ordered, drawable⟩]
  refine ⟨_, _, rfl, fun above => ?_⟩
  apply not_add_le_zero _ above
  apply not_mul_lt_zero (not_unit_lt_zero _)
  exact not_settleScale_lt_zero notBelow (Or.inl le_rfl)

theorem uniformOf_of_not_drawable
    {low high : Float} (undrawable : ¬ IsDrawable low high) (state : σ) :
    uniformOf words low high state = .error .unboundedDraw := by
  unfold uniformOf
  dsimp only
  rw [if_neg fun both => undrawable both.2]

/-! ## Draws within their bounds -/

theorem isFinite_greatestUnit : greatestUnit.isFinite = true := by
  decide +kernel

theorem isFinite_one : (1.0 : Float).isFinite = true := by
  decide +kernel

theorem valueOf_one : valueOf 1.0 = 1 := by
  have one : (1.0 : Float).toModel.unpack = .finite .positive (2 ^ 52) (-52) (by decide) := by
    rfl
  rw [valueOf, one, rational, withSign]
  norm_num

theorem valueOf_greatestUnit : valueOf greatestUnit = 1 - 2 ^ (-52 : ℤ) := by
  have unpacked :
      greatestUnit.toModel.unpack = .finite .positive (2 ^ 53 - 2) (-53) (by decide) := by
    rfl
  rw [valueOf, unpacked, rational, withSign]
  norm_num

/-- Units are from zero up to the greatest one. -/
theorem unit_bounds (word : UInt64) :
    (unit word).isFinite = true ∧ 0 ≤ valueOf (unit word) ∧
      valueOf (unit word) ≤ valueOf greatestUnit := by
  obtain ⟨finite, atLeast, atMost⟩ := valueOf_ofBits (toNat_unitBits word)
  have rounds := rounds_sub finite isFinite_one
  rw [valueOf_one] at rounds
  have small : |valueOf (Float.ofBits ((word >>> 12) ||| 0x3ff0000000000000)) - 1| ≤
      valueOf greatestUnit := by
    rw [valueOf_greatestUnit, abs_le]
    norm_num at atMost ⊢
    constructor <;> linarith
  obtain ⟨unitFinite, bounded⟩ :=
    rounds.bounded (rounds_self isFinite_greatestUnit) isFinite_greatestUnit small
  have nonnegative : 0 ≤ unit word :=
    le_of_not_lt unitFinite (by decide +kernel) (not_unit_lt_zero word)
  exact ⟨unitFinite, valueOf_nonneg unitFinite nonnegative, (le_abs_self _).trans bounded⟩

section Settling

variable {low high scale : Float}

/-- A share of a scale is no greater than the scale. -/
theorem share_bounded
    {share : ℚ} {product : Float} (finite : scale.isFinite = true) (nonnegative : 0 ≤ valueOf scale)
    (shareNonnegative : 0 ≤ share) (small : share ≤ 1)
    (rounds : Rounds (share * valueOf scale) product) :
    product.isFinite = true ∧ valueOf product = nearest (share * valueOf scale) := by
  have bounded : |share * valueOf scale| ≤ valueOf scale := by
    rw [abs_of_nonneg (mul_nonneg shareNonnegative nonnegative)]
    exact mul_le_of_le_one_left nonnegative small
  have productFinite := (rounds.bounded (rounds_self finite) finite bounded).1
  exact ⟨productFinite, rounds.valueOf_eq productFinite⟩

theorem greatestShare
    (finite : scale.isFinite = true) (nonnegative : 0 ≤ valueOf scale) :
    (scale * greatestUnit).isFinite = true ∧
      valueOf (scale * greatestUnit) = nearest (valueOf greatestUnit * valueOf scale) := by
  have rounds := rounds_mul finite isFinite_greatestUnit
  rw [mul_comm] at rounds
  apply share_bounded finite nonnegative _ _ rounds
  · rw [valueOf_greatestUnit]
    norm_num
  · rw [valueOf_greatestUnit]
    norm_num

theorem not_lt_of_valueOf_eq_zero
    (lowFinite : low.isFinite = true) (highFinite : high.isFinite = true) (ordered : low ≤ high)
    (finite : scale.isFinite = true) (zero : valueOf scale = 0) :
    ¬ high < scale * greatestUnit + low := by
  obtain ⟨productFinite, product⟩ := greatestShare finite zero.ge
  rw [zero, mul_zero, nearest_zero] at product
  have rounds := rounds_add productFinite lowFinite
  rw [product, zero_add] at rounds
  apply not_lt_of_le
  exact rounds.le (rounds_self highFinite) ((le_iff_rational lowFinite highFinite).mp ordered)

theorem valueOf_eq_zero_of_toBits (zero : scale.toBits = 0 ∨ scale.toBits = 0x8000000000000000) :
    valueOf scale = 0 := by
  rcases zero with positive | negative
  · have same : scale = 0.0 := Float.toBits_inj.mp positive
    rw [same]
    rfl
  · have same : scale = -0.0 := Float.toBits_inj.mp negative
    rw [same]
    rfl

/-- A scale is settled once the greatest draw does not exceed the upper bound.  That happens
at zero at the latest. -/
theorem settleScale_settles
    (lowFinite : low.isFinite = true) (highFinite : high.isFinite = true) (ordered : low ≤ high)
    {steps : Nat} (finite : scale.isFinite = true) (notBelow : ¬ scale < 0)
    (enough : scale.toBits.toNat ≤ steps) :
    let settled := settleScale low high steps scale
    settled.isFinite = true ∧ ¬ settled < 0 ∧ ¬ high < settled * greatestUnit + low := by
  induction steps generalizing scale with
  | zero =>
      have zero : scale.toBits = 0 := by
        rw [← UInt64.toNat_inj]
        exact Nat.le_zero.mp enough
      exact ⟨finite, notBelow, not_lt_of_valueOf_eq_zero lowFinite highFinite ordered finite
        (valueOf_eq_zero_of_toBits (Or.inl zero))⟩
  | succ steps inductionHypothesis =>
      unfold settleScale
      split
      next exceeds =>
        have nonzero : valueOf scale ≠ 0 := fun zero =>
          not_lt_of_valueOf_eq_zero lowFinite highFinite ordered finite zero exceeds
        have positive : scale.toBits.toNat ≠ 0 := by
          intro zero
          exact nonzero (valueOf_eq_zero_of_toBits (Or.inl (UInt64.toNat_inj.mp zero)))
        have small : scale.toBits.toNat < 2047 * 2 ^ 52 := by
          refine (toBits_lt_of_isFinite finite notBelow).resolve_right fun negative => ?_
          exact nonzero (valueOf_eq_zero_of_toBits (Or.inr (UInt64.toNat_inj.mp negative)))
        have lowered : (scale.toBits - 1).toNat = scale.toBits.toNat - 1 := by
          apply UInt64.toNat_sub_of_le
          rw [UInt64.le_iff_toNat_le, UInt64.toNat_one]
          omega
        obtain ⟨same, loweredFinite⟩ := @ofBits_of_lt (scale.toBits - 1) (by omega)
        apply inductionHypothesis loweredFinite (not_ofBits_lt_zero (by omega))
        rw [same]
        omega
      next settled => exact ⟨finite, notBelow, settled⟩

end Settling

/-- A draw between finite bounds lies within them. -/
theorem uniformOf_within
    {low high length : Float} {state next : σ} (lowFinite : low.isFinite = true)
    (highFinite : high.isFinite = true)
    (drawing : uniformOf words low high state = .ok (length, next)) :
    low ≤ length ∧ length ≤ high := by
  unfold uniformOf at drawing
  dsimp only at drawing
  split at drawing
  next drawable =>
    obtain ⟨ordered, scaleFinite⟩ := drawable
    have notBelow : ¬ (high - low) / greatestUnit < 0 :=
      not_div_lt_zero (not_sub_lt_zero ordered) not_greatestUnit_le_zero
    obtain ⟨finite, settledNotBelow, settled⟩ :=
      settleScale_settles lowFinite highFinite ordered scaleFinite notBelow le_rfl
    generalize settleScale low high _ _ = scale at drawing finite settledNotBelow settled
    have nonnegative : 0 ≤ valueOf scale :=
      valueOf_nonneg finite (le_of_not_lt finite (by decide +kernel) settledNotBelow)
    obtain ⟨unitFinite, unitNonnegative, unitSmall⟩ := unit_bounds (words state).1
    have greatestSmall : valueOf greatestUnit ≤ 1 := by
      rw [valueOf_greatestUnit]
      norm_num
    obtain ⟨shareFinite, share⟩ := share_bounded finite nonnegative unitNonnegative
      (unitSmall.trans greatestSmall) (rounds_mul unitFinite finite)
    obtain ⟨greatestFinite, greatest⟩ := greatestShare finite nonnegative
    have rounds := rounds_add shareFinite lowFinite
    have greatestRounds := rounds_add greatestFinite lowFinite
    have aboveLow {product : Float} (nonnegative : 0 ≤ valueOf product)
        (rounds : Rounds (valueOf product + valueOf low) (product + low)) : low ≤ product + low :=
      (rounds_self lowFinite).le rounds (le_add_of_nonneg_left nonnegative)
    have above : low ≤ unit (words state).1 * scale + low := by
      apply aboveLow _ rounds
      rw [share]
      exact nearest_nonneg (mul_nonneg unitNonnegative nonnegative)
    have greatestAbove : low ≤ scale * greatestUnit + low := by
      apply aboveLow _ greatestRounds
      rw [greatest]
      exact nearest_nonneg (mul_nonneg (unitNonnegative.trans unitSmall) nonnegative)
    have greatestBelow : scale * greatestUnit + low ≤ high :=
      le_of_not_lt_of_number (isNaN_of_isFinite highFinite) greatestRounds.isNaN settled
    have greatestFinite := isFinite_of_between lowFinite highFinite greatestAbove greatestBelow
    have below : unit (words state).1 * scale + low ≤ scale * greatestUnit + low := by
      apply rounds.le greatestRounds
      rw [share, greatest]
      exact add_le_add_left (nearest_mono (mul_le_mul_of_nonneg_right unitSmall nonnegative)) _
    have lengthFinite := isFinite_of_between lowFinite greatestFinite above below
    cases drawing
    exact ⟨above,
      le_trans_of_isFinite lengthFinite greatestFinite highFinite below greatestBelow⟩
  next => cases drawing

end Mixdown.Random
