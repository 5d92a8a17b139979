import Mixdown.Proofs.Rounding

/-!
# Signs of computed doubles

Sums, differences, products and quotients of doubles have the sign that exact
arithmetic gives them, or are zero or no number.
-/

namespace Mixdown.Double

open Float.Model (Format UnpackedFloat)
open Float.Model.UnpackedFloat

/-! ## Unpacked numbers -/

/-- Greater than zero, or no number. -/
inductive Above : UnpackedFloat → Prop
  | notANumber : Above .notANumber
  | infinity : Above (.infinity .positive)
  | finite (mantissa : Nat) (exponent : Int) (positive : 0 < mantissa) :
      Above (.finite .positive mantissa exponent positive)

/-- Zero or greater, or no number. -/
inductive NotBelow : UnpackedFloat → Prop
  | zero (sign : Sign) : NotBelow (.zero sign)
  | above {value : UnpackedFloat} (above : Above value) : NotBelow value

/-- Zero or greater. -/
inductive FromZero : UnpackedFloat → Prop
  | zero (sign : Sign) : FromZero (.zero sign)
  | infinity : FromZero (.infinity .positive)
  | finite (mantissa : Nat) (exponent : Int) (positive : 0 < mantissa) :
      FromZero (.finite .positive mantissa exponent positive)

theorem FromZero.notBelow {value : UnpackedFloat} (fromZero : FromZero value) :
    NotBelow value := by
  cases fromZero with
  | zero sign => exact .zero sign
  | infinity => exact .above .infinity
  | finite mantissa exponent positive => exact .above (.finite mantissa exponent positive)

theorem fromZero_iff {value : UnpackedFloat} :
    FromZero value ↔ (signum value).any Ordering.isGE = true := by
  constructor
  · intro fromZero
    cases fromZero with
    | zero sign => cases sign <;> rfl
    | infinity => rfl
    | finite => rfl
  · intro notLess
    cases value with
    | notANumber => cases notLess
    | zero sign => exact .zero sign
    | infinity sign =>
        cases sign with
        | positive => exact .infinity
        | negative => cases notLess
    | finite sign mantissa exponent positive =>
        cases sign with
        | positive => exact .finite mantissa exponent positive
        | negative => cases notLess

theorem notBelow_iff {value : UnpackedFloat} : NotBelow value ↔ signum value ≠ some .lt := by
  constructor
  · intro notBelow
    cases notBelow with
    | zero sign => cases sign <;> decide
    | above above =>
        cases above with
        | notANumber => decide
        | infinity => decide
        | finite mantissa exponent positive =>
            rw [signum_finite]
            decide
  · intro notLess
    cases value with
    | notANumber => exact .above .notANumber
    | zero sign => exact .zero sign
    | infinity sign =>
        cases sign with
        | positive => exact .above .infinity
        | negative => exact absurd rfl notLess
    | finite sign mantissa exponent positive =>
        cases sign with
        | positive => exact .above (.finite mantissa exponent positive)
        | negative => exact absurd rfl notLess

theorem above_iff {value : UnpackedFloat} :
    Above value ↔ signum value ≠ some .lt ∧ signum value ≠ some .eq := by
  rw [← notBelow_iff]
  constructor
  · intro above
    refine ⟨.above above, ?_⟩
    cases above with
    | notANumber => decide
    | infinity => decide
    | finite mantissa exponent positive =>
        rw [signum_finite]
        decide
  · intro conditions
    obtain ⟨notBelow, nonzero⟩ := conditions
    cases notBelow with
    | zero sign => cases sign <;> exact absurd rfl nonzero
    | above above => exact above

theorem Above.of_le
    {first second : UnpackedFloat} (above : Above first)
    (ordered : (first.compare second).any Ordering.isLE = true) : Above second := by
  cases above with
  | notANumber => cases ordered
  | infinity =>
      cases second with
      | infinity sign =>
          cases sign with
          | negative => cases ordered
          | positive => exact .infinity
      | _ => cases ordered
  | finite mantissa exponent positive =>
      cases second with
      | infinity sign =>
          cases sign with
          | negative => cases ordered
          | positive => exact .infinity
      | finite sign otherMantissa otherExponent otherPositive =>
          cases sign with
          | negative => cases ordered
          | positive => exact .finite _ _ otherPositive
      | _ => cases ordered

theorem Above.compare_eq_lt
    {first second : UnpackedFloat} (above : Above second)
    (notAbove : (signum first).any Ordering.isLE = true) (number : second ≠ .notANumber) :
    first.compare second = some .lt := by
  cases first with
  | notANumber => cases notAbove
  | zero sign =>
      cases above with
      | notANumber => exact absurd rfl number
      | infinity => rfl
      | finite => rfl
  | infinity sign =>
      cases sign with
      | positive => cases notAbove
      | negative =>
          cases above with
          | notANumber => exact absurd rfl number
          | infinity => rfl
          | finite => rfl
  | finite sign mantissa exponent positive =>
      cases sign with
      | positive => cases notAbove
      | negative =>
          cases above with
          | notANumber => exact absurd rfl number
          | infinity => rfl
          | finite => rfl

/-- Of numbers that are not below zero only the greatest can be infinite. -/
theorem FromZero.isFinite_of_le
    {first second : UnpackedFloat} (fromZero : FromZero first)
    (ordered : (first.compare second).any Ordering.isLE = true)
    (finite : second.isFinite = true) : first.isFinite = true := by
  cases fromZero with
  | zero sign => rfl
  | finite => rfl
  | infinity =>
      cases second with
      | infinity => cases finite
      | _ => cases ordered

theorem FromZero.isLE_of_not_isFinite
    {first second : UnpackedFloat} (fromZero : FromZero first) (otherFromZero : FromZero second)
    (infinite : second.isFinite = false) :
    (first.compare second).any Ordering.isLE = true := by
  cases otherFromZero with
  | zero sign => cases infinite
  | finite => cases infinite
  | infinity => cases fromZero <;> rfl

/-! ## Rounded numbers -/

theorem fromZero_of_rounded {value : UnpackedFloat} (rounded : Rounded .positive value) :
    FromZero value := by
  cases rounded with
  | zero => exact .zero .positive
  | finite mantissa exponent positive => exact .finite _ _ positive

theorem above_of_rounded
    {value : UnpackedFloat} (rounded : Rounded .positive value)
    (nonzero : value ≠ .zero .positive) : Above value := by
  cases rounded with
  | zero => exact absurd rfl nonzero
  | finite mantissa exponent positive => exact .finite _ _ positive

theorem fromZero_normalize
    {mantissa : Int} (exponent : Int) (nonnegative : 0 ≤ mantissa) :
    FromZero (UnpackedFloat.normalize .binary64 mantissa exponent .positive) := by
  unfold UnpackedFloat.normalize
  split
  next below =>
    have := Int.compare_eq_lt.mp below
    omega
  next => exact .zero .positive
  next => exact fromZero_of_rounded (rounded_round .positive mantissa.toNat exponent)

theorem above_normalize
    {mantissa exponent : Int} (positive : 0 < mantissa) (least : -1074 ≤ exponent) :
    Above (UnpackedFloat.normalize .binary64 mantissa exponent .positive) := by
  have ordered : compare mantissa 0 = .gt := Int.compare_eq_gt.mpr positive
  unfold UnpackedFloat.normalize
  rw [ordered]
  apply above_of_rounded (rounded_round .positive mantissa.toNat exponent)
  exact round_ne_zero .positive _ _ (by omega) least

theorem fits_normalize (mantissa exponent : Int) (sign : Sign) :
    Fits (UnpackedFloat.normalize .binary64 mantissa exponent sign) := by
  unfold UnpackedFloat.normalize
  split
  · exact (rounded_round _ _ _).fits
  · exact trivial
  · exact (rounded_round _ _ _).fits

/-! ## Operations -/

section Operations

variable {first second : UnpackedFloat}

theorem fits_add (fits : Fits first) (otherFits : Fits second) :
    Fits (UnpackedFloat.add .binary64 first second) := by
  unfold UnpackedFloat.add
  split <;> first | trivial | assumption | skip
  · split <;> trivial
  · split <;> trivial
  · exact fits_normalize _ _ _

theorem above_add
    (fits : Fits first) (otherFits : Fits second) (notBelow : NotBelow first)
    (above : Above second) : Above (UnpackedFloat.add .binary64 first second) := by
  cases notBelow with
  | zero sign => cases above <;> constructor
  | above firstAbove =>
      cases firstAbove with
      | notANumber => exact .notANumber
      | infinity => cases above <;> constructor
      | finite mantissa exponent positive =>
          cases above with
          | notANumber => exact .notANumber
          | infinity => exact .infinity
          | finite otherMantissa otherExponent otherPositive =>
              refine above_normalize ?_ (le_min fits.2 otherFits.2)
              have aligned : 0 < mantissa <<< (exponent - min exponent otherExponent).toNat := by
                rw [Nat.shiftLeft_eq]
                exact Nat.mul_pos positive (Nat.two_pow_pos _)
              exact Int.add_pos_of_pos_of_nonneg (Int.natCast_pos.mpr aligned)
                (Int.natCast_nonneg _)

theorem fromZero_add (fromZero : FromZero first) (otherFromZero : FromZero second) :
    FromZero (UnpackedFloat.add .binary64 first second) := by
  cases fromZero with
  | zero sign =>
      cases otherFromZero with
      | zero otherSign => cases sign <;> cases otherSign <;> exact .zero _
      | infinity => exact .infinity
      | finite mantissa exponent positive => exact .finite mantissa exponent positive
  | infinity => cases otherFromZero <;> exact .infinity
  | finite mantissa exponent positive =>
      cases otherFromZero with
      | zero sign => exact .finite mantissa exponent positive
      | infinity => exact .infinity
      | finite otherMantissa otherExponent otherPositive =>
          apply fromZero_normalize
          exact Int.add_nonneg (Int.natCast_nonneg _) (Int.natCast_nonneg _)

theorem signum_normalize_ne_none (mantissa exponent : Int) (sign : Sign) :
    signum (UnpackedFloat.normalize .binary64 mantissa exponent sign) ≠ none := by
  have rounds {sign : Sign} {value : UnpackedFloat} (rounded : Rounded sign value) :
      signum value ≠ none := by
    cases rounded with
    | zero => cases sign <;> decide
    | finite mantissa exponent positive =>
        rw [signum_finite]
        cases sign <;> decide
  unfold UnpackedFloat.normalize
  split
  · exact rounds (rounded_round _ _ _)
  · cases sign <;> decide
  · exact rounds (rounded_round _ _ _)

theorem signum_sub_ne_none
    (fromZero : FromZero first) (otherFromZero : FromZero second)
    (finite : first.isFinite = true) :
    signum (UnpackedFloat.sub .binary64 second first) ≠ none := by
  cases fromZero with
  | infinity => cases finite
  | zero sign =>
      cases otherFromZero with
      | zero otherSign => cases sign <;> cases otherSign <;> decide
      | infinity =>
          change signum (.infinity .positive) ≠ none
          decide
      | finite mantissa exponent positive =>
          change signum (.finite .positive mantissa exponent positive) ≠ none
          rw [signum_finite]
          decide
  | finite mantissa exponent positive =>
      cases otherFromZero with
      | zero otherSign =>
          change signum (.finite .negative mantissa exponent positive) ≠ none
          rw [signum_finite]
          decide
      | infinity =>
          change signum (.infinity .positive) ≠ none
          decide
      | finite otherMantissa otherExponent otherPositive =>
          exact signum_normalize_ne_none _ _ _

theorem fits_mul : Fits (UnpackedFloat.mul .binary64 first second) := by
  unfold UnpackedFloat.mul
  split <;> first | trivial | exact (rounded_roundWithAccuracy _ _ _ _).fits

theorem notBelow_mul (notBelow : NotBelow first) (otherNotBelow : NotBelow second) :
    NotBelow (UnpackedFloat.mul .binary64 first second) := by
  cases notBelow with
  | zero sign =>
      cases otherNotBelow with
      | zero otherSign => exact .zero _
      | above above =>
          cases above with
          | finite => exact .zero _
          | _ => exact .above .notANumber
  | above above =>
      cases above with
      | notANumber => exact .above .notANumber
      | infinity =>
          cases otherNotBelow with
          | zero otherSign => exact .above .notANumber
          | above otherAbove =>
              cases otherAbove with
              | notANumber => exact .above .notANumber
              | _ => exact .above .infinity
      | finite mantissa exponent positive =>
          cases otherNotBelow with
          | zero otherSign => exact .zero _
          | above otherAbove =>
              cases otherAbove with
              | notANumber => exact .above .notANumber
              | infinity => exact .above .infinity
              | finite => exact (fromZero_of_rounded (rounded_roundWithAccuracy _ _ _ _)).notBelow

theorem fits_div : Fits (UnpackedFloat.div .binary64 first second) := by
  unfold UnpackedFloat.div
  split <;> first | trivial | exact (rounded_roundWithAccuracy _ _ _ _).fits

theorem notBelow_div (notBelow : NotBelow first) (above : Above second) :
    NotBelow (UnpackedFloat.div .binary64 first second) := by
  cases notBelow with
  | zero sign =>
      cases above with
      | notANumber => exact .above .notANumber
      | _ => exact .zero _
  | above firstAbove =>
      cases firstAbove with
      | notANumber => exact .above .notANumber
      | infinity =>
          cases above with
          | finite => exact .above .infinity
          | _ => exact .above .notANumber
      | finite mantissa exponent positive =>
          cases above with
          | notANumber => exact .above .notANumber
          | infinity => exact .zero _
          | finite => exact (fromZero_of_rounded (rounded_roundWithAccuracy _ _ _ _)).notBelow

theorem fits_sub (fits : Fits first) (otherFits : Fits second) :
    Fits (UnpackedFloat.sub .binary64 first second) := by
  unfold UnpackedFloat.sub
  split <;> first | trivial | assumption | skip
  · split <;> trivial
  · split <;> trivial
  · exact fits_normalize _ _ _

/-- What is ordered by exponent and then by mantissa stays so when the exponents are made
equal, as the greater number has all its bits. -/
theorem aligned_le
    {mantissa otherMantissa : Nat} {exponent otherExponent : Int}
    (small : mantissa < 2 ^ 53) (least : -1074 ≤ exponent)
    (filled : otherExponent = -1074 ∨ 2 ^ 52 ≤ otherMantissa)
    (ordered :
      ((compare exponent otherExponent).then (compare mantissa otherMantissa)).isLE = true) :
    mantissa <<< (exponent - min otherExponent exponent).toNat ≤
      otherMantissa <<< (otherExponent - min otherExponent exponent).toNat := by
  rw [Nat.shiftLeft_eq, Nat.shiftLeft_eq]
  rcases lt_trichotomy exponent otherExponent with below | same | above
  · rw [min_eq_right (le_of_lt below), sub_self]
    have many : 2 ^ 52 ≤ otherMantissa := filled.resolve_left (by omega)
    have shifted : 2 ^ 1 ≤ 2 ^ (otherExponent - exponent).toNat :=
      Nat.pow_le_pow_right Nat.two_pos (by omega)
    calc
      mantissa * 2 ^ (0 : Int).toNat = mantissa := Nat.mul_one mantissa
      _ ≤ 2 ^ 52 * 2 ^ 1 := Nat.le_of_lt small
      _ ≤ otherMantissa * 2 ^ (otherExponent - exponent).toNat := Nat.mul_le_mul many shifted
  · rw [same, Std.compare_self] at ordered
    rw [same]
    exact Nat.mul_le_mul_right _ (Nat.isLE_compare.mp ordered)
  · rw [Int.compare_eq_gt.mpr above] at ordered
    cases ordered

theorem notBelow_sub_finite
    {sign otherSign : Sign} {mantissa otherMantissa : Nat} {exponent otherExponent : Int}
    {positive : 0 < mantissa} {otherPositive : 0 < otherMantissa}
    (fits : Fits (.finite sign mantissa exponent positive))
    (otherFits : Fits (.finite otherSign otherMantissa otherExponent otherPositive))
    (filled : Filled (.finite sign mantissa exponent positive))
    (otherFilled : Filled (.finite otherSign otherMantissa otherExponent otherPositive))
    (ordered :
      (UnpackedFloat.compare (.finite sign mantissa exponent positive)
        (.finite otherSign otherMantissa otherExponent otherPositive)).any Ordering.isLE =
          true) :
    NotBelow (UnpackedFloat.sub .binary64
      (.finite otherSign otherMantissa otherExponent otherPositive)
      (.finite sign mantissa exponent positive)) := by
  refine (fromZero_normalize _ ?_).notBelow
  cases sign with
  | negative =>
      cases otherSign with
      | negative =>
          have swapped :
              ((compare otherExponent exponent).then
                (compare otherMantissa mantissa)).isLE = true := by
            rw [Std.OrientedOrd.eq_swap (a := otherExponent),
              Std.OrientedOrd.eq_swap (a := otherMantissa), ← Ordering.swap_then]
            exact ordered
          have aligned := aligned_le otherFits.1 otherFits.2 filled swapped
          rw [min_comm] at aligned
          exact Int.sub_nonneg.mpr (Int.neg_le_neg (Int.ofNat_le.mpr aligned))
      | positive =>
          refine Int.sub_nonneg.mpr (Int.le_trans ?_ (Int.natCast_nonneg _))
          exact Int.neg_nonpos_of_nonneg (Int.natCast_nonneg _)
  | positive =>
      cases otherSign with
      | negative => cases ordered
      | positive =>
          have aligned := aligned_le fits.1 fits.2 otherFilled ordered
          exact Int.sub_nonneg.mpr (Int.ofNat_le.mpr aligned)

theorem notBelow_sub
    (fits : Fits first) (otherFits : Fits second) (filled : Filled first)
    (otherFilled : Filled second)
    (ordered : (first.compare second).any Ordering.isLE = true) :
    NotBelow (UnpackedFloat.sub .binary64 second first) := by
  cases first with
  | notANumber => cases second <;> cases ordered
  | infinity sign =>
      cases sign with
      | negative =>
          cases second with
          | infinity otherSign =>
              cases otherSign with
              | negative => exact .above .notANumber
              | positive => exact .above .infinity
          | notANumber => cases ordered
          | _ => exact .above .infinity
      | positive =>
          cases second with
          | infinity otherSign =>
              cases otherSign with
              | negative => cases ordered
              | positive => exact .above .notANumber
          | _ => cases ordered
  | zero sign =>
      cases second with
      | notANumber => cases ordered
      | infinity otherSign =>
          cases otherSign with
          | negative => cases ordered
          | positive => exact .above .infinity
      | zero otherSign => cases sign <;> cases otherSign <;> exact .zero _
      | finite otherSign otherMantissa otherExponent otherPositive =>
          cases otherSign with
          | negative => cases ordered
          | positive => exact .above (.finite _ _ otherPositive)
  | finite sign mantissa exponent positive =>
      cases second with
      | notANumber => cases ordered
      | infinity otherSign =>
          cases otherSign with
          | negative => cases sign <;> cases ordered
          | positive => exact .above .infinity
      | zero otherSign =>
          cases sign with
          | negative => exact .above (.finite _ _ positive)
          | positive => cases ordered
      | finite => exact notBelow_sub_finite fits otherFits filled otherFilled ordered

end Operations

/-! ## Doubles -/

section Doubles

variable {first second : Float}

theorem lt_zero_iff : first < 0 ↔ signum first.toModel.unpack = some .lt :=
  lt_iff_compare

theorem not_lt_zero_iff : ¬ first < 0 ↔ NotBelow first.toModel.unpack := by
  rw [notBelow_iff, lt_zero_iff]

theorem not_le_zero_iff : ¬ first ≤ 0 ↔ Above first.toModel.unpack := by
  rw [above_iff, le_iff_compare]
  change ¬ (signum first.toModel.unpack).any Ordering.isLE = true ↔ _
  cases signum first.toModel.unpack with
  | none => decide
  | some ordering => cases ordering <;> decide

theorem zero_le_iff : 0 ≤ first ↔ FromZero first.toModel.unpack := by
  rw [fromZero_iff, le_iff_compare]
  change ((UnpackedFloat.zero .positive).compare first.toModel.unpack).any Ordering.isLE =
    true ↔ _
  rw [compare_swap first.toModel.unpack]
  change ((signum first.toModel.unpack).map Ordering.swap).any Ordering.isLE = true ↔ _
  cases signum first.toModel.unpack with
  | none => decide
  | some ordering => cases ordering <;> decide

theorem fits_toModel (value : Float) : Fits value.toModel.unpack :=
  fits_unpack value.toModel.toBits.toBitVec

/-- What is computed and fits a double is not below zero as a double. -/
theorem not_lt_zero_of_computed
    {value : UnpackedFloat} (fits : Fits value) (notBelow : NotBelow value) :
    ¬ Float.ofModel (.pack value) < 0 := by
  rw [not_lt_zero_iff, notBelow_iff]
  exact (signum_unpack_pack fits).trans_ne (notBelow_iff.mp notBelow)

theorem not_le_zero_of_computed
    {value : UnpackedFloat} (fits : Fits value) (above : Above value) :
    ¬ Float.ofModel (.pack value) ≤ 0 := by
  obtain ⟨notBelow, nonzero⟩ := above_iff.mp above
  rw [not_le_zero_iff, above_iff]
  exact ⟨(signum_unpack_pack fits).trans_ne notBelow, (signum_unpack_pack fits).trans_ne nonzero⟩

theorem not_add_le_zero (notBelow : ¬ first < 0) (above : ¬ second ≤ 0) :
    ¬ first + second ≤ 0 :=
  not_le_zero_of_computed (fits_add (fits_toModel first) (fits_toModel second))
    (above_add (fits_toModel first) (fits_toModel second) (not_lt_zero_iff.mp notBelow)
      (not_le_zero_iff.mp above))

theorem zero_le_add (nonnegative : 0 ≤ first) (otherNonnegative : 0 ≤ second) :
    0 ≤ first + second := by
  have sum : FromZero (UnpackedFloat.add .binary64 first.toModel.unpack second.toModel.unpack) :=
    fromZero_add (zero_le_iff.mp nonnegative) (zero_le_iff.mp otherNonnegative)
  have fits := fits_add (fits_toModel first) (fits_toModel second)
  rw [zero_le_iff, fromZero_iff]
  exact (congrArg (Option.any Ordering.isGE) (signum_unpack_pack fits)).trans (fromZero_iff.mp sum)

theorem not_mul_lt_zero (notBelow : ¬ first < 0) (otherNotBelow : ¬ second < 0) :
    ¬ first * second < 0 :=
  not_lt_zero_of_computed fits_mul
    (notBelow_mul (not_lt_zero_iff.mp notBelow) (not_lt_zero_iff.mp otherNotBelow))

theorem not_div_lt_zero (notBelow : ¬ first < 0) (above : ¬ second ≤ 0) :
    ¬ first / second < 0 :=
  not_lt_zero_of_computed fits_div
    (notBelow_div (not_lt_zero_iff.mp notBelow) (not_le_zero_iff.mp above))

theorem not_sub_lt_zero (ordered : first ≤ second) : ¬ second - first < 0 :=
  not_lt_zero_of_computed (fits_sub (fits_toModel second) (fits_toModel first))
    (notBelow_sub (fits_toModel first) (fits_toModel second) (filled_unpack _) (filled_unpack _)
      (le_iff_compare.mp ordered))

/-! ### Differences that are numbers -/

theorem zero_lt_iff : 0 < first ↔ signum first.toModel.unpack = some .gt := by
  rw [lt_iff_compare, compare_swap first.toModel.unpack]
  change (signum first.toModel.unpack).map Ordering.swap = some .lt ↔ _
  cases signum first.toModel.unpack with
  | none => decide
  | some ordering => cases ordering <;> decide

theorem signum_sub :
    signum (second - first).toModel.unpack =
      signum (UnpackedFloat.sub .binary64 second.toModel.unpack first.toModel.unpack) :=
  signum_unpack_pack (fits_sub (fits_toModel second) (fits_toModel first))

/-- What is greater than a number by more than nothing leaves that number finite. -/
theorem isFinite_of_zero_lt_sub
    (nonnegative : 0 ≤ first) (otherNonnegative : 0 ≤ second) (above : 0 < second - first) :
    first.isFinite = true := by
  rw [zero_lt_iff, signum_sub] at above
  change first.toModel.unpack.isFinite = true
  have fromZero := zero_le_iff.mp nonnegative
  have otherFromZero := zero_le_iff.mp otherNonnegative
  generalize first.toModel.unpack = lower at fromZero above
  generalize second.toModel.unpack = upper at otherFromZero above
  cases fromZero with
  | zero sign => rfl
  | finite mantissa exponent positive => rfl
  | infinity => cases otherFromZero <;> cases above

/-- A difference is a number where nothing infinite is taken away. -/
theorem zero_lt_sub_of_not_le
    (finite : first.isFinite = true) (nonnegative : 0 ≤ first) (otherNonnegative : 0 ≤ second)
    (above : ¬ second - first ≤ 0) : 0 < second - first := by
  rw [not_le_zero_iff, above_iff, signum_sub] at above
  rw [zero_lt_iff, signum_sub]
  change first.toModel.unpack.isFinite = true at finite
  have number : signum (UnpackedFloat.sub .binary64 second.toModel.unpack
      first.toModel.unpack) ≠ none := by
    have fromZero := zero_le_iff.mp nonnegative
    have otherFromZero := zero_le_iff.mp otherNonnegative
    generalize first.toModel.unpack = lower at fromZero finite
    generalize second.toModel.unpack = upper at otherFromZero
    exact signum_sub_ne_none fromZero otherFromZero finite
  generalize signum (UnpackedFloat.sub .binary64 second.toModel.unpack
    first.toModel.unpack) = sign at above number
  match sign with
  | none => exact absurd rfl number
  | some .lt => exact absurd rfl above.1
  | some .eq => exact absurd rfl above.2
  | some .gt => rfl

/-! ### Comparing -/

theorem not_le_zero_of_le (ordered : first ≤ second) (above : ¬ first ≤ 0) :
    ¬ second ≤ 0 :=
  not_le_zero_iff.mpr ((not_le_zero_iff.mp above).of_le (le_iff_compare.mp ordered))

/-- What is not above zero is less than any number that is. -/
theorem lt_of_le_zero
    {bound : Float} (notAbove : first ≤ 0) (above : ¬ second ≤ 0) (number : second ≤ bound) :
    first < second := by
  rw [lt_iff_compare]
  apply (not_le_zero_iff.mp above).compare_eq_lt (le_iff_compare.mp notAbove)
  intro isNaN
  rw [le_iff_compare, isNaN] at number
  cases number

theorem isFinite_of_le
    (nonnegative : 0 ≤ first) (ordered : first ≤ second) (finite : second.isFinite = true) :
    first.isFinite = true :=
  (zero_le_iff.mp nonnegative).isFinite_of_le (le_iff_compare.mp ordered) finite

theorem le_of_not_isFinite
    (nonnegative : 0 ≤ first) (otherNonnegative : 0 ≤ second)
    (infinite : second.isFinite = false) : first ≤ second :=
  le_iff_compare.mpr
    ((zero_le_iff.mp nonnegative).isLE_of_not_isFinite (zero_le_iff.mp otherNonnegative) infinite)

end Doubles

end Mixdown.Double
