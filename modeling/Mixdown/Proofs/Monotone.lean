import Mathlib.Data.List.Forall2
import Mixdown.Proofs.Arithmetic
import Mixdown.Scalar

/-!
# Sums and bounds of doubles

Finite doubles are added in order: greater terms give no smaller sum, whatever is rounded.
A sum is finite only if its terms are.
-/

namespace Mixdown.Double

open Float.Model (Format UnpackedFloat)
open Float.Model.UnpackedFloat

section Doubles

variable {first second third : Float}

/-! ## Order -/

theorem le_refl_of_isFinite (finite : first.isFinite = true) : first ≤ first :=
  (rounds_self finite).le (rounds_self finite) le_rfl

theorem le_trans_of_isFinite
    (finite : first.isFinite = true) (secondFinite : second.isFinite = true)
    (thirdFinite : third.isFinite = true) (ordered : first ≤ second)
    (orderedAgain : second ≤ third) : first ≤ third := by
  rw [le_iff_rational finite secondFinite] at ordered
  rw [le_iff_rational secondFinite thirdFinite] at orderedAgain
  rw [le_iff_rational finite thirdFinite]
  exact ordered.trans orderedAgain

theorem finite_zero : Float.isFinite 0 = true := by
  decide +kernel

theorem valueOf_nonneg (finite : first.isFinite = true) (nonnegative : 0 ≤ first) :
    0 ≤ valueOf first :=
  (le_iff_rational finite_zero finite).mp nonnegative

theorem zero_lt_valueOf (finite : first.isFinite = true) (positive : ¬ first ≤ 0) :
    0 < valueOf first :=
  not_le.mp (mt (le_iff_rational finite finite_zero).mpr positive)

theorem isFinite_of_between
    (finite : first.isFinite = true) (thirdFinite : third.isFinite = true)
    (above : first ≤ second) (below : second ≤ third) : second.isFinite = true := by
  rw [le_iff_compare] at above below
  change first.toModel.unpack.isFinite = true at finite
  change third.toModel.unpack.isFinite = true at thirdFinite
  change second.toModel.unpack.isFinite = true
  generalize first.toModel.unpack = least at *
  generalize second.toModel.unpack = middle at *
  generalize third.toModel.unpack = greatest at *
  cases middle with
  | notANumber => cases greatest <;> cases below
  | zero sign => rfl
  | finite sign mantissa exponent positive => rfl
  | infinity sign =>
      cases sign with
      | positive =>
          cases greatest with
          | notANumber => cases thirdFinite
          | infinity sign => cases thirdFinite
          | zero sign => cases below
          | finite sign mantissa exponent positive => cases below
      | negative =>
          cases least with
          | notANumber => cases finite
          | infinity sign => cases finite
          | zero sign => cases above
          | finite sign mantissa exponent positive => cases sign <;> cases above

theorem le_of_lt (below : first < second) : first ≤ second := by
  rw [lt_iff_compare] at below
  rw [le_iff_compare, below]
  rfl

/-! ## Differences and quotients -/

theorem sub_bounded
    (finite : third.isFinite = true) (nonnegative : 0 ≤ first) (otherNonnegative : 0 ≤ second)
    (small : first ≤ third) (otherSmall : second ≤ third) :
    (first - second).isFinite = true ∧ |valueOf (first - second)| ≤ valueOf third := by
  have firstFinite := isFinite_of_le nonnegative small finite
  have secondFinite := isFinite_of_le otherNonnegative otherSmall finite
  have least := valueOf_nonneg firstFinite nonnegative
  have otherLeast := valueOf_nonneg secondFinite otherNonnegative
  rw [le_iff_rational firstFinite finite] at small
  rw [le_iff_rational secondFinite finite] at otherSmall
  apply (rounds_sub firstFinite secondFinite).bounded (rounds_self finite) finite
  rw [abs_le]
  constructor <;> linarith

/-- What is left of a number when a smaller one is taken off is no greater than it was. -/
theorem sub_le_of_le
    (finite : first.isFinite = true) (thirdFinite : third.isFinite = true)
    (nonnegative : 0 ≤ second) (ordered : second ≤ first) (small : first ≤ third) :
    0 ≤ first - second ∧ first - second ≤ third := by
  have secondFinite := isFinite_of_le nonnegative ordered finite
  have least := valueOf_nonneg secondFinite nonnegative
  rw [le_iff_rational secondFinite finite] at ordered
  rw [le_iff_rational finite thirdFinite] at small
  have rounds := rounds_sub finite secondFinite
  exact ⟨(rounds_self finite_zero).le rounds (sub_nonneg.mpr ordered),
    rounds.le (rounds_self thirdFinite) (by linarith)⟩

theorem isFinite_div
    {fourth : Float} (finite : first.isFinite = true) (secondFinite : second.isFinite = true)
    (thirdFinite : third.isFinite = true) (fourthFinite : fourth.isFinite = true)
    (small : |valueOf first| ≤ valueOf third) (positive : 0 < valueOf fourth)
    (large : valueOf fourth ≤ valueOf second) (bounded : (third / fourth).isFinite = true) :
    (first / second).isFinite = true := by
  have otherPositive := positive.trans_le large
  apply ((rounds_div finite secondFinite otherPositive.ne').bounded
    (rounds_div thirdFinite fourthFinite positive.ne') bounded _).1
  rw [abs_div, abs_of_pos otherPositive]
  exact div_le_div₀ ((abs_nonneg _).trans small) small positive large

/-! ## Numbers -/

theorem isNaN_of_isFinite (finite : first.isFinite = true) : first.isNaN = false :=
  (rounds_self finite).isNaN

/-- Of two numbers that are not in order one way, the other way is. -/
theorem le_of_not_lt_of_number
    (number : first.isNaN = false) (otherNumber : second.isNaN = false)
    (notBelow : ¬ first < second) : second ≤ first := by
  rw [lt_iff_compare] at notBelow
  rw [le_iff_compare, compare_swap first.toModel.unpack]
  have compared : (first.toModel.unpack.compare second.toModel.unpack).isSome = true := by
    change first.toModel.unpack.isNaN = false at number
    change second.toModel.unpack.isNaN = false at otherNumber
    generalize first.toModel.unpack = left at *
    generalize second.toModel.unpack = right at *
    cases left with
    | notANumber => cases number
    | infinity sign =>
        cases right with
        | notANumber => cases otherNumber
        | _ => cases sign <;> rfl
    | zero sign =>
        cases right with
        | notANumber => cases otherNumber
        | zero otherSign => rfl
        | _ otherSign => cases otherSign <;> rfl
    | finite sign mantissa exponent positive =>
        cases right with
        | notANumber => cases otherNumber
        | zero otherSign => cases sign <;> rfl
        | _ otherSign => cases sign <;> cases otherSign <;> rfl
  obtain ⟨ordering, isOrdering⟩ := Option.isSome_iff_exists.mp compared
  rw [isOrdering] at notBelow ⊢
  cases ordering with
  | lt => exact absurd rfl notBelow
  | eq => rfl
  | gt => rfl

theorem exists_infinity_of_number
    (number : first.isNaN = false) (infinite : first.isFinite = false) :
    ∃ sign, first.toModel.unpack = .infinity sign := by
  change first.toModel.unpack.isNaN = false at number
  change first.toModel.unpack.isFinite = false at infinite
  cases unpacked : first.toModel.unpack with
  | infinity sign => exact ⟨sign, rfl⟩
  | notANumber =>
      rw [unpacked] at number
      cases number
  | zero sign =>
      rw [unpacked] at infinite
      cases infinite
  | finite sign mantissa exponent positive =>
      rw [unpacked] at infinite
      cases infinite

theorem isNaN_of_le (ordered : first ≤ second) :
    first.isNaN = false ∧ second.isNaN = false := by
  rw [le_iff_compare] at ordered
  change first.toModel.unpack.isNaN = false ∧ second.toModel.unpack.isNaN = false
  generalize first.toModel.unpack = left at *
  generalize second.toModel.unpack = right at *
  cases left with
  | notANumber => cases ordered
  | _ =>
      cases right with
      | notANumber => cases ordered
      | _ => exact ⟨rfl, rfl⟩

theorem isNaN_pack_infinity (sign : Sign) :
    (Float.ofModel (.pack (.infinity sign))).isNaN = false := by
  cases sign <;> decide +kernel

/-- A finite number and any other number add up to a number. -/
theorem isNaN_add (finite : first.isFinite = true) (number : second.isNaN = false) :
    (first + second).isNaN = false := by
  cases secondFinite : second.isFinite with
  | true => exact (rounds_add finite secondFinite).isNaN
  | false =>
      obtain ⟨sign, isInfinite⟩ := exists_infinity_of_number number secondFinite
      change (Float.ofModel (.pack (UnpackedFloat.add .binary64 first.toModel.unpack
        second.toModel.unpack))).isNaN = false
      change first.toModel.unpack.isFinite = true at finite
      rw [isInfinite]
      cases unpacked : first.toModel.unpack with
      | zero otherSign => exact isNaN_pack_infinity sign
      | finite otherSign otherMantissa otherExponent otherPositive =>
          exact isNaN_pack_infinity sign
      | _ =>
          rw [unpacked] at finite
          cases finite

/-- A number stays one when it is divided by a finite number other than zero. -/
theorem isNaN_div
    (number : first.isNaN = false) (finite : second.isFinite = true)
    (nonzero : valueOf second ≠ 0) : (first / second).isNaN = false := by
  cases firstFinite : first.isFinite with
  | true => exact (rounds_div firstFinite finite nonzero).isNaN
  | false =>
      obtain ⟨sign, isInfinite⟩ := exists_infinity_of_number number firstFinite
      change (Float.ofModel (.pack (UnpackedFloat.div .binary64 first.toModel.unpack
        second.toModel.unpack))).isNaN = false
      change second.toModel.unpack.isFinite = true at finite
      rw [isInfinite]
      cases unpacked : second.toModel.unpack with
      | zero otherSign => exact isNaN_pack_infinity (sign / otherSign)
      | finite otherSign otherMantissa otherExponent otherPositive =>
          exact isNaN_pack_infinity (sign / otherSign)
      | _ =>
          rw [unpacked] at finite
          cases finite

/-! ## Sums -/

theorem add_le_add_of_isFinite
    {fourth : Float} (finite : first.isFinite = true) (secondFinite : second.isFinite = true)
    (thirdFinite : third.isFinite = true) (fourthFinite : fourth.isFinite = true)
    (ordered : first ≤ second) (otherOrdered : third ≤ fourth) :
    first + third ≤ second + fourth := by
  rw [le_iff_rational finite secondFinite] at ordered
  rw [le_iff_rational thirdFinite fourthFinite] at otherOrdered
  exact (rounds_add finite thirdFinite).le (rounds_add secondFinite fourthFinite)
    (add_le_add ordered otherOrdered)

theorem isFinite_of_pack
    {value : UnpackedFloat} (finite : (Float.ofModel (.pack value)).isFinite = true) :
    value.isFinite = true := by
  cases value with
  | notANumber => exact absurd finite (by decide +kernel)
  | infinity sign => cases sign <;> exact absurd finite (by decide +kernel)
  | zero sign => rfl
  | finite sign mantissa exponent positive => rfl

/-- What is not finite makes no finite sum. -/
theorem isFinite_of_add (finite : (first + second).isFinite = true) :
    first.isFinite = true ∧ second.isFinite = true := by
  have sum : (UnpackedFloat.add .binary64 first.toModel.unpack
      second.toModel.unpack).isFinite = true :=
    isFinite_of_pack finite
  change first.toModel.unpack.isFinite = true ∧ second.toModel.unpack.isFinite = true
  generalize first.toModel.unpack = left at *
  generalize second.toModel.unpack = right at *
  cases left with
  | notANumber => cases sum
  | infinity sign =>
      cases right with
      | infinity otherSign => cases sign <;> cases otherSign <;> cases sum
      | _ => cases sum
  | zero sign =>
      cases right with
      | notANumber => cases sum
      | infinity otherSign => cases sum
      | _ => exact ⟨rfl, rfl⟩
  | finite sign mantissa exponent positive =>
      cases right with
      | notANumber => cases sum
      | infinity otherSign => cases sum
      | _ => exact ⟨rfl, rfl⟩

theorem isFinite_of_foldl
    {values : List Float} {total : Float} (finite : (values.foldl (· + ·) total).isFinite = true) :
    total.isFinite = true ∧ ∀ value ∈ values, value.isFinite = true := by
  induction values generalizing total with
  | nil => exact ⟨finite, by simp⟩
  | cons value rest inductionHypothesis =>
      obtain ⟨added, restFinite⟩ := inductionHypothesis finite
      obtain ⟨totalFinite, valueFinite⟩ := isFinite_of_add added
      exact ⟨totalFinite, List.forall_mem_cons.mpr ⟨valueFinite, restFinite⟩⟩

theorem isFinite_of_sum
    {values : List Float} (finite : (Scalar.sum values).isFinite = true) :
    ∀ value ∈ values, value.isFinite = true :=
  (isFinite_of_foldl finite).2

theorem le_add_of_zero_le
    (finite : first.isFinite = true) (secondFinite : second.isFinite = true)
    (thirdFinite : third.isFinite = true) (ordered : third ≤ first) (nonnegative : 0 ≤ second) :
    third ≤ first + second := by
  have above := valueOf_nonneg secondFinite nonnegative
  rw [le_iff_rational thirdFinite finite] at ordered
  exact (rounds_self thirdFinite).le (rounds_add finite secondFinite) (by linarith)

theorem zero_le_foldl
    {values : List Float} (nonnegative : ∀ value ∈ values, 0 ≤ value) {total : Float}
    (totalNonnegative : 0 ≤ total) : 0 ≤ values.foldl (· + ·) total := by
  induction values generalizing total with
  | nil => exact totalNonnegative
  | cons value rest inductionHypothesis =>
      obtain ⟨valueNonnegative, restNonnegative⟩ := List.forall_mem_cons.mp nonnegative
      have added : 0 ≤ total + value := zero_le_add totalNonnegative valueNonnegative
      exact inductionHypothesis restNonnegative added

theorem zero_le_origin : (0 : Float) ≤ -0.0 := by
  decide +kernel

theorem zero_le_sum {values : List Float} (nonnegative : ∀ value ∈ values, 0 ≤ value) :
    0 ≤ Scalar.sum values :=
  zero_le_foldl nonnegative zero_le_origin

theorem total_le_foldl
    {bounds : List Float} {total greaterTotal : Float} (nonnegative : ∀ bound ∈ bounds, 0 ≤ bound)
    (totalNonnegative : 0 ≤ total) (ordered : total ≤ greaterTotal)
    (finite : (bounds.foldl (· + ·) greaterTotal).isFinite = true) :
    total ≤ bounds.foldl (· + ·) greaterTotal := by
  induction bounds generalizing greaterTotal with
  | nil => exact ordered
  | cons bound rest inductionHypothesis =>
      obtain ⟨boundNonnegative, restNonnegative⟩ := List.forall_mem_cons.mp nonnegative
      obtain ⟨greaterFinite, boundsFinite⟩ := isFinite_of_foldl finite
      have boundFinite := boundsFinite bound List.mem_cons_self
      apply inductionHypothesis restNonnegative _ finite
      exact le_add_of_zero_le greaterFinite boundFinite
        (isFinite_of_le totalNonnegative ordered greaterFinite) ordered boundNonnegative

/-- The values of a list are some of those of another one or less, and none is below
zero. -/
def Below (values greater : List Float) : Prop :=
  List.SublistForall₂ (fun value bound : Float => 0 ≤ value ∧ value ≤ bound) values greater

theorem below_map
    {β : Type} {items others : List β} {value bound : β → Float}
    (sublist : List.Sublist items others)
    (between : ∀ item ∈ items, 0 ≤ value item ∧ value item ≤ bound item) :
    Below (items.map value) (others.map bound) := by
  rw [Below, List.sublistForall₂_map_left_iff, List.sublistForall₂_map_right_iff]
  exact List.sublistForall₂_iff.mpr ⟨items, List.forall₂_same.mpr between, sublist⟩

theorem Below.nonneg {values greater : List Float} (below : Below values greater) :
    ∀ value ∈ values, 0 ≤ value := by
  unfold Below at below
  induction below with
  | nil => exact List.forall_mem_nil _
  | cons both rest inductionHypothesis =>
      exact List.forall_mem_cons.mpr ⟨both.1, inductionHypothesis⟩
  | cons_right rest inductionHypothesis => exact inductionHypothesis

/-- Of terms that are not below zero, fewer and smaller ones give no greater sum. -/
theorem foldl_le_foldl
    {values greater : List Float} {total greaterTotal : Float} (terms : Below values greater)
    (nonnegative : ∀ bound ∈ greater, 0 ≤ bound) (totalNonnegative : 0 ≤ total)
    (ordered : total ≤ greaterTotal)
    (finite : (greater.foldl (· + ·) greaterTotal).isFinite = true) :
    values.foldl (· + ·) total ≤ greater.foldl (· + ·) greaterTotal := by
  unfold Below at terms
  induction terms generalizing total greaterTotal with
  | @nil bounds =>
      exact total_le_foldl nonnegative totalNonnegative ordered finite
  | cons bounded rest inductionHypothesis =>
      obtain ⟨boundNonnegative, boundsNonnegative⟩ := List.forall_mem_cons.mp nonnegative
      obtain ⟨valueNonnegative, valueOrdered⟩ := bounded
      obtain ⟨greaterFinite, boundsFinite⟩ := isFinite_of_foldl finite
      have boundFinite := boundsFinite _ List.mem_cons_self
      apply inductionHypothesis boundsNonnegative
        (zero_le_add totalNonnegative valueNonnegative) _ finite
      exact add_le_add_of_isFinite (isFinite_of_le totalNonnegative ordered greaterFinite)
        greaterFinite (isFinite_of_le valueNonnegative valueOrdered boundFinite) boundFinite
        ordered valueOrdered
  | cons_right rest inductionHypothesis =>
      obtain ⟨boundNonnegative, boundsNonnegative⟩ := List.forall_mem_cons.mp nonnegative
      obtain ⟨greaterFinite, boundsFinite⟩ := isFinite_of_foldl finite
      have boundFinite := boundsFinite _ List.mem_cons_self
      apply inductionHypothesis boundsNonnegative totalNonnegative _ finite
      exact le_add_of_zero_le greaterFinite boundFinite
        (isFinite_of_le totalNonnegative ordered greaterFinite) ordered boundNonnegative

theorem sum_le_sum
    {values greater : List Float} (terms : Below values greater)
    (nonnegative : ∀ bound ∈ greater, 0 ≤ bound) (finite : (Scalar.sum greater).isFinite = true) :
    Scalar.sum values ≤ Scalar.sum greater :=
  foldl_le_foldl terms nonnegative zero_le_origin (by decide +kernel) finite

end Doubles

end Mixdown.Double
