import Mathlib.Order.Compare

/-!
# The order of doubles

Any two finite doubles compare one way or the other; what is not a number compares
to nothing.
-/

namespace Mixdown.Double

open Float.Model (UnpackedFloat)

/-! ## Comparing -/

theorem compare_swap (first second : UnpackedFloat) :
    second.compare first = (first.compare second).map Ordering.swap := by
  cases first with
  | notANumber => cases second <;> rfl
  | infinity sign =>
      cases second with
      | infinity otherSign => cases sign <;> cases otherSign <;> rfl
      | _ => cases sign <;> rfl
  | zero sign =>
      cases second with
      | infinity otherSign => cases otherSign <;> rfl
      | notANumber => rfl
      | zero otherSign => rfl
      | finite otherSign => cases otherSign <;> rfl
  | finite sign mantissa exponent =>
      cases second with
      | infinity otherSign => cases sign <;> cases otherSign <;> rfl
      | notANumber => cases sign <;> rfl
      | zero otherSign => cases sign <;> rfl
      | finite otherSign otherMantissa otherExponent =>
          have swapped :
              (compare otherExponent exponent).then (compare otherMantissa mantissa) =
                ((compare exponent otherExponent).then
                  (compare mantissa otherMantissa)).swap := by
            rw [Ordering.swap_then, ← Std.OrientedOrd.eq_swap, ← Std.OrientedOrd.eq_swap]
          cases sign with
          | negative =>
              cases otherSign with
              | negative => exact congrArg (fun ordering => some ordering.swap) swapped
              | positive => rfl
          | positive =>
              cases otherSign with
              | negative => rfl
              | positive => exact congrArg some swapped

theorem exists_compare
    {first second : UnpackedFloat} (finite : first.isFinite = true)
    (otherFinite : second.isFinite = true) :
    ∃ ordering, first.compare second = some ordering := by
  refine Option.isSome_iff_exists.mp ?_
  cases first with
  | infinity sign => cases finite
  | notANumber => cases finite
  | zero sign =>
      cases second with
      | infinity otherSign => cases otherFinite
      | notANumber => cases otherFinite
      | zero otherSign => rfl
      | finite otherSign => cases otherSign <;> rfl
  | finite sign =>
      cases second with
      | infinity otherSign => cases otherFinite
      | notANumber => cases otherFinite
      | zero otherSign => cases sign <;> rfl
      | finite otherSign => cases sign <;> cases otherSign <;> rfl

/-! ## Doubles -/

variable {first second : Float}

theorem lt_iff_compare :
    first < second ↔
      first.toModel.unpack.compare second.toModel.unpack = some .lt := by
  change decide ((first.toModel.unpack.compare second.toModel.unpack == some .lt) = true) =
    true ↔ _
  rw [decide_eq_true_iff, beq_iff_eq]

theorem le_iff_compare :
    first ≤ second ↔
      (first.toModel.unpack.compare second.toModel.unpack).any Ordering.isLE = true := by
  change decide ((first.toModel.unpack.compare second.toModel.unpack).any Ordering.isLE =
    true) = true ↔ _
  rw [decide_eq_true_iff]

theorem not_lt_of_le (below : first ≤ second) : ¬ second < first := by
  rw [lt_iff_compare, compare_swap first.toModel.unpack]
  rw [le_iff_compare] at below
  cases ordered : first.toModel.unpack.compare second.toModel.unpack with
  | none => simp
  | some ordering =>
      rw [ordered] at below
      cases ordering with
      | lt => simp
      | eq => simp
      | gt => cases below

theorem le_of_not_lt
    (finite : first.isFinite = true) (otherFinite : second.isFinite = true)
    (notBelow : ¬ first < second) : second ≤ first := by
  obtain ⟨ordering, ordered⟩ := exists_compare finite otherFinite
  rw [lt_iff_compare, ordered] at notBelow
  rw [le_iff_compare, compare_swap first.toModel.unpack, ordered]
  cases ordering with
  | lt => exact absurd rfl notBelow
  | eq => rfl
  | gt => rfl

theorem lt_of_not_le
    (finite : first.isFinite = true) (otherFinite : second.isFinite = true)
    (notBelow : ¬ first ≤ second) : second < first := by
  obtain ⟨ordering, ordered⟩ := exists_compare finite otherFinite
  rw [le_iff_compare, ordered] at notBelow
  rw [lt_iff_compare, compare_swap first.toModel.unpack, ordered]
  cases ordering with
  | lt => exact absurd rfl notBelow
  | eq => exact absurd rfl notBelow
  | gt => rfl

/-! ## Tests for what is out of range -/

theorem not_infinite_or_lt_iff (finite : second.isFinite = true) :
    ¬ (first.isFinite = false ∨ first < second) ↔
      first.isFinite = true ∧ second ≤ first := by
  rw [not_or, Bool.not_eq_false]
  exact and_congr_right fun firstFinite => ⟨le_of_not_lt firstFinite finite, not_lt_of_le⟩

theorem not_infinite_or_le_iff (finite : second.isFinite = true) :
    ¬ (first.isFinite = false ∨ first ≤ second) ↔
      first.isFinite = true ∧ second < first := by
  rw [not_or, Bool.not_eq_false]
  exact and_congr_right fun firstFinite =>
    ⟨lt_of_not_le firstFinite finite, fun above below => not_lt_of_le below above⟩

theorem infinite_or_lt_iff (finite : second.isFinite = true) :
    (first.isFinite = false ∨ first < second) ↔
      ¬ (first.isFinite = true ∧ second ≤ first) := by
  rw [← not_infinite_or_lt_iff finite, not_not]

theorem infinite_or_le_iff (finite : second.isFinite = true) :
    (first.isFinite = false ∨ first ≤ second) ↔
      ¬ (first.isFinite = true ∧ second < first) := by
  rw [← not_infinite_or_le_iff finite, not_not]

end Mixdown.Double
