import Mathlib.Algebra.BigOperators.Group.List.Basic
import Mathlib.Algebra.Order.Field.Rat
import Mathlib.Algebra.Order.Group.Abs
import Mathlib.Tactic.Linarith
import Mixdown.Timing.Basic

/-!
# Exact lengths

Lengths read over the rationals are computed without rounding: running totals
are sums, and a number kept within ordered bounds is cut to them.
-/

namespace Mixdown

namespace Scalar

theorem sum_eq (values : List ℚ) : sum values = values.sum :=
  List.sum_eq_foldl.symm

theorem lesser_eq_min (left right : ℚ) : lesser left right = min left right := by
  unfold lesser
  by_cases below : left < right
  · rw [if_pos below, min_eq_left (le_of_lt below)]
  · rw [if_neg below, if_pos (le_refl right), min_eq_right (not_lt.mp below)]

theorem greater_eq_max (left right : ℚ) : greater left right = max left right := by
  unfold greater
  by_cases above : right < left
  · rw [if_pos above, max_eq_left (le_of_lt above)]
  · rw [if_neg above, if_pos (le_refl right), max_eq_right (not_lt.mp above)]

theorem abs_eq (value : ℚ) : abs value = |value| := by
  change (if 0 ≤ value then value else -value) = |value|
  by_cases nonnegative : 0 ≤ value
  · rw [if_pos nonnegative, abs_of_nonneg nonnegative]
  · rw [if_neg nonnegative, abs_of_neg (not_le.mp nonnegative)]

theorem negligible_eq : (negligible : ℚ) = 1 / 2 ^ 52 := by
  change mkRat 1 4503599627370496 = 1 / 2 ^ 52
  norm_num

theorem negligible_pos : 0 < (negligible : ℚ) := by
  decide

end Scalar

namespace Timing

theorem confine_eq {low high : ℚ} (ordered : low ≤ high) (value : ℚ) :
    confine low high value = .ok (min high (max low value)) := by
  unfold confine
  rw [if_pos ordered]
  have raised : (if value < low then low else value) = max low value := by
    by_cases below : value < low
    · rw [if_pos below, max_eq_left (le_of_lt below)]
    · rw [if_neg below, max_eq_right (not_lt.mp below)]
  simp only [raised]
  by_cases above : high < max low value
  · rw [if_pos above, min_eq_left (le_of_lt above)]
  · rw [if_neg above, min_eq_right (not_lt.mp above)]

end Timing

end Mixdown
