import Mathlib.Algebra.Order.Field.Power
import Mathlib.Data.Rat.Cast.Order
import Mathlib.Tactic.Linarith
import Mathlib.Tactic.NormNum
import Mathlib.Tactic.Positivity
import Mathlib.Tactic.Ring
import Mixdown.Decimal.Shortest

/-!
# The shortest decimal rounds to its double

The search for the shortest decimal ends on a grid that is fine enough, and what it finds
lies among the numbers that are read as the double.
-/

namespace Mixdown.Decimal

/-! ## Powers -/

theorem powerOver_eq (base : Nat) (positive : 0 < base) (power : Int) :
    ((powerOver base power).1 : ℚ) / (powerOver base power).2 = (base : ℚ) ^ power := by
  have notZero : (base : ℚ) ≠ 0 := by
    exact_mod_cast positive.ne'
  rw [powerOver]
  simp only [Nat.pow_eq, Nat.cast_pow, ← zpow_natCast]
  rw [← zpow_sub₀ notZero]
  congr 1
  omega

theorem powerOver_pos (base : Nat) (positive : 0 < base) (power : Int) :
    0 < (powerOver base power).1 ∧ 0 < (powerOver base power).2 :=
  ⟨Nat.pow_pos positive, Nat.pow_pos positive⟩

/-- Powers of ten against powers of two, from `10 ^ 3 < 2 ^ 10` and `2 ^ 93 < 10 ^ 28`. -/
theorem ten_zpow_le_two_zpow {tens twos : Int} (above : 10 * tens ≤ 3 * twos)
    (below : 93 * tens ≤ 28 * twos) : (10 : ℚ) ^ tens ≤ 2 ^ twos := by
  rcases le_total 0 twos with nonnegative | nonpositive
  · have raised : ((10 : ℚ) ^ tens) ^ 10 ≤ (2 ^ twos) ^ 10 := by
      calc
        ((10 : ℚ) ^ tens) ^ 10
        _ = 10 ^ (10 * tens) := by rw [← zpow_natCast, ← zpow_mul, mul_comm]; rfl
        _ ≤ 10 ^ (3 * twos) := zpow_le_zpow_right₀ (by norm_num) above
        _ = (1000 : ℚ) ^ twos := by rw [zpow_mul]; norm_num
        _ ≤ 1024 ^ twos := by
          lift twos to ℕ using nonnegative
          simp only [zpow_natCast]
          exact pow_le_pow_left₀ (by norm_num) (by norm_num) twos
        _ = (2 ^ twos) ^ 10 := by
          rw [← zpow_natCast, ← zpow_mul, mul_comm, zpow_mul]
          norm_num
    exact le_of_pow_le_pow_left₀ (by norm_num) (by positivity) raised
  · have raised : ((10 : ℚ) ^ tens) ^ 93 ≤ (2 ^ twos) ^ 93 := by
      calc
        ((10 : ℚ) ^ tens) ^ 93
        _ = 10 ^ (93 * tens) := by rw [← zpow_natCast, ← zpow_mul, mul_comm]; rfl
        _ ≤ 10 ^ (28 * twos) := zpow_le_zpow_right₀ (by norm_num) below
        _ = ((10 : ℚ) ^ 28) ^ twos := by rw [zpow_mul]; rfl
        _ ≤ ((2 : ℚ) ^ 93) ^ twos := by
          obtain ⟨count, rfl⟩ := Int.exists_eq_neg_ofNat nonpositive
          rw [zpow_neg, zpow_neg, zpow_natCast, zpow_natCast]
          exact inv_anti₀ (by positivity) (pow_le_pow_left₀ (by norm_num) (by norm_num) count)
        _ = (2 ^ twos) ^ 93 := by
          rw [← zpow_natCast, ← zpow_natCast, ← zpow_mul, ← zpow_mul, mul_comm]
    exact le_of_pow_le_pow_left₀ (by norm_num) (by positivity) raised

/-! ## Grids -/

section Grids

variable (mantissa : Nat) (exponent power : Int)

/-- How many quarters of a step below a double the numbers reach that are read as it. -/
def reach : Nat :=
  if mantissa = leastNormalMantissa ∧ exponent ≠ leastExponent then 1 else 2

/-- The quarter of a step, in the unit of a grid. -/
def quarter : Nat :=
  (powerOver 2 (exponent - 2)).1 * (powerOver 10 power).2

/-- The step of a grid in its unit. -/
def gridStep : Nat :=
  (powerOver 10 power).1 * (powerOver 2 (exponent - 2)).2

/-- Whether a point of a grid is read as the double. -/
def readsBack (point : Nat) : Bool :=
  if mantissa % 2 = 0 then
    decide ((4 * mantissa - reach mantissa exponent) * quarter exponent power ≤
        point * gridStep exponent power ∧
      point * gridStep exponent power ≤ (4 * mantissa + 2) * quarter exponent power)
  else
    decide ((4 * mantissa - reach mantissa exponent) * quarter exponent power <
        point * gridStep exponent power ∧
      point * gridStep exponent power < (4 * mantissa + 2) * quarter exponent power)

/-- The point of a grid at a double or below it. -/
def pointBelow : Nat :=
  4 * mantissa * quarter exponent power / gridStep exponent power

theorem gridStep_pos : 0 < gridStep exponent power :=
  Nat.mul_pos (powerOver_pos 10 (by decide) power).1 (powerOver_pos 2 (by decide) (exponent - 2)).2

theorem quarter_pos : 0 < quarter exponent power :=
  Nat.mul_pos (powerOver_pos 2 (by decide) (exponent - 2)).1 (powerOver_pos 10 (by decide) power).2

theorem reach_bounds : 0 < reach mantissa exponent ∧ reach mantissa exponent ≤ 2 := by
  rw [reach]
  split <;> decide

/-- Which of two points is preferred does not matter here. -/
theorem exists_gridPoint?_eq (tie : Tie) :
    ∃ preferBelow : Bool,
      gridPoint? tie mantissa exponent power =
        if readsBack mantissa exponent power (pointBelow mantissa exponent power) &&
            (!readsBack mantissa exponent power (pointBelow mantissa exponent power + 1) ||
              preferBelow) then
          some ⟨pointBelow mantissa exponent power, power⟩
        else if readsBack mantissa exponent power (pointBelow mantissa exponent power + 1) then
          some ⟨pointBelow mantissa exponent power + 1, power⟩
        else
          none :=
  ⟨_, rfl⟩

variable {mantissa exponent power}

theorem readsBack_of_gridPoint? {tie : Tie} {found : Digits}
    (hit : gridPoint? tie mantissa exponent power = some found) :
    found.power = power ∧ readsBack mantissa exponent power found.digits = true := by
  obtain ⟨preferBelow, equality⟩ := exists_gridPoint?_eq mantissa exponent power tie
  rw [equality] at hit
  split at hit
  next chosen =>
    cases hit
    exact ⟨rfl, (Bool.and_eq_true_iff.mp chosen).1⟩
  next =>
    split at hit
    next aboveReads =>
      cases hit
      exact ⟨rfl, aboveReads⟩
    next => cases hit

/-- On a fine grid the point below is read as the double. -/
theorem readsBack_pointBelow
    (positive : 0 < mantissa) (fine : gridStep exponent power ≤ quarter exponent power) :
    readsBack mantissa exponent power (pointBelow mantissa exponent power) = true := by
  have notAbove :
      pointBelow mantissa exponent power * gridStep exponent power ≤
        4 * mantissa * quarter exponent power :=
    Nat.div_mul_le_self _ _
  have near :
      4 * mantissa * quarter exponent power <
        pointBelow mantissa exponent power * gridStep exponent power +
          gridStep exponent power :=
    Nat.lt_div_mul_add (gridStep_pos exponent power)
  have oneQuarter : quarter exponent power ≤ reach mantissa exponent * quarter exponent power :=
    Nat.le_mul_of_pos_left _ (reach_bounds mantissa exponent).1
  have enough :
      reach mantissa exponent * quarter exponent power ≤ 4 * mantissa * quarter exponent power := by
    apply Nat.mul_le_mul_right
    have notLong := (reach_bounds mantissa exponent).2
    omega
  have hasQuarter := quarter_pos exponent power
  have low :
      (4 * mantissa - reach mantissa exponent) * quarter exponent power <
        pointBelow mantissa exponent power * gridStep exponent power := by
    rw [Nat.sub_mul]
    omega
  have high :
      pointBelow mantissa exponent power * gridStep exponent power <
        (4 * mantissa + 2) * quarter exponent power := by
    rw [Nat.add_mul]
    omega
  rw [readsBack]
  split
  next => exact decide_eq_true ⟨low.le, high.le⟩
  next => exact decide_eq_true ⟨low, high⟩

theorem gridPoint?_ne_none
    (tie : Tie) (positive : 0 < mantissa)
    (fine : gridStep exponent power ≤ quarter exponent power) :
    gridPoint? tie mantissa exponent power ≠ none := by
  obtain ⟨preferBelow, equality⟩ := exists_gridPoint?_eq mantissa exponent power tie
  rw [equality, readsBack_pointBelow positive fine, Bool.true_and]
  cases readsBack mantissa exponent power (pointBelow mantissa exponent power + 1) <;>
    cases preferBelow <;> simp

/-- The search ends at the latest on its last grid. -/
theorem exists_searchGrids_eq
    {tie : Tie} (steps : Nat)
    (lastHits : gridPoint? tie mantissa exponent (power - steps) ≠ none) :
    ∃ reached,
      gridPoint? tie mantissa exponent reached =
        some (searchGrids tie mantissa exponent (steps + 1) power) := by
  induction steps generalizing power with
  | zero =>
      rw [Int.natCast_zero, Int.sub_zero] at lastHits
      obtain ⟨found, hit⟩ := Option.ne_none_iff_exists'.mp lastHits
      exact ⟨power, by rw [searchGrids, hit]⟩
  | succ steps inductionHypothesis =>
      rw [searchGrids]
      cases hit : gridPoint? tie mantissa exponent power with
      | some found => exact ⟨power, hit⟩
      | none =>
          apply inductionHypothesis
          have samePower : power - 1 - steps = power - (steps + 1 : Nat) := by omega
          rw [samePower]
          exact lastHits

/-- A grid has a unit in which a quarter of the double's step and its own step are whole. -/
theorem exists_unit (exponent power : Int) :
    ∃ unit : ℚ, 0 < unit ∧ (quarter exponent power : ℚ) = 2 ^ (exponent - 2) * unit ∧
      (gridStep exponent power : ℚ) = 10 ^ power * unit := by
  have tens := powerOver_eq 10 (by decide) power
  have twos := powerOver_eq 2 (by decide) (exponent - 2)
  obtain ⟨_, tensBelow⟩ := powerOver_pos 10 (by decide) power
  obtain ⟨_, twosBelow⟩ := powerOver_pos 2 (by decide) (exponent - 2)
  have tensBelowPos : (0 : ℚ) < (powerOver 10 power).2 := by exact_mod_cast tensBelow
  have twosBelowPos : (0 : ℚ) < (powerOver 2 (exponent - 2)).2 := by exact_mod_cast twosBelow
  refine ⟨(powerOver 2 (exponent - 2)).2 * (powerOver 10 power).2,
    mul_pos twosBelowPos tensBelowPos, ?_, ?_⟩
  · rw [Nat.cast_ofNat] at twos
    rw [quarter, Nat.cast_mul, ← twos, ← mul_assoc, div_mul_cancel₀ _ twosBelowPos.ne']
  · rw [Nat.cast_ofNat] at tens
    rw [gridStep, Nat.cast_mul, ← tens, mul_comm (((powerOver 2 (exponent - 2)).2 : ℕ) : ℚ),
      ← mul_assoc, div_mul_cancel₀ _ tensBelowPos.ne']

theorem gridStep_le_quarter_of_le (fine : (10 : ℚ) ^ power ≤ 2 ^ (exponent - 2)) :
    gridStep exponent power ≤ quarter exponent power := by
  obtain ⟨unit, positive, quarterEq, stepEq⟩ := exists_unit exponent power
  have scaled := mul_le_mul_of_nonneg_right fine positive.le
  rw [← quarterEq, ← stepEq] at scaled
  exact_mod_cast scaled

/-- The last grid of the search for a double of 53 bits is fine. -/
theorem lastGrid_fine
    (small : mantissa < 2 ^ 53) (least : -1074 ≤ exponent) (greatest : exponent ≤ 971) :
    gridStep exponent (powerAbove mantissa exponent - 19) ≤
      quarter exponent (powerAbove mantissa exponent - 19) := by
  have bits : Nat.log2 mantissa ≤ 52 := by
    by_cases zero : mantissa = 0
    · subst zero
      decide
    · exact Nat.le_of_lt_succ ((Nat.log2_lt zero).mpr small)
  apply gridStep_le_quarter_of_le
  apply ten_zpow_le_two_zpow
  · rw [powerAbove]
    omega
  · rw [powerAbove]
    omega

/-- What is found as the shortest decimal is read as the double. -/
theorem readsBack_shortest
    (tie : Tie) (positive : 0 < mantissa) (small : mantissa < 2 ^ 53)
    (least : -1074 ≤ exponent) (greatest : exponent ≤ 971) :
    readsBack mantissa exponent (shortest tie mantissa exponent).power
      (shortest tie mantissa exponent).digits = true := by
  have lastHits := gridPoint?_ne_none tie positive (lastGrid_fine small least greatest)
  obtain ⟨reached, hit⟩ := exists_searchGrids_eq 19 lastHits
  obtain ⟨samePower, reads⟩ := readsBack_of_gridPoint? hit
  rw [shortest, samePower]
  exact reads

/-! ## Numbers that are read as a double -/

/-- The numbers that are read as `mantissa * 2 ^ exponent`, from half the way to the double
below it to half the way to the one above, with both ends if the mantissa is even. -/
structure IsReadAs (mantissa : Nat) (exponent : Int) (number : ℚ) : Prop where
  notBelow : (4 * mantissa - reach mantissa exponent) * 2 ^ (exponent - 2) ≤ number
  notAbove : number ≤ (4 * mantissa + 2) * 2 ^ (exponent - 2)
  atEnds :
    number = (4 * mantissa - reach mantissa exponent) * 2 ^ (exponent - 2) ∨
      number = (4 * mantissa + 2) * 2 ^ (exponent - 2) → mantissa % 2 = 0

theorem isReadAs_of_readsBack {point : Nat} (positive : 0 < mantissa)
    (reads : readsBack mantissa exponent power point = true) :
    IsReadAs mantissa exponent (point * 10 ^ power) := by
  obtain ⟨unit, unitPos, quarterEq, stepEq⟩ := exists_unit exponent power
  have reachSmall : reach mantissa exponent ≤ 4 * mantissa := by
    have notLong := (reach_bounds mantissa exponent).2
    omega
  have lowEq :
      (((4 * mantissa - reach mantissa exponent) * quarter exponent power : ℕ) : ℚ) =
        (4 * mantissa - reach mantissa exponent) * 2 ^ (exponent - 2) * unit := by
    rw [Nat.cast_mul, Nat.cast_sub reachSmall, quarterEq, mul_assoc]
    norm_num
  have highEq :
      (((4 * mantissa + 2) * quarter exponent power : ℕ) : ℚ) =
        (4 * mantissa + 2) * 2 ^ (exponent - 2) * unit := by
    rw [Nat.cast_mul, quarterEq, mul_assoc]
    norm_num
  have pointEq :
      ((point * gridStep exponent power : ℕ) : ℚ) = point * 10 ^ power * unit := by
    rw [Nat.cast_mul, stepEq, mul_assoc]
  rw [readsBack] at reads
  split at reads
  next even =>
    obtain ⟨low, high⟩ := of_decide_eq_true reads
    rw [← Nat.cast_le (α := ℚ), lowEq, pointEq, mul_le_mul_iff_of_pos_right unitPos] at low
    rw [← Nat.cast_le (α := ℚ), highEq, pointEq, mul_le_mul_iff_of_pos_right unitPos] at high
    exact ⟨low, high, fun _ => even⟩
  next =>
    obtain ⟨low, high⟩ := of_decide_eq_true reads
    rw [← Nat.cast_lt (α := ℚ), lowEq, pointEq, mul_lt_mul_iff_of_pos_right unitPos] at low
    rw [← Nat.cast_lt (α := ℚ), highEq, pointEq, mul_lt_mul_iff_of_pos_right unitPos] at high
    refine ⟨low.le, high.le, fun atEnd => ?_⟩
    rcases atEnd with atLow | atHigh
    · exact absurd atLow.symm low.ne
    · exact absurd atHigh high.ne

/-- The shortest decimal is read as the double it was found for. -/
theorem isReadAs_shortest
    (tie : Tie) (positive : 0 < mantissa) (small : mantissa < 2 ^ 53)
    (least : -1074 ≤ exponent) (greatest : exponent ≤ 971) :
    IsReadAs mantissa exponent
      ((shortest tie mantissa exponent).digits *
        10 ^ (shortest tie mantissa exponent).power) :=
  isReadAs_of_readsBack positive (readsBack_shortest tie positive small least greatest)

end Grids

end Mixdown.Decimal
