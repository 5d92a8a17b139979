import Mixdown.Proofs.Random.Uniform
import Mixdown.Proofs.Timing.Bounds
import Mixdown.Proofs.Timing.Retimed

/-!
# Lengths within bounds, in doubles

A draw lies within its bounds, and where lengths are kept within bounds every correction
leaves them there: a share that is infinite is cut like any other.  The one exception is a
share that is no number.  There is none among slots that cannot get too long together.
-/

namespace Mixdown.Timing

open Double

/-! ## Slots -/

namespace Slot

/-- Finite bounds in order, and not below zero. -/
structure Bounded (slot : Slot Float) : Prop where
  lowFinite : slot.low.isFinite = true
  highFinite : slot.high.isFinite = true
  nonnegative : 0 ≤ slot.low
  ordered : slot.low ≤ slot.high

/-- The length lies within the bounds, which are finite. -/
structure Within (slot : Slot Float) : Prop where
  bounded : slot.Bounded
  above : slot.low ≤ slot.length
  below : slot.length ≤ slot.high

/-- The length lies within the bounds if that is sure, or else if it is a number. -/
structure Held (sure : Prop) (slot : Slot Float) : Prop where
  bounded : slot.Bounded
  within : sure ∨ slot.length.isNaN = false → slot.Within

variable {sure : Prop} {slot other : Slot Float}

theorem Bounded.of_bounds_eq (bounded : slot.Bounded) (same : other.bounds = slot.bounds) :
    other.Bounded := by
  obtain ⟨low, high⟩ := Prod.mk.inj same
  obtain ⟨lowFinite, highFinite, nonnegative, ordered⟩ := bounded
  rw [← low] at lowFinite nonnegative ordered
  rw [← high] at highFinite ordered
  exact ⟨lowFinite, highFinite, nonnegative, ordered⟩

theorem Bounded.high_nonneg (bounded : slot.Bounded) : 0 ≤ slot.high :=
  le_trans_of_isFinite finite_zero bounded.lowFinite bounded.highFinite
    bounded.nonnegative bounded.ordered

theorem Within.finite (within : slot.Within) : slot.length.isFinite = true :=
  isFinite_of_between within.bounded.lowFinite within.bounded.highFinite within.above within.below

theorem Within.nonneg (within : slot.Within) : 0 ≤ slot.length :=
  le_trans_of_isFinite finite_zero within.bounded.lowFinite within.finite
    within.bounded.nonnegative within.above

theorem Bounded.within_low (bounded : slot.Bounded) (least : slot.length = slot.low) :
    slot.Within where
  bounded := bounded
  above := by
    rw [least]
    exact le_refl_of_isFinite bounded.lowFinite
  below := by
    rw [least]
    exact bounded.ordered

theorem Bounded.within_high (bounded : slot.Bounded) (greatest : slot.length = slot.high) :
    slot.Within where
  bounded := bounded
  above := by
    rw [greatest]
    exact bounded.ordered
  below := by
    rw [greatest]
    exact le_refl_of_isFinite bounded.highFinite

theorem Within.held (within : slot.Within) : slot.Held sure :=
  ⟨within.bounded, fun _ => within⟩

end Slot

/-! ## Confining -/

/-- What is confined lies within the bounds, if it is a number. -/
theorem confine_within
    {low high value length : Float} (lowFinite : low.isFinite = true)
    (highFinite : high.isFinite = true) (ordered : low ≤ high) (number : value.isNaN = false)
    (confined : confine low high value = .ok length) : low ≤ length ∧ length ≤ high := by
  unfold confine at confined
  rw [if_pos ordered] at confined
  cases confined
  by_cases below : value < low
  · rw [if_pos below, if_neg (not_lt_of_le ordered)]
    exact ⟨le_refl_of_isFinite lowFinite, ordered⟩
  · rw [if_neg below]
    by_cases above : high < value
    · rw [if_pos above]
      exact ⟨ordered, le_refl_of_isFinite highFinite⟩
    · rw [if_neg above]
      exact ⟨le_of_not_lt_of_number number (isNaN_of_isFinite lowFinite) below,
        le_of_not_lt_of_number (isNaN_of_isFinite highFinite) number above⟩

/-- What is confined is a number only if it was one. -/
theorem isNaN_of_confine
    {low high value length : Float} (number : length.isNaN = false)
    (confined : confine low high value = .ok length) : value.isNaN = false := by
  unfold confine at confined
  split at confined
  next ordered =>
    cases confined
    by_cases below : value < low
    · exact (isNaN_of_le (le_of_lt below)).1
    · rw [if_neg below] at number
      by_cases above : high < value
      · exact (isNaN_of_le (le_of_lt above)).2
      · rwa [if_neg above] at number
  next => cases confined

/-! ## Totals -/

/-- Lengths up to this one can be added and divided by any number that is not negligible. -/
def ample : Float :=
  1e290

theorem isFinite_ample : ample.isFinite = true := by
  decide +kernel

theorem isFinite_twice_ample : (ample + ample).isFinite = true := by
  decide +kernel

theorem ample_le_twice : ample ≤ ample + ample := by
  decide +kernel

theorem isFinite_negligible : (Scalar.negligible : Float).isFinite = true := by
  decide +kernel

theorem zero_lt_negligible : 0 < valueOf Scalar.negligible :=
  zero_lt_valueOf isFinite_negligible (by decide +kernel)

theorem negligible_lt_of_not_le
    {total : Float} (finite : total.isFinite = true) (large : ¬ total ≤ Scalar.negligible) :
    valueOf Scalar.negligible < valueOf total := by
  rw [le_iff_rational finite isFinite_negligible] at large
  exact not_le.mp large

/-- The slots cannot get longer together than is ample, nor is that asked of them. -/
structure Roomy (slots : List (Slot Float)) (target : Float) : Prop where
  highs : Scalar.sum (slots.map Slot.high) ≤ ample
  nonnegative : 0 ≤ target
  small : target ≤ ample + ample

section Totals

variable {slots : List (Slot Float)} {target : Float}

theorem Roomy.of_sameBounds
    {other : List (Slot Float)} (roomy : Roomy slots target) (same : SameBounds slots other) :
    Roomy other target := by
  obtain ⟨highs, nonnegative, small⟩ := roomy
  rw [← same.map_high] at highs
  exact ⟨highs, nonnegative, small⟩

/-- What is less than the greatest lengths adds up to no more than they do. -/
theorem foldl_bounds
    (bounded : ∀ slot ∈ slots, slot.Bounded) (highs : Scalar.sum (slots.map Slot.high) ≤ ample)
    {values : List Float} (below : Below values (slots.map Slot.high)) {start : Float}
    (nonnegative : 0 ≤ start) (notAbove : start ≤ -0.0) :
    0 ≤ values.foldl (· + ·) start ∧ values.foldl (· + ·) start ≤ ample := by
  have highsNonnegative : ∀ high ∈ slots.map Slot.high, 0 ≤ high := by
    rw [List.forall_mem_map]
    exact fun slot member => (bounded slot member).high_nonneg
  have highsFinite := isFinite_of_le (zero_le_sum highsNonnegative) highs isFinite_ample
  have total := zero_le_foldl below.nonneg nonnegative
  have ordered := foldl_le_foldl below highsNonnegative nonnegative notAbove highsFinite
  have finite := isFinite_of_le total ordered highsFinite
  exact ⟨total, le_trans_of_isFinite finite highsFinite isFinite_ample ordered highs⟩

theorem sum_bounds
    (bounded : ∀ slot ∈ slots, slot.Bounded) (highs : Scalar.sum (slots.map Slot.high) ≤ ample)
    {measure : Slot Float → Float}
    (small : ∀ slot ∈ slots, 0 ≤ measure slot ∧ measure slot ≤ slot.high) :
    0 ≤ Scalar.sum (slots.map measure) ∧ Scalar.sum (slots.map measure) ≤ ample := by
  apply foldl_bounds bounded highs _ zero_le_origin (by decide +kernel)
  exact below_map (List.Sublist.refl slots) small

theorem Roomy.residual_finite
    (roomy : Roomy slots target) (within : ∀ slot ∈ slots, slot.Within) :
    (residualOf target slots).isFinite = true := by
  have total := sum_bounds (fun slot member => (within slot member).bounded) roomy.highs
    fun slot member => ⟨(within slot member).nonneg, (within slot member).below⟩
  have small := le_trans_of_isFinite (isFinite_of_le total.1 total.2 isFinite_ample)
    isFinite_ample isFinite_twice_ample total.2 ample_le_twice
  exact (sub_bounded isFinite_twice_ample roomy.nonnegative total.1 roomy.small small).1

/-- The slots are told apart, and each kind is added up. -/
theorem pinnedAndFree_eq_foldl (growing : Bool) (pinned free : Float) :
    slots.foldl
        (fun (pinned, free) slot =>
          if slot.isPinned growing then (pinned + slot.length, free)
          else (pinned, free + slot.length))
        (pinned, free) =
      (((slots.filter (Slot.isPinned growing)).map Slot.length).foldl (· + ·) pinned,
        ((slots.filter fun slot => !slot.isPinned growing).map Slot.length).foldl (· + ·)
          free) := by
  induction slots generalizing pinned free with
  | nil => rfl
  | cons slot rest inductionHypothesis =>
      rw [List.foldl_cons]
      cases isPinned : slot.isPinned growing with
      | true =>
          rw [List.filter_cons_of_pos isPinned, List.filter_cons_of_neg (by simp [isPinned])]
          exact inductionHypothesis _ _
      | false =>
          rw [List.filter_cons_of_neg (by simp [isPinned]),
            List.filter_cons_of_pos (by simp [isPinned])]
          exact inductionHypothesis _ _

theorem Roomy.part_bounds
    (roomy : Roomy slots target) (within : ∀ slot ∈ slots, slot.Within)
    (test : Slot Float → Bool) :
    0 ≤ ((slots.filter test).map Slot.length).foldl (· + ·) 0 ∧
      ((slots.filter test).map Slot.length).foldl (· + ·) 0 ≤ ample := by
  apply foldl_bounds (fun slot member => (within slot member).bounded) roomy.highs _
    (by decide +kernel) (by decide +kernel)
  apply below_map List.filter_sublist
  intro slot member
  have slotWithin := within slot (List.mem_of_mem_filter member)
  exact ⟨slotWithin.nonneg, slotWithin.below⟩

/-- What is left of the target for slots that are not pinned is no multiple of them that
is too great for a double. -/
theorem Roomy.factor_finite
    (roomy : Roomy slots target) (within : ∀ slot ∈ slots, slot.Within) (growing : Bool)
    (notNegligible : ¬ (pinnedAndFree growing slots).2 ≤ Scalar.negligible) :
    ((target - (pinnedAndFree growing slots).1) / (pinnedAndFree growing slots).2).isFinite =
      true := by
  have pinned := roomy.part_bounds within (Slot.isPinned growing)
  have free := roomy.part_bounds within fun slot => !slot.isPinned growing
  rw [pinnedAndFree, pinnedAndFree_eq_foldl] at notNegligible ⊢
  dsimp only at notNegligible ⊢
  have pinnedFinite := isFinite_of_le pinned.1 pinned.2 isFinite_ample
  have freeFinite := isFinite_of_le free.1 free.2 isFinite_ample
  have pinnedSmall := le_trans_of_isFinite pinnedFinite isFinite_ample isFinite_twice_ample
    pinned.2 ample_le_twice
  have difference :=
    sub_bounded isFinite_twice_ample roomy.nonnegative pinned.1 roomy.small pinnedSmall
  have large := negligible_lt_of_not_le freeFinite notNegligible
  exact isFinite_div difference.1 freeFinite isFinite_twice_ample isFinite_negligible
    difference.2 zero_lt_negligible large.le (by decide +kernel)

end Totals

/-! ## Corrections -/

section Corrections

variable {slots new : List (Slot Float)} {target : Float} {sure : Prop}

/-- Slots with the same bounds as others, whose lengths lie within them. -/
structure Keeps (sure : Prop) (old new : List (Slot Float)) : Prop where
  bounds : SameBounds old new
  held : ∀ slot ∈ new, slot.Held sure

theorem held_confined
    {slot other : Slot Float} {length : Float} (bounded : slot.Bounded)
    (number : sure → length.isNaN = false) (confined : slot.confined length = .ok other) :
    other.bounds = slot.bounds ∧ other.Held sure := by
  unfold Slot.confined at confined
  cases confining : confine slot.low slot.high length with
  | error fault =>
      rw [confining] at confined
      cases confined
  | ok found =>
      rw [confining] at confined
      cases confined
      refine ⟨rfl, bounded.of_bounds_eq rfl, fun known => ?_⟩
      have isNumber : length.isNaN = false := by
        rcases known with isSure | foundNumber
        · exact number isSure
        · exact isNaN_of_confine foundNumber confining
      obtain ⟨above, below⟩ :=
        confine_within bounded.lowFinite bounded.highFinite bounded.ordered isNumber confining
      exact ⟨bounded.of_bounds_eq rfl, above, below⟩

theorem keeps_mapM
    {change : Slot Float → Except Fault (Slot Float)}
    (each : ∀ slot ∈ slots, ∀ other, change slot = .ok other →
      other.bounds = slot.bounds ∧ other.Held sure)
    (changed : slots.mapM change = .ok new) : Keeps sure slots new := by
  have related := mapM_eq_ok_iff.mp changed
  clear changed
  induction related with
  | nil => exact ⟨SameBounds.refl [], List.forall_mem_nil _⟩
  | cons first rest inductionHypothesis =>
      obtain ⟨here, later⟩ := List.forall_mem_cons.mp each
      obtain ⟨bounds, held⟩ := here _ first
      obtain ⟨restBounds, restHeld⟩ := inductionHypothesis later
      exact ⟨congrArg₂ List.cons bounds restBounds, List.forall_mem_cons.mpr ⟨held, restHeld⟩⟩

theorem headroom_bounds
    {slot : Slot Float} (within : slot.Within) (growing : Bool) :
    0 ≤ slot.headroom growing ∧ slot.headroom growing ≤ slot.high := by
  unfold Slot.headroom
  cases growing with
  | true =>
      exact sub_le_of_le within.bounded.highFinite within.bounded.highFinite within.nonneg
        within.below (le_refl_of_isFinite within.bounded.highFinite)
  | false =>
      exact sub_le_of_le within.finite within.bounded.highFinite within.bounded.nonnegative
        within.above within.below

variable (roomy : sure → Roomy slots target) (held : ∀ slot ∈ slots, slot.Held sure)

include roomy held

theorem keeps_shareByHeadroom
    {growing : Bool} (sharing : shareByHeadroom growing (residualOf target slots) slots = .ok new) :
    Keeps sure slots new := by
  unfold shareByHeadroom at sharing
  dsimp only at sharing
  split at sharing
  next =>
    cases sharing
    exact ⟨SameBounds.refl slots, held⟩
  next notNegligible =>
    refine keeps_mapM (fun slot member other changing => ?_) sharing
    refine held_confined (held slot member).bounded (fun isSure => ?_) changing
    have within (one : Slot Float) (oneMember : one ∈ slots) : one.Within :=
      (held one oneMember).within (Or.inl isSure)
    have total := sum_bounds (fun one oneMember => (within one oneMember).bounded)
      (roomy isSure).highs fun one oneMember => headroom_bounds (within one oneMember) growing
    have totalFinite := isFinite_of_le total.1 total.2 isFinite_ample
    have positive := zero_lt_negligible.trans (negligible_lt_of_not_le totalFinite notNegligible)
    have headroom := headroom_bounds (within slot member) growing
    have headroomFinite :=
      isFinite_of_le headroom.1 headroom.2 (within slot member).bounded.highFinite
    have product := (rounds_mul ((roomy isSure).residual_finite within) headroomFinite).isNaN
    exact isNaN_add (within slot member).finite (isNaN_div product totalFinite positive.ne')

theorem keeps_scaleFree
    (scaling : scaleFree target (residualOf target slots) slots = .ok new) :
    Keeps sure slots new := by
  unfold scaleFree at scaling
  dsimp only at scaling
  split at scaling
  next => exact keeps_shareByHeadroom roomy held scaling
  next notNegligible =>
    refine keeps_mapM (fun slot member other changing => ?_) scaling
    split at changing
    next =>
      cases changing
      exact ⟨rfl, held slot member⟩
    next =>
      refine held_confined (held slot member).bounded (fun isSure => ?_) changing
      have within (one : Slot Float) (oneMember : one ∈ slots) : one.Within :=
        (held one oneMember).within (Or.inl isSure)
      have factor := (roomy isSure).factor_finite within _ notNegligible
      exact (rounds_mul (within slot member).finite factor).isNaN

/-- Every correction keeps to the bounds, and to what is no number. -/
theorem keeps_correct
    {policy : Policy Float} (clamped : policy.clampToBounds = true) {iterations left : Nat}
    (correcting : correct policy target iterations slots = .ok (new, left)) :
    Keeps sure slots new := by
  induction iterations generalizing slots with
  | zero =>
      cases correcting
      exact ⟨SameBounds.refl _, held⟩
  | succ iterations inductionHypothesis =>
      unfold correct at correcting
      dsimp only at correcting
      split at correcting
      next =>
        obtain ⟨corrected, once, continued⟩ := bind_eq_ok_iff.mp correcting
        rw [correctOnce, if_pos clamped] at once
        have keeps := keeps_scaleFree roomy held once
        have later := inductionHypothesis
          (fun isSure => (roomy isSure).of_sameBounds keeps.bounds) keeps.held continued
        exact ⟨keeps.bounds.trans later.bounds, later.held⟩
      next =>
        cases correcting
        exact ⟨SameBounds.refl _, held⟩

end Corrections

/-! ## Draws -/

section Draws

variable {σ : Type} {words : σ → UInt64 × σ} {sure : Prop} {slots new : List (Slot Float)}
  {state next : σ}

theorem within_drawSlot
    {slot other : Slot Float} (bounded : slot.Bounded)
    (drawing : drawSlot (Random.uniformOf words) slot state = .ok (other, next)) :
    other.bounds = slot.bounds ∧ other.Within := by
  unfold drawSlot at drawing
  split at drawing
  next =>
    cases answer : Random.uniformOf words slot.low slot.high state with
    | error fault =>
        rw [answer] at drawing
        cases drawing
    | ok found =>
        rw [answer] at drawing
        cases drawing
        obtain ⟨above, below⟩ :=
          Random.uniformOf_within bounded.lowFinite bounded.highFinite answer
        exact ⟨rfl, bounded.of_bounds_eq rfl, above, below⟩
  next =>
    cases drawing
    have same : Slot.Bounded { slot with length := slot.low } := bounded.of_bounds_eq rfl
    exact ⟨rfl, same.within_low rfl⟩

theorem keeps_drawSlots
    (bounded : ∀ slot ∈ slots, slot.Bounded)
    (drawing : drawSlots (Random.uniformOf words) slots state = .ok (new, next)) :
    Keeps sure slots new := by
  induction slots generalizing new state with
  | nil =>
      cases drawing
      exact ⟨SameBounds.refl [], List.forall_mem_nil _⟩
  | cons slot rest inductionHypothesis =>
      obtain ⟨boundedSlot, boundedRest⟩ := List.forall_mem_cons.mp bounded
      obtain ⟨⟨first, middle⟩, drawingFirst, remaining⟩ := bind_eq_ok_iff.mp drawing
      obtain ⟨⟨others, after⟩, drawingRest, equality⟩ := bind_eq_ok_iff.mp remaining
      cases equality
      obtain ⟨same, within⟩ := within_drawSlot boundedSlot drawingFirst
      obtain ⟨sameRest, held⟩ := inductionHypothesis boundedRest drawingRest
      exact ⟨congrArg₂ List.cons same sameRest, List.forall_mem_cons.mpr ⟨within.held, held⟩⟩

theorem keeps_spread
    {policy : Policy Float} (clamped : policy.clampToBounds = true) {extra : Float}
    {outcome : Spread Float} (bounded : ∀ slot ∈ slots, slot.Bounded)
    (roomy : sure → Roomy slots (Scalar.sum (slots.map Slot.low) + extra))
    (spreading : spread (Random.uniformOf words) policy extra slots state =
      .ok (outcome, new, next)) :
    Keeps sure slots new := by
  obtain ⟨⟨drawn, middle⟩, drawing, correction⟩ := bind_eq_ok_iff.mp spreading
  obtain ⟨⟨corrected, left⟩, correcting, equality⟩ := bind_eq_ok_iff.mp correction
  cases equality
  have keeps : Keeps sure slots drawn := keeps_drawSlots bounded drawing
  have later := keeps_correct
    (fun isSure => (roomy isSure).of_sameBounds keeps.bounds) keeps.held clamped correcting
  exact ⟨keeps.bounds.trans later.bounds, later.held⟩

end Draws

end Mixdown.Timing
