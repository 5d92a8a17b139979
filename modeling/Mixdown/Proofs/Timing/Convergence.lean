import Mixdown.Proofs.Timing.Shares

/-!
# Corrections settle

A loop of corrections within bounds comes ever nearer to its target.  Each round
that does not end it pins one more slot, so it ends within as many rounds as
there are slots that can move.  Without regard to bounds, one round is enough.
-/

namespace Mixdown.Timing

/-! ## The loop -/

section Loop

variable {policy : Policy ℚ} {target : ℚ} {slots corrected : List (Slot ℚ)}

theorem isOff_iff (policy : Policy ℚ) (residual : ℚ) :
    isOff policy residual = true ↔ policy.tolerance < |residual| := by
  rw [isOff, decide_eq_true_iff, Scalar.abs_eq]

theorem isSettled_iff (policy : Policy ℚ) (residual : ℚ) :
    isSettled policy residual = true ↔ |residual| ≤ policy.tolerance := by
  rw [isSettled, decide_eq_true_iff, Scalar.abs_eq]

theorem correct_of_settled
    (settled : |residualOf target slots| ≤ policy.tolerance) (iterations : Nat) :
    correct policy target iterations slots = .ok (slots, iterations) := by
  cases iterations with
  | zero =>
      rfl
  | succ iterations =>
      rw [correct]
      apply if_neg
      rw [isOff_iff]
      exact not_lt.mpr settled

theorem correct_of_off
    (off : policy.tolerance < |residualOf target slots|)
    (correction : correctOnce policy target (residualOf target slots) slots = .ok corrected)
    (iterations : Nat) :
    correct policy target (iterations + 1) slots =
      correct policy target iterations corrected := by
  rw [correct]
  simp only [(isOff_iff policy _).mpr off, if_true, correction]
  rfl

/-- Slots are left unsettled only when no rounds are left. -/
theorem left_eq_zero_of_unsettled
    {iterations left : Nat}
    (correction : correct policy target iterations slots = .ok (corrected, left))
    (unsettled : isSettled policy (residualOf target corrected) = false) : left = 0 := by
  induction iterations generalizing slots with
  | zero =>
      cases correction
      rfl
  | succ iterations inductionHypothesis =>
      by_cases settled : |residualOf target slots| ≤ policy.tolerance
      · rw [correct_of_settled settled] at correction
        cases correction
        rw [(isSettled_iff policy _).mpr settled] at unsettled
        cases unsettled
      · have off : isOff policy (residualOf target slots) = true :=
          (isOff_iff policy _).mpr (not_le.mp settled)
        rw [correct, if_pos off] at correction
        obtain ⟨middle, _, rest⟩ := bind_eq_ok_iff.mp correction
        exact inductionHypothesis rest

end Loop

/-! ## Within bounds -/

section Clamped

variable {growing : Bool} {policy : Policy ℚ} {target : ℚ} {slots : List (Slot ℚ)}

theorem exists_ahead (fit : ∀ slot ∈ slots, slot.Fits) (target : ℚ) :
    ∃ growing, Ahead growing target slots := by
  rcases le_total (totalLength slots) target with short | long
  · exact ⟨true, fit, sub_nonneg.mpr short⟩
  · exact ⟨false, fit, sub_nonneg.mpr long⟩

theorem Ahead.abs_residual (ahead : Ahead growing target slots) :
    |residualOf target slots| = remaining growing target slots := by
  rw [residualOf, ← abs_distance growing]
  exact abs_of_nonneg ahead.notPassed

/-- How long slots can get together, or how short. -/
def totalLimit (growing : Bool) (slots : List (Slot ℚ)) : ℚ :=
  if growing then totalHigh slots else totalLow slots

theorem totalHeadroom_eq (growing : Bool) (slots : List (Slot ℚ)) :
    totalHeadroom growing slots =
      distance growing (totalLength slots) (totalLimit growing slots) := by
  rw [totalLength_eq]
  cases growing
  · exact (distance_sum false Slot.length Slot.low slots).symm
  · exact (distance_sum true Slot.length Slot.high slots).symm

/-- Slots come as much nearer to their limit as to the target. -/
theorem Nearer.headroom_sub_remaining
    {old new : List (Slot ℚ)} (nearer : Nearer growing target old new) :
    totalHeadroom growing new - remaining growing target new =
      totalHeadroom growing old - remaining growing target old := by
  rw [totalHeadroom_eq, totalHeadroom_eq, totalLimit, totalLimit,
    nearer.bounds.totalHigh_eq, nearer.bounds.totalLow_eq]
  unfold remaining
  cases growing
  · simp only [distance_down]
    ring
  · simp only [distance_up]
    ring

theorem totalHeadroom_nonpos (allPinned : unpinned growing slots = 0) :
    totalHeadroom growing slots ≤ 0 := by
  calc (slots.map (Slot.headroom growing)).sum
      ≤ (slots.map fun _ => (0 : ℚ)).sum := by
        apply List.sum_le_sum
        intro slot member
        rw [← Slot.isPinned_iff]
        simpa using List.countP_eq_zero.mp allPinned slot member
    _ = 0 := by simp

/-- Whether slots are as near to their target as they can get, up to a tolerance. -/
def Near (tolerance : ℚ) (growing : Bool) (target : ℚ) (slots : List (Slot ℚ)) : Prop :=
  remaining growing target slots ≤ tolerance ∨ totalHeadroom growing slots ≤ tolerance

/-- A target between the limits is no further away than the limit behind it. -/
theorem remaining_le_totalHeadroom
    (reachable : totalLow slots ≤ target ∧ target ≤ totalHigh slots) (growing : Bool) :
    remaining growing target slots ≤ totalHeadroom growing slots := by
  rw [totalHeadroom_eq, remaining, totalLimit]
  cases growing
  · exact sub_le_sub_left reachable.1 _
  · exact sub_le_sub_right reachable.2 _

theorem Near.settled
    {tolerance : ℚ} (near : Near tolerance growing target slots)
    (ahead : Ahead growing target slots)
    (reachable : totalLow slots ≤ target ∧ target ≤ totalHigh slots) :
    |residualOf target slots| ≤ tolerance := by
  rw [ahead.abs_residual]
  rcases near with nearTarget | nearLimit
  · exact nearTarget
  · exact (remaining_le_totalHeadroom reachable growing).trans nearLimit

/-- What one round of the loop does to slots that are off their target. -/
theorem exists_round
    (clamped : policy.clampToBounds = true) (tolerated : 0 ≤ policy.tolerance)
    (ahead : Ahead growing target slots)
    (off : policy.tolerance < |residualOf target slots|) :
    ∃ middle,
      (∀ iterations, correct policy target (iterations + 1) slots =
        correct policy target iterations middle) ∧
      Nearer growing target slots middle ∧
      (remaining growing target middle = 0 ∨
        unpinned growing middle < unpinned growing slots ∨
        totalHeadroom growing slots ≤ Scalar.negligible) := by
  have short : 0 < remaining growing target slots := by
    rw [← ahead.abs_residual]
    exact tolerated.trans_lt off
  obtain ⟨middle, correction, nearer, progress⟩ := exists_scaleFree ahead short
  refine ⟨middle, ?_, nearer, progress⟩
  apply correct_of_off off
  rw [correctOnce, if_pos clamped, correction]

theorem exists_correct
    (clamped : policy.clampToBounds = true) (tolerated : 0 ≤ policy.tolerance)
    (ahead : Ahead growing target slots) (iterations : Nat) :
    ∃ corrected left, correct policy target iterations slots = .ok (corrected, left) ∧
      Nearer growing target slots corrected := by
  induction iterations generalizing slots with
  | zero =>
      exact ⟨slots, 0, rfl, ahead.nearer_self⟩
  | succ iterations inductionHypothesis =>
      by_cases settled : |residualOf target slots| ≤ policy.tolerance
      · exact ⟨slots, iterations + 1, correct_of_settled settled _, ahead.nearer_self⟩
      · obtain ⟨middle, round, nearer, _⟩ :=
          exists_round clamped tolerated ahead (not_le.mp settled)
        obtain ⟨corrected, left, rest, restNearer⟩ := inductionHypothesis nearer.ahead
        exact ⟨corrected, left, (round iterations).trans rest, nearer.trans restNearer⟩

/-- With as many rounds as there are slots that can move, slots get as near to their
target as they can. -/
theorem exists_correct_near
    (clamped : policy.clampToBounds = true) (precise : Scalar.negligible ≤ policy.tolerance)
    (ahead : Ahead growing target slots) {iterations : Nat}
    (enough : unpinned growing slots ≤ iterations) :
    ∃ corrected left, correct policy target iterations slots = .ok (corrected, left) ∧
      Nearer growing target slots corrected ∧
      Near policy.tolerance growing target corrected ∧
      (remaining growing target slots ≤ totalHeadroom growing slots →
        iterations ≤ left + unpinned growing slots) := by
  have tolerated : 0 ≤ policy.tolerance := (le_of_lt Scalar.negligible_pos).trans precise
  induction iterations generalizing slots with
  | zero =>
      have noRoom : totalHeadroom growing slots ≤ 0 :=
        totalHeadroom_nonpos (Nat.le_zero.mp enough)
      exact ⟨slots, 0, rfl, ahead.nearer_self, Or.inr (noRoom.trans tolerated),
        fun _ => Nat.zero_le _⟩
  | succ iterations inductionHypothesis =>
      by_cases settled : |residualOf target slots| ≤ policy.tolerance
      · have near : remaining growing target slots ≤ policy.tolerance :=
          ahead.abs_residual ▸ settled
        exact ⟨slots, iterations + 1, correct_of_settled settled _, ahead.nearer_self,
          Or.inl near, fun _ => Nat.le_add_right _ _⟩
      · have off : policy.tolerance < |residualOf target slots| := not_le.mp settled
        have far : policy.tolerance < remaining growing target slots :=
          ahead.abs_residual ▸ off
        by_cases noRoom : totalHeadroom growing slots ≤ policy.tolerance
        · -- The target is out of reach, and the slots already are as near as they can get.
          obtain ⟨corrected, left, correction, nearer⟩ :=
            exists_correct clamped tolerated ahead (iterations + 1)
          have balance := nearer.headroom_sub_remaining
          have closer := nearer.nearer
          refine ⟨corrected, left, correction, nearer, Or.inr (by linarith), ?_⟩
          intro reachable
          exact absurd (far.trans_le reachable) (not_lt.mpr noRoom)
        · have movable : 0 < unpinned growing slots := by
            apply Nat.pos_of_ne_zero
            intro allPinned
            exact noRoom ((totalHeadroom_nonpos allPinned).trans tolerated)
          obtain ⟨middle, round, nearer, progress⟩ :=
            exists_round clamped tolerated ahead off
          rw [round iterations]
          -- A round that does not end the loop pins a slot, which pays for the round.
          rcases progress with landed | pinnedMore | noRoomLeft
          · have settledNow : |residualOf target middle| ≤ policy.tolerance := by
              rw [nearer.ahead.abs_residual, landed]
              exact tolerated
            exact ⟨middle, iterations, correct_of_settled settledNow _, nearer,
              Or.inl (landed ▸ tolerated), fun _ => by omega⟩
          · obtain ⟨corrected, left, rest, restNearer, near, used⟩ :=
              inductionHypothesis nearer.ahead (by omega)
            refine ⟨corrected, left, rest, nearer.trans restNearer, near, ?_⟩
            intro reachable
            have balance := nearer.headroom_sub_remaining
            have usedThen := used (by linarith)
            omega
          · exact absurd (noRoomLeft.trans precise) noRoom

end Clamped

/-! ## Without regard to bounds -/

section Unclamped

variable {policy : Policy ℚ} {target : ℚ} {slots : List (Slot ℚ)}

/-- Scaled all alike, slots land on their target. -/
theorem totalLength_scaleAll (nonempty : slots ≠ []) :
    totalLength (scaleAll target (residualOf target slots) slots) = target := by
  have total := totalLength_eq slots
  rw [totalLength_eq, scaleAll]
  by_cases noLength : totalLength slots ≤ Scalar.negligible
  · have count : (slots.length : ℚ) ≠ 0 :=
      Nat.cast_ne_zero.mpr (fun empty => nonempty (List.length_eq_zero_iff.mp empty))
    simp only [if_pos noLength, List.map_map, Function.comp_def]
    rw [List.sum_map_add, ← total, List.map_const', List.sum_replicate, nsmul_eq_mul]
    change _ + (slots.length : ℚ) * (residualOf target slots / (slots.length : ℚ)) = target
    rw [mul_div_cancel₀ _ count, residualOf]
    ring
  · have positive : 0 < totalLength slots :=
      Scalar.negligible_pos.trans (not_le.mp noLength)
    simp only [if_neg noLength, List.map_map, Function.comp_def]
    rw [List.sum_map_mul_right, ← total, mul_div_cancel₀ _ (ne_of_gt positive)]

theorem sameBounds_scaleAll
    {α : Type} [Scalar α] (target residual : α) (slots : List (Slot α)) :
    SameBounds slots (scaleAll target residual slots) := by
  unfold scaleAll
  by_cases noLength : totalLength slots ≤ Scalar.negligible
  · simp only [if_pos noLength]
    exact SameBounds.map slots fun slot => rfl
  · simp only [if_neg noLength]
    exact SameBounds.map slots fun slot => rfl

/-- One round is enough, and where none is made, slots stay as they are. -/
theorem exists_correct_scaleAll
    (unclamped : policy.clampToBounds = false) (tolerated : 0 ≤ policy.tolerance)
    (nonempty : slots ≠ []) (iterations : Nat) :
    ∃ corrected left, correct policy target iterations slots = .ok (corrected, left) ∧
      SameBounds slots corrected ∧
      (corrected = slots ∨ totalLength corrected = target) ∧
      (1 ≤ iterations → |residualOf target corrected| ≤ policy.tolerance) := by
  by_cases settled : |residualOf target slots| ≤ policy.tolerance
  · exact ⟨slots, iterations, correct_of_settled settled _, SameBounds.refl slots,
      Or.inl rfl, fun _ => settled⟩
  · cases iterations with
    | zero =>
        exact ⟨slots, 0, rfl, SameBounds.refl slots, Or.inl rfl, fun rounds => by omega⟩
    | succ iterations =>
        have landed :
            totalLength (scaleAll target (residualOf target slots) slots) = target :=
          totalLength_scaleAll nonempty
        have settledNow :
            |residualOf target (scaleAll target (residualOf target slots) slots)| ≤
              policy.tolerance := by
          rw [residualOf, landed, sub_self, abs_zero]
          exact tolerated
        refine ⟨_, iterations, ?_, sameBounds_scaleAll target _ slots, Or.inr landed,
          fun _ => settledNow⟩
        rw [← correct_of_settled settledNow iterations]
        apply correct_of_off (not_le.mp settled)
        rw [correctOnce, unclamped]
        rfl

end Unclamped

/-! ## Spreading -/

section Spreading

variable {σ : Type} {draw : Draw ℚ σ} {policy : Policy ℚ} {extra : ℚ}
  {slots drawn corrected : List (Slot ℚ)} {state next : σ} {left : Nat}

theorem spread_eq
    (drawing : drawSlots draw slots state = .ok (drawn, next))
    (correction :
      correct policy (totalLow slots + extra) policy.maxIterations drawn =
        .ok (corrected, left)) :
    spread draw policy extra slots state =
      .ok
        ({ iterations := policy.maxIterations - left
           residual := residualOf (totalLow slots + extra) corrected
           converged := isSettled policy (residualOf (totalLow slots + extra) corrected) },
          corrected, next) := by
  rw [totalLow] at correction
  simp only [spread, drawing, Scalar.sum_eq, bind, Except.bind, correction]
  rfl

/-- Whether a policy gives a correction of so many slots the rounds that it needs. -/
def Policy.Suffices (policy : Policy ℚ) (count : Nat) : Prop :=
  if policy.clampToBounds then
    Scalar.negligible ≤ policy.tolerance ∧ count ≤ policy.maxIterations
  else
    1 ≤ policy.maxIterations

/-- Drawn slots are corrected towards a target within their reach: they never get
longer than they may together, and with enough rounds they settle. -/
theorem exists_correct_of_reachable
    (tolerated : 0 ≤ policy.tolerance) (fit : ∀ slot ∈ slots, slot.Fits)
    (nonempty : slots ≠ []) {target : ℚ}
    (reachable : totalLow slots ≤ target ∧ target ≤ totalHigh slots) :
    ∃ corrected left, correct policy target policy.maxIterations slots = .ok (corrected, left) ∧
      SameBounds slots corrected ∧
      totalLength corrected ≤ totalHigh slots ∧
      (policy.Suffices slots.length → |residualOf target corrected| ≤ policy.tolerance) := by
  cases clamping : policy.clampToBounds with
  | false =>
      obtain ⟨corrected, left, correction, bounds, outcome, settles⟩ :=
        @exists_correct_scaleAll policy target slots clamping tolerated nonempty
          policy.maxIterations
      refine ⟨corrected, left, correction, bounds, ?_, ?_⟩
      · rcases outcome with unchanged | landed
        · rw [unchanged]
          exact le_totalHigh fit
        · rw [landed]
          exact reachable.2
      · intro enough
        rw [Policy.Suffices, clamping] at enough
        exact settles enough
  | true =>
      obtain ⟨growing, ahead⟩ := exists_ahead fit target
      by_cases enough : policy.Suffices slots.length
      · have rounds := enough
        rw [Policy.Suffices, clamping] at rounds
        obtain ⟨corrected, left, correction, nearer, near, _⟩ :=
          exists_correct_near clamping rounds.1 ahead
            (List.countP_le_length.trans rounds.2)
        have reachableStill :
            totalLow corrected ≤ target ∧ target ≤ totalHigh corrected := by
          rw [nearer.bounds.totalLow_eq, nearer.bounds.totalHigh_eq]
          exact reachable
        refine ⟨corrected, left, correction, nearer.bounds, ?_,
          fun _ => near.settled nearer.ahead reachableStill⟩
        rw [← nearer.bounds.totalHigh_eq]
        exact le_totalHigh nearer.ahead.fit
      · obtain ⟨corrected, left, correction, nearer⟩ :=
          exists_correct clamping tolerated ahead policy.maxIterations
        refine ⟨corrected, left, correction, nearer.bounds, ?_,
          fun enoughRounds => absurd enoughRounds enough⟩
        rw [← nearer.bounds.totalHigh_eq]
        exact le_totalHigh nearer.ahead.fit

/-- Spreading succeeds, keeps the bounds of slots, tells how far it ended from its
target, and makes slots no longer than they may be together. -/
theorem exists_spread
    (within : draw.Within) (tolerated : 0 ≤ policy.tolerance)
    (admitted : ∀ slot ∈ slots, slot.Admitted) (nonempty : slots ≠ [])
    (nonnegative : 0 ≤ extra) (reachable : totalLow slots + extra ≤ totalHigh slots)
    (state : σ) :
    ∃ outcome lengthened next,
      spread draw policy extra slots state = .ok (outcome, lengthened, next) ∧
      SameBounds slots lengthened ∧
      totalLength lengthened ≤ totalHigh slots ∧
      outcome.residual = residualOf (totalLow slots + extra) lengthened ∧
      (outcome.converged = true ↔ |outcome.residual| ≤ policy.tolerance) ∧
      (policy.Suffices slots.length → outcome.converged = true) := by
  obtain ⟨drawn, next, drawing, drawnBounds, fit⟩ := exists_drawSlots within slots admitted state
  have sameLength : drawn.length = slots.length := drawnBounds.length_eq
  have drawnNonempty : drawn ≠ [] := by
    intro empty
    rw [empty] at sameLength
    exact nonempty (List.length_eq_zero_iff.mp sameLength.symm)
  have between :
      totalLow drawn ≤ totalLow slots + extra ∧ totalLow slots + extra ≤ totalHigh drawn := by
    rw [drawnBounds.totalLow_eq, drawnBounds.totalHigh_eq]
    exact ⟨le_add_of_nonneg_right nonnegative, reachable⟩
  obtain ⟨corrected, left, correction, bounds, atMost, settles⟩ :=
    exists_correct_of_reachable tolerated fit drawnNonempty between
  rw [sameLength] at settles
  rw [drawnBounds.totalHigh_eq] at atMost
  refine ⟨_, corrected, next, spread_eq drawing correction, drawnBounds.trans bounds, atMost,
    rfl, isSettled_iff policy _, ?_⟩
  intro enough
  exact (isSettled_iff policy _).mpr (settles enough)

end Spreading

end Mixdown.Timing
