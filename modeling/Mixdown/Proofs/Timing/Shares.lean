import Mathlib.Algebra.BigOperators.Ring.List
import Mathlib.Algebra.Order.Group.MinMax
import Mathlib.Tactic.FieldSimp
import Mathlib.Tactic.Ring
import Mixdown.Proofs.Outcome
import Mixdown.Proofs.Timing.Bounds

/-!
# One correction within bounds

Both ways to correct slots within their bounds give each slot a share of the
residual by weight: its length, unless it is pinned, or its headroom.  A share
is cut at the headroom.  So a correction never passes its target, and where it
falls short of it, one more slot is pinned.
-/

namespace Mixdown.Timing

/-! ## Directions -/

/-- How far it is from one length up, or down, to another. -/
def distance (growing : Bool) (start finish : ℚ) : ℚ :=
  if growing then finish - start else start - finish

@[simp]
theorem distance_up (start finish : ℚ) : distance true start finish = finish - start :=
  rfl

@[simp]
theorem distance_down (start finish : ℚ) : distance false start finish = start - finish :=
  rfl

theorem distance_add (growing : Bool) (start middle finish : ℚ) :
    distance growing start middle + distance growing middle finish =
      distance growing start finish := by
  cases growing
  · simp only [distance_down]
    ring
  · simp only [distance_up]
    ring

theorem distance_self (growing : Bool) (length : ℚ) : distance growing length length = 0 := by
  cases growing <;> exact sub_self length

theorem abs_distance (growing : Bool) (start finish : ℚ) :
    |distance growing start finish| = |finish - start| := by
  cases growing
  · exact abs_sub_comm start finish
  · rfl

theorem distance_sum
    (growing : Bool) (start finish : Slot ℚ → ℚ) (slots : List (Slot ℚ)) :
    distance growing (slots.map start).sum (slots.map finish).sum =
      (slots.map fun slot => distance growing (start slot) (finish slot)).sum := by
  induction slots with
  | nil =>
      exact distance_self growing 0
  | cons slot rest inductionHypothesis =>
      rw [List.map_cons, List.map_cons, List.map_cons, List.sum_cons, List.sum_cons,
        List.sum_cons, ← inductionHypothesis]
      cases growing
      · simp only [distance_down]
        ring
      · simp only [distance_up]
        ring

namespace Slot

variable {growing : Bool} {slot : Slot ℚ}

theorem headroom_nonneg (fits : slot.Fits) (growing : Bool) : 0 ≤ slot.headroom growing := by
  cases growing
  · exact sub_nonneg.mpr fits.above
  · exact sub_nonneg.mpr fits.below

theorem isPinned_iff (growing : Bool) (slot : Slot ℚ) :
    slot.isPinned growing = true ↔ slot.headroom growing ≤ 0 := by
  cases growing
  · exact decide_eq_true_iff.trans sub_nonpos.symm
  · exact decide_eq_true_iff.trans sub_nonpos.symm

theorem headroom_eq_zero (fits : slot.Fits) (pinned : slot.isPinned growing = true) :
    slot.headroom growing = 0 :=
  le_antisymm ((isPinned_iff growing slot).mp pinned) (headroom_nonneg fits growing)

/-- A slot moves the way that it is asked to move, as far as it has headroom. -/
theorem distance_cut
    (fits : slot.Fits) {length : ℚ}
    (forward : 0 ≤ distance growing slot.length length) :
    distance growing slot.length (slot.cut length).length =
      min (slot.headroom growing) (distance growing slot.length length) := by
  cases growing
  · have shorter : length ≤ slot.length := sub_nonneg.mp forward
    change slot.length - min slot.high (max slot.low length) =
      min (slot.length - slot.low) (slot.length - length)
    rw [min_eq_right (max_le (fits.above.trans fits.below) (shorter.trans fits.below)),
      min_sub_sub_left]
  · have longer : slot.length ≤ length := sub_nonneg.mp forward
    change min slot.high (max slot.low length) - slot.length =
      min (slot.high - slot.length) (length - slot.length)
    rw [max_eq_right (fits.above.trans longer), min_sub_sub_right]

theorem headroom_cut (growing : Bool) (slot : Slot ℚ) (length : ℚ) :
    (slot.cut length).headroom growing =
      slot.headroom growing - distance growing slot.length (slot.cut length).length := by
  cases growing
  · change _ - slot.low = slot.length - slot.low - (slot.length - _)
    ring
  · change slot.high - _ = slot.high - slot.length - (_ - slot.length)
    ring

end Slot

/-- How far slots are from a target, up or down. -/
def remaining (growing : Bool) (target : ℚ) (slots : List (Slot ℚ)) : ℚ :=
  distance growing (totalLength slots) target

def totalHeadroom (growing : Bool) (slots : List (Slot ℚ)) : ℚ :=
  (slots.map (Slot.headroom growing)).sum

def unpinned (growing : Bool) (slots : List (Slot ℚ)) : Nat :=
  slots.countP fun slot => !slot.isPinned growing

theorem unpinned_map_le
    {growing : Bool} {slots : List (Slot ℚ)} {change : Slot ℚ → Slot ℚ}
    (keeps : ∀ slot ∈ slots, slot.isPinned growing = true →
      (change slot).isPinned growing = true) :
    unpinned growing (slots.map change) ≤ unpinned growing slots := by
  unfold unpinned
  rw [List.countP_map]
  apply List.countP_mono_left
  intro slot member stillFree
  cases pinned : slot.isPinned growing with
  | false => rfl
  | true => simp [keeps slot member pinned] at stillFree

theorem unpinned_map_lt
    {growing : Bool} {slots : List (Slot ℚ)} {change : Slot ℚ → Slot ℚ}
    (keeps : ∀ slot ∈ slots, slot.isPinned growing = true →
      (change slot).isPinned growing = true)
    {full : Slot ℚ} (member : full ∈ slots)
    (before : full.isPinned growing = false)
    (after : (change full).isPinned growing = true) :
    unpinned growing (slots.map change) < unpinned growing slots := by
  obtain ⟨front, back, rfl⟩ := List.append_of_mem member
  have frontKept : unpinned growing (front.map change) ≤ unpinned growing front :=
    unpinned_map_le fun slot inFront => keeps slot (List.mem_append_left _ inFront)
  have backKept : unpinned growing (back.map change) ≤ unpinned growing back :=
    unpinned_map_le fun slot inBack =>
      keeps slot (List.mem_append_right front (List.mem_cons_of_mem full inBack))
  unfold unpinned at frontKept backKept ⊢
  rw [List.map_append, List.map_cons, List.countP_append, List.countP_append,
    List.countP_cons_of_neg (by rw [after]; decide),
    List.countP_cons_of_pos (by rw [before]; rfl)]
  omega

/-! ## Shares by weight -/

/-- The slots, each with its share of a residual by weight. -/
def sharedBy (weight : Slot ℚ → ℚ) (residual : ℚ) (slots : List (Slot ℚ)) : List (Slot ℚ) :=
  slots.map fun slot =>
    slot.cut (slot.length + residual * weight slot / (slots.map weight).sum)

/-- Weights that are not negative, and nothing for a pinned slot, but not all nothing. -/
structure Weighs (growing : Bool) (slots : List (Slot ℚ)) (weight : Slot ℚ → ℚ) : Prop where
  nonnegative : ∀ slot ∈ slots, 0 ≤ weight slot
  pinned : ∀ slot ∈ slots, slot.isPinned growing = true → weight slot = 0
  positive : 0 < (slots.map weight).sum

section Sharing

variable {growing : Bool} {target : ℚ} {slots : List (Slot ℚ)} {weight : Slot ℚ → ℚ}

/-- A target that slots within their bounds have not passed. -/
structure Ahead (growing : Bool) (target : ℚ) (slots : List (Slot ℚ)) : Prop where
  fit : ∀ slot ∈ slots, slot.Fits
  notPassed : 0 ≤ remaining growing target slots

/-- Slots with the same bounds, moved towards a target but not past it. -/
structure Nearer (growing : Bool) (target : ℚ) (old new : List (Slot ℚ)) : Prop where
  bounds : SameBounds old new
  ahead : Ahead growing target new
  nearer : remaining growing target new ≤ remaining growing target old

theorem Ahead.nearer_self (ahead : Ahead growing target slots) :
    Nearer growing target slots slots :=
  ⟨SameBounds.refl slots, ahead, le_refl _⟩

theorem Nearer.trans {old middle new : List (Slot ℚ)}
    (first : Nearer growing target old middle) (second : Nearer growing target middle new) :
    Nearer growing target old new :=
  ⟨first.bounds.trans second.bounds, second.ahead, second.nearer.trans first.nearer⟩

/-- The share of a slot in what remains. -/
def share (growing : Bool) (target : ℚ) (weight : Slot ℚ → ℚ) (slots : List (Slot ℚ))
    (slot : Slot ℚ) : ℚ :=
  remaining growing target slots * weight slot / (slots.map weight).sum

theorem sum_share (weighs : Weighs growing slots weight) :
    (slots.map (share growing target weight slots)).sum = remaining growing target slots := by
  have factored :
      slots.map (share growing target weight slots) =
        slots.map fun slot =>
          remaining growing target slots / (slots.map weight).sum * weight slot :=
    List.map_congr_left fun slot _ =>
      mul_div_right_comm (remaining growing target slots) (weight slot) _
  rw [factored, List.sum_map_mul_left, div_mul_cancel₀ _ (ne_of_gt weighs.positive)]

theorem share_nonneg
    (ahead : Ahead growing target slots) (weighs : Weighs growing slots weight)
    {slot : Slot ℚ} (member : slot ∈ slots) :
    0 ≤ share growing target weight slots slot :=
  div_nonneg (mul_nonneg ahead.notPassed (weighs.nonnegative slot member))
    (le_of_lt weighs.positive)

/-- A slot moves by its share, cut at its headroom. -/
theorem distance_share
    (ahead : Ahead growing target slots) (weighs : Weighs growing slots weight)
    {slot : Slot ℚ} (member : slot ∈ slots) :
    distance growing slot.length
        (slot.cut (slot.length +
          residualOf target slots * weight slot / (slots.map weight).sum)).length =
      min (slot.headroom growing) (share growing target weight slots slot) := by
  have asked :
      distance growing slot.length
          (slot.length + residualOf target slots * weight slot / (slots.map weight).sum) =
        share growing target weight slots slot := by
    unfold share residualOf remaining
    cases growing
    · simp only [distance_down]
      ring
    · simp only [distance_up]
      ring
  rw [Slot.distance_cut (ahead.fit slot member)]
  · rw [asked]
  · rw [asked]
    exact share_nonneg ahead weighs member

/-- What slots move by and what then remains make up what remained before. -/
theorem remaining_sharedBy
    (ahead : Ahead growing target slots) (weighs : Weighs growing slots weight) :
    (slots.map fun slot =>
        min (slot.headroom growing) (share growing target weight slots slot)).sum +
      remaining growing target (sharedBy weight (residualOf target slots) slots) =
    remaining growing target slots := by
  have moved :
      distance growing (totalLength slots)
          (totalLength (sharedBy weight (residualOf target slots) slots)) =
        (slots.map fun slot =>
          min (slot.headroom growing) (share growing target weight slots slot)).sum := by
    rw [totalLength_eq, totalLength_eq, sharedBy, List.map_map, distance_sum]
    exact congrArg List.sum
      (List.map_congr_left fun slot member => distance_share ahead weighs member)
  rw [← moved]
  exact distance_add growing _ _ target

theorem nearer_sharedBy
    (ahead : Ahead growing target slots) (weighs : Weighs growing slots weight) :
    Nearer growing target slots (sharedBy weight (residualOf target slots) slots) := by
  have balance := remaining_sharedBy ahead weighs
  have atMost :
      (slots.map fun slot =>
          min (slot.headroom growing) (share growing target weight slots slot)).sum ≤
        (slots.map (share growing target weight slots)).sum :=
    List.sum_le_sum fun slot _ => min_le_right _ _
  rw [sum_share weighs] at atMost
  have atLeast :
      0 ≤ (slots.map fun slot =>
        min (slot.headroom growing) (share growing target weight slots slot)).sum := by
    apply List.sum_nonneg
    intro move isMove
    obtain ⟨slot, member, rfl⟩ := List.mem_map.mp isMove
    exact le_min (Slot.headroom_nonneg (ahead.fit slot member) growing)
      (share_nonneg ahead weighs member)
  refine ⟨SameBounds.map slots fun slot => slot.bounds_cut _, ⟨?_, by linarith⟩, by linarith⟩
  intro moved isMoved
  obtain ⟨slot, member, rfl⟩ := List.mem_map.mp isMoved
  exact Slot.fits_cut (ahead.fit slot member).admitted _

/-- Shares land on the target, or one more slot is pinned. -/
theorem sharedBy_progress
    (ahead : Ahead growing target slots) (weighs : Weighs growing slots weight) :
    remaining growing target (sharedBy weight (residualOf target slots) slots) = 0 ∨
      unpinned growing (sharedBy weight (residualOf target slots) slots) <
        unpinned growing slots := by
  by_cases room : ∀ slot ∈ slots,
      share growing target weight slots slot ≤ slot.headroom growing
  · left
    have balance := remaining_sharedBy ahead weighs
    have uncut :
        (slots.map fun slot =>
            min (slot.headroom growing) (share growing target weight slots slot)) =
          slots.map (share growing target weight slots) :=
      List.map_congr_left fun slot member => min_eq_right (room slot member)
    rw [uncut, sum_share weighs] at balance
    linarith
  · right
    push Not at room
    obtain ⟨full, fullMember, beyond⟩ := room
    have moved := distance_share ahead weighs fullMember
    rw [min_eq_left (le_of_lt beyond)] at moved
    apply unpinned_map_lt _ fullMember
    · -- A pinned slot has no weight, so its share would not go beyond its headroom.
      cases pinned : full.isPinned growing with
      | false => rfl
      | true =>
          rw [share, weighs.pinned full fullMember pinned, mul_zero, zero_div] at beyond
          exact absurd beyond
            (not_lt.mpr (Slot.headroom_nonneg (ahead.fit full fullMember) growing))
    · rw [Slot.isPinned_iff, Slot.headroom_cut, moved, sub_self]
    · intro slot member pinned
      rw [Slot.isPinned_iff, Slot.headroom_cut, distance_share ahead weighs member,
        Slot.headroom_eq_zero (ahead.fit slot member) pinned, zero_sub, neg_nonpos]
      exact le_min (le_refl 0) (share_nonneg ahead weighs member)

/-! ## Shares by headroom -/

theorem weighs_headroom
    (fit : ∀ slot ∈ slots, slot.Fits) (room : 0 < totalHeadroom growing slots) :
    Weighs growing slots (Slot.headroom growing) where
  nonnegative slot member := Slot.headroom_nonneg (fit slot member) growing
  pinned slot member := Slot.headroom_eq_zero (fit slot member)
  positive := room

theorem shareByHeadroom_eq
    (fit : ∀ slot ∈ slots, slot.Fits)
    (room : ¬ totalHeadroom growing slots ≤ Scalar.negligible) (residual : ℚ) :
    shareByHeadroom growing residual slots =
      .ok (sharedBy (Slot.headroom growing) residual slots) := by
  unfold shareByHeadroom
  simp only [Scalar.sum_eq]
  rw [totalHeadroom] at room
  rw [if_neg room]
  apply mapM_eq_ok_map
  intro slot member
  exact Slot.confined_eq (fit slot member).admitted _

/-! ## Shares by length -/

/-- The length that scaling may change. -/
def freeLength (growing : Bool) (slot : Slot ℚ) : ℚ :=
  if slot.isPinned growing then 0 else slot.length

theorem weighs_freeLength
    (fit : ∀ slot ∈ slots, slot.Fits)
    (positive : 0 < (slots.map (freeLength growing)).sum) :
    Weighs growing slots (freeLength growing) where
  nonnegative slot member := by
    unfold freeLength
    by_cases pinned : slot.isPinned growing
    · rw [if_pos pinned]
    · rw [if_neg pinned]
      exact (fit slot member).length_nonneg
  pinned slot _ pinned := if_pos pinned
  positive := positive

def pinnedLength (growing : Bool) (slot : Slot ℚ) : ℚ :=
  if slot.isPinned growing then slot.length else 0

theorem foldl_pinnedAndFree
    (growing : Bool) (slots : List (Slot ℚ)) (pinned free : ℚ) :
    slots.foldl
        (fun (pinned, free) slot =>
          if slot.isPinned growing then (pinned + slot.length, free)
          else (pinned, free + slot.length))
        (pinned, free) =
      (pinned + (slots.map (pinnedLength growing)).sum,
        free + (slots.map (freeLength growing)).sum) := by
  induction slots generalizing pinned free with
  | nil =>
      simp
  | cons slot rest inductionHypothesis =>
      rw [List.foldl_cons, List.map_cons, List.map_cons, List.sum_cons, List.sum_cons,
        pinnedLength, freeLength]
      by_cases isPinned : slot.isPinned growing
      · simp only [if_pos isPinned]
        rw [inductionHypothesis, add_assoc, zero_add]
      · simp only [if_neg isPinned]
        rw [inductionHypothesis, add_assoc, zero_add]

theorem pinnedAndFree_eq (growing : Bool) (slots : List (Slot ℚ)) :
    pinnedAndFree growing slots =
      (totalLength slots - (slots.map (freeLength growing)).sum,
        (slots.map (freeLength growing)).sum) := by
  have parts :
      (slots.map (pinnedLength growing)).sum + (slots.map (freeLength growing)).sum =
        totalLength slots := by
    rw [totalLength_eq, ← List.sum_map_add]
    apply congrArg List.sum
    apply List.map_congr_left
    intro slot _
    unfold pinnedLength freeLength
    by_cases isPinned : slot.isPinned growing
    · rw [if_pos isPinned, if_pos isPinned, add_zero]
    · rw [if_neg isPinned, if_neg isPinned, zero_add]
  have folded := foldl_pinnedAndFree growing slots 0 0
  rw [zero_add, zero_add] at folded
  rw [← parts, add_sub_cancel_right]
  exact folded

/-- Scaling the free slots gives them shares of the residual by length. -/
theorem scaled_eq_share
    {slot : Slot ℚ} (fits : slot.Fits) {total free : ℚ} (positive : 0 < free) :
    (if slot.isPinned growing then .ok slot
      else slot.confined (slot.length * ((target - (total - free)) / free))) =
      (.ok (slot.cut (slot.length + (target - total) * freeLength growing slot / free)) :
        Except Fault (Slot ℚ)) := by
  unfold freeLength
  by_cases isPinned : slot.isPinned growing
  · rw [if_pos isPinned, if_pos isPinned, mul_zero, zero_div, add_zero,
      Slot.cut_eq_self fits]
  · rw [if_neg isPinned, if_neg isPinned, Slot.confined_eq fits.admitted]
    have scaled : slot.length * ((target - (total - free)) / free) =
        slot.length + (target - total) * slot.length / free := by
      field_simp
      ring
    rw [scaled]

/-! ## The correction -/

theorem growing_of_remaining_pos (off : 0 < remaining growing target slots) :
    decide (0 < residualOf target slots) = growing := by
  unfold remaining at off
  cases growing
  · exact decide_eq_false (not_lt.mpr (sub_nonpos.mpr (le_of_lt (sub_pos.mp off))))
  · exact decide_eq_true off

theorem scaleFree_eq (off : 0 < remaining growing target slots) (free : ℚ)
    (isFree : (slots.map (freeLength growing)).sum = free) :
    scaleFree target (residualOf target slots) slots =
      if free ≤ Scalar.negligible then
        shareByHeadroom growing (residualOf target slots) slots
      else
        slots.mapM fun slot =>
          if slot.isPinned growing then .ok slot
          else slot.confined (slot.length * ((target - (totalLength slots - free)) / free)) := by
  unfold scaleFree
  simp only [growing_of_remaining_pos off, pinnedAndFree_eq, isFree]

/-- A correction within bounds shares the residual by some weight, unless slots have
next to no headroom. -/
theorem scaleFree_cases
    (fit : ∀ slot ∈ slots, slot.Fits) (off : 0 < remaining growing target slots) :
    (scaleFree target (residualOf target slots) slots = .ok slots ∧
        totalHeadroom growing slots ≤ Scalar.negligible) ∨
      ∃ weight, Weighs growing slots weight ∧
        scaleFree target (residualOf target slots) slots =
          .ok (sharedBy weight (residualOf target slots) slots) := by
  rw [scaleFree_eq off _ rfl]
  by_cases noLength : (slots.map (freeLength growing)).sum ≤ Scalar.negligible
  · rw [if_pos noLength]
    by_cases noRoom : totalHeadroom growing slots ≤ Scalar.negligible
    · left
      refine ⟨?_, noRoom⟩
      unfold shareByHeadroom
      simp only [Scalar.sum_eq]
      exact if_pos noRoom
    · right
      have room : 0 < totalHeadroom growing slots :=
        Scalar.negligible_pos.trans (not_le.mp noRoom)
      exact ⟨Slot.headroom growing, weighs_headroom fit room, shareByHeadroom_eq fit noRoom _⟩
  · right
    have positive : 0 < (slots.map (freeLength growing)).sum :=
      Scalar.negligible_pos.trans (not_le.mp noLength)
    refine ⟨freeLength growing, weighs_freeLength fit positive, ?_⟩
    rw [if_neg noLength]
    apply mapM_eq_ok_map
    intro slot member
    exact scaled_eq_share (fit slot member) positive

/-- A correction within bounds lands on its target, pins one more slot, or leaves
slots that have next to no headroom. -/
theorem exists_scaleFree
    (ahead : Ahead growing target slots) (off : 0 < remaining growing target slots) :
    ∃ corrected, scaleFree target (residualOf target slots) slots = .ok corrected ∧
      Nearer growing target slots corrected ∧
      (remaining growing target corrected = 0 ∨
        unpinned growing corrected < unpinned growing slots ∨
        totalHeadroom growing slots ≤ Scalar.negligible) := by
  rcases scaleFree_cases ahead.fit off with ⟨unchanged, noRoom⟩ | ⟨weight, weighs, shared⟩
  · exact ⟨slots, unchanged, ahead.nearer_self, Or.inr (Or.inr noRoom)⟩
  · exact ⟨_, shared, nearer_sharedBy ahead weighs,
      (sharedBy_progress ahead weighs).imp_right Or.inl⟩

end Sharing

end Mixdown.Timing
