import Mathlib.Algebra.Order.BigOperators.Group.List
import Mixdown.Proofs.Timing.Exact
import Mixdown.Timing.Slots

/-!
# Slots within their bounds

Drawing and correcting slots leaves their bounds as they are.  A source that
keeps to the bounds it is asked for draws lengths that fit their slots.
-/

namespace Mixdown.Timing

/-! ## A single slot -/

namespace Slot

def bounds {α : Type} (slot : Slot α) : α × α :=
  (slot.low, slot.high)

/-- The bounds are ordered, and not negative. -/
structure Admitted (slot : Slot ℚ) : Prop where
  nonnegative : 0 ≤ slot.low
  ordered : slot.low ≤ slot.high

/-- The length lies within the bounds, which are not negative. -/
structure Fits (slot : Slot ℚ) : Prop where
  nonnegative : 0 ≤ slot.low
  above : slot.low ≤ slot.length
  below : slot.length ≤ slot.high

theorem Fits.admitted {slot : Slot ℚ} (fits : slot.Fits) : slot.Admitted :=
  ⟨fits.nonnegative, fits.above.trans fits.below⟩

theorem Fits.length_nonneg {slot : Slot ℚ} (fits : slot.Fits) : 0 ≤ slot.length :=
  fits.nonnegative.trans fits.above

/-- The slot with a length, cut to its bounds. -/
def cut (slot : Slot ℚ) (length : ℚ) : Slot ℚ :=
  { slot with length := min slot.high (max slot.low length) }

theorem confined_eq {slot : Slot ℚ} (admitted : slot.Admitted) (length : ℚ) :
    slot.confined length = .ok (slot.cut length) := by
  rw [confined, confine_eq admitted.ordered]
  rfl

@[simp]
theorem bounds_cut (slot : Slot ℚ) (length : ℚ) : (slot.cut length).bounds = slot.bounds :=
  rfl

theorem fits_cut {slot : Slot ℚ} (admitted : slot.Admitted) (length : ℚ) :
    (slot.cut length).Fits where
  nonnegative := admitted.nonnegative
  above := le_min admitted.ordered (le_max_left slot.low length)
  below := min_le_left slot.high (max slot.low length)

theorem cut_eq_self {slot : Slot ℚ} (fits : slot.Fits) : slot.cut slot.length = slot := by
  rw [cut, max_eq_right fits.above, min_eq_right fits.below]

end Slot

/-! ## Lists of slots -/

theorem totalLength_eq (slots : List (Slot ℚ)) :
    totalLength slots = (slots.map Slot.length).sum :=
  Scalar.sum_eq _

def totalLow (slots : List (Slot ℚ)) : ℚ :=
  (slots.map Slot.low).sum

def totalHigh (slots : List (Slot ℚ)) : ℚ :=
  (slots.map Slot.high).sum

def SameBounds {α : Type} (old new : List (Slot α)) : Prop :=
  new.map Slot.bounds = old.map Slot.bounds

namespace SameBounds

variable {α : Type} {old middle new : List (Slot α)}

theorem refl (slots : List (Slot α)) : SameBounds slots slots :=
  rfl

theorem trans (first : SameBounds old middle) (second : SameBounds middle new) :
    SameBounds old new :=
  Eq.trans second first

theorem map (slots : List (Slot α)) {change : Slot α → Slot α}
    (keeps : ∀ slot, (change slot).bounds = slot.bounds) :
    SameBounds slots (slots.map change) := by
  rw [SameBounds, List.map_map]
  exact List.map_congr_left fun slot _ => keeps slot

theorem length_eq (same : SameBounds old new) : new.length = old.length := by
  simpa using congrArg List.length same

theorem map_low (same : SameBounds old new) : new.map Slot.low = old.map Slot.low := by
  have firsts := congrArg (List.map Prod.fst) same
  rw [List.map_map, List.map_map] at firsts
  exact firsts

theorem map_high (same : SameBounds old new) : new.map Slot.high = old.map Slot.high := by
  have seconds := congrArg (List.map Prod.snd) same
  rw [List.map_map, List.map_map] at seconds
  exact seconds

theorem totalLow_eq {old new : List (Slot ℚ)} (same : SameBounds old new) :
    totalLow new = totalLow old :=
  congrArg List.sum same.map_low

theorem totalHigh_eq {old new : List (Slot ℚ)} (same : SameBounds old new) :
    totalHigh new = totalHigh old :=
  congrArg List.sum same.map_high

end SameBounds

theorem le_totalHigh {slots : List (Slot ℚ)} (fit : ∀ slot ∈ slots, slot.Fits) :
    totalLength slots ≤ totalHigh slots := by
  rw [totalLength_eq]
  exact List.sum_le_sum fun slot member => (fit slot member).below

/-! ## Drawing -/

variable {σ : Type} {draw : Draw ℚ σ}

/-- A source that answers within the bounds that it is asked for. -/
def Draw.Within (draw : Draw ℚ σ) : Prop :=
  ∀ low high state, low < high →
    ∃ length next, draw low high state = .ok (length, next) ∧ low ≤ length ∧ length ≤ high

/-- A source that answers with the lengths of a list in turn.  Each is given as it is
where it lies within the bounds that are asked for, and is else cut to them. -/
def replay : Draw ℚ (List ℚ) := fun low high lengths =>
  .ok (min high (max low (lengths.headD low)), lengths.tail)

theorem replay_within : replay.Within := by
  intro low high lengths ordered
  exact ⟨_, _, rfl, le_min (le_of_lt ordered) (le_max_left low _), min_le_left high _⟩

theorem exists_drawSlot
    (within : draw.Within) {slot : Slot ℚ} (admitted : slot.Admitted) (state : σ) :
    ∃ drawn next, drawSlot draw slot state = .ok (drawn, next) ∧
      drawn.bounds = slot.bounds ∧ drawn.Fits := by
  by_cases choice : slot.low < slot.high
  · obtain ⟨length, next, answer, above, below⟩ := within slot.low slot.high state choice
    refine ⟨{ slot with length }, next, ?_, rfl, admitted.nonnegative, above, below⟩
    rw [drawSlot, if_pos choice, answer]
    rfl
  · refine ⟨{ slot with length := slot.low }, state, ?_, rfl, admitted.nonnegative, le_rfl,
      admitted.ordered⟩
    rw [drawSlot, if_neg choice]

theorem exists_drawSlots
    (within : draw.Within) (slots : List (Slot ℚ))
    (admitted : ∀ slot ∈ slots, slot.Admitted) (state : σ) :
    ∃ drawn next, drawSlots draw slots state = .ok (drawn, next) ∧
      SameBounds slots drawn ∧ ∀ slot ∈ drawn, slot.Fits := by
  induction slots generalizing state with
  | nil =>
      exact ⟨[], state, rfl, SameBounds.refl [], by simp⟩
  | cons slot rest inductionHypothesis =>
      obtain ⟨admittedSlot, admittedRest⟩ := List.forall_mem_cons.mp admitted
      obtain ⟨first, middle, firstDrawn, firstBounds, firstFits⟩ :=
        exists_drawSlot within admittedSlot state
      obtain ⟨others, final, othersDrawn, othersBounds, othersFit⟩ :=
        inductionHypothesis admittedRest middle
      refine ⟨first :: others, final, ?_, ?_, List.forall_mem_cons.mpr ⟨firstFits, othersFit⟩⟩
      · simp only [drawSlots, firstDrawn, bind, Except.bind, othersDrawn]
        rfl
      · exact congrArg₂ List.cons firstBounds othersBounds

end Mixdown.Timing
