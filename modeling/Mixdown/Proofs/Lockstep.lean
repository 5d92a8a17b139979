import Mathlib.Data.List.Forall2

/-!
# Lists in lockstep

What follows for two lists whose items are related one by one.
-/

namespace Mixdown

variable {α β γ : Type} {related : α → β → Prop} {first : List α} {second : List β}

theorem forall₂_trans
    {same : α → α → Prop} {one other another : List α}
    (left : List.Forall₂ same one other) (right : List.Forall₂ same other another)
    (trans : ∀ head middle last, same head middle → same middle last → same head last) :
    List.Forall₂ same one another := by
  induction left generalizing another with
  | nil => exact right
  | cons head tail inductionHypothesis =>
      cases right with
      | cons otherHead otherTail =>
          exact .cons (trans _ _ _ head otherHead) (inductionHypothesis otherTail)

theorem forall₂_zipIdx_mapIdx
    {told : α × Nat → γ → Prop} {make : Nat → β → γ}
    (all : List.Forall₂ related first second)
    (each : ∀ {position one other}, related one other →
      told (one, position) (make position other)) :
    List.Forall₂ told first.zipIdx (second.mapIdx make) := by
  rw [List.mapIdx_eq_zipIdx_map, List.forall₂_map_right_iff]
  generalize 0 = start
  induction all generalizing start with
  | nil => exact .nil
  | cons head _ inductionHypothesis => exact .cons (each head) (inductionHypothesis (start + 1))

/-! ## Items -/

theorem exists_mem_left_of_forall₂
    {item : β} (all : List.Forall₂ related first second) (member : item ∈ second) :
    ∃ other ∈ first, related other item := by
  induction all with
  | nil => cases member
  | cons head _ inductionHypothesis =>
      rcases List.mem_cons.mp member with rfl | later
      · exact ⟨_, List.mem_cons_self, head⟩
      · obtain ⟨other, found, holds⟩ := inductionHypothesis later
        exact ⟨other, List.mem_cons_of_mem _ found, holds⟩

theorem exists_getElem?_left_of_forall₂
    {place : Nat} {item : β} (all : List.Forall₂ related first second)
    (found : second[place]? = some item) :
    ∃ other, first[place]? = some other ∧ related other item := by
  induction all generalizing place with
  | nil => cases found
  | cons head _ inductionHypothesis =>
      cases place with
      | zero =>
          cases found
          exact ⟨_, rfl, head⟩
      | succ place => exact inductionHypothesis found

/-! ## What is made of the items -/

theorem isEmpty_eq_of_forall₂ (all : List.Forall₂ related first second) :
    first.isEmpty = second.isEmpty := by
  cases all <;> rfl

theorem map_eq_map_of_forall₂
    {f : α → γ} {g : β → γ}
    (equal : List.Forall₂ (fun one other => f one = g other) first second) :
    first.map f = second.map g := by
  rwa [← List.forall₂_eq_eq_eq, List.forall₂_map_left_iff, List.forall₂_map_right_iff]

theorem flatMap_eq_flatMap_of_forall₂
    {f : α → List γ} {g : β → List γ}
    (equal : List.Forall₂ (fun one other => f one = g other) first second) :
    first.flatMap f = second.flatMap g := by
  rw [List.flatMap_def, List.flatMap_def, map_eq_map_of_forall₂ equal]

theorem any_eq_any_of_forall₂
    {f : α → Bool} {g : β → Bool}
    (equal : List.Forall₂ (fun one other => f one = g other) first second) :
    first.any f = second.any g := by
  have mapped := map_eq_map_of_forall₂ equal
  rw [← Function.id_comp f, ← Function.id_comp g, ← List.any_map, ← List.any_map, mapped]

end Mixdown
