import Mathlib.Data.List.Basic

/-!
# Pieces between marks

When lists of pieces that were put together can be taken apart again.
-/

namespace Mixdown

variable {β : Type} {mark : β}

theorem append_mark_inj
    {before other rest otherRest : List β} (unmarked : mark ∉ before)
    (otherUnmarked : mark ∉ other)
    (equal : before ++ mark :: rest = other ++ mark :: otherRest) :
    before = other ∧ rest = otherRest := by
  induction before generalizing other with
  | nil =>
      cases other with
      | nil => exact ⟨rfl, (List.cons.inj equal).2⟩
      | cons first more =>
          have same : mark = first := (List.cons.inj equal).1
          exact absurd (same ▸ List.mem_cons_self) otherUnmarked
  | cons head tail inductionHypothesis =>
      cases other with
      | nil =>
          have same : head = mark := (List.cons.inj equal).1
          exact absurd (same ▸ List.mem_cons_self) unmarked
      | cons first more =>
          obtain ⟨rfl, tails⟩ := List.cons.inj equal
          obtain ⟨sameTail, sameRest⟩ :=
            inductionHypothesis (fun member => unmarked (List.mem_cons_of_mem _ member))
              (fun member => otherUnmarked (List.mem_cons_of_mem _ member)) tails
          exact ⟨by rw [sameTail], sameRest⟩

/-- Two kinds of items, one kind after the other, can be told apart. -/
theorem append_kinds_inj
    {isFirst : β → Bool} {firsts others seconds otherSeconds : List β}
    (first : ∀ item ∈ firsts, isFirst item = true) (other : ∀ item ∈ others, isFirst item = true)
    (second : ∀ item ∈ seconds, isFirst item = false)
    (otherSecond : ∀ item ∈ otherSeconds, isFirst item = false)
    (equal : firsts ++ seconds = others ++ otherSeconds) :
    firsts = others ∧ seconds = otherSeconds := by
  have noSecond {items : List β} (each : ∀ item ∈ items, isFirst item = false) :
      items.filter isFirst = [] :=
    List.filter_eq_nil_iff.mpr fun item member => by simp [each item member]
  have filtered := congrArg (List.filter isFirst) equal
  rw [List.filter_append, List.filter_append, List.filter_eq_self.mpr first,
    List.filter_eq_self.mpr other, noSecond second, noSecond otherSecond, List.append_nil,
    List.append_nil] at filtered
  subst filtered
  exact ⟨rfl, List.append_cancel_left equal⟩

/-! ## What follows marks -/

/-- Whatever comes after the list, what follows each mark in it is as `next` says. -/
def Marked (mark : β) (next : List β → Prop) (list : List β) : Prop :=
  ∀ before rest more, list = before ++ mark :: rest → next (rest ++ more)

namespace Marked

variable {next : List β → Prop} {list other : List β}

theorem of_not_mem (unmarked : mark ∉ list) : Marked mark next list := by
  rintro before rest more rfl
  exact absurd (List.mem_append_right before List.mem_cons_self) unmarked

theorem cons
    (follows : ∀ more, next (list ++ more)) (marked : Marked mark next list) :
    Marked mark next (mark :: list) := by
  intro before rest more split
  cases before with
  | nil =>
      obtain ⟨_, rfl⟩ := List.cons.inj split
      exact follows more
  | cons first before =>
      obtain ⟨_, tail⟩ := List.cons.inj split
      exact marked before rest more tail

theorem append (marked : Marked mark next list) (otherMarked : Marked mark next other) :
    Marked mark next (list ++ other) := by
  intro before rest more split
  rcases List.append_eq_append_iff.mp split with ⟨skipped, _, later⟩ | ⟨within, here, later⟩
  · exact otherMarked skipped rest more later
  · cases within with
    | nil => exact otherMarked [] rest more later.symm
    | cons first within =>
        obtain ⟨rfl, tail⟩ := List.cons.inj later
        have shape : rest = within ++ other := tail
        rw [shape, List.append_assoc]
        exact marked before within _ here

theorem flatMap
    {γ : Type} {pieces : List γ} {write : γ → List β}
    (each : ∀ piece ∈ pieces, Marked mark next (write piece)) :
    Marked mark next (pieces.flatMap write) := by
  induction pieces with
  | nil => exact of_not_mem List.not_mem_nil
  | cons piece rest inductionHypothesis =>
      obtain ⟨here, later⟩ := List.forall_mem_cons.mp each
      rw [List.flatMap_cons]
      exact here.append (inductionHypothesis later)

end Marked

end Mixdown
