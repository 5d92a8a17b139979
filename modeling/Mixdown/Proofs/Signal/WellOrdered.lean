import Mathlib.Data.List.Nodup
import Mixdown.Signal.Order

/-!
# Well-ordered stages

In a well-ordered list of stages the labels differ, and each stage uses only
labels of earlier ones.  These are the lists that `checkOrder` accepts.
-/

namespace Mixdown

/-- Every label is made by one stage only, and used only by later stages. -/
structure WellOrdered (stages : List Stage) : Prop where
  distinct : (stages.map Stage.output).Nodup
  earlier :
    ∀ before stage after, stages = before ++ stage :: after →
      ∀ label ∈ stage.inputs, label ∈ before.map Stage.output

theorem Stage.missingInput?_eq_none_iff {stage : Stage} {made : List String} :
    stage.missingInput? made = none ↔ ∀ label ∈ stage.inputs, label ∈ made := by
  simp [missingInput?, List.find?_eq_none]

theorem not_mem_map_of_nodup
    {α β : Type} {value : α → β} {before after : List α} {item : α}
    (distinct : ((before ++ item :: after).map value).Nodup) : value item ∉ before.map value := by
  rw [List.map_append, List.map_cons] at distinct
  exact fun reached => List.disjoint_of_nodup_append distinct reached List.mem_cons_self

/-! ## Growing lists -/

theorem wellOrdered_nil : WellOrdered [] where
  distinct := List.nodup_nil
  earlier := by
    intro before stage after shape
    simp at shape

theorem WellOrdered.concat
    {stages : List Stage} {stage : Stage}
    (ordered : WellOrdered stages)
    (fresh : stage.output ∉ stages.map Stage.output)
    (known : ∀ label ∈ stage.inputs, label ∈ stages.map Stage.output) :
    WellOrdered (stages ++ [stage]) where
  distinct := by
    rw [List.map_append, List.nodup_append]
    refine ⟨ordered.distinct, List.nodup_singleton stage.output, ?_⟩
    rintro label member other otherMember rfl
    exact fresh ((List.mem_singleton.mp otherMember) ▸ member)
  earlier := by
    intro before tested after shape label member
    rcases List.eq_nil_or_concat after with rfl | ⟨initial, last, rfl⟩
    · obtain ⟨rfl, equality⟩ := List.append_inj' shape rfl
      rw [List.cons.inj equality |>.1] at known
      exact known label member
    · have regrouped :
          stages ++ [stage] = (before ++ tested :: initial) ++ [last] := by
        simpa using shape
      have split := (List.append_inj' regrouped rfl).1
      exact ordered.earlier before tested initial split label member

/-! ## The check -/

/-- The stages keep the order when the labels in `made` are made before them. -/
def OrderedAfter (made : List String) : List Stage → Prop
  | [] => True
  | stage :: rest =>
      (∀ label ∈ stage.inputs, label ∈ made) ∧ stage.output ∉ made ∧
        OrderedAfter (stage.output :: made) rest

theorem checkOrderFrom_eq_ok_iff
    (position : Nat) (made : List String) (stages : List Stage) :
    checkOrderFrom position made stages = .ok () ↔ OrderedAfter made stages := by
  induction stages generalizing position made with
  | nil => simp [checkOrderFrom, OrderedAfter]
  | cons stage rest inductionHypothesis =>
      rw [checkOrderFrom, OrderedAfter]
      cases missing : stage.missingInput? made with
      | some label =>
          have unknown : ¬ ∀ label ∈ stage.inputs, label ∈ made := by
            rw [← Stage.missingInput?_eq_none_iff, missing]
            exact Option.some_ne_none label
          simp [unknown]
      | none =>
          have known := Stage.missingInput?_eq_none_iff.mp missing
          by_cases collision : stage.output ∈ made
          · simp [collision]
          · simp [collision, inductionHypothesis, eq_true known]

theorem orderedAfter_iff (made : List String) (stages : List Stage) :
    OrderedAfter made stages ↔
      (stages.map Stage.output).Nodup ∧
        (∀ stage ∈ stages, stage.output ∉ made) ∧
        ∀ before stage after, stages = before ++ stage :: after →
          ∀ label ∈ stage.inputs, label ∈ made ∨ label ∈ before.map Stage.output := by
  induction stages generalizing made with
  | nil => simp [OrderedAfter]
  | cons first rest inductionHypothesis =>
      rw [OrderedAfter, inductionHypothesis]
      constructor
      · rintro ⟨known, fresh, distinct, later, earlier⟩
        refine ⟨?_, ?_, ?_⟩
        · refine List.nodup_cons.mpr ⟨?_, distinct⟩
          intro member
          obtain ⟨stage, stageMember, equality⟩ := List.mem_map.mp member
          exact later stage stageMember (equality ▸ List.mem_cons_self)
        · intro stage member
          rcases List.mem_cons.mp member with rfl | restMember
          · exact fresh
          · exact fun made =>
              later stage restMember (List.mem_cons_of_mem _ made)
        · intro before stage after shape label member
          cases before with
          | nil =>
              obtain ⟨rfl, rfl⟩ := List.cons.inj shape
              exact Or.inl (known label member)
          | cons head initial =>
              obtain ⟨rfl, tailShape⟩ := List.cons.inj shape
              have found := earlier initial stage after tailShape label member
              simp only [List.mem_cons, List.map_cons] at found ⊢
              tauto
      · rintro ⟨distinct, fresh, earlier⟩
        have distinctParts := List.nodup_cons.mp distinct
        refine ⟨?_, fresh first List.mem_cons_self, distinctParts.2, ?_, ?_⟩
        · intro label member
          simpa using earlier [] first rest rfl label member
        · intro stage member made
          rcases List.mem_cons.mp made with equal | before
          · exact distinctParts.1 (equal ▸ List.mem_map_of_mem member)
          · exact fresh stage (List.mem_cons_of_mem _ member) before
        · intro before stage after shape label member
          have found :=
            earlier (first :: before) stage after (by rw [shape]; rfl) label member
          simp only [List.mem_cons, List.map_cons] at found ⊢
          tauto

theorem checkOrder_eq_ok_iff (stages : List Stage) :
    checkOrder stages = .ok () ↔ WellOrdered stages := by
  rw [checkOrder, checkOrderFrom_eq_ok_iff, orderedAfter_iff]
  constructor
  · rintro ⟨distinct, _, earlier⟩
    exact ⟨distinct, by simpa using earlier⟩
  · rintro ⟨distinct, earlier⟩
    exact ⟨distinct, by simp, by simpa using earlier⟩

/-! ## Growing graphs -/

theorem FilterGraph.push_eq_ok
    {graph : FilterGraph} {stage : Stage}
    (fresh : stage.output ∉ graph.labels)
    (known : ∀ label ∈ stage.inputs, label ∈ graph.labels) :
    graph.push stage = .ok ⟨graph.stages ++ [stage]⟩ := by
  rw [push, if_neg (by simpa using fresh),
    Stage.missingInput?_eq_none_iff.mpr known]

theorem FilterGraph.stages_of_push
    {graph after : FilterGraph} {stage : Stage} (pushed : graph.push stage = .ok after) :
    after.stages = graph.stages ++ [stage] := by
  unfold push at pushed
  split at pushed
  next => cases pushed
  next =>
    split at pushed
    next => cases pushed
    next =>
      cases pushed
      rfl

end Mixdown
