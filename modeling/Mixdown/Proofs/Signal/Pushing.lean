import Mixdown.Proofs.Signal.WellOrdered

/-!
# Stages pushed one by one

A graph that is offered stages one after the other accepts them all just when the whole
list is in order.  The first stage it refuses is the one where the check of the list ends,
and the two name the same rule unless that stage breaks both.
-/

namespace Mixdown

/-! ## The rules that a stage breaks -/

namespace Stage

/-- The stage makes a label that is made before. -/
def Repeats (stage : Stage) (made : List String) : Prop :=
  stage.output ∈ made

/-- The stage uses a label that is not made before. -/
def Dangles (stage : Stage) (made : List String) : Prop :=
  ∃ label ∈ stage.inputs, label ∉ made

/-- What the check of a list says of its stage at `position`, the use of labels first. -/
def disorder? (stage : Stage) (position : Nat) (made : List String) : Option GraphError :=
  (stage.missingInput? made).map (.danglingLabel position) <|>
    if made.contains stage.output then some (.labelCollision stage.output) else none

/-- What a graph of `position` stages says of one more, its own label first. -/
def refusal? (stage : Stage) (position : Nat) (made : List String) : Option GraphError :=
  if made.contains stage.output then
    some (.labelCollision stage.output)
  else
    (stage.missingInput? made).map (.danglingLabel position)

variable {stage : Stage} {position : Nat} {made other : List String}

theorem disorder?_congr (same : ∀ label, label ∈ made ↔ label ∈ other) :
    stage.disorder? position made = stage.disorder? position other := by
  have contained : made.contains = other.contains := by
    funext label
    exact Bool.eq_iff_iff.mpr (by simpa using same label)
  rw [disorder?, disorder?, missingInput?, missingInput?, contained]

theorem dangles_iff : stage.Dangles made ↔ stage.missingInput? made ≠ none := by
  rw [ne_eq, missingInput?_eq_none_iff]
  simp [Dangles]

theorem refusal?_eq_disorder? (onlyOne : ¬ (stage.Repeats made ∧ stage.Dangles made)) :
    stage.refusal? position made = stage.disorder? position made := by
  rw [refusal?, disorder?]
  by_cases repeats : stage.output ∈ made
  · have known : stage.missingInput? made = none := by
      by_contra missing
      exact onlyOne ⟨repeats, dangles_iff.mpr missing⟩
    simp [repeats, known]
  · simp [repeats]

theorem refusal?_eq_none_iff :
    stage.refusal? position made = none ↔ ¬ stage.Repeats made ∧ ¬ stage.Dangles made := by
  rw [dangles_iff, refusal?, Repeats]
  by_cases repeats : stage.output ∈ made <;> simp [repeats]

theorem disorder?_eq_none_iff :
    stage.disorder? position made = none ↔ ¬ stage.Repeats made ∧ ¬ stage.Dangles made := by
  rw [dangles_iff, disorder?, Repeats]
  cases stage.missingInput? made with
  | some label => simp
  | none => simp

end Stage

/-! ## Where the check ends -/

variable {position : Nat} {made : List String} {before after stages : List Stage}
  {stage : Stage} {error : GraphError}

theorem checkOrderFrom_cons
    (position : Nat) (made : List String) (stage : Stage) (rest : List Stage) :
    checkOrderFrom position made (stage :: rest) =
      match stage.disorder? position made with
      | some error => .error error
      | none => checkOrderFrom (position + 1) (stage.output :: made) rest := by
  rw [checkOrderFrom, Stage.disorder?]
  cases stage.missingInput? made with
  | some label => rfl
  | none => by_cases repeats : stage.output ∈ made <;> simp [repeats]

/-- A list fails at its first stage that breaks a rule, whatever follows. -/
theorem checkOrderFrom_eq_error_iff :
    checkOrderFrom position made stages = .error error ↔
      ∃ before stage after, stages = before ++ stage :: after ∧
        checkOrderFrom position made before = .ok () ∧
        stage.disorder? (position + before.length)
          ((before.map Stage.output).reverse ++ made) = some error := by
  induction stages generalizing position made with
  | nil => simp [checkOrderFrom]
  | cons first rest inductionHypothesis =>
      rw [checkOrderFrom_cons]
      cases found : first.disorder? position made with
      | some reason =>
          constructor
          · rintro ⟨⟩
            exact ⟨[], first, rest, rfl, rfl, found⟩
          · rintro ⟨before, stage, after, shape, ordered, broken⟩
            cases before with
            | nil =>
                obtain ⟨rfl, rfl⟩ := List.cons.inj shape
                exact congrArg _ (Option.some.inj (found.symm.trans broken))
            | cons head initial =>
                obtain ⟨rfl, _⟩ := List.cons.inj shape
                rw [checkOrderFrom_cons, found] at ordered
                cases ordered
      | none =>
          dsimp only
          rw [inductionHypothesis]
          constructor
          · rintro ⟨before, stage, after, rfl, ordered, broken⟩
            refine ⟨first :: before, stage, after, rfl, ?_, ?_⟩
            · rw [checkOrderFrom_cons, found]
              exact ordered
            · simpa [Nat.add_assoc, Nat.add_comm 1] using broken
          · rintro ⟨before, stage, after, shape, ordered, broken⟩
            cases before with
            | nil =>
                obtain ⟨rfl, rfl⟩ := List.cons.inj shape
                exact absurd (found.symm.trans broken) (Option.some_ne_none error).symm
            | cons head initial =>
                obtain ⟨rfl, rfl⟩ := List.cons.inj shape
                rw [checkOrderFrom_cons, found] at ordered
                refine ⟨initial, stage, after, rfl, ordered, ?_⟩
                simpa [Nat.add_assoc, Nat.add_comm 1] using broken

theorem checkOrder_eq_error_iff :
    checkOrder stages = .error error ↔
      ∃ before stage after, stages = before ++ stage :: after ∧ WellOrdered before ∧
        stage.disorder? before.length (before.map Stage.output) = some error := by
  rw [checkOrder, checkOrderFrom_eq_error_iff]
  have reversed (before : List Stage) (stage : Stage) :
      stage.disorder? (0 + before.length) ((before.map Stage.output).reverse ++ []) =
        stage.disorder? before.length (before.map Stage.output) := by
    rw [Nat.zero_add]
    exact Stage.disorder?_congr (by simp)
  simp only [reversed, ← checkOrder_eq_ok_iff, checkOrder]

/-! ## Offers -/

theorem WellOrdered.keeps_rules (ordered : WellOrdered (before ++ stage :: after)) :
    ¬ stage.Repeats (before.map Stage.output) ∧ ¬ stage.Dangles (before.map Stage.output) := by
  constructor
  · exact not_mem_map_of_nodup ordered.distinct
  · rintro ⟨label, member, unknown⟩
    exact unknown (ordered.earlier before stage after rfl label member)

namespace FilterGraph

theorem push_eq (graph : FilterGraph) (stage : Stage) :
    graph.push stage =
      match stage.refusal? graph.stages.length graph.labels with
      | some error => .error error
      | none => .ok ⟨graph.stages ++ [stage]⟩ := by
  rw [push, Stage.refusal?]
  by_cases repeats : graph.labels.contains stage.output = true
  · rw [if_pos repeats, if_pos repeats]
  · rw [if_neg repeats, if_neg repeats]
    cases stage.missingInput? graph.labels <;> rfl

/-- A graph refuses a stage that breaks a rule, and then stays as it is. -/
theorem run_offer (graph : FilterGraph) (stage : Stage) :
    (offer stage).run graph =
      match stage.refusal? graph.stages.length graph.labels with
      | some error => (.error error, graph)
      | none => (.ok stage.output, ⟨graph.stages ++ [stage]⟩) := by
  rw [offer, StateT.run_bind, StateT.run_get, pure_bind]
  dsimp only
  rw [push_eq]
  cases stage.refusal? graph.stages.length graph.labels <;> rfl

/-- What the stages get to hear that a graph is offered one after the other. -/
def outcomes (graph : FilterGraph) (stages : List Stage) : List (Except GraphError String) :=
  ((stages.mapM offer).run graph).1

theorem outcomes_nil (graph : FilterGraph) : graph.outcomes [] = [] :=
  rfl

theorem outcomes_cons (graph : FilterGraph) (stage : Stage) (rest : List Stage) :
    graph.outcomes (stage :: rest) =
      ((offer stage).run graph).1 :: outcomes ((offer stage).run graph).2 rest := by
  rw [outcomes, List.mapM_cons]
  rfl

/-- Stages in order are accepted, one and all. -/
theorem outcomes_append
    (graph : FilterGraph) {before : List Stage} (ordered : WellOrdered (graph.stages ++ before))
    (rest : List Stage) :
    graph.outcomes (before ++ rest) =
      before.map (fun stage => .ok stage.output) ++
        outcomes ⟨graph.stages ++ before⟩ rest := by
  induction before generalizing graph with
  | nil => simp
  | cons stage before inductionHypothesis =>
      have accepted : stage.refusal? graph.stages.length graph.labels = none :=
        Stage.refusal?_eq_none_iff.mpr ordered.keeps_rules
      rw [List.append_cons] at ordered
      rw [List.cons_append, outcomes_cons, run_offer, accepted]
      dsimp only
      rw [inductionHypothesis _ ordered, List.append_assoc]
      rfl

end FilterGraph

/-! ## Both ways compared -/

/-- The stage where the check of a list ends is the first that a graph refuses. -/
theorem exists_refusal_of_checkOrder_eq_error (failed : checkOrder stages = .error error) :
    ∃ before stage after refusal later,
      stages = before ++ stage :: after ∧
        checkOrder before = .ok () ∧ checkOrder (before ++ [stage]) = .error error ∧
        FilterGraph.empty.outcomes stages =
          before.map (fun accepted => .ok accepted.output) ++ .error refusal :: later ∧
        (¬ (stage.Repeats (before.map Stage.output) ∧
            stage.Dangles (before.map Stage.output)) → refusal = error) := by
  obtain ⟨before, stage, after, rfl, ordered, broken⟩ := checkOrder_eq_error_iff.mp failed
  have stopped : checkOrder (before ++ [stage]) = .error error :=
    checkOrder_eq_error_iff.mpr ⟨before, stage, [], rfl, ordered, broken⟩
  obtain ⟨refusal, refused⟩ :
      ∃ refusal, stage.refusal? before.length (before.map Stage.output) = some refusal := by
    rw [← Option.ne_none_iff_exists', ne_eq, Stage.refusal?_eq_none_iff,
      ← Stage.disorder?_eq_none_iff, broken]
    exact Option.some_ne_none error
  have heard : FilterGraph.empty.outcomes (before ++ stage :: after) =
      before.map (fun accepted => .ok accepted.output) ++
        .error refusal :: FilterGraph.outcomes ⟨before⟩ after := by
    have offered := FilterGraph.run_offer ⟨before⟩ stage
    rw [show FilterGraph.labels ⟨before⟩ = before.map Stage.output from rfl, refused] at offered
    rw [FilterGraph.empty.outcomes_append ordered (stage :: after)]
    change _ ++ FilterGraph.outcomes ⟨before⟩ (stage :: after) = _
    rw [FilterGraph.outcomes_cons, offered]
  refine ⟨before, stage, after, refusal, _, rfl, (checkOrder_eq_ok_iff before).mpr ordered,
    stopped, heard, fun onlyOne => ?_⟩
  rw [Stage.refusal?_eq_disorder? onlyOne, broken] at refused
  exact (Option.some.inj refused).symm

/-- Checking a whole list and pushing its stages one by one accept the same lists, those
in order.  Both stop at the same stage, of which they name the same rule unless it breaks
both; and a graph that refuses a stage stays as it is. -/
theorem checkOrder_iff_outcomes (stages : List Stage) :
    (checkOrder stages = .ok () ↔ WellOrdered stages) ∧
      ((∀ outcome ∈ FilterGraph.empty.outcomes stages, ∃ label, outcome = .ok label) ↔
        WellOrdered stages) ∧
      (∀ error, checkOrder stages = .error error →
        ∃ before stage after refusal later,
          stages = before ++ stage :: after ∧
            checkOrder before = .ok () ∧ checkOrder (before ++ [stage]) = .error error ∧
            FilterGraph.empty.outcomes stages =
              before.map (fun accepted => .ok accepted.output) ++ .error refusal :: later ∧
            (¬ (stage.Repeats (before.map Stage.output) ∧
                stage.Dangles (before.map Stage.output)) → refusal = error)) ∧
      ∀ (graph : FilterGraph) stage error,
        ((FilterGraph.offer stage).run graph).1 = .error error →
          ((FilterGraph.offer stage).run graph).2 = graph := by
  refine ⟨checkOrder_eq_ok_iff stages, ⟨?_, ?_⟩, ?_, ?_⟩
  · intro accepted
    rw [← checkOrder_eq_ok_iff]
    cases checked : checkOrder stages with
    | ok _ => rfl
    | error error =>
        obtain ⟨before, _, _, refusal, later, _, _, _, heard, _⟩ :=
          exists_refusal_of_checkOrder_eq_error checked
        have member : .error refusal ∈ FilterGraph.empty.outcomes stages := by
          rw [heard]
          exact List.mem_append_right _ List.mem_cons_self
        obtain ⟨_, impossible⟩ := accepted _ member
        cases impossible
  · intro ordered outcome member
    have heard := FilterGraph.empty.outcomes_append ordered []
    rw [List.append_nil, FilterGraph.outcomes_nil, List.append_nil] at heard
    rw [heard] at member
    obtain ⟨stage, _, rfl⟩ := List.mem_map.mp member
    exact ⟨stage.output, rfl⟩
  · exact fun error => exists_refusal_of_checkOrder_eq_error
  · intro graph stage error refused
    rw [FilterGraph.run_offer] at refused ⊢
    cases found : stage.refusal? graph.stages.length graph.labels with
    | some _ => rfl
    | none =>
        rw [found] at refused
        cases refused

/-- Two files, and between them a joint that waits for a signal which nobody makes. -/
def strayed : List Stage :=
  [.ingest 0 "a.wav" "in_a", ⟨["in_a", "ghost"], some "concat", .empty, "joined"⟩,
    .ingest 1 "b.wav" "in_b"]

theorem checkOrder_iff_outcomes_strayed :
    checkOrder strayed = .error (.danglingLabel 1 "ghost") ∧
      (∃ before stage after refusal later,
        strayed = before ++ stage :: after ∧
          checkOrder before = .ok () ∧
          checkOrder (before ++ [stage]) = .error (.danglingLabel 1 "ghost") ∧
          FilterGraph.empty.outcomes strayed =
            before.map (fun accepted => .ok accepted.output) ++ .error refusal :: later ∧
          (¬ (stage.Repeats (before.map Stage.output) ∧
              stage.Dangles (before.map Stage.output)) →
            refusal = .danglingLabel 1 "ghost")) ∧
      ∀ stage ∈ strayed,
        ((FilterGraph.offer stage).run ⟨strayed⟩).2 = ⟨strayed⟩ := by
  have failed : checkOrder strayed = .error (.danglingLabel 1 "ghost") := by
    rfl
  obtain ⟨_, _, stops, unchanged⟩ := checkOrder_iff_outcomes strayed
  refine ⟨failed, stops _ failed, ?_⟩
  rw [strayed, List.forall_mem_cons, List.forall_mem_cons, List.forall_mem_singleton]
  exact ⟨unchanged _ _ _ rfl, unchanged _ _ _ rfl, unchanged _ _ _ rfl⟩

/-- A stage that breaks both rules is told of another one by each way. -/
example :
    let stages : List Stage := [.ingest 0 "a.wav" "in_a", ⟨["ghost"], some "anull", .empty, "in_a"⟩]
    checkOrder stages = .error (.danglingLabel 1 "ghost") ∧
      FilterGraph.empty.outcomes stages = [.ok "in_a", .error (.labelCollision "in_a")] :=
  ⟨rfl, rfl⟩

end Mixdown
