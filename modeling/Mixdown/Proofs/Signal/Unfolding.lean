import Mixdown.Proofs.Signal.WellOrdered

/-!
# Unfolding a filter graph

A filter graph is a list of stages that name each other by labels.  Replacing a
label by the stage that makes it, and so on for the labels that this stage uses,
unfolds a signal into a tree.  Where labels differ, a label has one tree at most.
-/

namespace Mixdown

/-- What a signal is made of: a filter with its options and the signals that it
runs over, or a file taken in where there is no filter. -/
inductive SignalTree where
  | made (filter : Option String) (params : Keyed ParamValue) (sources : List SignalTree)

mutual

/-- `Unfolds stages label tree`: the signal called `label` unfolds into `tree`. -/
inductive Unfolds (stages : List Stage) : String → SignalTree → Prop
  | stage {stage : Stage} {sources : List SignalTree} :
      stage ∈ stages →
      UnfoldsAll stages stage.inputs sources →
      Unfolds stages stage.output (.made stage.filter stage.params sources)

/-- Each of several signals unfolds into its own tree. -/
inductive UnfoldsAll (stages : List Stage) : List String → List SignalTree → Prop
  | nil : UnfoldsAll stages [] []
  | cons {label : String} {labels : List String} {tree : SignalTree}
      {trees : List SignalTree} :
      Unfolds stages label tree →
      UnfoldsAll stages labels trees →
      UnfoldsAll stages (label :: labels) (tree :: trees)

end

/-! ## More stages -/

mutual

theorem Unfolds.mono
    {stages more : List Stage} {label : String} {tree : SignalTree}
    (included : stages ⊆ more) (unfolds : Unfolds stages label tree) :
    Unfolds more label tree := by
  cases unfolds with
  | stage member sources =>
      exact .stage (included member) (sources.mono included)

theorem UnfoldsAll.mono
    {stages more : List Stage} {labels : List String} {trees : List SignalTree}
    (included : stages ⊆ more) (unfolds : UnfoldsAll stages labels trees) :
    UnfoldsAll more labels trees := by
  cases unfolds with
  | nil => exact .nil
  | cons first rest => exact .cons (first.mono included) (rest.mono included)

end

theorem unfoldsAll_of_forall
    {stages : List Stage} {signals : List (String × SignalTree)}
    (unfolds : ∀ signal ∈ signals, Unfolds stages signal.1 signal.2) :
    UnfoldsAll stages (signals.map Prod.fst) (signals.map Prod.snd) := by
  induction signals with
  | nil => exact .nil
  | cons signal rest inductionHypothesis =>
      exact .cons (unfolds signal List.mem_cons_self) <|
        inductionHypothesis fun other member =>
          unfolds other (List.mem_cons_of_mem signal member)

/-! ## One tree for a label -/

theorem stage_eq_of_output_eq
    {stages : List Stage} {first second : Stage}
    (distinct : (stages.map Stage.output).Nodup)
    (firstMember : first ∈ stages) (secondMember : second ∈ stages)
    (equal : first.output = second.output) :
    first = second :=
  List.inj_on_of_nodup_map distinct firstMember secondMember equal

mutual

theorem Unfolds.unique
    {stages : List Stage} {label : String} {first second : SignalTree}
    (distinct : (stages.map Stage.output).Nodup)
    (firstUnfolds : Unfolds stages label first)
    (secondUnfolds : Unfolds stages label second) :
    first = second := by
  cases firstUnfolds with
  | @stage firstStage _ firstMember firstSources =>
      generalize equality : firstStage.output = output at secondUnfolds
      cases secondUnfolds with
      | stage secondMember secondSources =>
          have same :=
            stage_eq_of_output_eq distinct firstMember secondMember equality
          subst same
          rw [firstSources.unique distinct secondSources]

theorem UnfoldsAll.unique
    {stages : List Stage} {labels : List String} {first second : List SignalTree}
    (distinct : (stages.map Stage.output).Nodup)
    (firstUnfolds : UnfoldsAll stages labels first)
    (secondUnfolds : UnfoldsAll stages labels second) :
    first = second := by
  cases firstUnfolds with
  | nil =>
      cases secondUnfolds with
      | nil => rfl
  | cons firstHead firstRest =>
      cases secondUnfolds with
      | cons secondHead secondRest =>
          rw [firstHead.unique distinct secondHead,
            firstRest.unique distinct secondRest]

end

end Mixdown
