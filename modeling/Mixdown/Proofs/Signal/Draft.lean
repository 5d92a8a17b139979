import Mixdown.Proofs.Recipe.Tree
import Mixdown.Proofs.Signal.Freshness

/-!
# Drafts under construction

While a graph is built, some of its signals are not used yet.  A draft holds
those signals when each unfolds into the tree that it stands for and every other
signal is used just once.  Adding a stage that uses some of them up and takes a
fresh label leaves a draft that holds the rest and the signal made.
-/

namespace Mixdown

/-! ## Counted inputs -/

theorem ParamValue.ofCount_of_lt {count : Nat} (fits : count < 2 ^ 63) :
    ∃ number, ofCount count = .integer number ∧ number.toInt = count := by
  have greatest : Int64.maxValue.toNatClampNeg = 2 ^ 63 - 1 := by decide
  refine ⟨Int64.ofNat count, ?_, Int64.toInt_ofNat_of_lt fits⟩
  rw [ofCount, greatest, Nat.min_eq_left (by omega)]

/-- A filter that is told how many signals it takes in is told their number. -/
def Stage.CountsInputs (stage : Stage) : Prop :=
  (stage.filter = some "concat" →
      stage.params.get? "n" = some (.ofCount stage.inputs.length)) ∧
    (stage.filter = some "amix" →
      stage.params.get? "inputs" = some (.ofCount stage.inputs.length))

theorem Stage.countsInputs_of_uncounted
    {stage : Stage}
    (notConcat : stage.filter ≠ some "concat")
    (notMix : stage.filter ≠ some "amix") :
    stage.CountsInputs :=
  ⟨fun isConcat => absurd isConcat notConcat, fun isMix => absurd isMix notMix⟩

/-! ## The signals of a draft -/

/-- The draft takes in `files` files, and `signals` are its signals not used yet,
each with its tree. -/
structure Draft.Holds
    (draft : Draft) (files : Nat) (signals : List (String × SignalTree)) : Prop where
  counted : draft.inputs.length = files
  reserved : draft.graph.labels ⊆ draft.labels.reserved
  ordered : WellOrdered draft.graph.stages
  used :
    draft.graph.labels.Perm
      (draft.graph.stages.flatMap Stage.inputs ++ signals.map Prod.fst)
  unfolds : ∀ signal ∈ signals, Unfolds draft.graph.stages signal.1 signal.2
  counts : ∀ stage ∈ draft.graph.stages, stage.CountsInputs

namespace Draft

theorem empty_holds : empty.Holds 0 [] where
  counted := rfl
  reserved := List.Subset.refl []
  ordered := wellOrdered_nil
  used := List.Perm.refl []
  unfolds := by simp
  counts := by simp [empty, FilterGraph.empty]

/-- The draft with one more stage. -/
def extended (draft : Draft) (stage : Stage) : Draft :=
  { draft with graph := ⟨draft.graph.stages ++ [stage]⟩ }

@[simp]
theorem labels_extended (draft : Draft) (stage : Stage) :
    (draft.extended stage).graph.labels = draft.graph.labels ++ [stage.output] := by
  simp [extended, FilterGraph.labels]

/-- A label is taken from the pool, and no stage makes it yet. -/
structure Awaits (draft : Draft) (label : String) : Prop where
  reserved : label ∈ draft.labels.reserved
  unmade : label ∉ draft.graph.labels

namespace Holds

variable {draft : Draft} {files : Nat} {others taken : List (String × SignalTree)}

theorem mem_labels
    (holds : draft.Holds files taken) {signal : String × SignalTree}
    (member : signal ∈ taken) :
    signal.1 ∈ draft.graph.labels :=
  holds.used.mem_iff.mpr <|
    List.mem_append_right _ (List.mem_map_of_mem member)

/-- Taking a label from the pool leaves the signals as they are. -/
theorem taking
    (holds : draft.Holds files taken)
    {take : LabelPool → String × LabelPool} (fresh : LabelPool.TakesFresh take) :
    let after := { draft with labels := (take draft.labels).2 }
    after.Holds files taken ∧ after.Awaits (take draft.labels).1 := by
  obtain ⟨free, nowReserved⟩ := fresh draft.labels
  refine ⟨{ holds with reserved := ?_ }, ⟨?_, ?_⟩⟩
  · intro label member
    change label ∈ (take draft.labels).2.reserved
    rw [nowReserved]
    exact List.mem_cons_of_mem _ (holds.reserved member)
  · change _ ∈ (take draft.labels).2.reserved
    rw [nowReserved]
    exact List.mem_cons_self
  · exact fun made => free (holds.reserved made)

/-- A stage uses up the signals that it takes in, and no other signal: this is
where labels must not meet. -/
theorem extended
    (holds : draft.Holds files (others ++ taken))
    {stage : Stage}
    (awaits : draft.Awaits stage.output)
    (inputs : stage.inputs = taken.map Prod.fst)
    (counts : stage.CountsInputs) :
    (draft.extended stage).Holds files
      (others ++ [(stage.output, .made stage.filter stage.params (taken.map Prod.snd))]) where
  counted := holds.counted
  reserved := by
    intro label member
    rw [labels_extended, List.mem_append, List.mem_singleton] at member
    rcases member with old | rfl
    · exact holds.reserved old
    · exact awaits.reserved
  ordered := by
    refine holds.ordered.concat awaits.unmade ?_
    intro label member
    rw [inputs] at member
    obtain ⟨signal, signalMember, rfl⟩ := List.mem_map.mp member
    exact holds.mem_labels (List.mem_append_right others signalMember)
  used := by
    rw [labels_extended]
    simp only [Draft.extended, List.flatMap_append, List.flatMap_cons,
      List.flatMap_nil, List.append_nil, List.map_append, List.map_cons,
      List.map_nil, inputs, ← List.append_assoc]
    refine List.Perm.append_right _ (holds.used.trans ?_)
    rw [List.map_append, List.append_assoc]
    exact List.Perm.append_left _ List.perm_append_comm
  unfolds := by
    intro signal member
    have included :
        draft.graph.stages ⊆ (draft.extended stage).graph.stages :=
      List.subset_append_left _ _
    rcases List.mem_append.mp member with other | made
    · exact (holds.unfolds signal (List.mem_append_left taken other)).mono included
    · rw [List.mem_singleton.mp made]
      refine .stage (List.mem_append_right _ List.mem_cons_self) ?_
      rw [inputs]
      exact unfoldsAll_of_forall fun source sourceMember =>
        (holds.unfolds source (List.mem_append_right others sourceMember)).mono included
  counts := by
    intro tested member
    rcases List.mem_append.mp member with old | new
    · exact holds.counts tested old
    · rw [List.mem_singleton.mp new]
      exact counts

end Holds

end Draft

end Mixdown
