import Mixdown.Keyed

/-!
# Looking up keys

What a key leads to after entries are added.
-/

namespace Mixdown

variable {β : Type}

theorem lookup_cons_entry
    (first other : String) (kept : β) (rest : List (String × β)) :
    ((first, kept) :: rest).lookup other =
      if other = first then some kept else rest.lookup other := by
  by_cases same : other = first
  · simp [same]
  · rw [List.lookup_cons, beq_false_of_ne same, if_neg same]

theorem lookup_insertKey
    (key other : String) (value : β) (entries : List (String × β)) :
    (insertKey key value entries).lookup other =
      if other = key then some value else entries.lookup other := by
  induction entries with
  | nil => exact lookup_cons_entry key other value []
  | cons head rest inductionHypothesis =>
      obtain ⟨first, kept⟩ := head
      rw [insertKey]
      split
      next => exact lookup_cons_entry key other value _
      next =>
        split
        next equal =>
          subst equal
          rw [lookup_cons_entry, lookup_cons_entry]
          split <;> rfl
        next different =>
          rw [lookup_cons_entry, lookup_cons_entry, inductionHypothesis]
          by_cases atFirst : other = first
          · subst atFirst
            simp [Ne.symm different]
          · simp [atFirst]

/-- A key above all others goes to the end. -/
theorem insertKey_of_forall_lt
    {key : String} {entries : List (String × β)} (value : β)
    (above : ∀ entry ∈ entries, entry.1 < key) :
    insertKey key value entries = entries ++ [(key, value)] := by
  induction entries with
  | nil => rfl
  | cons entry rest inductionHypothesis =>
      obtain ⟨first, kept⟩ := entry
      obtain ⟨below, restBelow⟩ := List.forall_mem_cons.mp above
      have notBefore : ¬ key < first :=
        fun back => String.lt_irrefl key (String.lt_trans back below)
      have different : key ≠ first := fun equal => String.lt_irrefl key (equal ▸ below)
      rw [insertKey, if_neg notBefore, if_neg different, inductionHypothesis restBelow]
      rfl

namespace Keyed

theorem entries_insertAll
    {keyed : Keyed β} {entries : List (String × β)}
    (increase : KeysIncrease (keyed.entries ++ entries)) :
    (keyed.insertAll entries).entries = keyed.entries ++ entries := by
  induction entries generalizing keyed with
  | nil => exact (List.append_nil _).symm
  | cons entry rest inductionHypothesis =>
      obtain ⟨key, value⟩ := entry
      have above : ∀ other ∈ keyed.entries, other.1 < key := fun other member =>
        (List.pairwise_append.mp increase).2.2 other member (key, value) List.mem_cons_self
      have inserted : (keyed.insert key value).entries = keyed.entries ++ [(key, value)] :=
        insertKey_of_forall_lt value above
      have appended :
          (keyed.insert key value).entries ++ rest = keyed.entries ++ (key, value) :: rest := by
        rw [inserted, List.append_assoc]
        rfl
      rw [← appended] at increase ⊢
      exact inductionHypothesis increase

/-- Entries in key order are kept as they are. -/
theorem ofList_entries (keyed : Keyed β) : ofList keyed.entries = keyed := by
  have kept : (ofList keyed.entries).entries = keyed.entries := by
    apply entries_insertAll
    exact keyed.increase
  obtain ⟨entries, increase⟩ := keyed
  generalize ofList entries = collected at kept
  obtain ⟨others, othersIncrease⟩ := collected
  cases kept
  rfl

theorem mem_of_mem_insertAll
    {keyed : Keyed β} {entries : List (String × β)} {entry : String × β}
    (member : entry ∈ (keyed.insertAll entries).entries) :
    entry ∈ keyed.entries ∨ entry ∈ entries := by
  induction entries generalizing keyed with
  | nil => exact Or.inl member
  | cons first rest inductionHypothesis =>
      rcases inductionHypothesis member with before | later
      · rcases mem_insertKey before with here | old
        · exact Or.inr (here ▸ List.mem_cons_self)
        · exact Or.inl old
      · exact Or.inr (List.mem_cons_of_mem first later)

theorem mem_of_mem_ofList
    {entries : List (String × β)} {entry : String × β}
    (member : entry ∈ (ofList entries).entries) : entry ∈ entries := by
  rcases mem_of_mem_insertAll member with nothing | given
  · cases nothing
  · exact given

@[simp]
theorem get?_empty (key : String) : (empty : Keyed β).get? key = none :=
  rfl

theorem get?_insert (keyed : Keyed β) (key other : String) (value : β) :
    (keyed.insert key value).get? other =
      if other = key then some value else keyed.get? other :=
  lookup_insertKey key other value keyed.entries

theorem get?_eq_some_iff {keyed : Keyed β} {key : String} {value : β} :
    keyed.get? key = some value ↔ (key, value) ∈ keyed.entries := by
  obtain ⟨entries, increase⟩ := keyed
  change entries.lookup key = some value ↔ (key, value) ∈ entries
  induction entries with
  | nil => simp
  | cons entry rest inductionHypothesis =>
      obtain ⟨first, kept⟩ := entry
      obtain ⟨above, restIncrease⟩ := List.pairwise_cons.mp increase
      rw [lookup_cons_entry, List.mem_cons, Prod.mk.injEq]
      split
      next same =>
        subst same
        have notLater : (key, value) ∉ rest :=
          fun later => String.lt_irrefl key (above (key, value) later)
        simp [notLater, eq_comm]
      next different =>
        simp [different, inductionHypothesis restIncrease]

/-- The last entry of a key wins over earlier ones and over what was there. -/
theorem get?_insertAll (keyed : Keyed β) (entries : List (String × β)) (key : String) :
    (keyed.insertAll entries).get? key = (entries.reverse.lookup key).or (keyed.get? key) := by
  induction entries generalizing keyed with
  | nil => rfl
  | cons entry rest inductionHypothesis =>
      obtain ⟨first, value⟩ := entry
      calc
        (keyed.insertAll ((first, value) :: rest)).get? key
        _ = (rest.reverse.lookup key).or ((keyed.insert first value).get? key) :=
          inductionHypothesis (keyed.insert first value)
        _ = (rest.reverse.lookup key).or
            (([(first, value)].lookup key).or (keyed.get? key)) := by
          rw [get?_insert, lookup_cons_entry]
          split <;> rfl
        _ = (((first, value) :: rest).reverse.lookup key).or (keyed.get? key) := by
          rw [List.reverse_cons, List.lookup_append, Option.or_assoc]

end Keyed

end Mixdown
