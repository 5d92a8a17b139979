import Mathlib.Data.List.Forall2

/-!
# Outcomes

When steps that may fail succeed, and how they fail.
-/

namespace Mixdown

variable {ε δ β γ : Type}

theorem bind_eq_ok_iff {first : Except ε β} {next : β → Except ε γ} {result : γ} :
    first >>= next = .ok result ↔ ∃ value, first = .ok value ∧ next value = .ok result := by
  cases first with
  | error error => simp [bind, Except.bind]
  | ok value => simp [bind, Except.bind]

theorem bind_eq_error_iff {first : Except ε β} {next : β → Except ε γ} {error : ε} :
    first >>= next = .error error ↔
      first = .error error ∨ ∃ value, first = .ok value ∧ next value = .error error := by
  cases first with
  | error error => simp [bind, Except.bind]
  | ok value => simp [bind, Except.bind]

/-- A check that comes after another one. -/
theorem check_bind_eq_error_iff {first : Except ε Unit} {next : Except ε β} {error : ε} :
    (first >>= fun _ => next) = .error error ↔
      first = .error error ∨ (first = .ok () ∧ next = .error error) := by
  cases first with
  | error error => simp [bind, Except.bind]
  | ok passed => simp [bind, Except.bind]

theorem mapError_eq_ok_iff {change : ε → δ} {outcome : Except ε β} {value : β} :
    outcome.mapError change = .ok value ↔ outcome = .ok value := by
  cases outcome <;> simp [Except.mapError]

theorem mapError_eq_error_iff {change : ε → δ} {outcome : Except ε β} {error : δ} :
    outcome.mapError change = .error error ↔
      ∃ cause, outcome = .error cause ∧ change cause = error := by
  cases outcome <;> simp [Except.mapError]

theorem ite_error_eq_ok_iff
    {refused : Prop} [Decidable refused] {error : ε} {outcome : Except ε β} {value : β} :
    (if refused then .error error else outcome) = .ok value ↔
      ¬ refused ∧ outcome = .ok value := by
  by_cases holds : refused <;> simp [holds]

/-- Results are changed step by step. -/
theorem map_bind_eq
    {β' γ' : Type} {first : Except ε β} {otherFirst : Except ε β'} {next : β → Except ε γ}
    {otherNext : β' → Except ε γ'} {change : β → β'} {changeLast : γ → γ'}
    (same : first.map change = otherFirst)
    (rest : ∀ value, (next value).map changeLast = otherNext (change value)) :
    (first >>= next).map changeLast = otherFirst >>= otherNext := by
  subst same
  cases first with
  | error error => rfl
  | ok value => exact rest value

theorem exists_ok_of_any
    {outcome : Except ε β} {test : β → Bool} (passes : outcome.toOption.any test = true) :
    ∃ value, outcome = .ok value ∧ test value = true := by
  cases outcome with
  | error error => cases passes
  | ok value => exact ⟨value, rfl, passes⟩

/-! ## Lists -/

theorem mapM_eq_ok_iff {change : β → Except ε γ} {values : List β} {results : List γ} :
    values.mapM change = .ok results ↔
      List.Forall₂ (fun value result => change value = .ok result) values results := by
  induction values generalizing results with
  | nil =>
      rw [List.mapM_nil, List.forall₂_nil_left_iff]
      exact ⟨fun equality => (Except.ok.inj equality).symm, fun equality => equality ▸ rfl⟩
  | cons value rest inductionHypothesis =>
      rw [List.mapM_cons, List.forall₂_cons_left_iff]
      simp only [bind_eq_ok_iff, inductionHypothesis]
      constructor
      · rintro ⟨first, changed, others, restChanged, equality⟩
        cases equality
        exact ⟨first, others, changed, restChanged, rfl⟩
      · rintro ⟨first, others, changed, restChanged, rfl⟩
        exact ⟨first, changed, others, restChanged, rfl⟩

theorem mapM_eq_ok_map
    {change : β → Except ε γ} {result : β → γ} {values : List β}
    (succeeds : ∀ value ∈ values, change value = .ok (result value)) :
    values.mapM change = .ok (values.map result) := by
  rw [mapM_eq_ok_iff, List.forall₂_map_right_iff, List.forall₂_same]
  exact succeeds

/-- Changes that fail with one error where a reader fails. -/
theorem mapM_eq_elim
    {read : β → Option γ} {change : β → Except ε γ} {error : ε} {values : List β}
    (each : ∀ value ∈ values, change value = (read value).elim (.error error) .ok) :
    values.mapM change = (values.mapM read).elim (.error error) .ok := by
  induction values with
  | nil => rfl
  | cons value rest inductionHypothesis =>
      obtain ⟨here, later⟩ := List.forall_mem_cons.mp each
      rw [List.mapM_cons, List.mapM_cons, here, inductionHypothesis later]
      cases read value with
      | none => rfl
      | some result => cases rest.mapM read <;> rfl

theorem isSome_mapM_iff {read : β → Option γ} {values : List β} :
    (values.mapM read).isSome = true ↔ ∀ value ∈ values, (read value).isSome = true := by
  induction values with
  | nil => simp
  | cons value rest inductionHypothesis =>
      rw [List.forall_mem_cons, ← inductionHypothesis, List.mapM_cons]
      cases read value with
      | none => simp
      | some result => cases rest.mapM read <;> simp

/-- A reader that reads each value back reads back the list. -/
theorem mapM_map
    {write : β → γ} {read : γ → Option β} {values : List β}
    (each : ∀ value ∈ values, read (write value) = some value) :
    (values.map write).mapM read = some values := by
  induction values with
  | nil => rfl
  | cons value rest inductionHypothesis =>
      obtain ⟨here, later⟩ := List.forall_mem_cons.mp each
      rw [List.map_cons, List.mapM_cons, here, inductionHypothesis later]
      rfl

theorem exists_of_mapM_eq_error
    {change : β → Except ε γ} {values : List β} {error : ε}
    (failed : values.mapM change = .error error) :
    ∃ value ∈ values, change value = .error error := by
  induction values with
  | nil => cases failed
  | cons value rest inductionHypothesis =>
      rw [List.mapM_cons, bind_eq_error_iff] at failed
      rcases failed with here | ⟨_, _, later⟩
      · exact ⟨value, List.mem_cons_self, here⟩
      · rcases bind_eq_error_iff.mp later with there | ⟨_, _, impossible⟩
        · obtain ⟨other, member, changed⟩ := inductionHypothesis there
          exact ⟨other, List.mem_cons_of_mem value member, changed⟩
        · cases impossible

end Mixdown
