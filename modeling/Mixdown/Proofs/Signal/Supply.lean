import Mathlib.Data.List.Induction
import Mixdown.Proofs.Signal.Freshness

/-!
# Labels handed out

Whatever is asked of a pool, and in whatever order, it always finds a label, never hands
one out twice, and counts as reserved just what it handed out.
-/

namespace Mixdown

namespace LabelPool

/-! ## The search without a bound -/

/-- The search for a label that goes on as long as candidates are taken: from a candidate,
with the number of the next one, to the label found. -/
inductive Seeks (pool : LabelPool) (requested : String) : String → Nat → String → Prop
  | done {candidate : String} {number : Nat} (free : candidate ∉ pool.reserved) :
      Seeks pool requested candidate number candidate
  | next {candidate found : String} {number : Nat} (taken : candidate ∈ pool.reserved)
      (later : Seeks pool requested (numbered requested number) (number + 1) found) :
      Seeks pool requested candidate number found

variable {pool : LabelPool} {requested candidate found other : String} {number : Nat}

theorem Seeks.unique
    (seeks : pool.Seeks requested candidate number found)
    (again : pool.Seeks requested candidate number other) : other = found := by
  induction seeks with
  | done free =>
      cases again with
      | done => rfl
      | next taken => exact absurd taken free
  | next taken _ inductionHypothesis =>
      cases again with
      | done free => exact absurd taken free
      | next _ later => exact inductionHypothesis later

/-- The search goes over all numbers that are taken and ends at the first that is not. -/
theorem seeks_numbered
    {start last : Nat} (reached : start ≤ last) (free : numbered requested last ∉ pool.reserved)
    (skipped : ∀ earlier, start ≤ earlier → earlier < last →
      numbered requested earlier ∈ pool.reserved) :
    pool.Seeks requested (numbered requested start) (start + 1) (numbered requested last) := by
  obtain ⟨ahead, rfl⟩ := Nat.exists_eq_add_of_le reached
  clear reached
  induction ahead generalizing start with
  | zero => exact .done free
  | succ ahead inductionHypothesis =>
      have shifted : start + (ahead + 1) = start + 1 + ahead := by omega
      rw [shifted] at free skipped ⊢
      refine .next (skipped start (Nat.le_refl start) (by omega)) (inductionHypothesis free ?_)
      exact fun earlier later => skipped earlier (Nat.le_of_succ_le later)

theorem seeks_pick (pool : LabelPool) (requested : String) :
    pool.Seeks requested requested 1 (pool.pick requested) := by
  by_cases taken : requested ∈ pool.reserved
  · obtain ⟨number, picked, lower, free, skipped⟩ := pick_eq_numbered taken
    rw [picked]
    exact .next taken (seeks_numbered lower free skipped)
  · rw [pick_eq_self taken]
    exact .done taken

/-- The label is the one requested, or where that is taken the one with the least number
from one on that is not. -/
def IsLeastFree (taken : List String) (requested label : String) : Prop :=
  (requested ∉ taken ∧ label = requested) ∨
    requested ∈ taken ∧
      ∃ number, 1 ≤ number ∧ label = numbered requested number ∧ label ∉ taken ∧
        ∀ earlier, 1 ≤ earlier → earlier < number → numbered requested earlier ∈ taken

theorem isLeastFree_pick (pool : LabelPool) (requested : String) :
    IsLeastFree pool.reserved requested (pool.pick requested) := by
  by_cases taken : requested ∈ pool.reserved
  · obtain ⟨number, picked, lower, free, skipped⟩ := pick_eq_numbered taken
    exact Or.inr ⟨taken, number, lower, picked, picked ▸ free, skipped⟩
  · exact Or.inl ⟨taken, pick_eq_self taken⟩

end LabelPool

/-! ## Requests -/

/-- What can be asked of a pool of labels. -/
inductive LabelRequest where
  | file (filename : String) (index : UInt64) (position : Nat)
  | silence (index : UInt64) (position : Nat)
  | derived (parent suffix : String)
  | track (index : UInt64) (suffix : String)
  | label (requested : String)

namespace LabelRequest

/-- Takes the label that is asked for. -/
def take : LabelRequest → StateM LabelPool String
  | .file filename index position => modifyGet (·.reserveFile filename index position)
  | .silence index position => modifyGet (·.reserveSilence index position)
  | .derived parent suffix => modifyGet (·.reserveDerived parent suffix)
  | .track index suffix => modifyGet (·.reserveTrack index suffix)
  | .label requested => modifyGet (·.reserve requested)

/-- The label that a pool is asked for before any number is added. -/
def wanted (pool : LabelPool) : LabelRequest → String
  | .file filename index position =>
      let base := LabelPool.fileBase filename index position
      if pool.isReserved base then base ++ "_" ++ LabelPool.place index position else base
  | .silence index position => "silence_" ++ LabelPool.place index position
  | .derived parent suffix => parent ++ "_" ++ suffix
  | .track index suffix => LabelPool.trackBase index ++ "_" ++ suffix
  | .label requested => requested

theorem run_take (request : LabelRequest) (pool : LabelPool) :
    request.take.run pool = pool.reserve (request.wanted pool) := by
  cases request <;> rfl

end LabelRequest

namespace LabelPool

/-- The labels that requests get from a new pool, and the pool afterwards. -/
def served (requests : List LabelRequest) : List String × LabelPool :=
  (requests.mapM LabelRequest.take).run .empty

theorem served_concat (requests : List LabelRequest) (request : LabelRequest) :
    served (requests ++ [request]) =
      let pool := (served requests).2
      let label := pool.pick (request.wanted pool)
      ((served requests).1 ++ [label], ⟨label :: pool.reserved⟩) := by
  have oneMore :
      served (requests ++ [request]) =
        let (label, pool) := request.take.run (served requests).2
        ((served requests).1 ++ [label], pool) := by
    rw [served, List.mapM_append, List.mapM_cons, List.mapM_nil]
    rfl
  rw [oneMore, request.run_take]
  rfl

/-- A pool that served requests holds the labels it handed out, and each of them once. -/
theorem reserved_served (requests : List LabelRequest) :
    (served requests).2.reserved = (served requests).1.reverse ∧ (served requests).1.Nodup := by
  induction requests using List.reverseRecOn with
  | nil => exact ⟨rfl, List.nodup_nil⟩
  | append_singleton requests request inductionHypothesis =>
      obtain ⟨reserved, distinct⟩ := inductionHypothesis
      rw [served_concat]
      dsimp only
      have fresh := (served requests).2.pick_not_mem (request.wanted (served requests).2)
      rw [reserved] at fresh ⊢
      refine ⟨by rw [List.reverse_append]; rfl, ?_⟩
      rw [List.nodup_append_comm]
      exact List.nodup_cons.mpr ⟨fun member => fresh (List.mem_reverse.mpr member), distinct⟩

theorem length_served (requests : List LabelRequest) :
    (served requests).1.length = requests.length := by
  induction requests using List.reverseRecOn with
  | nil => rfl
  | append_singleton requests request inductionHypothesis =>
      rw [served_concat, List.length_append, List.length_append, inductionHypothesis]
      rfl

/-- After any requests, the labels handed out differ and are those that count as reserved;
and whatever is asked for next, the search for its label ends, at the least that is free. -/
theorem served_outcome (requests : List LabelRequest) :
    (served requests).1.length = requests.length ∧
      (served requests).1.Nodup ∧
      (∀ label, (served requests).2.isReserved label = true ↔ label ∈ (served requests).1) ∧
      ∀ request,
        let pool := (served requests).2
        let requested := request.wanted pool
        ∃ label,
          (served (requests ++ [request])).1 = (served requests).1 ++ [label] ∧
            (∀ found, pool.Seeks requested requested 1 found ↔ found = label) ∧
            IsLeastFree (served requests).1 requested label := by
  obtain ⟨reserved, distinct⟩ := reserved_served requests
  refine ⟨?_, distinct, fun label => ?_, fun request => ?_⟩
  · exact length_served requests
  · rw [isReserved_iff_mem, reserved, List.mem_reverse]
  · intro pool requested
    refine ⟨pool.pick requested, ?_, fun found => ⟨(pool.seeks_pick requested).unique, ?_⟩, ?_⟩
    · rw [served_concat]
    · rintro rfl
      exact pool.seeks_pick requested
    · have least := pool.isLeastFree_pick requested
      rw [reserved] at least
      simpa only [IsLeastFree, List.mem_reverse] using least

/-- A label that was asked for with its number is passed over by later numbers. -/
example :
    (served [.label "out", .label "out_1", .file "t0c1" 0 0, .file "?" 0 1, .label "out"]).1 =
      ["out", "out_1", "in_t0c1", "in_t0c1_t0c1", "out_2"] := by
  decide

end LabelPool

end Mixdown
