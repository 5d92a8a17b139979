import Mathlib.Data.List.Nodup
import Mathlib.Data.List.Perm.Subperm
import Mixdown.Proofs.Text.Integer
import Mixdown.Signal.Label

/-!
# Fresh labels

A pool never runs out of labels.  Numbered labels differ from each other, so the
labels reserved cannot be all of one number more; the label that a request gets
is therefore free, and the least of those considered.
-/

namespace Mixdown.LabelPool

/-! ## Numbered labels -/

theorem numbered_injective (requested : String) :
    Function.Injective (numbered requested) :=
  fun _ _ equality =>
    Text.toString_injective ((String.append_right_inj (requested ++ "_")).mp equality)

/-- More numbered labels than there are reserved ones are not all reserved. -/
theorem exists_numbered_not_mem
    (reserved : List String) (requested : String) (start : Nat) :
    ∃ number, start ≤ number ∧ number ≤ start + reserved.length ∧
      numbered requested number ∉ reserved := by
  by_contra allReserved
  push Not at allReserved
  let candidates :=
    (List.range' start (reserved.length + 1)).map (numbered requested)
  have distinct : candidates.Nodup :=
    List.Nodup.map (numbered_injective requested) List.nodup_range'
  have included : candidates ⊆ reserved := by
    intro candidate member
    obtain ⟨number, inRange, rfl⟩ := List.mem_map.mp member
    have bounds := List.mem_range'_1.mp inRange
    exact allReserved number bounds.1 (by omega)
  have tooMany : candidates.length ≤ reserved.length :=
    (distinct.subperm included).length_le
  simp only [candidates, List.length_map, List.length_range'] at tooMany
  omega

/-! ## The search -/

theorem isReserved_iff_mem {pool : LabelPool} {label : String} :
    pool.isReserved label = true ↔ label ∈ pool.reserved := by
  simp [isReserved]

/-- The search ends at the first numbered label that is free, or at the last one
that it considers. -/
theorem firstFree_eq_numbered
    (pool : LabelPool) (requested : String) (attempts start : Nat) :
    ∃ number, pool.firstFree requested attempts start = numbered requested number ∧
      start ≤ number ∧
      (∀ earlier, start ≤ earlier → earlier < number →
        numbered requested earlier ∈ pool.reserved) ∧
      (numbered requested number ∉ pool.reserved ∨ number = start + attempts) := by
  induction attempts generalizing start with
  | zero =>
      exact ⟨start, rfl, Nat.le_refl start,
        fun earlier lower upper => by omega, Or.inr rfl⟩
  | succ attempts inductionHypothesis =>
      rw [firstFree]
      split
      next taken =>
        obtain ⟨number, found, lower, skipped, ending⟩ :=
          inductionHypothesis (start + 1)
        refine ⟨number, found, by omega, ?_, ?_⟩
        · intro earlier fromStart below
          rcases Nat.eq_or_lt_of_le fromStart with equal | later
          · rw [← equal]
            exact isReserved_iff_mem.mp taken
          · exact skipped earlier later below
        · exact ending.imp_right fun atLast => by omega
      next free =>
        exact ⟨start, rfl, Nat.le_refl start,
          fun earlier lower upper => by omega,
          Or.inl fun member => free (isReserved_iff_mem.mpr member)⟩

/-- A request that is taken gets the least number from one on that makes it free. -/
theorem pick_eq_numbered
    {pool : LabelPool} {requested : String}
    (taken : requested ∈ pool.reserved) :
    ∃ number, pool.pick requested = numbered requested number ∧ 1 ≤ number ∧
      numbered requested number ∉ pool.reserved ∧
      ∀ earlier, 1 ≤ earlier → earlier < number →
        numbered requested earlier ∈ pool.reserved := by
  have searched : pool.pick requested =
      pool.firstFree requested pool.reserved.length 1 := by
    rw [pick, if_pos (isReserved_iff_mem.mpr taken)]
  obtain ⟨number, found, lower, skipped, ending⟩ :=
    pool.firstFree_eq_numbered requested pool.reserved.length 1
  refine ⟨number, searched.trans found, lower, ?_, skipped⟩
  rcases ending with free | atLast
  · exact free
  · obtain ⟨other, otherLower, otherUpper, otherFree⟩ :=
      exists_numbered_not_mem pool.reserved requested 1
    -- A free number before the last one would have ended the search.
    rcases Nat.eq_or_lt_of_le (atLast ▸ otherUpper) with equal | before
    · exact equal ▸ otherFree
    · exact absurd (skipped other otherLower before) otherFree

theorem pick_eq_self
    {pool : LabelPool} {requested : String}
    (free : requested ∉ pool.reserved) :
    pool.pick requested = requested := by
  rw [pick, if_neg]
  exact fun taken => free (isReserved_iff_mem.mp taken)

theorem pick_not_mem (pool : LabelPool) (requested : String) :
    pool.pick requested ∉ pool.reserved := by
  by_cases taken : requested ∈ pool.reserved
  · obtain ⟨number, found, _, free, _⟩ := pick_eq_numbered taken
    rw [found]
    exact free
  · rw [pick_eq_self taken]
    exact taken

/-! ## Ways to take a label -/

/-- A way to take a label from a pool that finds a free one and leaves it reserved. -/
def TakesFresh (take : LabelPool → String × LabelPool) : Prop :=
  ∀ pool, (take pool).1 ∉ pool.reserved ∧
    (take pool).2.reserved = (take pool).1 :: pool.reserved

theorem takesFresh_reserve (request : LabelPool → String) :
    TakesFresh fun pool => pool.reserve (request pool) :=
  fun pool => ⟨pool.pick_not_mem (request pool), rfl⟩

theorem takesFresh_reserveFile (filename : String) (track : UInt64) (position : Nat) :
    TakesFresh (·.reserveFile filename track position) :=
  takesFresh_reserve fun pool =>
    let base := fileBase filename track position
    if pool.isReserved base then base ++ "_" ++ place track position else base

theorem takesFresh_reserveSilence (track : UInt64) (position : Nat) :
    TakesFresh (·.reserveSilence track position) :=
  takesFresh_reserve fun _ => "silence_" ++ place track position

theorem takesFresh_reserveDerived (parent suffix : String) :
    TakesFresh (·.reserveDerived parent suffix) :=
  takesFresh_reserve fun _ => parent ++ "_" ++ suffix

theorem takesFresh_reserveTrack (track : UInt64) (suffix : String) :
    TakesFresh (·.reserveTrack track suffix) :=
  takesFresh_reserveDerived (trackBase track) suffix

end Mixdown.LabelPool
