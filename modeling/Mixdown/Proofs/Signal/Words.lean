import Mixdown.Proofs.Signal.Freshness
import Mixdown.Proofs.Text.Printed

/-!
# Labels are words

Whatever files and effects are called, the labels of their signals are words.
-/

namespace Mixdown.LabelPool

/-! ## Requests -/

theorem isWord_place (track : UInt64) (position : Nat) : IsWord (place track position) := by
  have opening : IsWord "t" := by decide
  have between : IsWord "c" := by decide
  exact ((opening.append (isWord_toString track.toNat)).append between).append
    (isWord_toString position)

theorem isWord_fileBase (filename : String) (track : UInt64) (position : Nat) :
    IsWord (fileBase filename track position) := by
  have opening : IsWord "in_" := by decide
  apply opening.append
  split
  next => exact isWord_place track position
  next named =>
    refine ⟨fun empty => named (by rw [empty]; rfl), ?_⟩
    intro c member
    rw [alphanumerics, String.toList_ofList] at member
    simp [isWordChar, (List.mem_filter.mp member).2]

theorem isWord_numbered {requested : String} (word : IsWord requested) (number : Nat) :
    IsWord (numbered requested number) := by
  have underscore : IsWord "_" := by decide
  exact (word.append underscore).append (isWord_toString number)

theorem isWord_pick (pool : LabelPool) {requested : String} (word : IsWord requested) :
    IsWord (pool.pick requested) := by
  by_cases taken : requested ∈ pool.reserved
  · obtain ⟨number, found, _⟩ := pick_eq_numbered taken
    rw [found]
    exact isWord_numbered word number
  · rw [pick_eq_self taken]
    exact word

/-! ## Ways to take a label -/

theorem isWord_reserveFile
    (pool : LabelPool) (filename : String) (track : UInt64) (position : Nat) :
    IsWord (pool.reserveFile filename track position).1 := by
  have base := isWord_fileBase filename track position
  have underscore : IsWord "_" := by decide
  apply pool.isWord_pick
  split
  · exact (base.append underscore).append (isWord_place track position)
  · exact base

theorem isWord_reserveSilence (pool : LabelPool) (track : UInt64) (position : Nat) :
    IsWord (pool.reserveSilence track position).1 := by
  have opening : IsWord "silence_" := by decide
  exact pool.isWord_pick (opening.append (isWord_place track position))

theorem isWord_reserveDerived
    (pool : LabelPool) {parent suffix : String} (word : IsWord parent) (ending : IsWord suffix) :
    IsWord (pool.reserveDerived parent suffix).1 := by
  have underscore : IsWord "_" := by decide
  exact pool.isWord_pick ((word.append underscore).append ending)

theorem isWord_trackBase (track : UInt64) : IsWord (trackBase track) := by
  have opening : IsWord "track" := by decide
  exact opening.append (isWord_toString track.toNat)

end Mixdown.LabelPool
