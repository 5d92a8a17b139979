import Mathlib.Algebra.Order.Field.Rat
import Mixdown.Timing.Balance

/-!
# The reference track

The track that sets the length of a mix is the first of those that can get
longest.
-/

namespace Mixdown.Timing

/-- A greatest length of a list, at a position that no length before it attains. -/
structure FirstGreatest (lengths : List ℚ) (position : Nat) (length : ℚ) : Prop where
  found : lengths[position]? = some length
  greatest : ∀ other ∈ lengths, other ≤ length
  first : ∀ other ∈ lengths.take position, other < length

namespace FirstGreatest

variable {lengths : List ℚ} {position : Nat} {length added : ℚ}

theorem position_lt (first : FirstGreatest lengths position length) :
    position < lengths.length :=
  (List.getElem?_eq_some_iff.mp first.found).1

theorem singleton (length : ℚ) : FirstGreatest [length] 0 length where
  found := rfl
  greatest _ member := le_of_eq (List.mem_singleton.mp member)
  first _ member := absurd member List.not_mem_nil

theorem keep
    (first : FirstGreatest lengths position length) (notGreater : added ≤ length) :
    FirstGreatest (lengths ++ [added]) position length where
  found := by
    rw [List.getElem?_append_left first.position_lt]
    exact first.found
  greatest := by
    intro other member
    rcases List.mem_append.mp member with earlier | last
    · exact first.greatest other earlier
    · exact List.mem_singleton.mp last ▸ notGreater
  first := by
    rw [List.take_append_of_le_length (le_of_lt first.position_lt)]
    exact first.first

theorem replace
    (first : FirstGreatest lengths position length) (greater : length < added) :
    FirstGreatest (lengths ++ [added]) lengths.length added where
  found := List.getElem?_concat_length
  greatest := by
    intro other member
    rcases List.mem_append.mp member with earlier | last
    · exact (first.greatest other earlier).trans (le_of_lt greater)
    · exact le_of_eq (List.mem_singleton.mp last)
  first := by
    rw [List.take_left]
    intro other member
    exact (first.greatest other member).trans_lt greater

end FirstGreatest

/-- The search goes on from the first greatest length of the tracks that it has seen. -/
theorem exists_longestFrom
    {leader : Nat} {longest : ℚ} {seen : List (Track ℚ)}
    (first : FirstGreatest (seen.map Track.maxLength) leader longest)
    (rest : List (Track ℚ)) :
    ∃ reference greatest,
      longestFrom seen.length (some (leader, longest)) rest = some (reference, greatest) ∧
      FirstGreatest ((seen ++ rest).map Track.maxLength) reference greatest := by
  induction rest generalizing leader longest seen with
  | nil =>
      rw [List.append_nil]
      exact ⟨leader, longest, rfl, first⟩
  | cons track rest inductionHypothesis =>
      have next : ∀ {leader : Nat} {longest : ℚ},
          FirstGreatest (seen.map Track.maxLength ++ [track.maxLength]) leader longest →
          ∃ reference greatest,
            longestFrom (seen.length + 1) (some (leader, longest)) rest =
              some (reference, greatest) ∧
            FirstGreatest ((seen ++ track :: rest).map Track.maxLength) reference greatest := by
        intro leader longest firstOfMore
        have firstOfSeen :
            FirstGreatest ((seen ++ [track]).map Track.maxLength) leader longest := by
          rw [List.map_append]
          exact firstOfMore
        have continued := inductionHypothesis firstOfSeen
        rw [List.length_append, List.append_assoc] at continued
        exact continued
      rw [longestFrom]
      by_cases shorter : track.maxLength ≤ longest
      · simp only [if_pos shorter]
        exact next (first.keep shorter)
      · simp only [if_neg shorter]
        have replaced := first.replace (not_le.mp shorter)
        rw [List.length_map] at replaced
        exact next replaced

theorem exists_longest? {tracks : List (Track ℚ)} (nonempty : tracks ≠ []) :
    ∃ reference longest, longest? tracks = some (reference, longest) ∧
      FirstGreatest (tracks.map Track.maxLength) reference longest := by
  cases tracks with
  | nil => exact absurd rfl nonempty
  | cons track rest =>
      have first : FirstGreatest ([track].map Track.maxLength) 0 track.maxLength :=
        FirstGreatest.singleton track.maxLength
      exact exists_longestFrom first rest

end Mixdown.Timing
