import Mixdown.Proofs.Outcome
import Mixdown.Timing.Balance

/-!
# Sources that record

A source of draws may keep a record of them beside its state.  Balancing takes no notice:
without the records, what it leaves behind is what it leaves with the bare source.
-/

namespace Mixdown.Timing

variable {α σ τ : Type}

/-- A source that also keeps the bounds and the length of every draw, in their order. -/
def recorded (draw : Draw α σ) : Draw α (σ × List (Slot α)) := fun low high (state, drawn) =>
  (draw low high state).map fun (length, state) => (length, state, drawn ++ [⟨low, high, length⟩])

/-- What balancing leaves behind, with another state of the source. -/
def Balanced.withState (balanced : Balanced α σ) (state : τ) : Balanced α τ :=
  ⟨balanced.outcome, balanced.recipe, state⟩

/-- A source whose draws are those of another one, whose states its own states tell. -/
def DrawsLike (told : τ → σ) (source : Draw α τ) (draw : Draw α σ) : Prop :=
  ∀ low high state,
    (source low high state).map (Prod.map id told) = draw low high (told state)

theorem recorded_drawsLike (draw : Draw α σ) : DrawsLike Prod.fst (recorded draw) draw := by
  intro low high state
  obtain ⟨current, drawn⟩ := state
  change ((draw low high current).map _).map _ = draw low high current
  cases draw low high current with
  | error fault => rfl
  | ok found => rfl

/-! ## Steps of balancing -/

section Steps

variable [Scalar α] {told : τ → σ} {source : Draw α τ} {draw : Draw α σ}

theorem DrawsLike.drawSlot (alike : DrawsLike told source draw) (slot : Slot α) (state : τ) :
    (drawSlot source slot state).map (Prod.map id told) =
      drawSlot draw slot (told state) := by
  unfold Timing.drawSlot
  by_cases choice : slot.low < slot.high
  · rw [if_pos choice, if_pos choice, ← alike slot.low slot.high state]
    cases source slot.low slot.high state with
    | error fault => rfl
    | ok found => rfl
  · rw [if_neg choice, if_neg choice]
    rfl

theorem DrawsLike.drawSlots
    (alike : DrawsLike told source draw) (slots : List (Slot α)) (state : τ) :
    (drawSlots source slots state).map (Prod.map id told) =
      drawSlots draw slots (told state) := by
  induction slots generalizing state with
  | nil => rfl
  | cons slot rest inductionHypothesis =>
      apply map_bind_eq (alike.drawSlot slot state)
      intro first
      apply map_bind_eq (inductionHypothesis first.2)
      intro others
      rfl

theorem DrawsLike.spread
    (alike : DrawsLike told source draw) (policy : Policy α) (extra : α) (slots : List (Slot α))
    (state : τ) :
    (spread source policy extra slots state).map (Prod.map id (Prod.map id told)) =
      spread draw policy extra slots (told state) := by
  apply map_bind_eq (alike.drawSlots slots state)
  intro drawn
  have corrects (target : α) (iterations : Nat) :
      (correct policy target iterations drawn.1).map id =
        correct policy target iterations drawn.1 :=
    congrFun Except.map_id _
  apply map_bind_eq (corrects _ _)
  intro corrected
  rfl

theorem DrawsLike.stretch
    (alike : DrawsLike told source draw) (policy : Policy α) (extra : α) (track : Track α)
    (state : τ) :
    (track.stretch source policy extra state).map (Prod.map id (Prod.map id told)) =
      track.stretch draw policy extra (told state) := by
  unfold Track.stretch
  by_cases idle : extra ≤ 0 ∨ track.elasticCount = 0
  · rw [if_pos idle, if_pos idle]
    rfl
  · rw [if_neg idle, if_neg idle]
    have spreading :
        (track.spread source policy extra state).map (Prod.map id (Prod.map id told)) =
          track.spread draw policy extra (told state) := by
      apply map_bind_eq (alike.spread policy extra track.slots state)
      intro found
      rfl
    apply map_bind_eq spreading
    intro found
    rfl

theorem DrawsLike.balanceTrack
    (alike : DrawsLike told source draw) (policy : Policy α) (mixDuration : α) (isReference : Bool)
    (track : Track α) (state : τ) :
    (balanceTrack source policy mixDuration isReference track state).map
        (Prod.map id (Prod.map id told)) =
      balanceTrack draw policy mixDuration isReference track (told state) := by
  unfold Timing.balanceTrack
  dsimp only
  by_cases filled : isReference = true
  · rw [if_pos filled, if_pos filled]
    rfl
  · rw [if_neg filled, if_neg filled]
    by_cases reached : mixDuration - track.minLength ≤ 0
    · rw [if_pos reached, if_pos reached]
      rfl
    · rw [if_neg reached, if_neg reached]
      apply map_bind_eq (alike.stretch policy _ track state)
      intro changed
      rfl

theorem DrawsLike.balanceTracks
    (alike : DrawsLike told source draw) (policy : Policy α) (mixDuration : α)
    (reference position : Nat) (tracks : List (Track α)) (state : τ) :
    (balanceTracks source policy mixDuration reference position tracks state).map
        (Prod.map id (Prod.map id told)) =
      balanceTracks draw policy mixDuration reference position tracks (told state) := by
  induction tracks generalizing position state with
  | nil => rfl
  | cons track rest inductionHypothesis =>
      apply map_bind_eq
        (alike.balanceTrack policy mixDuration (position == reference) track state)
      intro first
      apply map_bind_eq (inductionHypothesis (position + 1) first.2.2)
      intro others
      rfl

end Steps

/-! ## Balancing -/

theorem DrawsLike.balance
    [Scalar α] {told : τ → σ} {source : Draw α τ} {draw : Draw α σ}
    (alike : DrawsLike told source draw) (policy : Policy α) (recipe : Recipe α) (state : τ) :
    (balance source policy recipe state).map
        (fun balanced => balanced.withState (told balanced.state)) =
      balance draw policy recipe (told state) := by
  unfold Timing.balance
  cases recipe.check with
  | error error => rfl
  | ok passed =>
      dsimp only
      cases longest? (recipe.tracks.map fun track => track.shrunk.measure) with
      | none => rfl
      | some longest =>
          apply map_bind_eq (alike.balanceTracks policy longest.2 longest.1 0 _ state)
          intro found
          rfl

end Mixdown.Timing
