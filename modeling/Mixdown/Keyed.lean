/-!
# Values under text keys

`Keyed β` keeps values under text keys in strictly increasing key order, so two
collections with the same entries are equal.  Keys are ordered by code point.
-/

namespace Mixdown

/-- Adds an entry to a list in key order; an entry with the same key is replaced. -/
def insertKey {β : Type} (key : String) (value : β) :
    List (String × β) → List (String × β)
  | [] => [(key, value)]
  | (other, kept) :: rest =>
      if key < other then
        (key, value) :: (other, kept) :: rest
      else if key = other then
        (key, value) :: rest
      else
        (other, kept) :: insertKey key value rest

/-- Keys strictly increase along the list. -/
def KeysIncrease {β : Type} (entries : List (String × β)) : Prop :=
  entries.Pairwise fun earlier later => earlier.1 < later.1

theorem mem_insertKey {β : Type} {key : String} {value : β} {entry : String × β}
    {entries : List (String × β)} (member : entry ∈ insertKey key value entries) :
    entry = (key, value) ∨ entry ∈ entries := by
  induction entries with
  | nil => simpa [insertKey] using member
  | cons head rest hypothesis =>
      obtain ⟨other, kept⟩ := head
      rw [insertKey] at member
      split at member
      · simpa using member
      · split at member
        · rcases List.mem_cons.mp member with equal | later
          · exact Or.inl equal
          · exact Or.inr (List.mem_cons_of_mem _ later)
        · rcases List.mem_cons.mp member with equal | later
          · exact Or.inr (by simp [equal])
          · exact (hypothesis later).imp_right (List.mem_cons_of_mem _)

theorem keysIncrease_insertKey {β : Type} (key : String) (value : β)
    {entries : List (String × β)} (increase : KeysIncrease entries) :
    KeysIncrease (insertKey key value entries) := by
  induction entries with
  | nil => simp [insertKey, KeysIncrease]
  | cons head rest hypothesis =>
      obtain ⟨other, kept⟩ := head
      have parts := List.pairwise_cons.mp increase
      rw [insertKey]
      split
      next below =>
        refine List.pairwise_cons.mpr ⟨fun entry member => ?_, increase⟩
        rcases List.mem_cons.mp member with equal | later
        · simpa [equal] using below
        · exact String.lt_trans below (parts.1 entry later)
      next notBelow =>
        split
        next equal =>
          subst equal
          exact List.pairwise_cons.mpr parts
        next different =>
          refine List.pairwise_cons.mpr ⟨fun entry member => ?_, hypothesis parts.2⟩
          rcases mem_insertKey member with equal | later
          · have above : other ≤ key := String.not_lt.mp notBelow
            rw [equal]
            exact Decidable.byContradiction fun notAbove =>
              different (String.le_antisymm (String.not_lt.mp notAbove) above)
          · exact parts.1 entry later

/-- Values under text keys, in key order. -/
structure Keyed (β : Type) where
  entries : List (String × β)
  increase : KeysIncrease entries
deriving DecidableEq

namespace Keyed

variable {β γ : Type}

instance [Repr β] : Repr (Keyed β) where
  reprPrec keyed precedence := reprPrec keyed.entries precedence

def empty : Keyed β :=
  ⟨[], List.Pairwise.nil⟩

instance : Inhabited (Keyed β) := ⟨empty⟩

def insert (keyed : Keyed β) (key : String) (value : β) : Keyed β :=
  ⟨insertKey key value keyed.entries, keysIncrease_insertKey key value keyed.increase⟩

/-- Later entries of the list win over earlier ones with the same key. -/
def insertAll (keyed : Keyed β) (entries : List (String × β)) : Keyed β :=
  entries.foldl (fun sofar entry => sofar.insert entry.1 entry.2) keyed

def ofList (entries : List (String × β)) : Keyed β :=
  empty.insertAll entries

def get? (keyed : Keyed β) (key : String) : Option β :=
  keyed.entries.lookup key

def isEmpty (keyed : Keyed β) : Bool :=
  keyed.entries.isEmpty

end Keyed

end Mixdown
