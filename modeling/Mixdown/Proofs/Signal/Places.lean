import Mixdown.Proofs.Signal.Freshness
import Mixdown.Proofs.Text.Marks

/-!
# Labels of silence

The source of a silent clip is called by the place of the clip.  No other place, no file,
no track and no step of a chain is ever given that label.
-/

namespace Mixdown.LabelPool

/-! ## Places -/

theorem not_mem_toList_toString {c : Char} (notDigit : c.isDigit = false) (value : Nat) :
    c ∉ (toString value).toList := by
  intro member
  rw [Nat.toString_eq_repr, Nat.toList_repr] at member
  rw [Text.isDigit_of_mem_toDigits member] at notDigit
  cases notDigit

theorem toList_place (track : UInt64) (position : Nat) :
    (place track position).toList =
      't' :: ((toString track.toNat).toList ++ 'c' :: (toString position).toList) := by
  change ("t" ++ toString track.toNat ++ "c" ++ toString position).toList = _
  simp

theorem place_inj {track other : UInt64} {position otherPosition : Nat}
    (equal : place track position = place other otherPosition) :
    track = other ∧ position = otherPosition := by
  have lists := congrArg String.toList equal
  rw [toList_place, toList_place] at lists
  have noMark (value : Nat) : 'c' ∉ (toString value).toList :=
    not_mem_toList_toString (by decide) value
  obtain ⟨tracks, positions⟩ :=
    append_mark_inj (noMark _) (noMark _) (List.cons.inj lists).2
  exact ⟨UInt64.toNat_inj.mp (Text.toString_injective (String.toList_inj.mp tracks)),
    Text.toString_injective (String.toList_inj.mp positions)⟩

theorem underscore_not_mem_place (track : UInt64) (position : Nat) :
    '_' ∉ (place track position).toList := by
  have noMark (value : Nat) : '_' ∉ (toString value).toList :=
    not_mem_toList_toString (by decide) value
  rw [toList_place]
  simp only [List.mem_cons, List.mem_append, not_or]
  exact ⟨by decide, noMark _, by decide, noMark _⟩

/-! ## Labels apart from those of silence -/

def silenceLabel (track : UInt64) (position : Nat) : String :=
  "silence_" ++ place track position

theorem silenceLabel_inj {track other : UInt64} {position otherPosition : Nat}
    (equal : silenceLabel track position = silenceLabel other otherPosition) :
    track = other ∧ position = otherPosition :=
  place_inj ((String.append_right_inj "silence_").mp equal)

def IsApart (label : String) : Prop :=
  ∀ track position, label ≠ silenceLabel track position

/-- A label that is told apart by its first letter. -/
def StartsApart (label : String) : Prop :=
  ∃ first rest, label.toList = first :: rest ∧ first ≠ 's'

theorem StartsApart.append {label : String} (starts : StartsApart label) (more : String) :
    StartsApart (label ++ more) := by
  obtain ⟨first, rest, shape, apart⟩ := starts
  exact ⟨first, rest ++ more.toList, by rw [String.toList_append, shape]; rfl, apart⟩

theorem StartsApart.isApart {label : String} (starts : StartsApart label) : IsApart label := by
  rintro track position rfl
  obtain ⟨first, rest, shape, apart⟩ := starts
  rw [silenceLabel, String.toList_append] at shape
  exact apart (List.cons.inj shape).1.symm

/-- What the chains of clips and tracks are named after. -/
inductive IsBase : String → Prop
  | silence (track : UInt64) (position : Nat) : IsBase (silenceLabel track position)
  | other {label : String} (starts : StartsApart label) : IsBase label

/-- An underscore after a place tells a label from that of the place. -/
theorem IsBase.isApart_append {base : String} (isBase : IsBase base) (ending : String) :
    IsApart (base ++ "_" ++ ending) := by
  cases isBase with
  | other starts => exact ((starts.append "_").append ending).isApart
  | silence track position =>
      intro other otherPosition equal
      rw [silenceLabel, silenceLabel, String.append_assoc, String.append_assoc,
        String.append_right_inj] at equal
      apply underscore_not_mem_place other otherPosition
      rw [← equal]
      simp

/-! ## Requests -/

variable {pool : LabelPool}

theorem isApart_reserveDerived {base : String} (isBase : IsBase base) (suffix : String) :
    IsApart (pool.reserveDerived base suffix).1 := by
  change IsApart (pool.pick (base ++ "_" ++ suffix))
  by_cases taken : base ++ "_" ++ suffix ∈ pool.reserved
  · obtain ⟨number, found, _⟩ := pick_eq_numbered taken
    have regrouped : base ++ "_" ++ suffix ++ "_" ++ toString number =
        base ++ "_" ++ (suffix ++ "_" ++ toString number) := by
      simp only [String.append_assoc]
    rw [found, numbered, regrouped]
    exact isBase.isApart_append _
  · rw [pick_eq_self taken]
    exact isBase.isApart_append suffix

theorem startsApart_pick {requested : String} (starts : StartsApart requested) :
    StartsApart (pool.pick requested) := by
  by_cases taken : requested ∈ pool.reserved
  · obtain ⟨number, found, _⟩ := pick_eq_numbered taken
    rw [found, numbered]
    exact (starts.append "_").append _
  · rw [pick_eq_self taken]
    exact starts

theorem startsApart_reserveFile (filename : String) (track : UInt64) (position : Nat) :
    StartsApart (pool.reserveFile filename track position).1 := by
  have opening : StartsApart "in_" := ⟨'i', _, rfl, by decide⟩
  apply startsApart_pick
  split
  · exact ((opening.append _).append _).append _
  · exact opening.append _

theorem startsApart_trackBase (track : UInt64) : StartsApart (trackBase track) := by
  have opening : StartsApart "track" := ⟨'t', _, rfl, by decide⟩
  exact opening.append _

theorem reserveSilence_eq
    {track : UInt64} {position : Nat} (free : silenceLabel track position ∉ pool.reserved) :
    pool.reserveSilence track position =
      (silenceLabel track position, ⟨silenceLabel track position :: pool.reserved⟩) := by
  have found : pool.pick (silenceLabel track position) = silenceLabel track position :=
    pick_eq_self free
  rw [reserveSilence, ← silenceLabel]
  unfold reserve
  rw [found]

end Mixdown.LabelPool
