import Mixdown.Proofs.Datum.Reading
import Mixdown.Proofs.Text.Integer

/-!
# Fields read back

What is written into a field, or left out of it, is read back after collapsing; and data
that are written are readable.
-/

namespace Mixdown.Datum

/-! ## Fields -/

theorem reads_text (value : Option String) :
    ((value.map Datum.text).map collapse).elim (some none) (optional? text?) = some value := by
  cases value <;> rfl

theorem unsigned64?_integer (value : Int) :
    unsigned64? (.integer value) = Text.unsigned64? value :=
  rfl

theorem optional?_integer {β : Type} (read : Datum → Option β) (value : Int) :
    optional? read (.integer value) = (read (.integer value)).map some :=
  rfl

theorem reads_unsigned (value : Option UInt64) :
    ((value.map fun word => Datum.ofNat word.toNat).map collapse).elim (some none)
      (optional? unsigned64?) = some value := by
  cases value with
  | none => rfl
  | some word =>
      rw [Option.map_some, Option.map_some, Option.elim_some, ofNat]
      unfold collapse
      rw [optional?_integer, unsigned64?_integer, Text.unsigned64?_toNat, Option.map_some]

theorem reads_float {value : Option Float} (finite : ∀ number ∈ value, number.isFinite = true) :
    ((value.map Datum.ofFloat).map collapse).elim (some none) (optional? float?) =
      some value := by
  cases value with
  | none => rfl
  | some number =>
      rw [Option.map_some, ofFloat, if_pos (finite number rfl)]
      rfl

/-! ## Readable fields -/

theorem readable_map_text (value : Option String) :
    ∀ datum ∈ value.map Datum.text, datum.readable = true := by
  cases value with
  | none => nofun
  | some text =>
      rintro _ ⟨⟩
      rfl

theorem readable_map_ofFloat (value : Option Float) :
    ∀ datum ∈ value.map Datum.ofFloat, datum.readable = true := by
  cases value with
  | none => nofun
  | some number =>
      rintro _ ⟨⟩
      rw [ofFloat]
      split <;> rfl

theorem readable_map_ofNat (value : Option UInt64) :
    ∀ datum ∈ value.map fun word => Datum.ofNat word.toNat, datum.readable = true := by
  cases value with
  | none => nofun
  | some word =>
      rintro _ ⟨⟩
      rfl

theorem readable_list {items : List Datum} (each : ∀ item ∈ items, item.readable = true) :
    (Datum.list items).readable = true := by
  rw [readable, itemsReadable_eq, List.all_eq_true]
  exact each

theorem readable_listIfAny {items : List Datum} (each : ∀ item ∈ items, item.readable = true) :
    ∀ datum ∈ listIfAny items, datum.readable = true := by
  rw [listIfAny]
  split
  next => nofun
  next =>
    rintro _ ⟨⟩
    exact readable_list each

theorem readable_texts (texts : List String) :
    ∀ datum ∈ listIfAny (texts.map Datum.text), datum.readable = true :=
  readable_listIfAny (List.forall_mem_map.mpr fun _ _ => rfl)

/-! ## Lists -/

section Lists

variable {β : Type} {write : β → Datum} {read : Datum → Option β} {values : List β}

theorem mapM_map_collapse
    (each : ∀ value ∈ values, (write value).readable = true ∧
      read (write value).collapse = some value) :
    ((values.map write).map collapse).mapM read = some values := by
  rw [List.map_map]
  exact mapM_map fun value member => (each value member).2

theorem reads_list
    (each : ∀ value ∈ values, (write value).readable = true ∧
      read (write value).collapse = some value) :
    ((some (Datum.list (values.map write))).map collapse).elim (some []) (oneOrMany? read) =
      some values := by
  have readableList : (Datum.list (values.map write)).readable = true :=
    readable_list (List.forall_mem_map.mpr fun value member => (each value member).1)
  have readableCollapsed := readable_collapse _ readableList
  rw [Option.map_some, Option.elim_some]
  rw [collapse, collapseItems_eq] at readableCollapsed ⊢
  rw [oneOrMany?, if_pos readableCollapsed, list?, mapM_map_collapse each]
  · rfl
  · rintro ⟨⟩

theorem reads_listIfAny
    (each : ∀ value ∈ values, (write value).readable = true ∧
      read (write value).collapse = some value) :
    ((listIfAny (values.map write)).map collapse).elim (some []) (oneOrMany? read) =
      some values := by
  cases values with
  | nil => rfl
  | cons value rest => exact reads_list each

theorem reads_texts (texts : List String) :
    ((listIfAny (texts.map Datum.text)).map collapse).elim (some []) (oneOrMany? text?) =
      some texts :=
  reads_listIfAny fun _ _ => ⟨rfl, rfl⟩

end Lists

end Mixdown.Datum
