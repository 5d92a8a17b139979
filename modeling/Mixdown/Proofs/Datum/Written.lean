import Mixdown.Proofs.Datum.Reading
import Mixdown.Proofs.Keyed
import Mixdown.Proofs.Text.Integer

/-!
# Values read back

What is read from the data that a value was written as.
-/

namespace Mixdown.Datum

variable {β : Type} {write : β → Datum} {read : Datum → Option β}

theorem text?_text (text : String) : text? (.text text) = some text :=
  rfl

theorem bool?_bool (value : Bool) : bool? (.bool value) = some value :=
  rfl

theorem unsigned64?_ofNat_toNat (word : UInt64) :
    unsigned64? (.ofNat word.toNat) = some word := by
  rw [ofNat, unsigned64?, integer?, Option.bind_some]
  exact Text.unsigned64?_toNat word

theorem float?_ofFloat {number : Float} (finite : number.isFinite = true) :
    float? (.ofFloat number) = some number := by
  rw [ofFloat, if_pos finite]
  rfl

theorem elim_optional?_text (value : Option String) :
    (value.map Datum.text).elim (some none) (optional? text?) = some value := by
  cases value <;> rfl

/-! ## Collections -/

theorem list?_map {values : List β} (each : ∀ value ∈ values, read (write value) = some value) :
    list? read (.list (values.map write)) = some values :=
  mapM_map each

theorem list?_texts (texts : List String) : list? text? (.list (texts.map .text)) = some texts :=
  list?_map fun _ _ => rfl

theorem keyed?_ofKeyed
    {keyed : Keyed β} (each : ∀ entry ∈ keyed.entries, read (write entry.2) = some entry.2) :
    keyed? read (ofKeyed write keyed) = some keyed := by
  let writeEntry (entry : String × β) : String × Datum := (entry.1, write entry.2)
  let readEntry (field : String × Datum) : Option (String × β) :=
    (read field.2).map fun value => (field.1, value)
  have fields : (keyed.entries.map writeEntry).mapM readEntry = some keyed.entries := by
    apply mapM_map
    intro entry member
    change (read (write entry.2)).map _ = _
    rw [each entry member]
    rfl
  change (keyed.entries.map writeEntry).mapM readEntry >>= _ = _
  rw [fields]
  exact congrArg some keyed.ofList_entries

end Mixdown.Datum
