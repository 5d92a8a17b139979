import Mathlib.Data.List.Nodup
import Mixdown.Datum.Reading
import Mixdown.Proofs.Outcome

/-!
# Reading what was written

Readers look fields up by name, so the order in which a record holds its fields does not
matter to them; the fields of a record that was written without repeating a key can be
read one after the other.
-/

namespace Mixdown.Datum

variable {β γ : Type}

/-! ## Records with optional fields -/

/-- The fields of a record in which some keys have no value. -/
def fieldsOf (slots : List (String × Option Datum)) : List (String × Datum) :=
  slots.filterMap fun slot => slot.2.map fun datum => (slot.1, datum)

/-- A list, when there is anything in it. -/
def listIfAny (items : List Datum) : Option Datum :=
  if items.isEmpty then none else some (.list items)

theorem fieldsOf_cons_none (key : String) (rest : List (String × Option Datum)) :
    fieldsOf ((key, none) :: rest) = fieldsOf rest :=
  rfl

theorem fieldsOf_cons_some (key : String) (datum : Datum) (rest : List (String × Option Datum)) :
    fieldsOf ((key, some datum) :: rest) = (key, datum) :: fieldsOf rest :=
  rfl

theorem fieldsOf_append (slots others : List (String × Option Datum)) :
    fieldsOf (slots ++ others) = fieldsOf slots ++ fieldsOf others :=
  List.filterMap_append

theorem fieldIfSome_eq (key : String) (value : Option Datum) :
    fieldIfSome key value = fieldsOf [(key, value)] := by
  cases value <;> rfl

theorem fieldIfAny_eq (key : String) (items : List Datum) :
    fieldIfAny key items = fieldsOf [(key, listIfAny items)] := by
  cases items <;> rfl

theorem field_eq (key : String) (datum : Datum) :
    [(key, datum)] = fieldsOf [(key, some datum)] :=
  rfl

theorem mem_fieldsOf {slots : List (String × Option Datum)} {field : String × Datum} :
    field ∈ fieldsOf slots ↔ (field.1, some field.2) ∈ slots := by
  rw [fieldsOf, List.mem_filterMap]
  constructor
  · rintro ⟨⟨key, value⟩, member, equality⟩
    obtain ⟨datum, rfl, rfl⟩ := Option.map_eq_some_iff.mp equality
    exact member
  · intro member
    exact ⟨_, member, rfl⟩

theorem map_fst_fieldsOf_sublist (slots : List (String × Option Datum)) :
    ((fieldsOf slots).map Prod.fst).Sublist (slots.map Prod.fst) := by
  induction slots with
  | nil => exact .slnil
  | cons slot rest inductionHypothesis =>
      obtain ⟨key, value⟩ := slot
      cases value with
      | none => exact inductionHypothesis.cons key
      | some datum => exact inductionHypothesis.cons_cons key

/-! ## Fields in any order -/

/-- The same outcome, with the same fields left over in some order. -/
inductive SameReading : Option (β × Fields) → Option (β × Fields) → Prop
  | failed : SameReading none none
  | read (value : β) {left other : List (String × Datum)} (same : left.Perm other) :
      SameReading (some (value, .named left)) (some (value, .named other))

/-- A reader that reads the same from the same fields in any order. -/
def Orderless (reader : FieldReader β) : Prop :=
  ∀ ⦃fields others⦄, fields.Perm others →
    SameReading (reader.run (.named fields)) (reader.run (.named others))

theorem orderless_pure (value : β) : Orderless (pure value) :=
  fun _ _ same => .read value same

theorem Orderless.bind
    {reader : FieldReader β} {next : β → FieldReader γ} (first : Orderless reader)
    (rest : ∀ value, Orderless (next value)) : Orderless (reader >>= next) := by
  intro fields others same
  have firstSame := first same
  rw [StateT.run_bind, StateT.run_bind]
  generalize reader.run (.named fields) = outcome at firstSame
  generalize reader.run (.named others) = otherOutcome at firstSame
  cases firstSame with
  | failed => exact .failed
  | read value stillSame => exact rest value stillSame

/-- The fields that go by one of the names. -/
def own (key : String) (aliases : List String) (field : String × Datum) : Bool :=
  field.1 = key || aliases.contains field.1

theorem run_nextField (key : String) (aliases : List String) (fields : List (String × Datum)) :
    (nextField key aliases).run (.named fields) =
      match fields.filter (own key aliases) with
      | [] => some (none, .named (fields.filter fun field => !own key aliases field))
      | [(_, datum)] =>
          some (some datum, .named (fields.filter fun field => !own key aliases field))
      | _ => none := by
  simp only [nextField, StateT.run, List.partition_eq_filter_filter]
  rfl

theorem orderless_nextField (key : String) (aliases : List String) :
    Orderless (nextField key aliases) := by
  intro fields others same
  have ownSame := same.filter (own key aliases)
  have restSame := same.filter fun field => !own key aliases field
  rw [run_nextField, run_nextField]
  generalize fields.filter (own key aliases) = found at ownSame
  generalize others.filter (own key aliases) = otherFound at ownSame
  match found, otherFound with
  | [], [] => exact .read none restSame
  | [field], [other] =>
      cases List.singleton_perm_singleton.mp ownSame
      exact .read (some field.2) restSame
  | _ :: _ :: _, _ :: _ :: _ => exact .failed
  | [], _ :: _ => cases ownSame.length_eq
  | _ :: _, [] => cases ownSame.length_eq
  | [_], _ :: _ :: _ => cases ownSame.length_eq
  | _ :: _ :: _, [_] => cases ownSame.length_eq

theorem orderless_lift (outcome : Option β) : Orderless (liftM outcome : FieldReader β) := by
  intro fields others same
  cases outcome with
  | none => exact .failed
  | some value => exact .read value same

theorem orderless_defaulted
    (key : String) (aliases : List String) (missing : β) (read : Datum → Option β) :
    Orderless (defaulted key aliases missing read) := by
  refine (orderless_nextField key aliases).bind fun found => ?_
  cases found with
  | none => exact orderless_pure missing
  | some datum => exact orderless_lift (read datum)

/-- A record in JSON reads the same whatever the order of its fields. -/
theorem record?_perm
    {reader : FieldReader β} {fields others : List (String × Datum)} (orderless : Orderless reader)
    (same : fields.Perm others) :
    record? reader (.record fields) = record? reader (.record others) := by
  have sameReading := orderless same
  rw [record?, recordIn?, recordIn?, readFields?, readFields?]
  generalize reader.run (.named fields) = outcome at sameReading
  generalize reader.run (.named others) = otherOutcome at sameReading
  cases sameReading with
  | failed => rfl
  | read value => rfl

/-! ## Fields one after the other -/

section Slots

variable {key : String} {aliases : List String} {value : Option Datum}
  {rest : List (String × Option Datum)}

theorem run_nextField_fieldsOf
    (others : ∀ slot ∈ rest, slot.1 ≠ key ∧ slot.1 ∉ aliases) :
    (nextField key aliases).run (.named (fieldsOf ((key, value) :: rest))) =
      some (value, .named (fieldsOf rest)) := by
  have notOwn : ∀ field ∈ fieldsOf rest, own key aliases field = false := by
    intro field member
    obtain ⟨different, notAlias⟩ := others _ (mem_fieldsOf.mp member)
    simp [own, different, notAlias]
  have noneFound : (fieldsOf rest).filter (own key aliases) = [] :=
    List.filter_eq_nil_iff.mpr fun field member => by simp [notOwn field member]
  have allKept :
      (fieldsOf rest).filter (fun field => !own key aliases field) = fieldsOf rest :=
    List.filter_eq_self.mpr fun field member => by simp [notOwn field member]
  rw [run_nextField]
  cases value with
  | none => rw [fieldsOf_cons_none, noneFound, allKept]
  | some datum =>
      have isOwn : own key aliases (key, datum) = true := by simp [own]
      have notKept : ¬ (!own key aliases (key, datum)) = true := by simp [isOwn]
      rw [fieldsOf_cons_some, List.filter_cons_of_pos isOwn, noneFound,
        List.filter_cons_of_neg (p := fun field => !own key aliases field) notKept, allKept]

theorem run_defaulted_fieldsOf
    {read : Datum → Option β} {missing : β}
    (others : ∀ slot ∈ rest, slot.1 ≠ key ∧ slot.1 ∉ aliases) :
    (defaulted key aliases missing read).run (.named (fieldsOf ((key, value) :: rest))) =
      (value.elim (some missing) read).map fun found => (found, .named (fieldsOf rest)) := by
  rw [defaulted, StateT.run_bind, run_nextField_fieldsOf others]
  cases value with
  | none => rfl
  | some datum =>
      change ((liftM (read datum) : FieldReader β)).run _ = (read datum).map _
      cases read datum <;> rfl

/-- A field that was written or left out is read back, and reading goes on after it. -/
theorem run_defaulted_bind
    {read : Datum → Option β} {missing found : β} {next : β → FieldReader γ}
    (others : ∀ slot ∈ rest, slot.1 ≠ key ∧ slot.1 ∉ aliases)
    (reads : value.elim (some missing) read = some found) :
    (defaulted key aliases missing read >>= next).run (.named (fieldsOf ((key, value) :: rest))) =
      (next found).run (.named (fieldsOf rest)) := by
  rw [StateT.run_bind, run_defaulted_fieldsOf others, reads]
  rfl

/-- A field that must be given is read back, and reading goes on after it. -/
theorem run_required_bind
    {datum : Datum} {read : Datum → Option β} {found : β} {next : β → FieldReader γ}
    (others : ∀ slot ∈ rest, slot.1 ≠ key) (reads : read datum = some found) :
    (required key read >>= next).run (.named (fieldsOf ((key, some datum) :: rest))) =
      (next found).run (.named (fieldsOf rest)) := by
  have noAlias : ∀ slot ∈ rest, slot.1 ≠ key ∧ slot.1 ∉ ([] : List String) :=
    fun slot member => ⟨others slot member, List.not_mem_nil⟩
  have own :
      (required key read).run (.named (fieldsOf ((key, some datum) :: rest))) =
        some (found, .named (fieldsOf rest)) := by
    rw [required, StateT.run_bind, run_nextField_fieldsOf noAlias]
    change ((liftM (read datum) : FieldReader β)).run _ = _
    rw [reads]
    rfl
  rw [StateT.run_bind, own]
  rfl

end Slots

/-! ## Plain values -/

theorem itemsReadable_eq (items : List Datum) : itemsReadable items = items.all readable := by
  induction items with
  | nil => rfl
  | cons item rest inductionHypothesis =>
      rw [itemsReadable, inductionHypothesis, List.all_cons]

theorem fieldsReadable_eq (fields : List (String × Datum)) :
    fieldsReadable fields = fields.all fun field => field.2.readable := by
  induction fields with
  | nil => rfl
  | cons field rest inductionHypothesis =>
      rw [fieldsReadable, inductionHypothesis, List.all_cons]

theorem collapseItems_eq (items : List Datum) : collapseItems items = items.map collapse := by
  induction items with
  | nil => rfl
  | cons item rest inductionHypothesis =>
      rw [collapseItems, inductionHypothesis, List.map_cons]

theorem insertKey_perm
    {key : String} {entries : List (String × β)} (value : β)
    (fresh : key ∉ entries.map Prod.fst) :
    (insertKey key value entries).Perm ((key, value) :: entries) := by
  induction entries with
  | nil => exact .refl _
  | cons entry rest inductionHypothesis =>
      obtain ⟨other, kept⟩ := entry
      rw [List.map_cons] at fresh
      obtain ⟨different, freshRest⟩ := List.ne_and_not_mem_of_not_mem_cons fresh
      rw [insertKey]
      split
      next => exact .refl _
      next =>
        exact ((inductionHypothesis freshRest).cons _).trans (.swap _ _ _)

/-- Where no key repeats, collapsing keeps every field. -/
theorem collapseFields_perm
    {collected fields : List (String × Datum)}
    (distinct : ((collected ++ fields).map Prod.fst).Nodup) :
    (collapseFields collected fields).Perm
      (collected ++ fields.map fun field => (field.1, field.2.collapse)) := by
  induction fields generalizing collected with
  | nil =>
      rw [collapseFields, List.map_nil, List.append_nil]
  | cons field rest inductionHypothesis =>
      obtain ⟨key, value⟩ := field
      rw [List.map_append, List.map_cons, List.nodup_middle] at distinct
      obtain ⟨fresh, distinctOthers⟩ := List.nodup_cons.mp distinct
      have freshHere : key ∉ collected.map Prod.fst :=
        fun member => fresh (List.mem_append_left _ member)
      have inserted := insertKey_perm value.collapse freshHere
      have distinctAfter :
          ((insertKey key value.collapse collected ++ rest).map Prod.fst).Nodup := by
        refine ((inserted.append_right rest).map Prod.fst).nodup_iff.mpr ?_
        rw [List.cons_append, List.map_cons, List.map_append]
        exact distinct
      refine (inductionHypothesis distinctAfter).trans ((inserted.append_right _).trans ?_)
      rw [List.map_cons]
      exact List.perm_middle.symm

theorem fieldsReadable_insertKey
    {key : String} {value : Datum} {entries : List (String × Datum)}
    (readableValue : value.readable = true) (readableEntries : fieldsReadable entries = true) :
    fieldsReadable (insertKey key value entries) = true := by
  rw [fieldsReadable_eq, List.all_eq_true] at readableEntries ⊢
  intro field member
  rcases mem_insertKey member with rfl | kept
  · exact readableValue
  · exact readableEntries field kept

mutual

theorem readable_collapse : ∀ datum : Datum, datum.readable = true → datum.collapse.readable = true
  | .list items, readableList => itemsReadable_collapse items readableList
  | .record fields, readableRecord => fieldsReadable_collapse [] fields rfl readableRecord
  | .null, _ => rfl
  | .bool _, _ => rfl
  | .integer _, _ => rfl
  | .number _, _ => rfl
  | .text _, _ => rfl

theorem itemsReadable_collapse :
    ∀ items : List Datum, itemsReadable items = true → itemsReadable (collapseItems items) = true
  | [], _ => rfl
  | item :: rest, readableItems => by
      rw [itemsReadable, Bool.and_eq_true] at readableItems
      rw [collapseItems, itemsReadable, readable_collapse item readableItems.1,
        itemsReadable_collapse rest readableItems.2]
      rfl

theorem fieldsReadable_collapse :
    ∀ collected fields : List (String × Datum), fieldsReadable collected = true →
      fieldsReadable fields = true → fieldsReadable (collapseFields collected fields) = true
  | _, [], readableCollected, _ => readableCollected
  | collected, (key, value) :: rest, readableCollected, readableFields => by
      rw [fieldsReadable, Bool.and_eq_true] at readableFields
      exact fieldsReadable_collapse _ rest
        (fieldsReadable_insertKey (readable_collapse value readableFields.1) readableCollected)
        readableFields.2

end

/-! ## Records that were written -/

theorem readable_fieldsOf
    {slots : List (String × Option Datum)}
    (readableSlots : ∀ slot ∈ slots, ∀ datum ∈ slot.2, datum.readable = true) :
    (record (fieldsOf slots)).readable = true := by
  rw [readable, fieldsReadable_eq, List.all_eq_true]
  intro field member
  exact readableSlots _ (mem_fieldsOf.mp member) field.2 rfl

theorem map_fieldsOf (f : Datum → Datum) (slots : List (String × Option Datum)) :
    (fieldsOf slots).map (fun field => (field.1, f field.2)) =
      fieldsOf (slots.map fun slot => (slot.1, slot.2.map f)) := by
  induction slots with
  | nil => rfl
  | cons slot rest inductionHypothesis =>
      obtain ⟨key, value⟩ := slot
      cases value with
      | none => exact inductionHypothesis
      | some datum => exact congrArg ((key, f datum) :: ·) inductionHypothesis

/-- A record written without repeating a key reads the same after collapsing, which goes
through to its fields. -/
theorem record?_collapse_fieldsOf
    {reader : FieldReader β} {slots : List (String × Option Datum)}
    (orderless : Orderless reader) (distinct : (slots.map Prod.fst).Nodup) :
    record? reader (record (fieldsOf slots)).collapse =
      record? reader
        (.record (fieldsOf (slots.map fun slot => (slot.1, slot.2.map collapse)))) := by
  have distinctKeys : (([] ++ fieldsOf slots).map Prod.fst).Nodup :=
    (map_fst_fieldsOf_sublist slots).nodup distinct
  rw [collapse, ← map_fieldsOf]
  exact record?_perm orderless (collapseFields_perm distinctKeys)

end Mixdown.Datum
