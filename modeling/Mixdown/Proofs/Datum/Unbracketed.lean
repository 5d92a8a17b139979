import Mixdown.Proofs.Datum.Reading

/-!
# Single values without brackets

Some fields hold lists that may be written as a single value when they have one item.
Documents that differ in such brackets alone, at any depth, are read alike: a reading of
both fails, or gives values that are as much alike as what is read from their fields.
-/

namespace Mixdown.Datum

variable {β β' γ γ' : Type}

/-! ## Readings that are alike -/

section Outcomes

variable {same : β → β' → Prop} {sameNext : γ → γ' → Prop}
  {outcome : Option β} {other : Option β'}

theorem rel_eq {outcome other : Option β} (equal : outcome = other) :
    Option.Rel Eq outcome other := by
  subst equal
  cases outcome with
  | none => exact .none
  | some value => exact .some rfl

theorem rel_bind {next : β → Option γ} {otherNext : β' → Option γ'}
    (alike : Option.Rel same outcome other)
    (rest : ∀ value otherValue, same value otherValue →
      Option.Rel sameNext (next value) (otherNext otherValue)) :
    Option.Rel sameNext (outcome >>= next) (other >>= otherNext) := by
  cases alike with
  | none => exact .none
  | some alike => exact rest _ _ alike

theorem rel_map {change : β → γ} {otherChange : β' → γ'} (alike : Option.Rel same outcome other)
    (kept : ∀ value otherValue, same value otherValue →
      sameNext (change value) (otherChange otherValue)) :
    Option.Rel sameNext (outcome.map change) (other.map otherChange) := by
  cases alike with
  | none => exact .none
  | some alike => exact .some (kept _ _ alike)

theorem rel_orElse {second : Option β} {otherSecond : Option β'}
    (alike : Option.Rel same outcome other) (secondAlike : Option.Rel same second otherSecond) :
    Option.Rel same (outcome <|> second) (other <|> otherSecond) := by
  cases alike with
  | none => exact secondAlike
  | some alike => exact .some alike

theorem rel_mapM
    {read : γ → Option β} {otherRead : γ' → Option β'} {items : List γ} {others : List γ'}
    (alike : List.Forall₂ (fun item other => Option.Rel same (read item) (otherRead other))
      items others) :
    Option.Rel (List.Forall₂ same) (items.mapM read) (others.mapM otherRead) := by
  induction alike with
  | nil => exact .some .nil
  | cons first _ inductionHypothesis =>
      rw [List.mapM_cons, List.mapM_cons]
      refine rel_bind first fun _ _ firstAlike => ?_
      exact rel_bind inductionHypothesis fun _ _ restAlike => .some (.cons firstAlike restAlike)

end Outcomes

/-! ## Documents that differ in brackets -/

/-- The names of fields that hold lists of records. -/
def recordLists : List String := ["tracks", "track", "clips", "clip"]

/-- The names of fields that hold lists of texts. -/
def textLists : List String := ["effects", "effect", "classification", "classifications"]

/-- Whether a field of some name may hold a value in place of the list of just that value. -/
def opens (key : String) : Datum → Bool
  | .record _ => recordLists.contains key
  | .text _ => textLists.contains key
  | _ => false

theorem of_opens {key : String} {single : Datum} (isOpened : opens key single = true) :
    key ∈ recordLists ∧ (∃ fields, single = .record fields) ∨
      key ∈ textLists ∧ ∃ text, single = .text text := by
  cases single with
  | record fields => exact Or.inl ⟨List.contains_iff_mem.mp isOpened, fields, rfl⟩
  | text text => exact Or.inr ⟨List.contains_iff_mem.mp isOpened, text, rfl⟩
  | _ => cases isOpened

mutual

/-- The second document is the first one without the brackets around the single values
of some fields, wherever these are. -/
inductive Unbracketed : Datum → Datum → Prop
  | same (datum : Datum) : Unbracketed datum datum
  | list {items others : List Datum} (inside : UnbracketedItems items others) :
      Unbracketed (.list items) (.list others)
  | record {fields others : List (String × Datum)} (inside : UnbracketedFields fields others) :
      Unbracketed (.record fields) (.record others)

/-- Item by item. -/
inductive UnbracketedItems : List Datum → List Datum → Prop
  | nil : UnbracketedItems [] []
  | cons {item other : Datum} {rest others : List Datum}
      (first : Unbracketed item other) (later : UnbracketedItems rest others) :
      UnbracketedItems (item :: rest) (other :: others)

/-- Field by field. -/
inductive UnbracketedFields : List (String × Datum) → List (String × Datum) → Prop
  | nil : UnbracketedFields [] []
  | cons {key : String} {value other : Datum} {rest others : List (String × Datum)}
      (first : UnbracketedField key value other) (later : UnbracketedFields rest others) :
      UnbracketedFields ((key, value) :: rest) ((key, other) :: others)

/-- What a field of some name holds. -/
inductive UnbracketedField : String → Datum → Datum → Prop
  | kept {key : String} {value other : Datum} (inside : Unbracketed value other) :
      UnbracketedField key value other
  | opened {key : String} {value other : Datum} (single : opens key value = true)
      (inside : Unbracketed value other) : UnbracketedField key (.list [value]) other

end

theorem UnbracketedItems.refl : ∀ items : List Datum, UnbracketedItems items items
  | [] => .nil
  | item :: rest => .cons (.same item) (refl rest)

theorem UnbracketedFields.refl : ∀ fields : List (String × Datum), UnbracketedFields fields fields
  | [] => .nil
  | (_, value) :: rest => .cons (.kept (.same value)) (refl rest)

theorem Unbracketed.list_left {items : List Datum} {other : Datum}
    (unbracketed : Unbracketed (.list items) other) :
    ∃ others, other = .list others ∧ UnbracketedItems items others := by
  cases unbracketed with
  | same => exact ⟨items, rfl, .refl items⟩
  | list inside => exact ⟨_, rfl, inside⟩

theorem Unbracketed.record_left {fields : List (String × Datum)} {other : Datum}
    (unbracketed : Unbracketed (.record fields) other) :
    ∃ others, other = .record others ∧ UnbracketedFields fields others := by
  cases unbracketed with
  | same => exact ⟨fields, rfl, .refl fields⟩
  | record inside => exact ⟨_, rfl, inside⟩

theorem UnbracketedItems.forall₂ {items others : List Datum} :
    UnbracketedItems items others → List.Forall₂ Unbracketed items others
  | .nil => .nil
  | .cons first later => .cons first later.forall₂

theorem UnbracketedItems.filter {items others : List Datum} {chosen : Datum → Bool}
    (alike : ∀ item other, Unbracketed item other → chosen item = chosen other) :
    UnbracketedItems items others →
      UnbracketedItems (items.filter chosen) (others.filter chosen)
  | .nil => .nil
  | .cons first later => by
      rw [List.filter_cons, List.filter_cons, alike _ _ first]
      split
      next => exact .cons first (later.filter alike)
      next => exact later.filter alike

theorem UnbracketedFields.map_fst_eq {fields others : List (String × Datum)} :
    UnbracketedFields fields others → fields.map Prod.fst = others.map Prod.fst
  | .nil => rfl
  | .cons _ later => by rw [List.map_cons, List.map_cons, later.map_fst_eq]

theorem UnbracketedFields.filter {fields others : List (String × Datum)} (chosen : String → Bool) :
    UnbracketedFields fields others →
      UnbracketedFields (fields.filter fun field => chosen field.1)
        (others.filter fun field => chosen field.1)
  | .nil => .nil
  | .cons first later => by
      rw [List.filter_cons, List.filter_cons]
      dsimp only
      split
      next => exact .cons first (later.filter chosen)
      next => exact later.filter chosen

/-! ## Plain values -/

mutual

theorem Unbracketed.readable_eq {datum other : Datum} :
    Unbracketed datum other → datum.readable = other.readable
  | .same _ => rfl
  | .list inside => inside.readable_eq
  | .record inside => inside.readable_eq

theorem UnbracketedItems.readable_eq {items others : List Datum} :
    UnbracketedItems items others → itemsReadable items = itemsReadable others
  | .nil => rfl
  | .cons first later => by
      rw [itemsReadable, itemsReadable, first.readable_eq, later.readable_eq]

theorem UnbracketedFields.readable_eq {fields others : List (String × Datum)} :
    UnbracketedFields fields others → fieldsReadable fields = fieldsReadable others
  | .nil => rfl
  | .cons first later => by
      rw [fieldsReadable, fieldsReadable, first.readable_eq, later.readable_eq]

theorem UnbracketedField.readable_eq {key : String} {value other : Datum} :
    UnbracketedField key value other → value.readable = other.readable
  | .kept inside => inside.readable_eq
  | .opened _ inside => by
      rw [readable, itemsReadable, itemsReadable, Bool.and_true, inside.readable_eq]

end

theorem opens_collapse (key : String) (value : Datum) :
    opens key value.collapse = opens key value := by
  cases value <;> rfl

theorem UnbracketedFields.insertKey {key : String} {value other : Datum}
    {entries others : List (String × Datum)} (first : UnbracketedField key value other)
    (before : UnbracketedFields entries others) :
    UnbracketedFields (insertKey key value entries) (insertKey key other others) := by
  induction entries generalizing others with
  | nil =>
      cases before
      exact .cons first .nil
  | cons entry rest inductionHypothesis =>
      cases before with
      | cons kept later =>
          rw [Mixdown.insertKey, Mixdown.insertKey]
          split
          next => exact .cons first (.cons kept later)
          next =>
            split
            next => exact .cons first later
            next => exact .cons kept (inductionHypothesis later)

mutual

theorem Unbracketed.collapse {datum other : Datum} :
    Unbracketed datum other → Unbracketed datum.collapse other.collapse
  | .same _ => .same _
  | .list inside => .list inside.collapse
  | .record inside => .record (inside.collapse .nil)

theorem UnbracketedItems.collapse {items others : List Datum} :
    UnbracketedItems items others → UnbracketedItems (collapseItems items) (collapseItems others)
  | .nil => .nil
  | .cons first later => .cons first.collapse later.collapse

theorem UnbracketedFields.collapse
    {collected otherCollected fields others : List (String × Datum)} :
    UnbracketedFields fields others → UnbracketedFields collected otherCollected →
      UnbracketedFields (collapseFields collected fields) (collapseFields otherCollected others)
  | .nil, before => before
  | .cons first later, before => later.collapse (before.insertKey first.collapse)

theorem UnbracketedField.collapse {key : String} {value other : Datum} :
    UnbracketedField key value other → UnbracketedField key value.collapse other.collapse
  | .kept inside => .kept inside.collapse
  | .opened single inside => .opened ((opens_collapse key _).trans single) inside.collapse

end

/-! ## Readers -/

/-- Two fields to be read next. -/
inductive Fields.Unbracketed : Fields → Fields → Prop
  | named {fields others : List (String × Datum)} (inside : UnbracketedFields fields others) :
      Unbracketed (.named fields) (.named others)
  | ordered {items others : List Datum} (inside : UnbracketedItems items others) :
      Unbracketed (.ordered items) (.ordered others)

/-- Readings of records that differ in brackets both fail, or their values are alike and
what they leave differs in brackets. -/
def Alike (same : β → β' → Prop) (reader : FieldReader β) (other : FieldReader β') : Prop :=
  ∀ ⦃fields others⦄, Fields.Unbracketed fields others →
    Option.Rel (fun found otherFound => same found.1 otherFound.1 ∧
      Fields.Unbracketed found.2 otherFound.2) (reader.run fields) (other.run others)

section Alike

variable {same : β → β' → Prop} {sameNext : γ → γ' → Prop}

theorem alike_pure {value : β} {other : β'} (alike : same value other) :
    Alike same (pure value) (pure other) :=
  fun _ _ unbracketed => .some ⟨alike, unbracketed⟩

theorem Alike.bind
    {reader : FieldReader β} {other : FieldReader β'} {next : β → FieldReader γ}
    {otherNext : β' → FieldReader γ'} (first : Alike same reader other)
    (rest : ∀ value otherValue, same value otherValue →
      Alike sameNext (next value) (otherNext otherValue)) :
    Alike sameNext (reader >>= next) (other >>= otherNext) := by
  intro fields others unbracketed
  have firstAlike := first unbracketed
  rw [StateT.run_bind, StateT.run_bind]
  generalize reader.run fields = outcome at firstAlike
  generalize other.run others = otherOutcome at firstAlike
  cases firstAlike with
  | none => exact .none
  | some alike => exact rest _ _ alike.1 alike.2

theorem alike_lift {outcome : Option β} {other : Option β'}
    (alike : Option.Rel same outcome other) :
    Alike same (liftM outcome : FieldReader β) (liftM other : FieldReader β') := by
  intro fields others unbracketed
  cases alike with
  | none => exact .none
  | some alike => exact .some ⟨alike, unbracketed⟩

/-- A field that goes by one of the names. -/
theorem alike_nextField (key : String) (aliases : List String) :
    Alike
      (Option.Rel fun value other => ∃ name ∈ key :: aliases, UnbracketedField name value other)
      (nextField key aliases) (nextField key aliases) := by
  intro fields others unbracketed
  cases unbracketed with
  | @named fields others inside =>
      have ownUnbracketed :
          UnbracketedFields (fields.filter (own key aliases)) (others.filter (own key aliases)) :=
        inside.filter fun name => name = key || aliases.contains name
      have restUnbracketed :
          Fields.Unbracketed (.named (fields.filter fun field => !own key aliases field))
            (.named (others.filter fun field => !own key aliases field)) :=
        .named (inside.filter fun name => !(name = key || aliases.contains name))
      have named : ∀ field ∈ fields.filter (own key aliases), field.1 ∈ key :: aliases := by
        intro field member
        simpa [own] using (List.mem_filter.mp member).2
      rw [run_nextField, run_nextField]
      generalize fields.filter (own key aliases) = found at ownUnbracketed named
      generalize others.filter (own key aliases) = otherFound at ownUnbracketed
      cases ownUnbracketed with
      | nil => exact .some ⟨.none, restUnbracketed⟩
      | cons first later =>
          cases later with
          | nil => exact .some ⟨.some ⟨_, named _ List.mem_cons_self, first⟩, restUnbracketed⟩
          | cons => exact .none
  | ordered inside =>
      cases inside with
      | nil => exact .some ⟨.none, .ordered .nil⟩
      | cons first later =>
          exact .some ⟨.some ⟨key, List.mem_cons_self, .kept first⟩, .ordered later⟩

/-- A field is read alike if what it may hold is. -/
theorem alike_defaulted
    {key : String} {aliases : List String} {missing : β} {otherMissing : β'}
    {read : Datum → Option β} {otherRead : Datum → Option β'}
    (missingAlike : same missing otherMissing)
    (readAlike : ∀ name ∈ key :: aliases, ∀ value other, UnbracketedField name value other →
      Option.Rel same (read value) (otherRead other)) :
    Alike same (defaulted key aliases missing read)
      (defaulted key aliases otherMissing otherRead) := by
  refine (alike_nextField key aliases).bind fun found otherFound alike => ?_
  cases alike with
  | none => exact alike_pure missingAlike
  | some held =>
      obtain ⟨name, isName, unbracketed⟩ := held
      exact alike_lift (readAlike name isName _ _ unbracketed)

theorem Alike.readFields? {reader : FieldReader β} {otherReader : FieldReader β'}
    {fields others : Fields} (alike : Alike same reader otherReader)
    (unbracketed : Fields.Unbracketed fields others) :
    Option.Rel same (readFields? .json reader fields) (readFields? .json otherReader others) := by
  have outcomeAlike := alike unbracketed
  rw [Datum.readFields?, Datum.readFields?]
  generalize reader.run fields = outcome at outcomeAlike
  generalize otherReader.run others = otherOutcome at outcomeAlike
  cases outcomeAlike with
  | none => exact .none
  | @some found otherFound alike =>
      obtain ⟨value, left⟩ := found
      obtain ⟨otherValue, otherLeft⟩ := otherFound
      obtain ⟨valueAlike, leftUnbracketed⟩ := alike
      cases leftUnbracketed with
      | named => exact .some valueAlike
      | ordered inside =>
          cases inside with
          | nil => exact .some valueAlike
          | cons => exact .none

theorem Alike.record? {reader : FieldReader β} {otherReader : FieldReader β'} {datum other : Datum}
    (alike : Alike same reader otherReader) (unbracketed : Unbracketed datum other) :
    Option.Rel same (record? reader datum) (record? otherReader other) := by
  cases datum with
  | list items =>
      obtain ⟨others, rfl, inside⟩ := unbracketed.list_left
      exact alike.readFields? (.ordered inside)
  | record fields =>
      obtain ⟨others, rfl, inside⟩ := unbracketed.record_left
      exact alike.readFields? (.named inside)
  | _ =>
      cases unbracketed
      exact .none

end Alike

/-! ## What fields hold -/

/-- Reads neither lists nor records. -/
structure IsScalar (read : Datum → Option β) : Prop where
  list (items : List Datum) : read (.list items) = none
  record (fields : List (String × Datum)) : read (.record fields) = none

theorem UnbracketedField.scalar_eq
    {read : Datum → Option β} (scalar : IsScalar read) {name : String} {value other : Datum}
    (unopened : name ∉ textLists)
    (unbracketed : UnbracketedField name value other) : read value = read other := by
  cases unbracketed with
  | kept inside =>
      cases inside with
      | same => rfl
      | list => rw [scalar.list, scalar.list]
      | record => rw [scalar.record, scalar.record]
  | opened isOpened inside =>
      rcases of_opens isOpened with ⟨_, fields, rfl⟩ | ⟨isText, _⟩
      · obtain ⟨others, rfl, _⟩ := inside.record_left
        rw [scalar.list, scalar.record]
      · exact absurd isText unopened

section Lists

variable {same : β → β' → Prop} {read : Datum → Option β} {otherRead : Datum → Option β'}

theorem oneOrMany?_of_ne_null {datum : Datum} (notNull : datum ≠ .null) :
    oneOrMany? read datum =
      if datum.readable then
        list? read datum <|> (read datum).map fun value => [value]
      else
        none := by
  rw [oneOrMany?]
  exact notNull

theorem Unbracketed.oneOrMany?
    (readAlike : ∀ value other, Unbracketed value other →
      Option.Rel same (read value) (otherRead other))
    {value other : Datum} (unbracketed : Unbracketed value other) :
    Option.Rel (List.Forall₂ same) (oneOrMany? read value) (oneOrMany? otherRead other) := by
  have listAlike :
      Option.Rel (List.Forall₂ same) (list? read value) (list? otherRead other) := by
    cases value with
    | list items =>
        obtain ⟨others, rfl, inside⟩ := unbracketed.list_left
        exact rel_mapM (inside.forall₂.imp fun _ _ => readAlike _ _)
    | record fields =>
        obtain ⟨others, rfl, _⟩ := unbracketed.record_left
        exact .none
    | _ =>
        cases unbracketed
        exact .none
  have singleAlike :
      Option.Rel (List.Forall₂ same) ((read value).map fun found => [found])
        ((otherRead other).map fun found => [found]) :=
    rel_map (readAlike value other unbracketed) fun _ _ alike => .cons alike .nil
  have eitherAlike := rel_orElse listAlike singleAlike
  by_cases isNull : value = .null
  · subst isNull
    cases unbracketed
    exact .some .nil
  · have otherNotNull : other ≠ .null := by
      rintro rfl
      cases unbracketed
      exact isNull rfl
    rw [oneOrMany?_of_ne_null isNull, oneOrMany?_of_ne_null otherNotNull,
      unbracketed.readable_eq]
    split
    next => exact eitherAlike
    next => exact .none

/-- A single value is read as the list of it, unless that list could stand for a value. -/
theorem oneOrMany?_singleton {name : String} {single : Datum} (isOpened : opens name single = true)
    (unlisted : read (.list [single]) = none) :
    oneOrMany? read (.list [single]) = oneOrMany? read single := by
  have readable : (Datum.list [single]).readable = single.readable := by
    rw [Datum.readable, itemsReadable, itemsReadable, Bool.and_true]
  have notNull : single ≠ .null := by
    rintro rfl
    cases isOpened
  have notList : list? read single = none := by
    cases single with
    | list => cases isOpened
    | _ => rfl
  have listed : list? read (.list [single]) = (read single).map fun value => [value] := by
    rw [list?, List.mapM_cons]
    cases read single <;> rfl
  rw [oneOrMany?_of_ne_null (by rintro ⟨⟩), oneOrMany?_of_ne_null notNull, readable, listed,
    unlisted, notList, Option.map_none]
  cases read single <;> rfl

theorem UnbracketedField.oneOrMany?
    (readAlike : ∀ value other, Unbracketed value other →
      Option.Rel same (read value) (otherRead other))
    {name : String} (unlisted : ∀ single, opens name single = true → read (.list [single]) = none)
    {value other : Datum} (unbracketed : UnbracketedField name value other) :
    Option.Rel (List.Forall₂ same) (oneOrMany? read value) (oneOrMany? otherRead other) := by
  cases unbracketed with
  | kept inside => exact inside.oneOrMany? readAlike
  | opened isOpened inside =>
      rw [oneOrMany?_singleton isOpened (unlisted _ isOpened)]
      exact inside.oneOrMany? readAlike

end Lists

/-! ## Fields of records -/

theorem alike_scalar
    {key : String} {aliases : List String} {missing : β} {read : Datum → Option β}
    (scalar : IsScalar read) (unopened : ∀ name ∈ key :: aliases, name ∉ textLists) :
    Alike Eq (defaulted key aliases missing read) (defaulted key aliases missing read) :=
  alike_defaulted rfl fun name isName _ _ unbracketed =>
    rel_eq (unbracketed.scalar_eq scalar (unopened name isName))

theorem alike_oneOrMany
    {same : β → β' → Prop} {read : Datum → Option β} {otherRead : Datum → Option β'}
    {key : String} {aliases : List String}
    (readAlike : ∀ value other, Unbracketed value other →
      Option.Rel same (read value) (otherRead other))
    (unlisted : ∀ name ∈ key :: aliases, ∀ single,
      opens name single = true → read (.list [single]) = none) :
    Alike (List.Forall₂ same) (defaulted key aliases [] (oneOrMany? read))
      (defaulted key aliases [] (oneOrMany? otherRead)) :=
  alike_defaulted .nil fun name isName _ _ unbracketed =>
    unbracketed.oneOrMany? readAlike (unlisted name isName)

/-- Records, or one of them. -/
theorem alike_records
    {same : β → β' → Prop} {read : Datum → Option β} {otherRead : Datum → Option β'}
    {key : String} {aliases : List String}
    (readAlike : ∀ value other, Unbracketed value other →
      Option.Rel same (read value) (otherRead other))
    (noTexts : ∀ name ∈ key :: aliases, name ∉ textLists)
    (unlisted : ∀ fields, read (.list [.record fields]) = none) :
    Alike (List.Forall₂ same) (defaulted key aliases [] (oneOrMany? read))
      (defaulted key aliases [] (oneOrMany? otherRead)) := by
  refine alike_oneOrMany readAlike fun name isName single isOpened => ?_
  rcases of_opens isOpened with ⟨_, fields, rfl⟩ | ⟨isText, _⟩
  · exact unlisted fields
  · exact absurd isText (noTexts name isName)

theorem isScalar_optional {read : Datum → Option β} (scalar : IsScalar read) :
    IsScalar (optional? read) where
  list items := by rw [optional?, scalar.list, Option.map_none]; rintro ⟨⟩
  record fields := by rw [optional?, scalar.record, Option.map_none]; rintro ⟨⟩

theorem isScalar_text : IsScalar text? :=
  ⟨fun _ => rfl, fun _ => rfl⟩

theorem isScalar_float : IsScalar float? :=
  ⟨fun _ => rfl, fun _ => rfl⟩

theorem isScalar_unsigned64 : IsScalar unsigned64? :=
  ⟨fun _ => rfl, fun _ => rfl⟩

/-- Texts, or one of them. -/
theorem alike_texts (key : String) (aliases : List String) :
    Alike Eq (defaulted key aliases [] (oneOrMany? text?))
      (defaulted key aliases [] (oneOrMany? text?)) := by
  have alike : Alike (List.Forall₂ Eq) (defaulted key aliases [] (oneOrMany? text?))
      (defaulted key aliases [] (oneOrMany? text?)) := by
    refine alike_oneOrMany (fun value other unbracketed => ?_) fun _ _ _ _ => rfl
    cases unbracketed with
    | same => exact rel_eq rfl
    | list => exact .none
    | record => exact .none
  rwa [List.forall₂_eq_eq_eq] at alike

end Mixdown.Datum
