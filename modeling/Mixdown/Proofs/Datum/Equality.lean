import Mixdown.Datum.Basic

/-!
# Equality of data

Whether two data are the same, down to the order of their fields, can be decided.
-/

namespace Mixdown.Datum

mutual

def same : Datum → Datum → Bool
  | .null, .null => true
  | .bool value, .bool other => value = other
  | .integer value, .integer other => value = other
  | .number value, .number other => value = other
  | .text value, .text other => value = other
  | .list items, .list others => sameItems items others
  | .record fields, .record others => sameFields fields others
  | .unreadable, .unreadable => true
  | _, _ => false

def sameItems : List Datum → List Datum → Bool
  | [], [] => true
  | item :: rest, other :: others => same item other && sameItems rest others
  | _, _ => false

def sameFields : List (String × Datum) → List (String × Datum) → Bool
  | [], [] => true
  | (key, value) :: rest, (otherKey, other) :: others =>
      key = otherKey && same value other && sameFields rest others
  | _, _ => false

end

mutual

theorem same_iff : ∀ first second : Datum, same first second = true ↔ first = second
  | .null, second => by cases second <;> simp [same]
  | .bool value, second => by cases second <;> simp [same]
  | .integer value, second => by cases second <;> simp [same]
  | .number value, second => by cases second <;> simp [same]
  | .text value, second => by cases second <;> simp [same]
  | .list items, second => by cases second <;> simp [same, sameItems_iff items]
  | .record fields, second => by cases second <;> simp [same, sameFields_iff fields]
  | .unreadable, second => by cases second <;> simp [same]

theorem sameItems_iff :
    ∀ first second : List Datum, sameItems first second = true ↔ first = second
  | [], second => by cases second <;> simp [sameItems]
  | item :: rest, second => by
      cases second <;> simp [sameItems, same_iff item, sameItems_iff rest]

theorem sameFields_iff :
    ∀ first second : List (String × Datum), sameFields first second = true ↔ first = second
  | [], second => by cases second <;> simp [sameFields]
  | (key, value) :: rest, second => by
      cases second <;> simp [sameFields, same_iff value, sameFields_iff rest, Prod.ext_iff]

end

instance : DecidableEq Datum :=
  fun first second => decidable_of_iff _ (same_iff first second)

end Mixdown.Datum
