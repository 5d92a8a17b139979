import Mixdown.Plan.Fingerprint

/-!
# Bytes of texts

A text is known from its bytes; a byte below 128 stands for the character with that
number.  Texts have the same order by bytes as by code points.
-/

namespace Mixdown.Fingerprint

theorem toList_loop_eq (bytes : ByteArray) (start : Nat) (sofar : List UInt8) :
    ByteArray.toList.loop bytes start sofar = sofar.reverse ++ bytes.data.toList.drop start := by
  fun_induction ByteArray.toList.loop bytes start sofar with
  | case1 start sofar inside inductionHypothesis =>
      have isIndex : start < bytes.data.toList.length := by simpa using inside
      rw [inductionHypothesis, List.drop_eq_getElem_cons isIndex]
      simp [ByteArray.get!, inside]
  | case2 start sofar outside =>
      have atEnd : bytes.data.toList.length ≤ start := by simpa using Nat.le_of_not_lt outside
      rw [List.drop_eq_nil_of_le atEnd, List.append_nil]

theorem toList_eq (bytes : ByteArray) : bytes.toList = bytes.data.toList := by
  rw [ByteArray.toList, toList_loop_eq]
  simp

theorem textBytes_eq (text : String) :
    textBytes text = text.toList.flatMap String.utf8EncodeChar := by
  have encoded : (String.ofList text.toList).toByteArray.data.toList =
      text.toList.flatMap String.utf8EncodeChar := by
    rw [String.toByteArray_ofList, List.utf8Encode, List.toList_data_toByteArray]
  rw [String.ofList_toList] at encoded
  rw [textBytes, toList_eq]
  exact encoded

theorem ofNat_cons_lt_iff
    {first other : Nat} {rest others : List UInt8} (inRange : first < 256)
    (otherInRange : other < 256) :
    UInt8.ofNat first :: rest < UInt8.ofNat other :: others ↔
      first < other ∨ first = other ∧ rest < others := by
  rw [List.cons_lt_cons_iff, UInt8.lt_iff_toNat_lt, ← UInt8.toNat_inj, UInt8.toNat_ofNat',
    UInt8.toNat_ofNat', Nat.mod_eq_of_lt inRange, Nat.mod_eq_of_lt otherInRange]

/-- The bytes of a character come before those of a greater one, whatever follows. -/
theorem utf8EncodeChar_append_lt
    {c d : Char} (less : c < d) (rest others : List UInt8) :
    String.utf8EncodeChar c ++ rest < String.utf8EncodeChar d ++ others := by
  have below : c.val.toNat < d.val.toNat := less
  have inUnicode : d.val.toNat < 1114112 := by
    rcases d.valid with low | ⟨_, high⟩
    · exact Nat.lt_trans low (by decide)
    · exact high
  unfold String.utf8EncodeChar
  dsimp only
  generalize c.val.toNat = code at below ⊢
  generalize d.val.toNat = greater at below inUnicode ⊢
  have ordered : code ≤ greater := Nat.le_of_lt below
  have highest : code / 262144 ≤ greater / 262144 := Nat.div_le_div_right ordered
  have high : code / 4096 ≤ greater / 4096 := Nat.div_le_div_right ordered
  have middle : code / 64 ≤ greater / 64 := Nat.div_le_div_right ordered
  -- The first byte also tells how many follow: never fewer after a greater character.
  split <;> split <;> (try split) <;> (try split) <;> (try split) <;> (try split) <;>
    simp (disch := omega) only [List.cons_append, List.nil_append, ofNat_cons_lt_iff,
      Nat.mod_eq_of_lt] <;>
    by_cases sameHighest : code / 262144 = greater / 262144 <;>
    by_cases sameHigh : code / 4096 = greater / 4096 <;>
    omega

theorem textBytes_lt {text other : String} (less : text < other) :
    textBytes text < textBytes other := by
  rw [textBytes_eq, textBytes_eq]
  have listed : List.Lex (· < ·) text.toList other.toList := less
  generalize text.toList = chars at listed ⊢
  generalize other.toList = others at listed ⊢
  induction listed with
  | @nil c rest =>
      rw [List.flatMap_cons]
      cases encoded : String.utf8EncodeChar c with
      | nil => exact absurd encoded String.utf8EncodeChar_ne_nil
      | cons => exact List.nil_lt_cons _ _
  | rel less => exact utf8EncodeChar_append_lt less _ _
  | cons listed inductionHypothesis => exact List.append_left_lt inductionHypothesis

/-- Bytes order texts as code points do. -/
theorem textBytes_le_iff {text other : String} :
    textBytes text ≤ textBytes other ↔ text ≤ other := by
  constructor
  · intro notAfter
    exact String.not_lt.mp fun less => notAfter (textBytes_lt less)
  · intro notAfter less
    by_cases before : text < other
    · exact List.lt_asymm less (textBytes_lt before)
    · have equal : text = other := String.le_antisymm notAfter (String.not_lt.mp before)
      rw [equal] at less
      exact List.lt_irrefl _ less

end Mixdown.Fingerprint
