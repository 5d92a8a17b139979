import Mathlib.Data.List.Basic
import Mixdown.Uuid

/-!
# Identifiers read back

Bytes read back from their hexadecimal digits, and an identifier from its groups of
digits.
-/

namespace Mixdown

namespace Text

theorem hexValue?_hexDigit : ∀ value < 16, hexValue? (hexDigit value) = some value := by
  decide

/-- Digits of bytes open neither a brace nor a scheme, and are no hyphens. -/
theorem hexDigit_ne :
    ∀ value < 16, hexDigit value ≠ '-' ∧ hexDigit value ≠ '\x7b' ∧ hexDigit value ≠ 'u' := by
  decide

theorem bytesOfHex?_hexBytes (bytes : List UInt8) : bytesOfHex? (hexBytes bytes) = some bytes := by
  induction bytes with
  | nil => rfl
  | cons byte rest inductionHypothesis =>
      have small : byte.toNat < 256 := byte.toNat_lt
      have high := hexValue?_hexDigit (byte.toNat / 16) (by omega)
      have low := hexValue?_hexDigit (byte.toNat % 16) (by omega)
      have halves : byte.toNat / 16 * 16 + byte.toNat % 16 = byte.toNat := by omega
      change bytesOfHex? (_ :: _ :: hexBytes rest) = _
      rw [bytesOfHex?, high, low, inductionHypothesis]
      change some (UInt8.ofNat (byte.toNat / 16 * 16 + byte.toNat % 16) :: rest) = _
      rw [halves, UInt8.ofNat_toNat]

theorem exists_hexDigit_of_mem {bytes : List UInt8} {digit : Char}
    (member : digit ∈ hexBytes bytes) : ∃ value < 16, digit = hexDigit value := by
  obtain ⟨byte, _, inByte⟩ := List.mem_flatMap.mp member
  have small : byte.toNat < 256 := byte.toNat_lt
  rcases List.mem_pair.mp inByte with high | low
  · exact ⟨byte.toNat / 16, by omega, high⟩
  · exact ⟨byte.toNat % 16, by omega, low⟩

theorem hyphen_notMem_hexBytes (bytes : List UInt8) : '-' ∉ hexBytes bytes := by
  intro member
  obtain ⟨value, small, equality⟩ := exists_hexDigit_of_mem member
  exact (hexDigit_ne value small).1 equality.symm

end Text

namespace Uuid

theorem filter_hyphenated {digits : List Char} (noHyphen : '-' ∉ digits) :
    (hyphenated digits).filter (fun c => c ≠ '-') = digits := by
  have kept : digits.filter (fun c => c ≠ '-') = digits := by
    apply List.filter_eq_self.mpr
    intro c member
    have different : c ≠ '-' := ne_of_mem_of_not_mem member noHyphen
    simpa using different
  -- The groups are the digits cut at 8, 12, 16 and 20.
  have groups :
      digits.take 8 ++ ((digits.drop 8).take 4 ++ ((digits.drop 12).take 4 ++
        ((digits.drop 16).take 4 ++ digits.drop 20))) = digits := by
    have third : (digits.drop 16).take 4 ++ digits.drop 20 = digits.drop 16 := by
      rw [← List.drop_drop (i := 4) (j := 16), List.take_append_drop]
    have second : (digits.drop 12).take 4 ++ digits.drop 16 = digits.drop 12 := by
      rw [← List.drop_drop (i := 4) (j := 12), List.take_append_drop]
    have first : (digits.drop 8).take 4 ++ digits.drop 12 = digits.drop 8 := by
      rw [← List.drop_drop (i := 4) (j := 8), List.take_append_drop]
    rw [third, second, first, List.take_append_drop]
  have withoutHyphens :
      (hyphenated digits).filter (fun c => c ≠ '-') =
        (digits.take 8 ++ ((digits.drop 8).take 4 ++ ((digits.drop 12).take 4 ++
          ((digits.drop 16).take 4 ++ digits.drop 20)))).filter (fun c => c ≠ '-') := by
    simp [hyphenated]
  rw [withoutHyphens, groups, kept]

theorem ofDigits?_hyphenated (identifier : Uuid) :
    ofDigits? (hyphenated (Text.hexBytes identifier.bytes)) = some identifier := by
  have digits := filter_hyphenated (Text.hyphen_notMem_hexBytes identifier.bytes)
  rw [ofDigits?, digits, if_pos (Or.inr rfl), Text.bytesOfHex?_hexBytes]
  exact dif_pos identifier.length_bytes

theorem ofText?_display (identifier : Uuid) : ofText? identifier.display = some identifier := by
  have digits := ofDigits?_hyphenated identifier
  obtain ⟨byte, rest, equality⟩ :=
    List.exists_cons_of_length_eq_add_one identifier.length_bytes
  have small : byte.toNat < 256 := byte.toNat_lt
  obtain ⟨_, noBrace, noScheme⟩ := Text.hexDigit_ne (byte.toNat / 16) (by omega)
  have first : ∃ others, hyphenated (Text.hexBytes identifier.bytes) =
      Text.hexDigit (byte.toNat / 16) :: others := by
    rw [equality]
    exact ⟨_, rfl⟩
  obtain ⟨others, text⟩ := first
  rw [ofText?, display, String.toList_ofList]
  rw [text] at digits ⊢
  dsimp only
  split
  next opened =>
    injection opened with here
    exact absurd here noBrace
  next opened =>
    injection opened with here
    exact absurd here noScheme
  next => exact digits

theorem ofDatum?_toDatum (identifier : Uuid) : ofDatum? identifier.toDatum = some identifier :=
  ofText?_display identifier

end Uuid

end Mixdown
