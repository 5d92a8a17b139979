import Mixdown.Proofs.Text.Blank
import Mixdown.Text.Pieces

/-!
# Pieces of text

How texts without separators, enclosed texts and lower-case texts are taken apart.
-/

namespace Mixdown.Text

/-! ## Separators -/

theorem splitAt_of_not_mem {separator : Char} {text : List Char} (absent : separator ∉ text) :
    splitAt separator text = [text] := by
  induction text with
  | nil => rfl
  | cons c rest inductionHypothesis =>
      obtain ⟨different, absentRest⟩ := List.ne_and_not_mem_of_not_mem_cons absent
      rw [splitAt, if_neg (Ne.symm different), inductionHypothesis absentRest]

theorem not_mem_of_mem_splitAt
    {separator : Char} {text piece : List Char} (member : piece ∈ splitAt separator text) :
    separator ∉ piece := by
  induction text generalizing piece with
  | nil =>
      cases List.mem_singleton.mp member
      exact List.not_mem_nil
  | cons c rest inductionHypothesis =>
      rw [splitAt] at member
      split at member
      next =>
        rcases List.mem_cons.mp member with rfl | later
        · exact List.not_mem_nil
        · exact inductionHypothesis later
      next different =>
        split at member
        next first others split =>
          rw [split] at inductionHypothesis
          rcases List.mem_cons.mp member with rfl | later
          · exact List.not_mem_cons_of_ne_of_not_mem (Ne.symm different)
              (inductionHypothesis List.mem_cons_self)
          · exact inductionHypothesis (List.mem_cons_of_mem _ later)
        next =>
          cases List.mem_singleton.mp member
          exact List.not_mem_cons_of_ne_of_not_mem (Ne.symm different) List.not_mem_nil

theorem splitAt_ne_nil (separator : Char) (text : List Char) : splitAt separator text ≠ [] := by
  cases text with
  | nil => nofun
  | cons c rest =>
      rw [splitAt]
      split
      · nofun
      · split <;> nofun

/-- A text is put together again from its pieces, with a separator before each of them. -/
theorem flatMap_splitAt (separator : Char) (text : List Char) :
    (splitAt separator text).flatMap (separator :: ·) = separator :: text := by
  induction text with
  | nil => rfl
  | cons c rest inductionHypothesis =>
      rw [splitAt]
      split
      next same => rw [List.flatMap_cons, inductionHypothesis, same]; rfl
      next =>
        split
        next piece others split =>
          rw [split, List.flatMap_cons] at inductionHypothesis
          rw [List.flatMap_cons, ← (List.cons.inj inductionHypothesis).2]
          rfl
        next none => exact absurd none (splitAt_ne_nil separator rest)

theorem mem_of_mem_splitAt
    {separator c : Char} {text piece : List Char} (member : piece ∈ splitAt separator text)
    (within : c ∈ piece) : c ∈ text := by
  have joined : c ∈ separator :: text := by
    rw [← flatMap_splitAt separator text]
    exact List.mem_flatMap.mpr ⟨piece, member, List.mem_cons_of_mem _ within⟩
  refine (List.mem_cons.mp joined).resolve_left ?_
  rintro rfl
  exact not_mem_of_mem_splitAt member within

theorem splitAt_injective (separator : Char) : Function.Injective (splitAt separator) := by
  intro text other equal
  have joined := flatMap_splitAt separator text
  rw [equal, flatMap_splitAt] at joined
  exact (List.cons.inj joined).2.symm

theorem splitAt_append (separator : Char) (text rest : List Char) :
    splitAt separator (text ++ separator :: rest) =
      splitAt separator text ++ splitAt separator rest := by
  induction text with
  | nil => simp [splitAt]
  | cons c text inductionHypothesis =>
      rw [List.cons_append, splitAt, splitAt, inductionHypothesis]
      split
      next => rfl
      next =>
        cases pieces : splitAt separator text with
        | nil => exact absurd pieces (splitAt_ne_nil separator text)
        | cons piece others => rfl

theorem between?_append (opening closing : Char) (inner : List Char) :
    between? opening closing (opening :: (inner ++ [closing])) = some inner := by
  rw [between?, if_pos ⟨rfl, List.getLast?_concat⟩, List.dropLast_concat]

/-! ## Trimmed text -/

theorem mem_of_mem_trim {text : List Char} {c : Char} (member : c ∈ trim text) : c ∈ text := by
  rw [trim, List.mem_reverse] at member
  have kept := List.mem_reverse.mp ((List.dropWhile_suffix isBlank).subset member)
  exact (List.dropWhile_suffix isBlank).subset kept

/-! ## Lower case -/

theorem exists_of_isUpper {c : Char} (upper : c.isUpper = true) :
    ∃ place < 26, c = Char.ofNat (65 + place) := by
  obtain ⟨above, below⟩ := of_decide_eq_true upper
  have above : 65 ≤ c.toNat := UInt32.le_iff_toNat_le.mp above
  have below : c.toNat ≤ 90 := UInt32.le_iff_toNat_le.mp below
  refine ⟨c.toNat - 65, by omega, ?_⟩
  rw [Nat.add_sub_cancel' above, Char.ofNat_toNat]

theorem toLower_of_isUpper {c : Char} (upper : c.isUpper = true) :
    c.toLower.isLower = true ∧ c.toLower.isUpper = false := by
  obtain ⟨place, small, rfl⟩ := exists_of_isUpper upper
  have all : ∀ place < 26, (Char.ofNat (65 + place)).toLower.isLower = true ∧
      (Char.ofNat (65 + place)).toLower.isUpper = false := by
    decide +kernel
  exact all place small

theorem toLower_of_not_isUpper {c : Char} (notUpper : c.isUpper = false) : c.toLower = c := by
  exact dif_neg (of_decide_eq_false notUpper)

theorem isUpper_toLower (c : Char) : c.toLower.isUpper = false := by
  cases upper : c.isUpper with
  | true => exact (toLower_of_isUpper upper).2
  | false => rw [toLower_of_not_isUpper upper, upper]

/-- Only a letter comes from another character. -/
theorem toLower_eq_of_not_isLower {c : Char} (notLower : c.toLower.isLower = false) :
    c.toLower = c := by
  cases upper : c.isUpper with
  | true => exact absurd (toLower_of_isUpper upper).1 (by rw [notLower]; exact Bool.false_ne_true)
  | false => exact toLower_of_not_isUpper upper

theorem not_isLetter_of_isBlank {c : Char} (blank : isBlank c = true) :
    c.isUpper = false ∧ c.isLower = false := by
  have all : blanks.all (fun c => !c.isUpper && !c.isLower) = true := by decide
  have caseless := List.all_eq_true.mp all c (List.contains_iff_mem.mp blank)
  rwa [Bool.and_eq_true, Bool.not_eq_true', Bool.not_eq_true'] at caseless

theorem isBlank_toLower {c : Char} (notBlank : isBlank c = false) : isBlank c.toLower = false := by
  cases blank : isBlank c.toLower with
  | false => rfl
  | true =>
      rw [toLower_eq_of_not_isLower (not_isLetter_of_isBlank blank).2, notBlank] at blank
      cases blank

theorem not_isUpper_of_mem_lowerCase {text : List Char} {c : Char}
    (member : c ∈ lowerCase text) : c.isUpper = false := by
  obtain ⟨other, _, rfl⟩ := List.mem_map.mp member
  exact isUpper_toLower other

theorem lowerCase_eq_self {text : List Char} (caseless : ∀ c ∈ text, c.isUpper = false) :
    lowerCase text = text := by
  rw [lowerCase, List.map_congr_left fun c member => toLower_of_not_isUpper (caseless c member),
    List.map_id']

theorem Trimmed.lowerCase {text : List Char} (trimmed : Trimmed text) :
    Trimmed (lowerCase text) where
  start := by
    intro c first
    rw [Text.lowerCase, List.head?_map, Option.map_eq_some_iff] at first
    obtain ⟨other, otherFirst, rfl⟩ := first
    exact isBlank_toLower (trimmed.start other otherFirst)
  finish := by
    intro c last
    rw [Text.lowerCase, List.getLast?_map, Option.map_eq_some_iff] at last
    obtain ⟨other, otherLast, rfl⟩ := last
    exact isBlank_toLower (trimmed.finish other otherLast)

theorem not_mem_lowerCase {text : List Char} {c : Char} (notLower : c.isLower = false)
    (absent : c ∉ text) : c ∉ lowerCase text := by
  intro member
  obtain ⟨other, otherMember, rfl⟩ := List.mem_map.mp member
  rw [toLower_eq_of_not_isLower notLower] at absent
  exact absent otherMember

end Mixdown.Text
