import Mathlib.Data.List.DropRight
import Mixdown.Text.Blank

/-!
# Trimmed text

Trimming leaves no blank at either end of a text, and changes no text without one.
-/

namespace Mixdown.Text

structure Trimmed (text : List Char) : Prop where
  start : ∀ c, text.head? = some c → isBlank c = false
  finish : ∀ c, text.getLast? = some c → isBlank c = false

theorem trim_eq_rdropWhile (text : List Char) :
    trim text = (text.dropWhile isBlank).rdropWhile isBlank :=
  rfl

theorem head?_dropWhile_isBlank (text : List Char) (c : Char)
    (first : (text.dropWhile isBlank).head? = some c) : isBlank c = false := by
  have shown := List.head?_dropWhile_not isBlank text
  rwa [first] at shown

theorem trimmed_trim (text : List Char) : Trimmed (trim text) where
  start := by
    intro c first
    obtain ⟨dropped, split⟩ := List.rdropWhile_prefix isBlank (text.dropWhile isBlank)
    rw [← trim_eq_rdropWhile] at split
    refine head?_dropWhile_isBlank text c ?_
    rw [← split, List.head?_append, first]
    rfl
  finish := by
    intro c last
    rw [trim, List.getLast?_reverse] at last
    exact head?_dropWhile_isBlank _ c last

theorem dropWhile_isBlank_eq_self
    {text : List Char} (start : ∀ c, text.head? = some c → isBlank c = false) :
    text.dropWhile isBlank = text := by
  cases text with
  | nil => rfl
  | cons c rest => rw [List.dropWhile_cons, start c rfl, if_neg Bool.false_ne_true]

theorem Trimmed.trim_eq {text : List Char} (trimmed : Trimmed text) : trim text = text := by
  have finish : ∀ c, text.reverse.head? = some c → isBlank c = false := by
    intro c last
    exact trimmed.finish c (List.head?_reverse ▸ last)
  rw [trim, dropWhile_isBlank_eq_self trimmed.start, dropWhile_isBlank_eq_self finish,
    List.reverse_reverse]

theorem trim_trim (text : List Char) : trim (trim text) = trim text :=
  (trimmed_trim text).trim_eq

theorem trim_eq_nil_iff {text : List Char} :
    trim text = [] ↔ ∀ c ∈ text, isBlank c = true := by
  rw [trim_eq_rdropWhile, List.rdropWhile_eq_nil_iff]
  constructor
  · intro leftBlank
    cases left : text.dropWhile isBlank with
    | nil => exact List.dropWhile_eq_nil_iff.mp left
    | cons first rest =>
        have firstBlank : isBlank first = true := by
          apply leftBlank
          simp [left]
        have firstShown : isBlank first = false :=
          head?_dropWhile_isBlank text first (by simp [left])
        simp [firstBlank] at firstShown
  · intro allBlank c member
    exact allBlank c ((List.dropWhile_suffix _).subset member)

theorem not_isBlank_of_isDigit {c : Char} (digit : c.isDigit = true) : isBlank c = false := by
  cases blank : isBlank c with
  | false => rfl
  | true =>
      have all : blanks.all (fun c => !c.isDigit) = true := by decide
      have notDigit := List.all_eq_true.mp all c (List.contains_iff_mem.mp blank)
      rw [digit] at notDigit
      cases notDigit

end Mixdown.Text
