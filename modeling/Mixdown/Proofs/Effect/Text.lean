import Mixdown.Effect.Text
import Mixdown.Proofs.Outcome
import Mixdown.Proofs.Text.Integer
import Mixdown.Proofs.Text.Pieces

/-!
# Effects read back

The effects that texts stand for are those whose wave presets are named plainly, and
each of them reads back from the text that is written for it.
-/

namespace Mixdown.Effect

/-- A name in lower case without commas, and without blanks at its ends. -/
structure IsPresetName (name : List Char) : Prop where
  ne_nil : name ≠ []
  comma_not_mem : ',' ∉ name
  trimmed : Text.Trimmed name
  caseless : ∀ c ∈ name, c.isUpper = false

/-- An effect that some text stands for. -/
def Readable : Effect → Prop
  | .wave preset => IsPresetName preset.toList
  | _ => True

/-- What an effect is read as once it is written: a preset may hold commas, and then the
first piece between them counts that is not blank. -/
def reread : Effect → Effect
  | .wave preset =>
      match ((Text.splitAt ',' preset.toList).map Text.trim).find? fun piece => !piece.isEmpty with
      | some piece => .wave (String.ofList (Text.lowerCase piece))
      | none => .wave defaultPreset
  | effect => effect

theorem isPresetName_default : IsPresetName defaultPreset.toList where
  ne_nil := by decide
  comma_not_mem := by decide
  trimmed := by
    constructor
    · rintro _ ⟨⟩
      decide
    · rintro _ ⟨⟩
      decide
  caseless := by
    have all : defaultPreset.toList.all (fun c => !c.isUpper) = true := by decide
    simpa only [List.all_eq_true, Bool.not_eq_true'] using all

/-! ## What texts stand for -/

/-- Parameters are not blank, hold no comma, and have no blank at either end. -/
theorem of_mem_params? {text param : List Char} {params : List (List Char)}
    (found : params? text = some params) (member : param ∈ params) :
    param ≠ [] ∧ ',' ∉ param ∧ Text.Trimmed param := by
  rw [params?] at found
  split at found
  next =>
    cases found
    cases member
  next =>
    obtain ⟨inner, _, rfl⟩ := Option.map_eq_some_iff.mp found
    obtain ⟨isTrimmed, notEmpty⟩ := List.mem_filter.mp member
    obtain ⟨piece, pieceMember, rfl⟩ := List.mem_map.mp isTrimmed
    refine ⟨?_, ?_, Text.trimmed_trim piece⟩
    · rintro empty
      rw [empty] at notEmpty
      cases notEmpty
    · exact fun comma => Text.not_mem_of_mem_splitAt pieceMember (Text.mem_of_mem_trim comma)

theorem readable_of_ofParts
    {text name : String} {params : List (List Char)} {effect : Effect}
    (plain : ∀ param ∈ params, param ≠ [] ∧ ',' ∉ param ∧ Text.Trimmed param)
    (read : ofParts text name params = .ok effect) : effect.Readable := by
  cases effect with
  | wave preset =>
      unfold ofParts at read
      split at read
      next =>
        split at read
        next => cases read
        next => split at read <;> cases read
      next =>
        split at read
        next => cases read
        next =>
          split at read
          next => cases read
          next =>
            split at read
            next =>
              split at read
              next =>
                cases read
                exact isPresetName_default
              next first rest =>
                cases read
                obtain ⟨notEmpty, noComma, trimmed⟩ := plain first List.mem_cons_self
                rw [Readable, String.toList_ofList]
                exact {
                  ne_nil := fun empty => notEmpty (List.map_eq_nil_iff.mp empty)
                  comma_not_mem := Text.not_mem_lowerCase (by decide) noComma
                  trimmed := trimmed.lowerCase
                  caseless := fun _ => Text.not_isUpper_of_mem_lowerCase }
            next =>
              split at read <;> cases read
  | _ => trivial

theorem readable_of_ofText {text : String} {effect : Effect} (read : ofText text = .ok effect) :
    effect.Readable := by
  rw [ofText] at read
  dsimp only at read
  split at read
  next => cases read
  next params found => exact readable_of_ofParts (fun _ => of_mem_params? found) read

/-! ## Reading what was written -/

theorem not_isBlank_of_isAlpha {c : Char} (alpha : c.isAlpha = true) : Text.isBlank c = false := by
  cases blank : Text.isBlank c with
  | false => rfl
  | true =>
      obtain ⟨notUpper, notLower⟩ := Text.not_isLetter_of_isBlank blank
      have letter : (c.isUpper || c.isLower) = true := alpha
      rw [notUpper, notLower] at letter
      cases letter

section Calls

variable {text : String} {name inner : List Char}

/-- Parameters in parentheses after a name. -/
theorem ofText_call
    (shape : text.toList = name ++ '(' :: (inner ++ [')']))
    (alphabetic : name.all Char.isAlpha = true) (named : name ≠ []) :
    ofText text =
      ofParts text (String.ofList (Text.lowerCase name))
        (((Text.splitAt ',' inner).map Text.trim).filter fun param => !param.isEmpty) := by
  rw [List.all_eq_true] at alphabetic
  have trimmed : Text.Trimmed text.toList := by
    rw [shape]
    constructor
    · intro c first
      rw [List.head?_append_of_ne_nil _ named] at first
      exact not_isBlank_of_isAlpha (alphabetic c (List.mem_of_head? first))
    · intro c last
      rw [← List.cons_append, ← List.append_assoc, List.getLast?_concat] at last
      cases last
      decide
  have nameTaken : text.toList.takeWhile Char.isAlpha = name := by
    rw [shape, List.takeWhile_append_of_pos alphabetic]
    exact List.append_nil name
  have nameDropped : text.toList.dropWhile Char.isAlpha = '(' :: (inner ++ [')']) := by
    rw [shape, List.dropWhile_append_of_pos alphabetic]
    rfl
  rw [ofText, trimmed.trim_eq]
  dsimp only
  rw [nameTaken, nameDropped, params?, if_neg (by exact Bool.false_ne_true),
    Text.between?_append, String.ofList_toList]
  rfl

theorem ofText_call_of_plain
    (shape : text.toList = name ++ '(' :: (inner ++ [')']))
    (alphabetic : name.all Char.isAlpha = true) (named : name ≠ [])
    (notEmpty : inner ≠ []) (noComma : ',' ∉ inner) (trimmed : Text.Trimmed inner) :
    ofText text = ofParts text (String.ofList (Text.lowerCase name)) [inner] := by
  have kept : [inner].filter (fun param => !param.isEmpty) = [inner] := by
    simpa using notEmpty
  rw [ofText_call shape alphabetic named, Text.splitAt_of_not_mem noComma, List.map_singleton,
    trimmed.trim_eq, kept]

end Calls

theorem plain_toString (value : Int) :
    (toString value).toList ≠ [] ∧ ',' ∉ (toString value).toList ∧
      Text.Trimmed (toString value).toList := by
  have notBlank : ∀ c ∈ (toString value).toList, Text.isBlank c = false := by
    intro c member
    rcases Text.mem_toList_toString member with rfl | digit
    · decide
    · exact Text.not_isBlank_of_isDigit digit
  refine ⟨?_, ?_, ?_, ?_⟩
  · intro empty
    have read := Text.integer?_toList_toString value
    rw [empty] at read
    cases read
  · intro comma
    rcases Text.mem_toList_toString comma with isMinus | digit
    · cases isMinus
    · cases digit
  · exact fun c first => notBlank c (List.mem_of_head? first)
  · exact fun c last => notBlank c (List.mem_of_getLast? last)

theorem ofText_display (effect : Effect) : ofText effect.display = .ok effect.reread := by
  cases effect with
  | loop count =>
      rw [display]
      split
      next isEndless =>
        rw [isEndless]
        rfl
      next =>
        have shape :
            ("loop(" ++ toString count.toInt ++ ")").toList =
              ['l', 'o', 'o', 'p'] ++ '(' :: ((toString count.toInt).toList ++ [')']) := by
          simp
        obtain ⟨notEmpty, noComma, trimmed⟩ := plain_toString count.toInt
        rw [ofText_call_of_plain shape (by decide) (by decide) notEmpty noComma trimmed]
        unfold ofParts
        rw [if_pos (by decide)]
        dsimp only
        rw [Text.integer?_toList_toString, Option.bind_some, Text.signed64?_toInt]
        rfl
  | reverse => rfl
  | faraway withVolume => cases withVolume <;> rfl
  | wave preset =>
      have shape :
          ("wave(" ++ preset ++ ")").toList =
            ['w', 'a', 'v', 'e'] ++ '(' :: (preset.toList ++ [')']) := by
        simp
      rw [display, ofText_call shape (by decide) (by decide), reread, ← List.head?_filter]
      unfold ofParts
      rw [if_neg (by decide), if_neg (by decide), if_neg (by decide), if_pos (by decide)]
      cases ((Text.splitAt ',' preset.toList).map Text.trim).filter fun piece => !piece.isEmpty <;>
        rfl
  | mixDuration rule => cases rule <;> rfl

/-- What was read once is read as itself. -/
theorem Readable.reread_eq {effect : Effect} (readable : effect.Readable) :
    effect.reread = effect := by
  cases effect with
  | wave preset =>
      have kept : [preset.toList].find? (fun piece => !piece.isEmpty) = some preset.toList := by
        simpa using readable.ne_nil
      rw [reread, Text.splitAt_of_not_mem readable.comma_not_mem, List.map_singleton,
        readable.trimmed.trim_eq, kept]
      dsimp only
      rw [Text.lowerCase_eq_self readable.caseless, String.ofList_toList]
  | _ => rfl

@[simp]
theorem isMixDuration_reread (effect : Effect) :
    effect.reread.isMixDuration = effect.isMixDuration := by
  cases effect with
  | wave preset =>
      rw [reread]
      split <;> rfl
  | _ => rfl

theorem Readable.ofText_display_eq {effect : Effect} (readable : effect.Readable) :
    ofText effect.display = .ok effect := by
  rw [ofText_display, readable.reread_eq]

/-- An effect that is written reads as itself just when its preset is named plainly, as the
presets of all effects are that were ever read; so what was read once stays as it is. -/
theorem ofText_display_iff :
    (∀ effect, ofText (display effect) = .ok effect ↔ effect.Readable) ∧
      ∀ text effect, ofText text = .ok effect →
        effect.Readable ∧ ofText effect.display = ofText text := by
  constructor
  · exact fun effect => ⟨readable_of_ofText, Readable.ofText_display_eq⟩
  · intro text effect read
    have readable := readable_of_ofText read
    exact ⟨readable, by rw [readable.ofText_display_eq, read]⟩

/-- Brackets of both kinds may stand in the name of a preset, and blanks inside it. -/
theorem ofText_display_iff_brackets :
    ofText " Noise\x7b , Rain )(\x7d FM,x\x7d" = .ok (.wave "rain )(\x7d fm") ∧
      ofText "wave(rain )(\x7d fm)" = ofText " Noise\x7b , Rain )(\x7d FM,x\x7d" ∧
      ofText "wave(Rain, snow)" ≠ .ok (.wave "Rain, snow") := by
  have read : ofText " Noise\x7b , Rain )(\x7d FM,x\x7d" = .ok (.wave "rain )(\x7d fm") := by
    rfl
  obtain ⟨fixed, stable⟩ := ofText_display_iff
  refine ⟨read, (stable _ _ read).2, fun same => ?_⟩
  have readable : Readable (.wave "Rain, snow") := (fixed (.wave "Rain, snow")).mp same
  exact readable.comma_not_mem (by decide)

end Mixdown.Effect
