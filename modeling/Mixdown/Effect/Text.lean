import Mixdown.Effect.Basic
import Mixdown.Text.Blank
import Mixdown.Text.Pieces

/-!
# Effects as text

In a recipe document an effect is a name with parameters in parentheses or
braces, such as `loop(3)` or `faraway{vol}`.  Names are read without regard to
the case of ASCII letters.
-/

namespace Mixdown

/-- Why a text, given without the blanks around it, is no effect. -/
inductive EffectError where
  | malformed (text : String)
  | badCount (text : String)
  | unknown (text : String)
deriving DecidableEq, Repr

def EffectError.message : EffectError → String
  | .malformed text => "malformed effect: " ++ text
  | .badCount text => "invalid loop count in effect: " ++ text
  | .unknown text => "unknown effect: " ++ text

namespace Effect

/-! ## Writing -/

def display : Effect → String
  | .loop count =>
      if count = endless then "loop" else "loop(" ++ toString count.toInt ++ ")"
  | .reverse => "reverse"
  | .faraway withVolume => if withVolume then "faraway(vol)" else "faraway"
  | .wave preset => "wave(" ++ preset ++ ")"
  | .mixDuration rule => rule.word

/-! ## Reading -/

/-- The parameters after an effect's name: nothing at all, or a list in
parentheses or braces, separated by commas, whose blank entries do not count. -/
def params? (text : List Char) : Option (List (List Char)) :=
  if text.isEmpty then
    some []
  else
    (Text.between? '(' ')' text <|> Text.between? '\x7b' '\x7d' text).map fun inner =>
      ((Text.splitAt ',' inner).map Text.trim).filter fun param => !param.isEmpty

/-- The effect of a name in lower case with its parameters; `text` is what the
whole was read from. -/
def ofParts (text name : String) (params : List (List Char)) : Except EffectError Effect :=
  if name = "loop" ∨ name = "repeat" then
    match params with
    | [] => .ok (.loop endless)
    | count :: _ =>
        match (Text.integer? count).bind Text.signed64? with
        | some count => .ok (.loop count)
        | none => .error (.badCount text)
  else if name = "backward" ∨ name = "reverse" then
    .ok .reverse
  else if name = "faraway" ∨ name = "distant" then
    .ok (.faraway (params.any fun param => Text.lowerCase param = ['v', 'o', 'l']))
  else if name = "wave" ∨ name = "noise" then
    match params with
    | [] => .ok (.wave defaultPreset)
    | preset :: _ => .ok (.wave (String.ofList (Text.lowerCase preset)))
  else
    match EndRule.words.lookup name with
    | some rule => .ok (.mixDuration rule)
    | none => .error (.unknown text)

/-- The effect a text stands for. -/
def ofText (raw : String) : Except EffectError Effect :=
  let text := Text.trim raw.toList
  match params? (text.dropWhile Char.isAlpha) with
  | none => .error (.malformed (String.ofList text))
  | some params =>
      let name := Text.lowerCase (text.takeWhile Char.isAlpha)
      ofParts (String.ofList text) (String.ofList name) params

end Effect

end Mixdown
