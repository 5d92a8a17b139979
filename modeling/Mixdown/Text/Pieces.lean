/-!
# Pieces of text
-/

namespace Mixdown.Text

/-- The pieces of a text between separators; there is always one more piece than
there are separators. -/
def splitAt (separator : Char) : List Char → List (List Char)
  | [] => [[]]
  | c :: rest =>
      if c = separator then
        [] :: splitAt separator rest
      else
        match splitAt separator rest with
        | piece :: others => (c :: piece) :: others
        | [] => [[c]]

/-- The text between an opening character at its start and a closing one at its
end. -/
def between? (opening closing : Char) : List Char → Option (List Char)
  | first :: rest =>
      if first = opening ∧ rest.getLast? = some closing then some rest.dropLast else none
  | [] => none

/-- Text with the capital letters of ASCII made small. -/
def lowerCase (text : List Char) : List Char :=
  text.map Char.toLower

/-- A text with the capital letters of ASCII made small. -/
def lower (text : String) : String :=
  String.ofList (lowerCase text.toList)

end Mixdown.Text
