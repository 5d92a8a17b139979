import Mixdown.Text.Blank
import Mixdown.Text.Quoted

/-!
# Commands for a shell
-/

namespace Mixdown.Shell

/-- Characters besides blanks that make a word be quoted. -/
def marks : List Char :=
  ['\'', '"', '[', ']', ';', '$']

def needsQuotes (word : List Char) : Bool :=
  word.isEmpty || word.any fun c => Text.isBlank c || marks.contains c

def word (argument : String) : String :=
  if needsQuotes argument.toList then
    String.ofList (Text.singleQuoted argument.toList)
  else
    argument

/-- The words of a command line, a space between them. -/
def line (arguments : List String) : String :=
  String.intercalate " " (arguments.map word)

end Mixdown.Shell
