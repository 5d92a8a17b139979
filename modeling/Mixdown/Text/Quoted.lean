/-!
# Text in single quotes
-/

namespace Mixdown.Text

/-- Text inside single quotes, where a quote closes them, stands escaped, and
opens them again. -/
def singleQuoted (text : List Char) : List Char :=
  '\'' :: text.flatMap (fun c => if c = '\'' then ['\'', '\\', '\'', '\''] else [c]) ++ ['\'']

end Mixdown.Text
