import Mixdown.Text.Pieces

/-!
# File paths

A path is a text.  Names of files that are not valid UTF-8 are left out: they would have to
be shown with replacement characters, and different ones could look alike.
-/

namespace Mixdown

def isAbsolute (path : String) : Bool :=
  path.toList.head? = some '/'

/-- A path seen from a directory; an absolute path stays as it is. -/
def joinPath (directory path : String) : String :=
  if isAbsolute path then
    path
  else if directory.isEmpty || directory.toList.getLast? = some '/' then
    directory ++ path
  else
    directory ++ "/" ++ path

/-- The pieces of a path between slashes. -/
def pathPieces (path : String) : List String :=
  (Text.splitAt '/' path.toList).map String.ofList

/-- The names in a path; a single dot stands for no name. -/
def pathNames (path : String) : List String :=
  (pathPieces path).filter fun piece => piece ≠ "" ∧ piece ≠ "."

/-- The path along some names, from the root or from the working directory. -/
def pathAlong (absolute : Bool) (names : List String) : String :=
  (if absolute then "/" else "") ++ "/".intercalate names

/-- The directory that a path lies in; empty for a bare name. -/
def parentPath (path : String) : String :=
  pathAlong (isAbsolute path) (pathNames path).dropLast

/-- The paths along some names, given the last first, and along all but the last of
them, and so on. -/
def pathsAlong (absolute : Bool) : List String → List String
  | [] => []
  | name :: before =>
      pathAlong absolute (name :: before).reverse :: pathsAlong absolute before

/-- The directories that a path lies in, the innermost first. -/
def pathsAbove (path : String) : List String :=
  pathsAlong (isAbsolute path) (pathNames path).reverse.tail

end Mixdown
