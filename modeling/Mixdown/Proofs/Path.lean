import Mixdown.Path
import Mixdown.Proofs.Text.Pieces

/-!
# Names seen from a directory

A file name that starts at the root stands for itself, and any other one for a path that
goes through the directory and on along the name.
-/

namespace Mixdown

/-- A directory that names in it are written right after: the working directory, which has
no name, or one with a slash at its end. -/
def EndsOpen (directory : String) : Prop :=
  directory = "" ∨ ∃ before, directory = before ++ "/"

/-- The path that a file name stands for in a directory. -/
inductive Resolves (directory name : String) : String → Prop
  | rooted {rest : String} (starts : name = "/" ++ rest) : Resolves directory name name
  | after (notRooted : ∀ rest, name ≠ "/" ++ rest) (endsOpen : EndsOpen directory) :
      Resolves directory name (directory ++ name)
  | below (notRooted : ∀ rest, name ≠ "/" ++ rest) (notOpen : ¬ EndsOpen directory) :
      Resolves directory name (directory ++ "/" ++ name)

/-! ## Joining -/

theorem isAbsolute_iff {path : String} : isAbsolute path = true ↔ ∃ rest, path = "/" ++ rest := by
  rw [isAbsolute, decide_eq_true_iff, List.head?_eq_some_iff]
  constructor
  · rintro ⟨rest, listed⟩
    refine ⟨String.ofList rest, String.toList_injective ?_⟩
    rw [listed, String.toList_append, String.toList_ofList]
    simp
  · rintro ⟨rest, rfl⟩
    exact ⟨rest.toList, String.toList_append⟩

theorem endsOpen_iff {directory : String} :
    EndsOpen directory ↔
      (directory.isEmpty || decide (directory.toList.getLast? = some '/')) = true := by
  rw [Bool.or_eq_true, decide_eq_true_iff, String.isEmpty_iff, List.getLast?_eq_some_iff]
  apply or_congr_right
  constructor
  · rintro ⟨before, rfl⟩
    exact ⟨before.toList, String.toList_append⟩
  · rintro ⟨before, listed⟩
    refine ⟨String.ofList before, String.toList_injective ?_⟩
    rw [listed, String.toList_append, String.toList_ofList]
    simp

theorem resolves_joinPath (directory name : String) :
    Resolves directory name (joinPath directory name) := by
  by_cases absolute : isAbsolute name = true
  · rw [joinPath, if_pos absolute]
    obtain ⟨rest, starts⟩ := isAbsolute_iff.mp absolute
    exact .rooted starts
  · have notRooted : ∀ rest, name ≠ "/" ++ rest :=
      fun rest starts => absolute (isAbsolute_iff.mpr ⟨rest, starts⟩)
    rw [joinPath, if_neg absolute]
    by_cases endsOpen : EndsOpen directory
    · rw [if_pos (endsOpen_iff.mp endsOpen)]
      exact .after notRooted endsOpen
    · rw [if_neg fun joins => endsOpen (endsOpen_iff.mpr joins)]
      exact .below notRooted endsOpen

/-- A name stands for one path only. -/
theorem Resolves.unique {directory name path other : String}
    (resolves : Resolves directory name path) (otherResolves : Resolves directory name other) :
    path = other := by
  cases resolves with
  | rooted starts =>
      cases otherResolves with
      | rooted => rfl
      | after notRooted => exact absurd starts (notRooted _)
      | below notRooted => exact absurd starts (notRooted _)
  | after notRooted endsOpen =>
      cases otherResolves with
      | rooted starts => exact absurd starts (notRooted _)
      | after => rfl
      | below _ notOpen => exact absurd endsOpen notOpen
  | below notRooted notOpen =>
      cases otherResolves with
      | rooted starts => exact absurd starts (notRooted _)
      | after _ endsOpen => exact absurd endsOpen notOpen
      | below => rfl

theorem resolves_iff {directory name path : String} :
    Resolves directory name path ↔ joinPath directory name = path := by
  constructor
  · exact (resolves_joinPath directory name).unique
  · rintro rfl
    exact resolves_joinPath directory name

example : joinPath "content" "wind/gale.wav" = "content/wind/gale.wav" := by
  rfl

example : joinPath "content" "/wind/gale.wav" = "/wind/gale.wav" := by
  rfl

/-! ## Names along a path -/

theorem pathNames_append_slash (before after : String) :
    pathNames (before ++ "/" ++ after) = pathNames before ++ pathNames after := by
  have listed : (before ++ "/" ++ after).toList = before.toList ++ '/' :: after.toList := by
    simp
  rw [pathNames, pathPieces, listed, Text.splitAt_append, List.map_append, List.filter_append]
  rfl

theorem pathNames_of_endsOpen {directory : String} (endsOpen : EndsOpen directory)
    (name : String) : pathNames (directory ++ name) = pathNames directory ++ pathNames name := by
  rcases endsOpen with rfl | ⟨before, rfl⟩
  · rw [String.empty_append]
    rfl
  · have closed : pathNames (before ++ "/") = pathNames before ++ pathNames "" := by
      rw [← pathNames_append_slash, String.append_empty]
    rw [pathNames_append_slash, closed, List.append_assoc]
    rfl

theorem isAbsolute_append {directory : String} (named : directory ≠ "") (rest : String) :
    isAbsolute (directory ++ rest) = isAbsolute directory := by
  have notEmpty : directory.toList ≠ [] := by
    rwa [ne_eq, String.toList_eq_nil_iff]
  rw [isAbsolute, isAbsolute, String.toList_append, List.head?_append_of_ne_nil _ notEmpty]

/-- A name that does not start at the root leads along the directory, and then along its
own names. -/
theorem Resolves.pathNames_eq {directory name path : String}
    (resolves : Resolves directory name path) (notRooted : isAbsolute name = false) :
    pathNames path = pathNames directory ++ pathNames name ∧
      isAbsolute path = isAbsolute directory := by
  cases resolves with
  | rooted starts =>
      rw [isAbsolute_iff.mpr ⟨_, starts⟩] at notRooted
      cases notRooted
  | after _ endsOpen =>
      refine ⟨pathNames_of_endsOpen endsOpen name, ?_⟩
      by_cases named : directory = ""
      · rw [named, String.empty_append, notRooted]
        rfl
      · exact isAbsolute_append named name
  | below _ notOpen =>
      refine ⟨pathNames_append_slash directory name, ?_⟩
      rw [String.append_assoc]
      exact isAbsolute_append (fun empty => notOpen (Or.inl empty)) _

end Mixdown
