import Mixdown.Machine
import Mixdown.Proofs.Keyed
import Mixdown.Proofs.Outcome

/-!
# Files put on a machine

A file that was put under a path is found under that path: what was a directory on the
way to it still is one.
-/

namespace Mixdown.Machine

/-! ## Entries along names -/

def IsDirectory (outcome : Except Obstacle Entry) : Prop :=
  ∃ contents, outcome = .ok (.directory contents)

/-- The contents of the directory that goes by a name; nothing if there is none. -/
def inside (name : String) (contents : List (String × Entry)) : List (String × Entry) :=
  match contents.lookup name with
  | some (.directory inner) => inner
  | _ => []

theorem find_cons
    (name : String) (rest : List String) (entry : Entry) :
    find (name :: rest) entry = find [name] entry >>= find rest := by
  cases entry with
  | file bytes => rfl
  | directory contents =>
      rw [find, find]
      split
      next => rfl
      next =>
        cases contents.lookup name with
        | some entry => rfl
        | none =>
            dsimp only
            split <;> rfl

theorem find_insertKey
    (name other : String) (entry : Entry) (contents : List (String × Entry)) :
    find [other] (.directory (insertKey name entry contents)) =
      if other = name then
        if isShort name then .ok entry else .error .blocked
      else
        find [other] (.directory contents) := by
  rw [find, lookup_insertKey]
  by_cases same : other = name
  · subst same
    cases isShort other <;> simp [find]
  · rw [if_neg same, if_neg same]
    conv_rhs => rw [find]

theorem isShort_of_find
    {name : String} {entry found : Entry} (finds : find [name] entry = .ok found) :
    isShort name = true := by
  cases entry with
  | file bytes => cases finds
  | directory contents =>
      rw [find] at finds
      split at finds
      next => cases finds
      next short => simpa using short

theorem isShort_of_mem_of_find
    {names : List String} {entry found : Entry} (finds : find names entry = .ok found) :
    ∀ name ∈ names, isShort name = true := by
  induction names generalizing entry with
  | nil => nofun
  | cons name rest inductionHypothesis =>
      rw [find_cons, bind_eq_ok_iff] at finds
      obtain ⟨next, here, later⟩ := finds
      exact List.forall_mem_cons.mpr ⟨isShort_of_find here, inductionHypothesis later⟩

/-- Only a directory leads on to one. -/
theorem exists_contents_of_find
    {names : List String} {entry : Entry} (leads : IsDirectory (find names entry)) :
    ∃ contents, entry = .directory contents := by
  cases entry with
  | directory contents => exact ⟨contents, rfl⟩
  | file bytes =>
      obtain ⟨contents, finds⟩ := leads
      cases names <;> cases finds

theorem inside_eq_of_find
    {name : String} {contents inner : List (String × Entry)}
    (finds : find [name] (.directory contents) = .ok (.directory inner)) :
    inside name contents = inner := by
  have short := isShort_of_find finds
  rw [find, short] at finds
  rw [inside]
  cases looked : contents.lookup name with
  | some entry =>
      rw [looked] at finds
      cases finds
      rfl
  | none =>
      rw [looked] at finds
      cases given : isGiven name with
      | true =>
          rw [given] at finds
          cases finds
          rfl
      | false =>
          rw [given] at finds
          cases finds

/-! ## Putting an entry -/

theorem put_cons_cons
    (entry : Entry) (name next : String) (rest : List String)
    (contents : List (String × Entry)) :
    put entry (name :: next :: rest) contents =
      insertKey name (.directory (put entry (next :: rest) (inside name contents))) contents :=
  rfl

/-- What was put is found. -/
theorem find_put
    (entry : Entry) {names : List String} (contents : List (String × Entry))
    (some_name : names ≠ []) (short : ∀ name ∈ names, isShort name = true) :
    find names (.directory (put entry names contents)) = .ok entry := by
  induction names generalizing contents with
  | nil => exact absurd rfl some_name
  | cons name rest inductionHypothesis =>
      obtain ⟨shortName, shortRest⟩ := List.forall_mem_cons.mp short
      cases rest with
      | nil =>
          rw [put, find_insertKey, if_pos rfl, if_pos shortName]
      | cons next others =>
          rw [put_cons_cons, find_cons, find_insertKey, if_pos rfl, if_pos shortName]
          exact inductionHypothesis _ (List.cons_ne_nil _ _) shortRest

/-- A directory stays one when a file is put where there is no directory. -/
theorem isDirectory_find_put
    {bytes : ByteArray} {names target : List String} {contents : List (String × Entry)}
    (free : ¬ IsDirectory (find target (.directory contents)))
    (directory : IsDirectory (find names (.directory contents))) :
    IsDirectory (find names (.directory (put (.file bytes) target contents))) := by
  induction target generalizing names contents with
  | nil => exact absurd ⟨contents, rfl⟩ free
  | cons name rest inductionHypothesis =>
      cases names with
      | nil => exact ⟨_, rfl⟩
      | cons other others =>
          obtain ⟨final, finds⟩ := directory
          rw [find_cons, bind_eq_ok_iff] at finds
          obtain ⟨entry, here, later⟩ := finds
          obtain ⟨inner, rfl⟩ := exists_contents_of_find ⟨final, later⟩
          rw [find_cons] at free ⊢
          by_cases same : other = name
          · subst same
            have short := isShort_of_find here
            rw [here] at free
            cases rest with
            | nil => exact absurd ⟨inner, rfl⟩ free
            | cons next more =>
                rw [put_cons_cons, find_insertKey, if_pos rfl, if_pos short,
                  inside_eq_of_find here]
                exact inductionHypothesis free ⟨final, later⟩
          · have kept : find [other] (.directory (put (.file bytes) (name :: rest) contents)) =
                .ok (.directory inner) := by
              cases rest with
              | nil => rw [put, find_insertKey, if_neg same, here]
              | cons next more => rw [put_cons_cons, find_insertKey, if_neg same, here]
            rw [kept]
            exact ⟨final, later⟩

/-! ## Ways -/

variable {machine after : Machine}

theorem directoryAt_eq_ok_iff {place found : Place} :
    machine.directoryAt place = .ok found ↔ found = place ∧ IsDirectory (machine.entry place) := by
  rw [directoryAt, bind_eq_ok_iff]
  constructor
  · rintro ⟨entry, here, found⟩
    cases entry with
    | file bytes => cases found
    | directory contents =>
        cases found
        exact ⟨rfl, contents, here⟩
  · rintro ⟨rfl, contents, here⟩
    exact ⟨.directory contents, here, rfl⟩

/-- All directories of one machine are directories of the other. -/
def KeepsDirectories (machine after : Machine) : Prop :=
  ∀ place, IsDirectory (machine.entry place) → IsDirectory (after.entry place)

theorem KeepsDirectories.directoryAt
    (keeps : machine.KeepsDirectories after) {place found : Place}
    (leads : machine.directoryAt place = .ok found) : after.directoryAt place = .ok found := by
  rw [directoryAt_eq_ok_iff] at leads ⊢
  exact ⟨leads.1, keeps place leads.2⟩

theorem KeepsDirectories.follow
    (keeps : machine.KeepsDirectories after) {place found : Place} {piece : String}
    (leads : machine.follow place piece = .ok found) : after.follow place piece = .ok found := by
  rw [Machine.follow] at leads ⊢
  split
  next upwards =>
    rw [if_pos upwards] at leads
    cases here : machine.directoryAt place with
    | error obstacle =>
        rw [here] at leads
        cases leads
    | ok outer =>
        rw [here] at leads
        rw [keeps.directoryAt here]
        exact leads
  next inwards =>
    rw [if_neg inwards] at leads
    exact leads

theorem KeepsDirectories.foldlM_follow
    (keeps : machine.KeepsDirectories after) {place found : Place} {pieces : List String}
    (leads : pieces.foldlM machine.follow place = .ok found) :
    pieces.foldlM after.follow place = .ok found := by
  induction pieces generalizing place with
  | nil => exact leads
  | cons piece rest inductionHypothesis =>
      rw [List.foldlM_cons, bind_eq_ok_iff] at leads ⊢
      obtain ⟨next, here, later⟩ := leads
      exact ⟨next, keeps.follow here, inductionHypothesis later⟩

theorem isDirectory_of_walk
    {path : String} {pieces : List String} {place : Place}
    (leads : machine.walk path pieces = .ok place) : IsDirectory (machine.entry place) := by
  rw [walk] at leads
  split at leads
  next =>
    obtain ⟨start, _, here⟩ := bind_eq_ok_iff.mp leads
    obtain ⟨rfl, directory⟩ := directoryAt_eq_ok_iff.mp here
    exact directory
  next => cases leads

theorem KeepsDirectories.walk
    (keeps : machine.KeepsDirectories after) {path : String} {pieces : List String}
    {place : Place} (leads : machine.walk path pieces = .ok place) :
    after.walk path pieces = .ok place := by
  rw [Machine.walk] at leads ⊢
  split
  next isPath =>
    rw [if_pos isPath] at leads
    obtain ⟨start, along, here⟩ := bind_eq_ok_iff.mp leads
    exact bind_eq_ok_iff.mpr ⟨start, keeps.foldlM_follow along, keeps.directoryAt here⟩
  next noPath =>
    rw [if_neg noPath] at leads
    cases leads

/-! ## Files -/

theorem filePlace?_eq_some_iff {path : String} {place : Place} :
    machine.filePlace? path = some place ↔
      ∃ directory name, machine.walk path (pathPieces path).dropLast = .ok directory ∧
        (pathPieces path).getLast? = some name ∧ isName name = true ∧
          place = name :: directory := by
  rw [filePlace?]
  constructor
  · intro found
    split at found
    next directory name leads last =>
      split at found
      next named =>
        cases found
        exact ⟨directory, name, leads, last, named, rfl⟩
      next => cases found
    next => cases found
  · rintro ⟨directory, name, leads, last, named, rfl⟩
    simp only [leads, last, named, if_true]

/-- A file that was put is there, with all that was put into it. -/
theorem fileBytes?_of_putFile
    {path : String} {bytes : ByteArray} (puts : machine.putFile path bytes = some after) :
    after.fileBytes? path = some bytes := by
  obtain ⟨place, placed, written⟩ := Option.bind_eq_some_iff.mp puts
  have free : ¬ IsDirectory (machine.entry place) := by
    rintro ⟨contents, directory⟩
    rw [directory] at written
    cases written
  have equality : machine.putEntry place (.file bytes) = after := by
    split at written
    next => cases written
    next => exact Option.some.inj written
  obtain ⟨directory, name, leads, last, named, rfl⟩ := filePlace?_eq_some_iff.mp placed
  have keeps : machine.KeepsDirectories after := by
    intro other isDirectory
    rw [← equality]
    exact isDirectory_find_put free isDirectory
  have samePlace : after.filePlace? path = some (name :: directory) :=
    filePlace?_eq_some_iff.mpr ⟨directory, name, keeps.walk leads, last, named, rfl⟩
  have short : ∀ other ∈ (name :: directory).reverse, isShort other = true := by
    obtain ⟨contents, onTheWay⟩ := isDirectory_of_walk leads
    have shortWay := isShort_of_mem_of_find onTheWay
    have shortName : isShort name = true := by
      simp only [isName, Bool.and_eq_true] at named
      exact named.1.1.1
    intro other member
    rcases List.mem_cons.mp (List.mem_reverse.mp member) with rfl | onWay
    · exact shortName
    · exact shortWay other (List.mem_reverse.mpr onWay)
  have found : after.entry (name :: directory) = .ok (.file bytes) := by
    rw [← equality]
    exact find_put _ _ (by simp) short
  rw [fileBytes?, samePlace, Option.bind_eq_bind, Option.bind_some, found]

end Mixdown.Machine
