import Mixdown.Proofs.Signal.Places
import Mixdown.Proofs.Text.Pieces

/-!
# Names of signals

The signals of a chain are named after the clip or the track that the chain is for.  Read
from the front, piece by piece between underscores, a label tells the name of its chain;
so labels of different chains never meet, and those of one chain only in their suffix.
-/

namespace Mixdown

namespace LabelPool

/-! ## Pieces of labels -/

/-- The pieces of a label between its underscores. -/
def pieces (label : String) : List (List Char) :=
  Text.splitAt '_' label.toList

theorem pieces_injective : Function.Injective pieces :=
  fun _ _ equal => String.toList_inj.mp (Text.splitAt_injective '_' equal)

theorem pieces_append (label ending : String) :
    pieces (label ++ "_" ++ ending) = pieces label ++ pieces ending := by
  have shape : (label ++ "_" ++ ending).toList = label.toList ++ '_' :: ending.toList := by
    simp
  rw [pieces, shape, Text.splitAt_append]
  rfl

theorem pieces_of_not_mem {label : String} (whole : '_' ∉ label.toList) :
    pieces label = [label.toList] :=
  Text.splitAt_of_not_mem whole

def hasDigit (piece : List Char) : Bool :=
  piece.any Char.isDigit

theorem hasDigit_toString (value : Nat) : hasDigit (toString value).toList = true := by
  rw [Nat.toString_eq_repr, Nat.toList_repr]
  obtain ⟨digit, member⟩ := List.exists_mem_of_ne_nil _ (Nat.toDigits_ne_nil (b := 10) (n := value))
  exact List.any_eq_true.mpr ⟨digit, member, Text.isDigit_of_mem_toDigits member⟩

theorem hasDigit_place (track : UInt64) (position : Nat) :
    hasDigit (place track position).toList = true := by
  have digits := hasDigit_toString position
  rw [hasDigit, List.any_eq_true] at digits ⊢
  obtain ⟨digit, member, isDigit⟩ := digits
  refine ⟨digit, ?_, isDigit⟩
  rw [toList_place]
  exact List.mem_cons_of_mem _ (List.mem_append_right _ (List.mem_cons_of_mem _ member))

theorem pieces_toString (value : Nat) : pieces (toString value) = [(toString value).toList] :=
  pieces_of_not_mem (not_mem_toList_toString (by decide) value)

theorem pieces_place (track : UInt64) (position : Nat) :
    pieces (place track position) = [(place track position).toList] :=
  pieces_of_not_mem (underscore_not_mem_place track position)

/-! ## Labels in a chain -/

/-- The label of a signal in the chain called `base`, where so many signals before it have
the same suffix. -/
def chainLabel (base suffix : String) (repeats : Nat) : String :=
  if repeats = 0 then base ++ "_" ++ suffix else numbered (base ++ "_" ++ suffix) repeats

theorem exists_chainLabel_eq_append (base suffix : String) (repeats : Nat) :
    ∃ rest, chainLabel base suffix repeats = base ++ rest := by
  unfold chainLabel numbered
  split
  · exact ⟨_, String.append_assoc⟩
  · simp only [String.append_assoc]
    exact ⟨_, rfl⟩

/-- A suffix is no place and no number, and neither is a piece of it. -/
def IsPlain (suffix : String) : Prop :=
  ∀ c ∈ suffix.toList, c.isDigit = false

instance (suffix : String) : Decidable (IsPlain suffix) :=
  List.decidableBAll (fun c : Char => c.isDigit = false) suffix.toList

theorem IsPlain.hasDigit_eq {suffix : String} (plain : IsPlain suffix) {piece : List Char}
    (member : piece ∈ pieces suffix) : hasDigit piece = false := by
  rw [hasDigit, List.any_eq_false]
  intro c within
  simp [plain c (Text.mem_of_mem_splitAt member within)]

/-- The pieces of a number that stands after a suffix; nought is not written. -/
def numberPieces (number : Nat) : List (List Char) :=
  if number = 0 then [] else [(toString number).toList]

theorem hasDigit_of_mem_numberPieces {number : Nat} {piece : List Char}
    (member : piece ∈ numberPieces number) : hasDigit piece = true := by
  unfold numberPieces at member
  split at member
  · cases member
  · rw [List.mem_singleton.mp member]
    exact hasDigit_toString number

theorem numberPieces_injective : Function.Injective numberPieces := by
  intro number other equal
  unfold numberPieces at equal
  split at equal <;> split at equal
  · omega
  · cases equal
  · cases equal
  · exact Text.toString_injective (String.toList_inj.mp (List.cons.inj equal).1)

theorem pieces_chainLabel (base suffix : String) (number : Nat) :
    pieces (chainLabel base suffix number) =
      pieces base ++ (pieces suffix ++ numberPieces number) := by
  unfold chainLabel numberPieces
  split
  · rw [pieces_append, List.append_nil]
  · rw [numbered, pieces_append, pieces_append, pieces_toString, List.append_assoc]

/-- What stands after the name of a chain: nothing, or pieces of which the first is no
place. -/
def IsEnding (ending : List (List Char)) : Prop :=
  ∀ piece, ending.head? = some piece → hasDigit piece = false

theorem isEnding_nil : IsEnding [] :=
  nofun

theorem IsPlain.isEnding {suffix : String} (plain : IsPlain suffix) (number : Nat) :
    IsEnding (pieces suffix ++ numberPieces number) := by
  intro piece first
  have named : pieces suffix ≠ [] := Text.splitAt_ne_nil '_' suffix.toList
  rw [List.head?_append_of_ne_nil _ named] at first
  exact plain.hasDigit_eq (List.mem_of_head? first)

/-- A suffix and a number are told apart by their digits. -/
theorem ending_inj
    {suffix other : String} {number otherNumber : Nat} (plain : IsPlain suffix)
    (otherPlain : IsPlain other)
    (equal : pieces suffix ++ numberPieces number = pieces other ++ numberPieces otherNumber) :
    suffix = other ∧ number = otherNumber := by
  have lettered {text : String} (plain : IsPlain text) :
      ∀ piece ∈ pieces text, (!hasDigit piece) = true :=
    fun piece member => by rw [plain.hasDigit_eq member]; rfl
  have numeric (number : Nat) : ∀ piece ∈ numberPieces number, (!hasDigit piece) = false :=
    fun piece member => by rw [hasDigit_of_mem_numberPieces member]; rfl
  obtain ⟨suffixes, numbers⟩ :=
    append_kinds_inj (lettered plain) (lettered otherPlain) (numeric _) (numeric _) equal
  exact ⟨pieces_injective suffixes, numberPieces_injective numbers⟩

end LabelPool

/-! ## Names of chains -/

open LabelPool

/-- What a chain is for: a clip that plays a file, a silent clip, or a whole track. -/
inductive Origin where
  | file (filename : String) (index : UInt64) (position : Nat)
  | silence (index : UInt64) (position : Nat)
  | track (index : UInt64)

namespace Origin

/-- The index of the track, with the position of the clip on it. -/
def owner : Origin → UInt64 × Option Nat
  | .file _ index position => (index, some position)
  | .silence index position => (index, some position)
  | .track index => (index, none)

def isFile : Origin → Bool
  | .file .. => true
  | _ => false

/-- The name of a chain, where the files before it got the labels in `taken`. -/
def base (taken : List String) : Origin → String
  | .file filename index position =>
      let base := fileBase filename index position
      if base ∈ taken then base ++ "_" ++ place index position else base
  | .silence index position => silenceLabel index position
  | .track index => trackBase index

/-- The names that a chain can have. -/
def IsCalled (base : String) : Origin → Prop
  | .file filename index position =>
      base = fileBase filename index position ∨
        base = fileBase filename index position ++ "_" ++ place index position
  | .silence index position => base = silenceLabel index position
  | .track index => base = trackBase index

theorem isCalled_base (taken : List String) (origin : Origin) :
    origin.IsCalled (origin.base taken) := by
  cases origin with
  | file filename index position =>
      rw [base]
      split
      · exact Or.inr rfl
      · exact Or.inl rfl
  | silence index position => rfl
  | track index => rfl

/-- The letter that all names of such a chain start with. -/
def initial : Origin → Char
  | .file .. => 'i'
  | .silence .. => 's'
  | .track .. => 't'

variable {origin other : Origin} {name : String}

theorem isFile_of_initial_eq (equal : origin.initial = 'i') : origin.isFile = true := by
  cases origin with
  | file => rfl
  | silence | track => exact absurd equal (by simp [initial])

theorem IsCalled.head?_eq (called : origin.IsCalled name) :
    name.toList.head? = some origin.initial := by
  cases origin with
  | file filename index position =>
      rcases called with rfl | rfl
      · rw [fileBase, String.toList_append]
        rfl
      · rw [fileBase, String.toList_append, String.toList_append, String.toList_append]
        rfl
  | silence index position =>
      cases called
      rw [silenceLabel, String.toList_append]
      rfl
  | track index =>
      cases called
      rw [trackBase, String.toList_append]
      rfl

/-! ## Names in pieces -/

theorem exists_pieces_fileBase (filename : String) (index : UInt64) (position : Nat) :
    ∃ piece, pieces (fileBase filename index position) = [['i', 'n'], piece] := by
  have shape (text : String) : "in_" ++ text = "in" ++ "_" ++ text :=
    rfl
  rw [fileBase, shape, pieces_append]
  split
  · rw [pieces_place]
    exact ⟨_, rfl⟩
  · have whole : '_' ∉ (alphanumerics filename).toList := by
      rw [alphanumerics, String.toList_ofList]
      exact fun member => absurd (List.mem_filter.mp member).2 (by decide)
    rw [pieces_of_not_mem whole]
    exact ⟨_, rfl⟩

theorem pieces_silenceLabel (index : UInt64) (position : Nat) :
    pieces (silenceLabel index position) =
      ["silence".toList, (place index position).toList] := by
  have shape (text : String) : "silence_" ++ text = "silence" ++ "_" ++ text :=
    rfl
  rw [silenceLabel, shape, pieces_append, pieces_place]
  rfl

theorem pieces_trackBase (index : UInt64) :
    pieces (trackBase index) = [(trackBase index).toList] := by
  apply pieces_of_not_mem
  rw [trackBase, String.toList_append, List.mem_append, not_or]
  exact ⟨by decide, not_mem_toList_toString (by decide) index.toNat⟩

/-- How many of the pieces of a label make up the name of its chain: a file has a third one
if that is a place. -/
def nameLength : List (List Char) → Nat
  | [] => 0
  | first :: rest =>
      if first = ['i', 'n'] then
        if rest[1]?.any hasDigit then 3 else 2
      else if first = "silence".toList then
        2
      else
        1

theorem IsCalled.nameLength_eq
    (called : origin.IsCalled name) {ending : List (List Char)} (isEnding : IsEnding ending) :
    nameLength (pieces name ++ ending) = (pieces name).length := by
  cases origin with
  | file filename index position =>
      obtain ⟨piece, shape⟩ := exists_pieces_fileBase filename index position
      rcases called with rfl | rfl
      · rw [shape]
        cases ending with
        | nil => rfl
        | cons first rest =>
            have noPlace := isEnding first rfl
            simp [nameLength, noPlace]
      · rw [pieces_append, shape, pieces_place]
        simp [nameLength, hasDigit_place]
  | silence index position =>
      cases called
      rw [pieces_silenceLabel]
      rfl
  | track index =>
      have initial := called.head?_eq
      cases called
      have apart {text : List Char} (first : text.head? ≠ some 't') :
          (trackBase index).toList ≠ text := by
        rintro rfl
        exact first initial
      rw [pieces_trackBase, List.singleton_append, nameLength, if_neg (apart (by decide)),
        if_neg (apart (by decide))]
      rfl

/-- Read from the front, a label tells the name of its chain. -/
theorem IsCalled.append_inj
    {otherName : String} (called : origin.IsCalled name) (otherCalled : other.IsCalled otherName)
    {ending otherEnding : List (List Char)} (isEnding : IsEnding ending)
    (otherIsEnding : IsEnding otherEnding)
    (equal : pieces name ++ ending = pieces otherName ++ otherEnding) :
    name = otherName ∧ ending = otherEnding := by
  have lengths : (pieces name).length = (pieces otherName).length := by
    rw [← called.nameLength_eq isEnding, equal, otherCalled.nameLength_eq otherIsEnding]
  obtain ⟨names, endings⟩ := List.append_inj equal lengths
  exact ⟨pieces_injective names, endings⟩

theorem IsCalled.chainLabel_inj
    {otherName suffix otherSuffix : String} {number otherNumber : Nat}
    (called : origin.IsCalled name) (otherCalled : other.IsCalled otherName)
    (plain : IsPlain suffix) (otherPlain : IsPlain otherSuffix)
    (equal : chainLabel name suffix number = chainLabel otherName otherSuffix otherNumber) :
    name = otherName ∧ suffix = otherSuffix ∧ number = otherNumber := by
  have split := congrArg pieces equal
  rw [pieces_chainLabel, pieces_chainLabel] at split
  obtain ⟨names, endings⟩ :=
    called.append_inj otherCalled (plain.isEnding number) (otherPlain.isEnding otherNumber) split
  exact ⟨names, ending_inj plain otherPlain endings⟩

/-- No signal further down a chain is called like a chain. -/
theorem IsCalled.chainLabel_ne
    {otherName suffix : String} {number : Nat} (called : origin.IsCalled name)
    (otherCalled : other.IsCalled otherName) (plain : IsPlain suffix) :
    chainLabel name suffix number ≠ otherName := by
  intro equal
  have split := congrArg pieces equal
  rw [pieces_chainLabel, ← List.append_nil (pieces otherName)] at split
  obtain ⟨_, endings⟩ :=
    called.append_inj otherCalled (plain.isEnding number) isEnding_nil split
  exact Text.splitAt_ne_nil '_' suffix.toList (List.append_eq_nil_iff.mp endings).1

theorem trackBase_inj {index another : UInt64} (equal : trackBase index = trackBase another) :
    index = another :=
  UInt64.toNat_inj.mp (Text.toString_injective ((String.append_right_inj "track").mp equal))

/-- A name with a place is that of the clip in this place only. -/
theorem owner_eq_of_placed
    {filename : String} {index : UInt64} {position : Nat} (otherCalled : other.IsCalled name)
    (otherIsFile : other.isFile = true)
    (placed : name = fileBase filename index position ++ "_" ++ place index position) :
    other.owner = (index, some position) := by
  obtain ⟨piece, shape⟩ := exists_pieces_fileBase filename index position
  have nameShape : pieces name = [['i', 'n'], piece, (place index position).toList] := by
    rw [placed, pieces_append, shape, pieces_place]
    rfl
  cases other with
  | file otherFilename otherIndex otherPosition =>
      obtain ⟨otherPiece, otherShape⟩ :=
        exists_pieces_fileBase otherFilename otherIndex otherPosition
      rcases otherCalled with rfl | rfl
      · rw [otherShape] at nameShape
        cases nameShape
      · rw [pieces_append, otherShape, pieces_place] at nameShape
        simp only [List.cons_append, List.nil_append, List.cons.injEq, String.toList_inj, and_true,
          true_and] at nameShape
        obtain ⟨rfl, rfl⟩ := place_inj nameShape.2
        rfl
  | silence | track => cases otherIsFile

/-- Only chains of files can have one name and different owners, and then their names are
without a place. -/
theorem IsCalled.exists_file
    (called : origin.IsCalled name) (otherCalled : other.IsCalled name)
    (different : origin.owner ≠ other.owner) :
    other.isFile = true ∧
      ∃ filename index position, origin = .file filename index position ∧
        name = fileBase filename index position := by
  have initials : origin.initial = other.initial :=
    Option.some.inj (called.head?_eq.symm.trans otherCalled.head?_eq)
  cases origin with
  | file filename index position =>
      have otherIsFile := isFile_of_initial_eq initials.symm
      rcases called with bare | placed
      · exact ⟨otherIsFile, _, _, _, rfl, bare⟩
      · exact absurd (owner_eq_of_placed otherCalled otherIsFile placed).symm different
  | silence index position =>
      cases other with
      | silence otherIndex otherPosition =>
          obtain ⟨rfl, rfl⟩ := silenceLabel_inj (called.symm.trans otherCalled)
          exact absurd rfl different
      | file | track => exact absurd initials (by simp [initial])
  | track index =>
      cases other with
      | track otherIndex =>
          obtain rfl := trackBase_inj (called.symm.trans otherCalled)
          exact absurd rfl different
      | file | silence => exact absurd initials (by simp [initial])

end Origin

end Mixdown
