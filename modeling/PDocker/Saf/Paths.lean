import PDocker.Context.DockerIgnore

/-!
# Relative paths of the shared documents

Every path that reaches the document provider or a record about it is checked first. A path that
passes is not changed.
-/

set_option autoImplicit false

namespace PDocker.Saf

open Data
open Context (isBlank)

inductive PathError where
  | nul
  | backslash
  | empty
  | absolute
  | emptySegment
  | dotSegment
  deriving DecidableEq, Repr

def rejectedExamples : String :=
  "; rejected examples=[../escape, /absolute, nested/../../escape, nested\\escape, nested//escape]"

def PathError.message (error : PathError) : String :=
  "Invalid SAF/Documents relative path: " ++
    match error with
    | .nul => "NUL byte is not allowed"
    | .backslash => "backslash separators are not allowed" ++ rejectedExamples
    | .empty => "empty path is not allowed"
    | .absolute => "absolute paths are not allowed"
    | .emptySegment => "empty path segments are not allowed"
    | .dotSegment => "traversal and dot segments are not allowed" ++ rejectedExamples

def admissiblePart (part : Text) : Bool := !(isBlank part || part = ['.'] || part = ['.', '.'])

def normalizeRelativePathOrThrow (path : Text) (allowRoot : Bool) : Except PathError Text :=
  if Char.ofNat 0 ∈ path then .error .nul
  else if '\\' ∈ path then .error .backslash
  else if isBlank path then if allowRoot then .ok [] else .error .empty
  else if path.head? = some '/' then .error .absolute
  else if contains ['/', '/'] path then .error .emptySegment
  else if (splitParts '/' path).all admissiblePart then .ok (['/'].intercalate (splitParts '/' path))
  else .error .dotSegment

theorem intercalate_splitParts (sep : Char) (text : Text) : [sep].intercalate (splitParts sep text) = text := by
  induction text with
  | nil => rfl
  | cons char rest ih =>
      rw [splitParts]
      cases parts : splitParts sep rest with
      | nil =>
          -- there is always a part
          rw [parts] at ih
          exact absurd parts (splitParts_ne_nil sep rest)
      | cons part parts' =>
          rw [parts] at ih
          by_cases same : char = sep
          · rw [if_pos same, intercalate_cons, ih, same, List.nil_append, List.singleton_append]
          rw [if_neg same]
          cases parts' with
          | nil =>
              rw [intercalate_singleton] at ih
              rw [intercalate_singleton, ih]
          | cons next parts' =>
              rw [intercalate_cons] at ih
              rw [intercalate_cons, List.cons_append, List.cons_append, ih]

theorem eq_of_normalizeRelativePathOrThrow {path normalized : Text}
    (passed : normalizeRelativePathOrThrow path false = .ok normalized) : normalized = path := by
  rw [normalizeRelativePathOrThrow] at passed
  split at passed
  · exact nomatch passed
  split at passed
  · exact nomatch passed
  split at passed
  · exact nomatch passed
  split at passed
  · exact nomatch passed
  split at passed
  · exact nomatch passed
  split at passed
  · exact (Except.ok.inj passed).symm.trans (intercalate_splitParts '/' path)
  · exact nomatch passed

def RelPath : Type := { path : Text // normalizeRelativePathOrThrow path false = .ok path }

namespace RelPath

instance : DecidableEq RelPath := inferInstanceAs (DecidableEq (Subtype _))

def parts (path : RelPath) : List Text := splitParts '/' path.val

end RelPath

def AdmissibleName (name : Text) : Prop :=
  admissiblePart name = true ∧ '/' ∉ name ∧ '\\' ∉ name ∧ Char.ofNat 0 ∉ name

instance : DecidablePred AdmissibleName := fun _ => inferInstanceAs (Decidable (_ ∧ _))

def joinNames (path : List Text) : Text := ['/'].intercalate path

variable {path : List Text} {char sep : Char} {part text : Text}

theorem joinNames_concat (filled : path ≠ []) (name : Text) :
    joinNames (path ++ [name]) = joinNames path ++ '/' :: name := by
  rw [joinNames, intercalate_concat filled, joinNames, List.append_assoc, List.singleton_append]

theorem mem_of_mem_splitParts (isPart : part ∈ splitParts sep text) (inside : char ∈ part) : char ∈ text := by
  induction text generalizing part with
  | nil =>
      rw [splitParts, List.mem_singleton] at isPart
      rw [isPart] at inside
      exact inside
  | cons first rest ih =>
      rw [splitParts] at isPart
      split at isPart
      · rcases List.mem_cons.mp isPart with rfl | later
        · exact absurd inside List.not_mem_nil
        · exact List.mem_cons_of_mem _ (ih later inside)
      split at isPart
      · rw [List.mem_singleton] at isPart
        rw [isPart, List.mem_singleton] at inside
        exact inside ▸ List.mem_cons_self
      rename_i next more same
      rw [same] at ih
      rcases List.mem_cons.mp isPart with rfl | later
      · rcases List.mem_cons.mp inside with rfl | deeper
        · exact List.mem_cons_self
        · exact List.mem_cons_of_mem _ (ih List.mem_cons_self deeper)
      · exact List.mem_cons_of_mem _ (ih (List.mem_cons_of_mem _ later) inside)

theorem not_mem_splitParts (isPart : part ∈ splitParts sep text) : sep ∉ part := by
  induction text generalizing part with
  | nil =>
      rw [splitParts, List.mem_singleton] at isPart
      rw [isPart]
      exact List.not_mem_nil
  | cons first rest ih =>
      rw [splitParts] at isPart
      split at isPart
      · rcases List.mem_cons.mp isPart with rfl | later
        · exact List.not_mem_nil
        · exact ih later
      rename_i other
      split at isPart
      · rw [List.mem_singleton] at isPart
        rw [isPart, List.mem_singleton]
        exact Ne.symm other
      rename_i next more same
      rw [same] at ih
      rcases List.mem_cons.mp isPart with rfl | later
      · rw [List.mem_cons]
        exact not_or.mpr ⟨Ne.symm other, ih List.mem_cons_self⟩
      · exact ih (List.mem_cons_of_mem _ later)

theorem mem_joinNames (inside : char ∈ joinNames path) : char = '/' ∨ ∃ name ∈ path, char ∈ name := by
  induction path with
  | nil => exact absurd inside List.not_mem_nil
  | cons name path ih =>
      cases path with
      | nil =>
          rw [joinNames, intercalate_singleton] at inside
          exact .inr ⟨name, List.mem_singleton_self name, inside⟩
      | cons next path =>
          rw [joinNames, intercalate_cons, List.mem_append, List.mem_append, List.mem_singleton] at inside
          rcases inside with (inside | sep) | inside
          · exact .inr ⟨name, List.mem_cons_self, inside⟩
          · exact .inl sep
          · rcases ih inside with sep | ⟨other, member, inside⟩
            · exact .inl sep
            · exact .inr ⟨other, List.mem_cons_of_mem _ member, inside⟩

theorem mem_joinNames_of_mem {name : Text} (member : name ∈ path) (inside : char ∈ name) : char ∈ joinNames path := by
  induction path with
  | nil => exact absurd member List.not_mem_nil
  | cons first path ih =>
      cases path with
      | nil =>
          obtain rfl := List.mem_singleton.mp member
          rw [joinNames, intercalate_singleton]
          exact inside
      | cons next path =>
          rw [joinNames, intercalate_cons, List.mem_append, List.mem_append]
          rcases List.mem_cons.mp member with rfl | later
          · exact .inl (.inl inside)
          · exact .inr (ih later)

theorem normalize_joinNames (filled : path ≠ []) (admissible : ∀ name ∈ path, AdmissibleName name)
    (allowRoot : Bool) : normalizeRelativePathOrThrow (joinNames path) allowRoot = .ok (joinNames path) := by
  have parts : splitParts '/' (joinNames path) = path :=
    splitParts_intercalate filled fun name member => (admissible name member).2.1
  have away : ∀ char, char ≠ '/' → (∀ name ∈ path, char ∉ name) → char ∉ joinNames path := by
    intro char other free inside
    rcases mem_joinNames inside with sep | ⟨name, member, inside⟩
    · exact other sep
    · exact free name member inside
  have empty : [] ∉ splitParts '/' (joinNames path) := by
    rw [parts]
    intro member
    exact nomatch (admissible [] member).1
  have noNul : Char.ofNat 0 ∉ joinNames path :=
    away _ (by decide) fun name member => (admissible name member).2.2.2
  have noBackslash : '\\' ∉ joinNames path :=
    away _ (by decide) fun name member => (admissible name member).2.2.1
  have visible : isBlank (joinNames path) = false := by
    obtain ⟨name, rest, rfl⟩ := List.exists_cons_of_ne_nil filled
    have passes := (admissible name List.mem_cons_self).1
    rw [admissiblePart, Bool.not_eq_true', Bool.or_eq_false_iff, Bool.or_eq_false_iff] at passes
    have filledName := passes.1.1
    rw [isBlank, List.all_eq_false] at filledName ⊢
    obtain ⟨char, inside, shown⟩ := filledName
    exact ⟨char, mem_joinNames_of_mem List.mem_cons_self inside, shown⟩
  have relative : (joinNames path).head? ≠ some '/' := by
    intro first
    obtain ⟨rest, same⟩ := List.head?_eq_some_iff.mp first
    rw [same, splitParts, if_pos rfl] at empty
    exact empty List.mem_cons_self
  have single : contains ['/', '/'] (joinNames path) = false := by
    rw [← Bool.not_eq_true, contains_iff]
    rintro ⟨left, right, same⟩
    rw [← same, List.append_assoc, List.cons_append, splitParts_append_sep, List.singleton_append, splitParts,
      if_pos rfl] at empty
    exact empty (List.mem_append_right _ List.mem_cons_self)
  have all : (splitParts '/' (joinNames path)).all admissiblePart = true := by
    rw [parts, List.all_eq_true]
    exact fun name member => (admissible name member).1
  rw [normalizeRelativePathOrThrow, if_neg noNul, if_neg noBackslash, visible, if_neg Bool.false_ne_true,
    if_neg relative, single, if_neg Bool.false_ne_true, if_pos all, parts]
  rfl

theorem RelPath.admissible (path : RelPath) : ∀ name ∈ path.parts, AdmissibleName name := by
  have passes := path.property
  rw [normalizeRelativePathOrThrow] at passes
  split at passes
  · exact nomatch passes
  rename_i noNul
  split at passes
  · exact nomatch passes
  rename_i noBackslash
  split at passes
  · exact nomatch passes
  split at passes
  · exact nomatch passes
  split at passes
  · exact nomatch passes
  split at passes
  · rename_i all
    intro name member
    exact ⟨List.all_eq_true.mp all name member, not_mem_splitParts member,
      fun inside => noBackslash (mem_of_mem_splitParts member inside),
      fun inside => noNul (mem_of_mem_splitParts member inside)⟩
  · exact nomatch passes

def RelPath.ofNames (path : List Text) (filled : path ≠ []) (admissible : ∀ name ∈ path, AdmissibleName name) : RelPath :=
  ⟨joinNames path, normalize_joinNames filled admissible false⟩

theorem RelPath.parts_ofNames (filled : path ≠ []) (admissible : ∀ name ∈ path, AdmissibleName name) :
    (RelPath.ofNames path filled admissible).parts = path :=
  splitParts_intercalate filled fun name member => (admissible name member).2.1

end PDocker.Saf
