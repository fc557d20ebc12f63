import PDocker.Archive.Source

/-!
# The source of a path and the overlay

The source that the archive endpoint finds for a path is what the overlay of
the two trees shows there, unless the path has one of four defects.
-/

set_option autoImplicit false

namespace PDocker.Archive

open Posix Overlay

def PlainPath (rel : Path) : Prop := ∀ name ∈ rel, PlainName name

instance : DecidablePred PlainPath := fun _ => inferInstanceAs (Decidable (∀ _ ∈ _, _))

section
variable {fs : FS} {cow : Cow} {rel : Path}

variable (plain : PlainPath rel)

include plain

theorem archiveRelParts_of_plain : archiveRelParts rel = rel := by
  rw [archiveRelParts, List.filter_eq_self]
  intro part member
  simp [(plain part member).1, (plain part member).2.1]

theorem internal_of_plain :
    archiveIsInternalWhiteoutPath rel = hasMarker rel := by
  rw [archiveIsInternalWhiteoutPath, archiveRelParts_of_plain plain, hasMarker]

theorem hiddenByWhiteout_of_plain (unmarked : hasMarker rel = false) :
    cowPathHiddenByWhiteout fs cow rel = hiddenByMarker fs cow.upper rel := by
  rw [cowPathHiddenByWhiteout, internal_of_plain plain, archiveRelParts_of_plain plain, unmarked]
  cases rel with
  | nil => rfl
  | cons name rest => simp

theorem hiddenByWhiteout_of_marked (marked : hasMarker rel = true) :
    cowPathHiddenByWhiteout fs cow rel = true := by
  simp [cowPathHiddenByWhiteout, internal_of_plain plain, marked]

omit plain

theorem hiddenByMarker_iff {parent parts : Path} : hiddenByMarker fs parent parts = true ↔
      ∃ above part rest, parts = above ++ part :: rest ∧
        (fs.lexists (parent ++ above ++ [archiveWhiteoutName part]) = true ∨
          fs.lexists (parent ++ above ++ [opaqueMarker]) = true ∧
            fs.lexists (parent ++ above ++ [part]) = false) := by
  induction parts generalizing parent with
  | nil => simp [hiddenByMarker]
  | cons part rest ih =>
      simp only [hiddenByMarker, Bool.or_eq_true, Bool.and_eq_true, Bool.not_eq_true', ih]
      constructor
      · intro cases_
        cases cases_ with
        | inl here => exact ⟨[], part, rest, rfl, by simpa using here⟩
        | inr later =>
            obtain ⟨above, name, tail, rfl, marker⟩ := later
            exact ⟨part :: above, name, tail, rfl, by simpa using marker⟩
      intro later
      obtain ⟨above, name, tail, shape, marker⟩ := later
      cases above with
      | nil =>
          obtain ⟨rfl, rfl⟩ := List.cons.inj shape
          exact .inl (by simpa using marker)
      | cons first above =>
          obtain ⟨rfl, rfl⟩ := List.cons.inj shape
          exact .inr ⟨above, name, tail, rfl, by simpa using marker⟩

structure Mounted (fs : FS) (cow : Cow) : Prop where
  upper : fs.isDirAt cow.upper = true
  lower : fs.isDirAt cow.lower = true

variable {top : Path}

theorem treeAt_of_get {entry : Entry} (found : fs.get (top ++ rel) = some entry) :
    treeAt fs top rel = some (top ++ rel, entry) := by
  rw [treeAt, found]
  rfl

theorem treeAt_of_get_none (missing : fs.get (top ++ rel) = none) : treeAt fs top rel = none := by
  rw [treeAt, missing]
  rfl

theorem isSome_treeAt : (treeAt fs top rel).isSome = (fs.get (top ++ rel)).isSome := by
  simp [treeAt]

end

/-! ## Defects -/

section
variable (fs : FS) (cow : Cow) (rel : Path)

/-- The path is in the upper tree, and beside it or one of its ancestors there
is the whiteout of that name. -/
def Recreated : Prop :=
  fs.get (cow.upper ++ rel) ≠ none ∧ ∃ above part rest, rel = above ++ part :: rest ∧
    fs.get (cow.upper ++ above ++ [archiveWhiteoutName part]) ≠ none

/-- The path is not in the upper tree, and no marker that the code sees hides it. -/
def Open : Prop :=
  fs.get (cow.upper ++ rel) = none ∧ cowPathHiddenByWhiteout fs cow rel = false

def ThroughUpperLink : Prop :=
  Open fs cow rel ∧ fs.lexists (cow.upper ++ rel) = true

def ThroughLowerLink : Prop :=
  Open fs cow rel ∧ fs.get (cow.lower ++ rel) = none ∧ fs.lexists (cow.lower ++ rel) = true

/-- The path is in the lower tree, and one of its ancestors is opaque or is no
directory in the upper tree. -/
def Uncovered : Prop :=
  Open fs cow rel ∧ fs.get (cow.lower ++ rel) ≠ none ∧ ∃ above part rest, rel = above ++ part :: rest ∧
      (fs.get (cow.upper ++ above ++ [opaqueMarker]) ≠ none ∨
        ∃ entry, fs.get (cow.upper ++ above) = some entry ∧ entry.isDir = false)

inductive Defect : Prop where
  | recreated (defect : Recreated fs cow rel)
  | throughUpperLink (defect : ThroughUpperLink fs cow rel)
  | throughLowerLink (defect : ThroughLowerLink fs cow rel)
  | uncovered (defect : Uncovered fs cow rel)

end

section
variable {fs : FS} {cow : Cow} {rel : Path}

variable {name : Name} {left right top : Path}

theorem plainName_whiteout (plain : PlainName name) : PlainName (archiveWhiteoutName name) := by
  refine ⟨by simp [archiveWhiteoutName, whiteoutPrefix], by simp [archiveWhiteoutName, whiteoutPrefix, dot],
    by simp [archiveWhiteoutName, whiteoutPrefix, dotdot], ?_⟩
  intro slash
  cases List.mem_append.mp slash with
  | inl inPrefix => exact absurd inPrefix (by decide)
  | inr inName => exact plain.2.2.2 inName

theorem plainName_opaqueMarker : PlainName opaqueMarker := by decide

theorem PlainPath.append (leftPlain : PlainPath left) (rightPlain : PlainPath right) : PlainPath (left ++ right) := by
  intro name member
  cases List.mem_append.mp member with
  | inl inLeft => exact leftPlain name inLeft
  | inr inRight => exact rightPlain name inRight

theorem PlainPath.of_append (plain : PlainPath (left ++ right)) : PlainPath left ∧ PlainPath right :=
  ⟨fun name member => plain name (by simp [member]), fun name member => plain name (by simp [member])⟩

theorem plainPath_singleton : PlainPath [name] ↔ PlainName name := by
  simp [PlainPath]

theorem lexists_in_dir {dir : Path} (directory : fs.isDirAt dir = true)
    (plain : PlainName name) : fs.lexists (dir ++ [name]) = true ↔ fs.get (dir ++ [name]) ≠ none := by
  rw [FS.lexists, FS.lstat_child directory plain, Option.isSome_iff_ne_none]

theorem hidden_iff_recreated (plain : PlainPath rel) (unmarked : hasMarker rel = false)
    (present : fs.get (cow.upper ++ rel) ≠ none) :
    cowPathHiddenByWhiteout fs cow rel = true ↔ Recreated fs cow rel := by
  rw [hiddenByWhiteout_of_plain plain unmarked, hiddenByMarker_iff]
  obtain ⟨entry, found⟩ := Option.ne_none_iff_exists'.mp present
  have probes : ∀ above part rest, rel = above ++ part :: rest →
      (fs.lexists (cow.upper ++ above ++ [archiveWhiteoutName part]) = true ∨
          fs.lexists (cow.upper ++ above ++ [opaqueMarker]) = true ∧
            fs.lexists (cow.upper ++ above ++ [part]) = false ↔
        fs.get (cow.upper ++ above ++ [archiveWhiteoutName part]) ≠ none) := by
    intro above part rest shape
    subst shape
    have partPlain : PlainName part := plain part (by simp)
    have longer : fs.get (cow.upper ++ above ++ part :: rest) = some entry := by
      rw [List.append_assoc]
      exact found
    have parent := FS.isDirAt_of_get_append longer (by simp)
    have here : fs.lexists (cow.upper ++ above ++ [part]) = true := by
      rw [lexists_in_dir parent partPlain]
      intro missing
      have gone := FS.get_eq_none_below missing (List.prefix_append _ rest)
      simp [found] at gone
    rw [lexists_in_dir parent (plainName_whiteout partPlain), here]
    simp
  constructor
  · intro marker
    obtain ⟨above, part, rest, shape, probe⟩ := marker
    exact ⟨present, above, part, rest, shape, (probes above part rest shape).mp probe⟩
  · intro recreated
    obtain ⟨_, above, part, rest, shape, whiteout⟩ := recreated
    exact ⟨above, part, rest, shape, (probes above part rest shape).mpr whiteout⟩

theorem shadowed_treeAt_iff :
    shadowed (fun row : Path × Entry => row.2.isDir) (treeAt fs top) rel = true ↔
      ∃ above part rest, rel = above ++ part :: rest ∧
        ∃ entry, fs.get (top ++ above) = some entry ∧ entry.isDir = false := by
  rw [shadowed_iff]
  constructor
  · intro shadow
    obtain ⟨above, rest, row, shape, nonempty, found, leaf⟩ := shadow
    obtain ⟨part, rest, rfl⟩ := List.exists_cons_of_ne_nil nonempty
    obtain ⟨entry, present, rfl⟩ := Option.map_eq_some_iff.mp found
    exact ⟨above, part, rest, shape, entry, present, leaf⟩
  · intro shadow
    obtain ⟨above, part, rest, shape, entry, present, leaf⟩ := shadow
    exact ⟨above, part :: rest, _, shape, by simp, treeAt_of_get present, leaf⟩

theorem shadowed_of_reached {steps : Path} (directory : fs.isDirAt top = true)
    (plain : PlainPath steps) (reached : fs.lexists (top ++ steps) = true)
    (missing : fs.get (top ++ steps) = none) :
    shadowed (fun row : Path × Entry => row.2.isDir) (treeAt fs top) steps = true := by
  obtain ⟨above, below, link⟩ := FS.exists_link_of_lexists directory plain reached missing
  obtain ⟨target, found⟩ := FS.isSymlinkAt_iff.mp link
  obtain ⟨⟨rest, shape⟩, proper⟩ := below
  cases rest with
  | nil => exact absurd (by simpa using shape) proper
  | cons part rest =>
      exact shadowed_treeAt_iff.mpr ⟨above, part, rest, shape.symm, _, found, rfl⟩

theorem covered_of_hidden (mounted : Mounted fs cow) (plain : PlainPath rel)
    (unmarked : hasMarker rel = false)
    (hiddenHere : cowPathHiddenByWhiteout fs cow rel = true) :
    hidden (treeAt fs cow.upper) rel = true ∨
      shadowed (fun row : Path × Entry => row.2.isDir) (treeAt fs cow.upper) rel = true := by
  rw [hiddenByWhiteout_of_plain plain unmarked, hiddenByMarker_iff] at hiddenHere
  obtain ⟨above, part, rest, rfl, probe⟩ := hiddenHere
  have partPlain : PlainName part := plain part (by simp)
  have abovePlain := (PlainPath.of_append plain).1
  -- a marker that is reached is in the tree, or there is a link on the way to it
  have marker : ∀ name, PlainName name → fs.lexists (cow.upper ++ above ++ [name]) = true →
      (treeAt fs cow.upper (above ++ [name])).isSome = true ∨
        shadowed (fun row : Path × Entry => row.2.isDir) (treeAt fs cow.upper)
          (above ++ part :: rest) = true := by
    intro name namePlain reached
    rw [List.append_assoc] at reached
    rw [isSome_treeAt]
    cases found : fs.get (cow.upper ++ (above ++ [name])) with
    | some entry => exact .inl rfl
    | none =>
        right
        have shadow := shadowed_of_reached mounted.upper
          (abovePlain.append (plainPath_singleton.mpr namePlain)) reached found
        obtain ⟨first, last, tail, shape, entry, present, leaf⟩ := shadowed_treeAt_iff.mp shadow
        have inAbove : first <+: above :=
          below_append_singleton.mp ⟨⟨last :: tail, shape.symm⟩, by rintro rfl; simp at shape⟩
        obtain ⟨more, rfl⟩ := inAbove
        refine shadowed_iff.mpr ⟨first, more ++ part :: rest, _, by simp, by simp,
          treeAt_of_get present, leaf⟩
  cases probe with
  | inl whiteout =>
      exact (marker _ (plainName_whiteout partPlain) whiteout).imp
        (fun found => hidden_iff.mpr ⟨above, part, rest, rfl, .inl found⟩) id
  | inr opaque_ =>
      exact (marker _ plainName_opaqueMarker opaque_.1).imp
        (fun found => hidden_iff.mpr ⟨above, part, rest, rfl, .inr found⟩) id

theorem covered_iff_of_open (plain : PlainPath rel) (unmarked : hasMarker rel = false)
    (open_ : Open fs cow rel) :
    (hidden (treeAt fs cow.upper) rel = true ∨
      shadowed (fun row : Path × Entry => row.2.isDir) (treeAt fs cow.upper) rel = true) ↔
      ∃ above part rest, rel = above ++ part :: rest ∧
        (fs.get (cow.upper ++ above ++ [opaqueMarker]) ≠ none ∨
          ∃ entry, fs.get (cow.upper ++ above) = some entry ∧ entry.isDir = false) := by
  have present : ∀ above name, (treeAt fs cow.upper (above ++ [name])).isSome = true ↔
      fs.get (cow.upper ++ above ++ [name]) ≠ none := by
    intro above name
    rw [isSome_treeAt, Option.isSome_iff_ne_none, List.append_assoc]
  rw [shadowed_treeAt_iff, hidden_iff]
  constructor
  · intro covered
    cases covered with
    | inr shadow =>
        obtain ⟨above, part, rest, shape, leaf⟩ := shadow
        exact ⟨above, part, rest, shape, .inr leaf⟩
    | inl hiddenHere =>
        obtain ⟨above, part, rest, shape, marker⟩ := hiddenHere
        refine ⟨above, part, rest, shape, .inl (marker.elim (fun whiteout => ?_) (present _ _).mp)⟩
        -- the code would have seen this whiteout
        obtain ⟨entry, found⟩ := Option.ne_none_iff_exists'.mp ((present _ _).mp whiteout)
        have seen := hiddenByMarker_iff.mpr ⟨above, part, rest, shape, .inl (FS.lexists_of_get found)⟩
        rw [← hiddenByWhiteout_of_plain plain unmarked, open_.2] at seen
        cases seen
  · intro covered
    obtain ⟨above, part, rest, shape, marker | leaf⟩ := covered
    · exact .inl ⟨above, part, rest, shape, .inr ((present _ _).mpr marker)⟩
    · exact .inr ⟨above, part, rest, shape, leaf⟩

private theorem source_eq_view_of_upper (plain : PlainPath rel) (unmarked : hasMarker rel = false)
    (present : fs.get (cow.upper ++ rel) ≠ none) :
    cowArchiveSource fs cow rel = (cowView fs cow rel).map Prod.fst ↔ ¬ Defect fs cow rel := by
  obtain ⟨entry, found⟩ := Option.ne_none_iff_exists'.mp present
  have shown : cowView fs cow rel = some (cow.upper ++ rel, entry) :=
    overlay_of_upper unmarked (treeAt_of_get found)
  have only : Defect fs cow rel ↔ Recreated fs cow rel := by
    constructor
    · intro defect
      cases defect with
      | recreated defect => exact defect
      | throughUpperLink defect | throughLowerLink defect | uncovered defect => exact absurd defect.1.1 present
    · exact .recreated
  rw [only, ← hidden_iff_recreated plain unmarked present, cowArchiveSource, shown,
    FS.lexists_of_get found]
  cases cowPathHiddenByWhiteout fs cow rel with
  | true => simp
  | false => simp

private theorem source_eq_view_of_lower (mounted : Mounted fs cow) (plain : PlainPath rel)
    (unmarked : hasMarker rel = false) (missing : fs.get (cow.upper ++ rel) = none) :
    cowArchiveSource fs cow rel = (cowView fs cow rel).map Prod.fst ↔ ¬ Defect fs cow rel := by
  have notRecreated : ¬ Recreated fs cow rel := fun defect => defect.1 missing
  have shown : cowView fs cow rel = if hidden (treeAt fs cow.upper) rel ||
        shadowed (fun row : Path × Entry => row.2.isDir) (treeAt fs cow.upper) rel
      then none else treeAt fs cow.lower rel :=
    overlay_of_not_upper unmarked (treeAt_of_get_none missing)
  cases seen : cowPathHiddenByWhiteout fs cow rel with
  | true =>
      have covered := covered_of_hidden mounted plain unmarked seen
      have noDefect : ¬ Defect fs cow rel := by
        intro defect
        cases defect with
        | recreated defect => exact notRecreated defect
        | throughUpperLink defect | throughLowerLink defect | uncovered defect => exact absurd defect.1.2 (by simp [seen])
      rw [shown, if_pos (by simpa using covered), cowArchiveSource, if_pos seen]
      simpa using noDefect
  | false =>
      have open_ : Open fs cow rel := ⟨missing, seen⟩
      have source : cowArchiveSource fs cow rel =
          if fs.lexists (cow.upper ++ rel) then some (cow.upper ++ rel)
          else if fs.lexists (cow.lower ++ rel) then some (cow.lower ++ rel) else none := by
        simp [cowArchiveSource, seen]
      cases upperReached : fs.lexists (cow.upper ++ rel) with
      | true =>
          have shadow := shadowed_of_reached mounted.upper plain upperReached missing
          have defect : Defect fs cow rel := .throughUpperLink ⟨open_, upperReached⟩
          rw [shown, if_pos (by simp [shadow]), source, upperReached]
          simpa using defect
      | false =>
          cases lowerFound : fs.get (cow.lower ++ rel) with
          | none =>
              cases lowerReached : fs.lexists (cow.lower ++ rel) with
              | true =>
                  have defect : Defect fs cow rel :=
                    .throughLowerLink ⟨open_, lowerFound, lowerReached⟩
                  rw [shown, treeAt_of_get_none lowerFound, ite_self, source, upperReached,
                    lowerReached]
                  simpa using defect
              | false =>
                  have noDefect : ¬ Defect fs cow rel := by
                    intro defect
                    cases defect with
                    | recreated defect => exact notRecreated defect
                    | throughUpperLink defect => exact absurd defect.2 (by simp [upperReached])
                    | throughLowerLink defect => exact absurd defect.2.2 (by simp [lowerReached])
                    | uncovered defect => exact defect.2.1 lowerFound
                  rw [shown, treeAt_of_get_none lowerFound, ite_self, source, upperReached,
                    lowerReached]
                  simpa using noDefect
          | some entry =>
              have only : Defect fs cow rel ↔ Uncovered fs cow rel := by
                constructor
                · intro defect
                  cases defect with
                  | recreated defect => exact absurd defect notRecreated
                  | throughUpperLink defect => exact absurd defect.2 (by simp [upperReached])
                  | throughLowerLink defect => exact absurd defect.2.1 (by simp [lowerFound])
                  | uncovered defect => exact defect
                · exact .uncovered
              have covered := covered_iff_of_open plain unmarked open_
              rw [only, shown, source, upperReached, FS.lexists_of_get lowerFound,
                treeAt_of_get lowerFound]
              simp only [Uncovered, open_, lowerFound, ← covered]
              cases hidden (treeAt fs cow.upper) rel <;>
                cases shadowed (fun row : Path × Entry => row.2.isDir) (treeAt fs cow.upper) rel <;>
                simp

theorem source_eq_view_iff (mounted : Mounted fs cow) (plain : PlainPath rel)
    (unmarked : hasMarker rel = false) :
    cowArchiveSource fs cow rel = (cowView fs cow rel).map Prod.fst ↔ ¬ Defect fs cow rel := by
  by_cases missing : fs.get (cow.upper ++ rel) = none
  · exact source_eq_view_of_lower mounted plain unmarked missing
  · exact source_eq_view_of_upper plain unmarked missing

end

end PDocker.Archive
