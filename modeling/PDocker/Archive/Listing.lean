import PDocker.Archive.Visibility

/-!
# What the archive endpoint shows of a merged tree

The source of a path and the listing of a directory are computed apart from
each other. They agree with each other and with the overlay of the two trees
exactly when no path of the trees has a defect.
-/

set_option autoImplicit false

namespace PDocker.Archive

open Posix Overlay

section
variable {fs : FS} {cow : Cow} {rel : Path}

variable {name : Name} {names start : List Name} {shuffle : List Name → List Name}

theorem mem_foldl_mergeUpperName (unmarked : isMarker name = false)
    (notRecreated : ¬ (name ∈ names ∧ archiveWhiteoutName name ∈ names)) :
    name ∈ names.foldl mergeUpperName start ↔
      name ∈ names ∨ name ∈ start ∧ archiveWhiteoutName name ∉ names := by
  induction names generalizing start with
  | nil => simp
  | cons first rest ih =>
      have later : ¬ (name ∈ rest ∧ archiveWhiteoutName name ∈ rest) :=
        fun both => notRecreated ⟨List.mem_cons_of_mem _ both.1, List.mem_cons_of_mem _ both.2⟩
      rw [List.foldl_cons, ih later, mergeUpperName]
      have distinct : ∀ {marker : Name}, isMarker marker = true → name ≠ marker := by
        rintro marker marked rfl
        rw [unmarked] at marked
        cases marked
      by_cases opaque_ : first = opaqueMarker
      · subst opaque_
        have other : archiveWhiteoutName name ≠ opaqueMarker := by
          intro same
          have tail : name = ['.', 'w', 'h', '.', 'o', 'p', 'q'] := List.append_cancel_left same
          rw [tail] at unmarked
          exact absurd unmarked (by decide)
        simp [distinct (show isMarker opaqueMarker = true by decide), other]
      · by_cases marked : isMarker first = true
        · have shape := eq_whiteout_of_isMarker marked
          have same : archiveWhiteoutName name = first ↔ name = first.drop whiteoutPrefix.length := by
            rw [archiveWhiteoutName]
            constructor
            · intro equal
              rw [← equal]
              simp
            · intro equal
              rw [equal, ← shape]
          simp only [opaque_, marked, ↓reduceIte, List.mem_filter, decide_not, Bool.not_eq_true',
            decide_eq_false_iff_not, List.mem_cons, distinct marked, false_or, same, not_or]
          tauto
        · simp only [opaque_, marked, Bool.false_eq_true, ↓reduceIte, List.mem_insert_iff,
            List.mem_cons]
          have apart : name = first → archiveWhiteoutName name ∉ rest := fun equal inRest =>
            notRecreated ⟨by simp [equal], List.mem_cons_of_mem _ inRest⟩
          have other : archiveWhiteoutName name ≠ first := by
            rintro rfl
            exact marked (isMarker_append name)
          tauto

theorem mem_listing_iff {shuffle : List Name → List Name}
    (permutes : ∀ names, (shuffle names).Perm names) {raw : List Name} {name : Name}
    (plain : PlainName name) :
    name ∈ (if fs.isdir raw = true then shuffle ((fs.listdir raw).getD []) else []) ↔
      fs.lexists (raw ++ [name]) = true := by
  rw [FS.lexists_append_iff plain]
  cases listed : fs.isdir raw with
  | true =>
      obtain ⟨path, located, directory⟩ := FS.isdir_iff.mp listed
      have read : fs.listdir raw = some (fs.names path) := by simp [FS.listdir, located, directory]
      simp [read, (permutes _).mem_iff, FS.mem_names, located, directory]
  | false =>
      simp only [Bool.false_eq_true, ↓reduceIte, List.not_mem_nil, false_iff]
      intro reached
      obtain ⟨path, located, directory, _⟩ := reached
      rw [FS.isdir_iff.mpr ⟨path, located, directory⟩] at listed
      cases listed

theorem hiddenByMarker_append {parent parts : Path} : hiddenByMarker fs parent (parts ++ [name]) =
      (hiddenByMarker fs parent parts || hiddenByMarker fs (parent ++ parts) [name]) := by
  induction parts generalizing parent with
  | nil => simp [hiddenByMarker]
  | cons part rest ih => simp [hiddenByMarker, ih, Bool.or_assoc]

theorem mem_entries_iff (permutes : ∀ names, (shuffle names).Perm names) (plainRel : PlainPath rel)
    (seen : cowPathHiddenByWhiteout fs cow rel = false) (plain : PlainName name)
    (notRecreated : isMarker name = false → ¬ (fs.lexists (cow.upper ++ rel ++ [name]) = true ∧
      fs.lexists (cow.upper ++ rel ++ [archiveWhiteoutName name]) = true)) :
    name ∈ cowMergedDirEntries shuffle fs cow rel ↔ cowArchiveSource fs cow (rel ++ [name]) ≠ none := by
  have unmarkedRel : hasMarker rel = false := by
    rw [Bool.eq_false_iff]
    intro marked
    rw [hiddenByWhiteout_of_marked plainRel marked] at seen
    cases seen
  have plainChild := plainRel.append (plainPath_singleton.mpr plain)
  cases marked : isMarker name with
  | true =>
      have hiddenChild : cowPathHiddenByWhiteout fs cow (rel ++ [name]) = true :=
        hiddenByWhiteout_of_marked plainChild (by simp [hasMarker_append, hasMarker_singleton, marked])
      simp [cowMergedDirEntries, cowArchiveSource, hiddenChild, marked]
  | false =>
      have unmarkedChild : hasMarker (rel ++ [name]) = false := by
        simp [hasMarker_append, hasMarker_singleton, unmarkedRel, marked]
      rw [hiddenByWhiteout_of_plain plainRel unmarkedRel] at seen
      have hiddenChild : cowPathHiddenByWhiteout fs cow (rel ++ [name]) = true ↔
          fs.lexists (cow.upper ++ rel ++ [archiveWhiteoutName name]) = true ∨
            fs.lexists (cow.upper ++ rel ++ [opaqueMarker]) = true ∧
              fs.lexists (cow.upper ++ rel ++ [name]) = false := by
        rw [hiddenByWhiteout_of_plain plainChild unmarkedChild, hiddenByMarker_append, seen]
        simp [hiddenByMarker]
      have source : cowArchiveSource fs cow (rel ++ [name]) ≠ none ↔
          ¬ cowPathHiddenByWhiteout fs cow (rel ++ [name]) = true ∧
            (fs.lexists (cow.upper ++ rel ++ [name]) = true ∨
              fs.lexists (cow.lower ++ rel ++ [name]) = true) := by
        simp only [cowArchiveSource, List.append_assoc]
        cases cowPathHiddenByWhiteout fs cow (rel ++ [name]) <;>
          cases fs.lexists (cow.upper ++ (rel ++ [name])) <;>
          cases fs.lexists (cow.lower ++ (rel ++ [name])) <;> simp
      have lower := @mem_listing_iff fs shuffle permutes (cow.lower ++ rel) name plain
      have upper := @mem_listing_iff fs shuffle permutes (cow.upper ++ rel) name plain
      have whiteout := @mem_listing_iff fs shuffle permutes (cow.upper ++ rel) _
        (plainName_whiteout plain)
      rw [source, hiddenChild, cowMergedDirEntries, List.mem_insertionSort, List.mem_filter,
        mem_foldl_mergeUpperName marked (by rw [upper, whiteout]; exact notRecreated marked), upper,
        whiteout]
      cases fs.lexists (cow.upper ++ rel ++ [opaqueMarker]) with
      | true =>
          simp only [marked]
          grind
      | false =>
          simp only [true_and, lower, marked]
          grind

private theorem mem_foldl_of_mem
    (member : name ∈ names.foldl mergeUpperName start) : name ∈ names ∨ name ∈ start := by
  induction names generalizing start with
  | nil => exact .inr member
  | cons first rest ih =>
      cases ih member with
      | inl later => exact .inl (List.mem_cons_of_mem _ later)
      | inr here =>
          unfold mergeUpperName at here
          split at here
          · exact .inr here
          · split at here
            · exact .inr (List.mem_filter.mp here).1
            · exact (List.mem_insert_iff.mp here).imp_left fun same => by simp [same]

theorem plainName_of_mem_entries (permutes : ∀ names, (shuffle names).Perm names)
    (member : name ∈ cowMergedDirEntries shuffle fs cow rel) : PlainName name := by
  have listing : ∀ raw, name ∈ shuffle ((fs.listdir raw).getD []) → PlainName name := by
    intro raw listed
    rw [(permutes _).mem_iff, FS.listdir] at listed
    split at listed
    · split at listed
      · exact FS.plainName_of_mem_names listed
      · cases listed
    · cases listed
  rw [cowMergedDirEntries, List.mem_insertionSort, List.mem_filter] at member
  cases mem_foldl_of_mem member.1 with
  | inl upper =>
      split at upper
      · exact listing _ upper
      · cases upper
  | inr lower =>
      split at lower
      · exact listing _ lower
      · cases lower

end

/-- Sources are what the overlay shows, and a directory of the overlay lists
exactly its children that have a source, in whatever order the names come. -/
structure ArchiveFaithful (fs : FS) (cow : Cow) : Prop where
  source : ∀ rel, PlainPath rel → cowArchiveSource fs cow rel = (cowView fs cow rel).map Prod.fst
  entries : ∀ rel row, PlainPath rel → cowView fs cow rel = some row → row.2.isDir = true →
    ∀ shuffle : List Name → List Name, (∀ names, (shuffle names).Perm names) → ∀ name,
      name ∈ cowMergedDirEntries shuffle fs cow rel ↔
        PlainName name ∧ cowArchiveSource fs cow (rel ++ [name]) ≠ none

section
variable {fs : FS} {cow : Cow} {rel : Path}

theorem not_reached_below_lower (mounted : Mounted fs cow) (plain : PlainPath rel)
    (missing : fs.get (cow.upper ++ rel) = none)
    (notShadowed : shadowed (fun row : Path × Entry => row.2.isDir) (treeAt fs cow.upper) rel = false)
    {name : Name} (plainName : PlainName name) :
    fs.lexists (cow.upper ++ rel ++ [name]) = false := by
  rw [Bool.eq_false_iff]
  intro reached
  have below := FS.get_eq_none_below missing (List.prefix_append _ [name])
  rw [List.append_assoc] at reached below
  have shadow := shadowed_of_reached mounted.upper
    (plain.append (plainPath_singleton.mpr plainName)) reached below
  obtain ⟨above, part, rest, shape, entry, found, leaf⟩ := shadowed_treeAt_iff.mp shadow
  have inRel : above <+: rel :=
    below_append_singleton.mp ⟨⟨part :: rest, shape.symm⟩, by rintro rfl; simp at shape⟩
  obtain ⟨more, rfl⟩ := inRel
  cases more with
  | nil =>
      rw [List.append_nil, found] at missing
      cases missing
  | cons first more =>
      have shadowRel := shadowed_treeAt_iff.mpr ⟨above, first, more, rfl, entry, found, leaf⟩
      rw [notShadowed] at shadowRel
      cases shadowRel

theorem noDefect_of_table (mounted : Mounted fs cow)
    (noLinks : ∀ row ∈ fs.table, row.2.isSymlink = false)
    (upper : ∀ row ∈ fs.table, cow.upper <+: row.1 → hasMarker (row.1.drop cow.upper.length) = false →
        cowPathHiddenByWhiteout fs cow (row.1.drop cow.upper.length) = false)
    (lower : ∀ row ∈ fs.table, cow.lower <+: row.1 →
      fs.get (cow.upper ++ row.1.drop cow.lower.length) = none →
        cowPathHiddenByWhiteout fs cow (row.1.drop cow.lower.length) = false →
          hidden (treeAt fs cow.upper) (row.1.drop cow.lower.length) = false ∧
            shadowed (fun row : Path × Entry => row.2.isDir) (treeAt fs cow.upper)
              (row.1.drop cow.lower.length) = false) :
    ∀ rel, PlainPath rel → hasMarker rel = false → ¬ Defect fs cow rel := by
  intro rel plain unmarked defect
  have straight : ∀ top, fs.isDirAt top = true → fs.get (top ++ rel) = none →
      fs.lexists (top ++ rel) = false := by
    intro top directory missing
    rw [Bool.eq_false_iff]
    intro reached
    obtain ⟨above, _, link⟩ := FS.exists_link_of_lexists directory plain reached missing
    obtain ⟨target, found⟩ := FS.isSymlinkAt_iff.mp link
    cases noLinks _ (FS.mem_table_of_get found)
  cases defect with
  | recreated defect =>
      obtain ⟨entry, found⟩ := Option.ne_none_iff_exists'.mp defect.1
      have seen := upper _ (FS.mem_table_of_get found) (List.prefix_append _ _)
      simp only [List.drop_left] at seen
      have hiddenHere := (hidden_iff_recreated plain unmarked defect.1).mpr defect
      rw [seen unmarked] at hiddenHere
      cases hiddenHere
  | throughUpperLink defect =>
      exact absurd defect.2 (by simp [straight _ mounted.upper defect.1.1])
  | throughLowerLink defect =>
      exact absurd defect.2.2 (by simp [straight _ mounted.lower defect.2.1])
  | uncovered defect =>
      obtain ⟨open_, present, covered⟩ := defect
      obtain ⟨entry, found⟩ := Option.ne_none_iff_exists'.mp present
      have bare := lower _ (FS.mem_table_of_get found) (List.prefix_append _ _)
      simp only [List.drop_left] at bare
      obtain ⟨notHidden, notShadowed⟩ := bare open_.1 open_.2
      cases (covered_iff_of_open plain unmarked open_).mpr covered with
      | inl hiddenHere => rw [notHidden] at hiddenHere; cases hiddenHere
      | inr shadow => rw [notShadowed] at shadow; cases shadow

end

def mergedTrees : FS :=
  .populate [.dir (pathOf "upper/work"), .file (pathOf "upper/work/upper") [1],
    .file (pathOf "upper/work/replaced") [2], .file (pathOf "upper/work/.wh.deleted") [],
    .dir (pathOf "lower/work"), .file (pathOf "lower/work/lower") [3],
    .file (pathOf "lower/work/replaced") [4], .file (pathOf "lower/work/deleted") [5]]

def bothTrees : Cow := ⟨pathOf "upper", pathOf "lower"⟩

def shadowedTrees : FS :=
  .populate [.dir (pathOf "upper"), .file (pathOf "upper/work") [1],
    .dir (pathOf "lower/work"), .file (pathOf "lower/work/old") [2]]

end PDocker.Archive
