import PDocker.Archive.Listing

/-!
# The merged listing of the file browser

The app lists a directory of a `cow_bind` container from the two trees by
itself: one level at a time, with the markers of that level only. A row is
followed when it is a directory.
-/

set_option autoImplicit false

namespace PDocker.Archive

open Posix Overlay

structure MergedEntry where
  name : Name
  file : Path
  sourceRoot : Path
  deriving DecidableEq

/-- `entries[file.name] = entry` on a map that keeps the order of insertion. -/
def putEntry (entries : List MergedEntry) (entry : MergedEntry) : List MergedEntry :=
  if entries.any (·.name = entry.name) then
    entries.map fun old => if old.name = entry.name then entry else old
  else entries ++ [entry]

/-- `isDirectoryEntry`, which does not follow a link in the last place. -/
def isDirectoryEntry (fs : FS) (file : Path) : Bool := (fs.lstat file).any Entry.isDir

/-- `File.listFiles().orEmpty()`; `shuffle` is the order in which the names of a
directory are read. -/
def listFiles (shuffle : List Name → List Name) (fs : FS) (dir : Path) : List Name :=
  if fs.isdir dir then shuffle ((fs.listdir dir).getD []) else []

/-- `mergedEntries`; `lowercaseLe` compares two names by their lowercase text. -/
def mergedEntries (shuffle : List Name → List Name) (lowercaseLe : Name → Name → Bool) (fs : FS)
    (cow : Cow) (rel : Path) : List MergedEntry :=
  let lowerDir := cow.lower ++ rel
  let upperDir := cow.upper ++ rel
  let upperNames := listFiles shuffle fs upperDir
  let hidden := (upperNames.filter fun name => isMarker name ∧ name ≠ opaqueMarker).map
    fun name => name.drop whiteoutPrefix.length
  let lowerEntries :=
    if opaqueMarker ∈ upperNames then []
    else ((listFiles shuffle fs lowerDir).filter fun name =>
        name ∉ hidden ∧ whiteoutPrefix ++ name ∉ upperNames).map
      fun name => MergedEntry.mk name (lowerDir ++ [name]) cow.lower
  let upperEntries := (upperNames.filter fun name => isMarker name = false).map
    fun name => MergedEntry.mk name (upperDir ++ [name]) cow.upper
  ((lowerEntries ++ upperEntries).foldl putEntry []).insertionSort fun left right =>
    if isDirectoryEntry fs left.file = isDirectoryEntry fs right.file then
      lowercaseLe left.name right.name = true
    else isDirectoryEntry fs left.file = true

/-- `File.getCanonicalFile` on a reversed path: the longest part that resolves,
and the rest as it stands. -/
def canonicalRev (fs : FS) : List Name → Path
  | [] => []
  | last :: above =>
      match (fs.namei (last :: above).reverse true).filter fun path => (fs.get path).isSome with
      | some path => path
      | none => canonicalRev fs above ++ [last]

def canonicalFile (fs : FS) (path : Path) : Path := canonicalRev fs path.reverse

/-- The guard of `renderMergedDirectory`, which shows nothing when one of the
two directories lies outside its tree. -/
def rendersMerged (fs : FS) (cow : Cow) (rel : Path) : Bool :=
  cow.lower.isPrefixOf (canonicalFile fs (cow.lower ++ rel)) &&
    cow.upper.isPrefixOf (canonicalFile fs (cow.upper ++ rel))

section
variable (shuffle : List Name → List Name) (lowercaseLe : Name → Name → Bool) (fs : FS) (cow : Cow)

/-- The directories shown by `renderMergedDirectory` after any sequence of clicks. -/
inductive Browsed : Path → Prop where
  | root (rendered : rendersMerged fs cow [] = true) : Browsed []
  | follow {rel : Path} {entry : MergedEntry} (browsed : Browsed rel)
      (row : entry ∈ mergedEntries shuffle lowercaseLe fs cow rel)
      (directory : isDirectoryEntry fs entry.file = true)
      (rendered : rendersMerged fs cow (rel ++ [entry.name]) = true) :
      Browsed (rel ++ [entry.name])

/-- The listing of `rel` has one row for each child that the overlay has there,
from the layer it is in. -/
structure ListsOverlay (rel : Path) : Prop where
  nodup : ((mergedEntries shuffle lowercaseLe fs cow rel).map (·.name)).Nodup
  entries : ∀ entry : MergedEntry, entry ∈ mergedEntries shuffle lowercaseLe fs cow rel ↔
    entry.file = entry.sourceRoot ++ rel ++ [entry.name] ∧
      ∃ row, cowView fs cow (rel ++ [entry.name]) = some row ∧ row.1 = entry.file

end

section
variable {fs : FS} {cow : Cow} {rel : Path}

variable {entries rows start : List MergedEntry} {entry : MergedEntry} {name : Name} {raw names : List Name}
  {above steps : Path}

theorem mem_putEntry {row : MergedEntry} :
    row ∈ putEntry entries entry ↔ row = entry ∨ row ∈ entries ∧ row.name ≠ entry.name := by
  unfold putEntry
  split
  case isTrue held =>
      obtain ⟨old, member, same⟩ := List.any_eq_true.mp held
      have sameName : old.name = entry.name := of_decide_eq_true same
      rw [List.mem_map]
      constructor
      · rintro ⟨kept, inEntries, rfl⟩
        split
        · exact .inl rfl
        · exact .inr ⟨inEntries, ‹_›⟩
      · rintro (rfl | ⟨inEntries, other⟩)
        · exact ⟨old, member, if_pos sameName⟩
        · exact ⟨row, inEntries, if_neg other⟩
  case isFalse free =>
      rw [List.mem_append, List.mem_singleton, or_comm]
      refine or_congr_right ⟨fun member => ⟨member, fun same => free ?_⟩, And.left⟩
      exact List.any_eq_true.mpr ⟨row, member, decide_eq_true same⟩

theorem nodup_putEntry (nodup : (entries.map (·.name)).Nodup)
    (entry : MergedEntry) : ((putEntry entries entry).map (·.name)).Nodup := by
  unfold putEntry
  split
  · have same : (entries.map fun old => if old.name = entry.name then entry else old).map (·.name) =
        entries.map (·.name) := by
      rw [List.map_map]
      refine List.map_congr_left fun old _ => ?_
      simp only [Function.comp_apply]
      split
      · exact Eq.symm ‹_›
      · rfl
    rw [same]
    exact nodup
  case isFalse free =>
      rw [List.map_append, List.nodup_append]
      refine ⟨nodup, List.nodup_singleton _, ?_⟩
      rintro name member other inSingle rfl
      obtain ⟨old, inEntries, rfl⟩ := List.mem_map.mp member
      exact free (List.any_eq_true.mpr ⟨old, inEntries, decide_eq_true (List.mem_singleton.mp inSingle)⟩)

theorem nodup_foldl_putEntry
    (nodup : (start.map (·.name)).Nodup) : ((rows.foldl putEntry start).map (·.name)).Nodup := by
  induction rows generalizing start with
  | nil => exact nodup
  | cons row rows ih => exact ih (nodup_putEntry nodup row)

theorem mem_foldl_putEntry (nodup : (rows.map (·.name)).Nodup) : entry ∈ rows.foldl putEntry start ↔
      entry ∈ rows ∨ entry ∈ start ∧ entry.name ∉ rows.map (·.name) := by
  induction rows generalizing start with
  | nil => simp
  | cons row rows ih =>
      rw [List.map_cons, List.nodup_cons] at nodup
      rw [List.foldl_cons, ih nodup.2, mem_putEntry, List.mem_cons, List.map_cons, List.mem_cons]
      constructor
      · rintro (later | ⟨rfl | ⟨member, other⟩, absent⟩)
        · exact .inl (.inr later)
        · exact .inl (.inl rfl)
        · exact .inr ⟨member, not_or.mpr ⟨other, absent⟩⟩
      · rintro ((rfl | later) | ⟨member, absent⟩)
        · exact .inr ⟨.inl rfl, nodup.1⟩
        · exact .inl later
        · exact .inr ⟨.inr ⟨member, (not_or.mp absent).1⟩, (not_or.mp absent).2⟩

variable {shuffle : List Name → List Name} {lowercaseLe : Name → Name → Bool}

theorem nodup_listFiles (permutes : ∀ names, (shuffle names).Perm names) (raw : List Name) :
    (listFiles shuffle fs raw).Nodup := by
  unfold listFiles
  split
  · rw [(permutes _).nodup_iff, FS.listdir]
    split
    · split
      · exact FS.nodup_names fs _
      · exact List.nodup_nil
    · exact List.nodup_nil
  · exact List.nodup_nil

theorem plainName_of_mem_listFiles (permutes : ∀ names, (shuffle names).Perm names)
    (member : name ∈ listFiles shuffle fs raw) :
    PlainName name := by
  unfold listFiles at member
  split at member
  · rw [(permutes _).mem_iff, FS.listdir] at member
    split at member
    · split at member
      · exact FS.plainName_of_mem_names member
      · cases member
    · cases member
  · cases member

theorem nodup_rows (nodup : names.Nodup) (file : Name → Path) (root : Path) :
    ((names.map fun name => MergedEntry.mk name (file name) root).map (·.name)).Nodup := by
  rw [List.map_map]
  have same : ((·.name) ∘ fun name => MergedEntry.mk name (file name) root) = id := rfl
  rw [same, List.map_id]
  exact nodup

theorem nodup_mergedEntries : ((mergedEntries shuffle lowercaseLe fs cow rel).map (·.name)).Nodup := by
  unfold mergedEntries
  rw [((List.perm_insertionSort _ _).map _).nodup_iff]
  exact nodup_foldl_putEntry List.nodup_nil

structure UpperRow (fs : FS) (cow : Cow) (rel : Path) (name : Name) : Prop where
  unmarked : isMarker name = false
  present : fs.lexists (cow.upper ++ rel ++ [name]) = true

structure LowerRow (fs : FS) (cow : Cow) (rel : Path) (name : Name) : Prop where
  present : fs.lexists (cow.lower ++ rel ++ [name]) = true
  notOpaque : fs.lexists (cow.upper ++ rel ++ [opaqueMarker]) = false
  notWhiteout : fs.lexists (cow.upper ++ rel ++ [archiveWhiteoutName name]) = false
  notReplaced : ¬ UpperRow fs cow rel name

theorem mem_listFiles_iff (permutes : ∀ names, (shuffle names).Perm names) :
    name ∈ listFiles shuffle fs raw ↔ PlainName name ∧ fs.lexists (raw ++ [name]) = true := by
  constructor
  · intro member
    have plain := plainName_of_mem_listFiles permutes member
    exact ⟨plain, (mem_listing_iff permutes plain).mp member⟩
  · rintro ⟨plain, present⟩
    exact (mem_listing_iff permutes plain).mpr present

theorem mem_rows_iff {dir root : Path} :
    entry ∈ (names.map fun name => MergedEntry.mk name (dir ++ [name]) root) ↔
      entry.name ∈ names ∧ entry.file = dir ++ [entry.name] ∧ entry.sourceRoot = root := by
  rw [List.mem_map]
  constructor
  · rintro ⟨name, member, rfl⟩
    exact ⟨member, rfl, rfl⟩
  · rintro ⟨member, file, source⟩
    refine ⟨entry.name, member, ?_⟩
    rw [← file, ← source]

theorem not_mem_hidden (bare : whiteoutPrefix ++ name ∉ names) :
    name ∉ (names.filter fun name => isMarker name ∧ name ≠ opaqueMarker).map
      fun name => name.drop whiteoutPrefix.length := by
  intro hiddenHere
  obtain ⟨marker, member, rfl⟩ := List.mem_map.mp hiddenHere
  obtain ⟨listed, kind⟩ := List.mem_filter.mp member
  have shape := eq_whiteout_of_isMarker (of_decide_eq_true kind).1
  rw [← shape] at bare
  exact bare listed

theorem mem_mergedEntries_iff (permutes : ∀ names, (shuffle names).Perm names) :
    entry ∈ mergedEntries shuffle lowercaseLe fs cow rel ↔
      PlainName entry.name ∧ entry.file = entry.sourceRoot ++ rel ++ [entry.name] ∧
        (entry.sourceRoot = cow.upper ∧ UpperRow fs cow rel entry.name ∨
          entry.sourceRoot = cow.lower ∧ LowerRow fs cow rel entry.name) := by
  have upperRow : ∀ name, name ∈ (listFiles shuffle fs (cow.upper ++ rel)).filter
      (fun name => isMarker name = false) ↔ PlainName name ∧ UpperRow fs cow rel name := by
    intro name
    rw [List.mem_filter, mem_listFiles_iff permutes, decide_eq_true_iff]
    exact ⟨fun both => ⟨both.1.1, both.2, both.1.2⟩,
      fun both => ⟨⟨both.1, both.2.present⟩, both.2.unmarked⟩⟩
  have marker : ∀ name, PlainName name → (name ∉ listFiles shuffle fs (cow.upper ++ rel) ↔
      fs.lexists (cow.upper ++ rel ++ [name]) = false) := by
    intro name plain
    rw [mem_listFiles_iff permutes, Bool.eq_false_iff]
    exact not_congr ⟨And.right, fun present => ⟨plain, present⟩⟩
  have upperNames : (List.map (·.name) (((listFiles shuffle fs (cow.upper ++ rel)).filter
      fun name => isMarker name = false).map
        fun name => MergedEntry.mk name (cow.upper ++ rel ++ [name]) cow.upper)) =
      (listFiles shuffle fs (cow.upper ++ rel)).filter fun name => isMarker name = false := by
    rw [List.map_map]
    exact List.map_id _
  have opaque_ := marker opaqueMarker plainName_opaqueMarker
  simp only [mergedEntries]
  rw [(List.perm_insertionSort _ _).mem_iff, List.foldl_append,
    mem_foldl_putEntry (nodup_rows ((nodup_listFiles permutes _).filter _) _ _), upperNames,
    mem_rows_iff, upperRow]
  split
  case isTrue shut =>
      constructor
      · rintro (⟨⟨plain, row⟩, file, source⟩ | ⟨absent, _⟩)
        · exact ⟨plain, by rw [file, source], .inl ⟨source, row⟩⟩
        · cases absent
      · rintro ⟨plain, file, ⟨source, row⟩ | ⟨_, row⟩⟩
        · exact .inl ⟨⟨plain, row⟩, by rw [file, source], source⟩
        · exact absurd shut (opaque_.mpr row.notOpaque)
  case isFalse open_ =>
      rw [mem_foldl_putEntry (nodup_rows ((nodup_listFiles permutes _).filter _) _ _), mem_rows_iff,
        List.mem_filter, mem_listFiles_iff permutes, decide_eq_true_iff]
      constructor
      · rintro (⟨⟨plain, row⟩, file, source⟩ | ⟨lower, other⟩)
        · exact ⟨plain, by rw [file, source], .inl ⟨source, row⟩⟩
        obtain ⟨⟨⟨plain, present⟩, _, bare⟩, file, source⟩ | ⟨absent, _⟩ := lower
        · refine ⟨plain, by rw [file, source], .inr ⟨source, present, opaque_.mp open_, ?_, ?_⟩⟩
          · exact (marker _ (plainName_whiteout plain)).mp bare
          · exact fun row => other ⟨plain, row⟩
        · cases absent
      · rintro ⟨plain, file, ⟨source, row⟩ | ⟨source, row⟩⟩
        · exact .inl ⟨⟨plain, row⟩, by rw [file, source], source⟩
        have bare : whiteoutPrefix ++ entry.name ∉ listFiles shuffle fs (cow.upper ++ rel) :=
          (marker _ (plainName_whiteout plain)).mpr row.notWhiteout
        refine .inr ⟨.inl ⟨⟨⟨plain, row.present⟩, not_mem_hidden bare, bare⟩, ?_, source⟩, ?_⟩
        · rw [file, source]
        · exact fun upper => row.notReplaced upper.2

theorem hiddenFrom_append_singleton {α : Type} {upper : View α} :
    hiddenFrom upper above (steps ++ [name]) = (hiddenFrom upper above steps ||
        (whiteoutAt upper (above ++ steps) name || opaqueAt upper (above ++ steps))) := by
  induction steps generalizing above with
  | nil => simp [hiddenFrom]
  | cons first rest ih => simp [hiddenFrom, ih, Bool.or_assoc]

theorem shadowedFrom_append_singleton {α : Type} {isDir : α → Bool} {upper : View α} :
    shadowedFrom isDir upper above (steps ++ [name]) = (shadowedFrom isDir upper above steps ||
        (upper (above ++ steps)).any fun entry => !isDir entry) := by
  induction steps generalizing above with
  | nil => simp [shadowedFrom]
  | cons first rest ih => simp [shadowedFrom, ih, Bool.or_assoc]

theorem plainPath_of_get {top : Path} {entry : Entry} (found : fs.get (top ++ rel) = some entry) :
    PlainPath rel := by
  intro name member
  exact FS.plainName_of_get found (List.mem_append_right _ member)

theorem get_of_cowView {row : Path × Entry} (shown : cowView fs cow rel = some row) :
    hasMarker rel = false ∧ fs.get row.1 = some row.2 ∧
      (row.1 = cow.upper ++ rel ∨ row.1 = cow.lower ++ rel ∧ fs.get (cow.upper ++ rel) = none ∧
        hidden (treeAt fs cow.upper) rel = false ∧
        shadowed (fun row : Path × Entry => row.2.isDir) (treeAt fs cow.upper) rel = false) := by
  have unmarked : hasMarker rel = false := by
    rw [Bool.eq_false_iff]
    intro marked
    rw [cowView, overlay_of_hasMarker marked] at shown
    cases shown
  refine ⟨unmarked, ?_⟩
  cases found : fs.get (cow.upper ++ rel) with
  | some entry =>
      rw [cowView, overlay_of_upper unmarked (treeAt_of_get found)] at shown
      obtain rfl := Option.some.inj shown
      exact ⟨found, .inl rfl⟩
  | none =>
      rw [cowView, overlay_of_not_upper unmarked (treeAt_of_get_none found)] at shown
      split at shown
      · cases shown
      case isFalse clear =>
          obtain ⟨entry, present, rfl⟩ := Option.map_eq_some_iff.mp shown
          rw [Bool.not_eq_true, Bool.or_eq_false_iff] at clear
          exact ⟨present, .inr ⟨rfl, rfl, clear⟩⟩

def ShownDir (fs : FS) (cow : Cow) (rel : Path) : Prop :=
  ∃ row, cowView fs cow rel = some row ∧ row.2.isDir = true

theorem ShownDir.unmarked (shown : ShownDir fs cow rel) : hasMarker rel = false := by
  obtain ⟨row, here, _⟩ := shown
  exact (get_of_cowView here).1

theorem ShownDir.plain (shown : ShownDir fs cow rel) : PlainPath rel := by
  obtain ⟨row, here, _⟩ := shown
  obtain ⟨_, found, place | ⟨place, _⟩⟩ := get_of_cowView here
  · exact plainPath_of_get (place ▸ found)
  · exact plainPath_of_get (place ▸ found)

theorem ShownDir.cases (shown : ShownDir fs cow rel) : fs.isDirAt (cow.upper ++ rel) = true ∨
      fs.get (cow.upper ++ rel) = none ∧ fs.isDirAt (cow.lower ++ rel) = true ∧
        hidden (treeAt fs cow.upper) rel = false ∧
        shadowed (fun row : Path × Entry => row.2.isDir) (treeAt fs cow.upper) rel = false := by
  obtain ⟨row, here, directory⟩ := shown
  obtain ⟨_, found, place | ⟨place, missing, clear⟩⟩ := get_of_cowView here
  · left
    rw [← place, FS.isDirAt_of_get found]
    exact directory
  · right
    refine ⟨missing, ?_, clear⟩
    rw [← place, FS.isDirAt_of_get found]
    exact directory

theorem ShownDir.probe (mounted : Mounted fs cow) (shown : ShownDir fs cow rel) (plain : PlainName name) :
    fs.lexists (cow.upper ++ rel ++ [name]) = true ↔ fs.get (cow.upper ++ rel ++ [name]) ≠ none := by
  obtain directory | ⟨missing, _, _, bare⟩ := shown.cases
  · exact lexists_in_dir directory plain
  · rw [not_reached_below_lower mounted shown.plain missing bare plain]
    simpa using FS.get_eq_none_below missing (List.prefix_append _ [name])

theorem ShownDir.unseen (mounted : Mounted fs cow) (shown : ShownDir fs cow rel) (plain : PlainName name) :
    fs.lexists (cow.upper ++ rel ++ [name]) = false ↔ fs.get (cow.upper ++ rel ++ [name]) = none := by
  rw [← Bool.not_eq_true, shown.probe mounted plain, not_not]

theorem ShownDir.not_shadowed (shown : ShownDir fs cow rel) (name : Name) :
    shadowed (fun row : Path × Entry => row.2.isDir) (treeAt fs cow.upper) (rel ++ [name]) = false := by
  rw [shadowed, shadowedFrom_append_singleton, List.nil_append]
  obtain directory | ⟨missing, _, _, bare⟩ := shown.cases
  · obtain ⟨mode, found⟩ := FS.isDirAt_iff.mp directory
    rw [treeAt_of_get found]
    simp only [Option.any_some, Entry.isDir, Bool.not_true, Bool.or_false]
    rw [Bool.eq_false_iff]
    intro shadow
    obtain ⟨above, part, rest, rfl, entry, leaf, notDir⟩ := shadowed_treeAt_iff.mp shadow
    rw [← List.append_assoc] at found
    have parent := FS.isDirAt_of_get_append found (by simp)
    rw [FS.isDirAt_of_get leaf, notDir] at parent
    cases parent
  · rw [treeAt_of_get_none missing]
    simp only [Option.any_none, Bool.or_false]
    exact bare

theorem ShownDir.child (shown : ShownDir fs cow rel) (unmarked : isMarker name = false)
    (missing : fs.get (cow.upper ++ rel ++ [name]) = none) :
    cowView fs cow (rel ++ [name]) = if hidden (treeAt fs cow.upper) rel = true ∨
          fs.get (cow.upper ++ rel ++ [archiveWhiteoutName name]) ≠ none ∨
          fs.get (cow.upper ++ rel ++ [opaqueMarker]) ≠ none then none
      else treeAt fs cow.lower (rel ++ [name]) := by
  rw [List.append_assoc] at missing
  have plainChild : hasMarker (rel ++ [name]) = false := by
    rw [hasMarker_append, hasMarker_singleton, shown.unmarked, unmarked]
    rfl
  have covered : hidden (treeAt fs cow.upper) (rel ++ [name]) = true ↔
      hidden (treeAt fs cow.upper) rel = true ∨
        fs.get (cow.upper ++ rel ++ [archiveWhiteoutName name]) ≠ none ∨
        fs.get (cow.upper ++ rel ++ [opaqueMarker]) ≠ none := by
    rw [Overlay.hidden, hiddenFrom_append_singleton, List.nil_append, Bool.or_eq_true, Bool.or_eq_true,
      whiteoutAt, opaqueAt, isSome_treeAt, isSome_treeAt, Option.isSome_iff_ne_none,
      Option.isSome_iff_ne_none, List.append_assoc, List.append_assoc]
    rfl
  rw [cowView, overlay_of_not_upper plainChild (treeAt_of_get_none missing), shown.not_shadowed,
    Bool.or_false]
  exact if_congr covered rfl rfl

theorem shownDir_parent {row : Path × Entry}
    (shown : cowView fs cow (rel ++ [name]) = some row) : ShownDir fs cow rel := by
  obtain ⟨unmarkedChild, found, place⟩ := get_of_cowView shown
  have unmarked : hasMarker rel = false := by
    rw [hasMarker_append, Bool.or_eq_false_iff] at unmarkedChild
    exact unmarkedChild.1
  obtain place | ⟨place, missing, notHidden, notShadowed⟩ := place
  · rw [place, ← List.append_assoc] at found
    obtain ⟨mode, parent⟩ := FS.isDirAt_iff.mp (FS.isDirAt_parent found)
    exact ⟨_, overlay_of_upper unmarked (treeAt_of_get parent), rfl⟩
  rw [place, ← List.append_assoc] at found
  obtain ⟨mode, parent⟩ := FS.isDirAt_iff.mp (FS.isDirAt_parent found)
  rw [Overlay.hidden, hiddenFrom_append_singleton, Bool.or_eq_false_iff] at notHidden
  rw [shadowed, shadowedFrom_append_singleton, Bool.or_eq_false_iff, List.nil_append] at notShadowed
  cases above : fs.get (cow.upper ++ rel) with
  | some entry =>
      refine ⟨_, overlay_of_upper unmarked (treeAt_of_get above), ?_⟩
      have leaf := notShadowed.2
      rw [treeAt_of_get above] at leaf
      simpa using leaf
  | none =>
      refine ⟨(cow.lower ++ rel, .dir mode), ?_, rfl⟩
      rw [cowView, overlay_of_not_upper unmarked (treeAt_of_get_none above),
        show hidden (treeAt fs cow.upper) rel = false from notHidden.1,
        show shadowed (fun row : Path × Entry => row.2.isDir) (treeAt fs cow.upper) rel = false from
          notShadowed.1]
      exact treeAt_of_get parent

structure Unhidden (fs : FS) (cow : Cow) (rel : Path) (name : Name) : Prop where
  plain : PlainName name
  listed : fs.lexists (cow.lower ++ rel ++ [name]) = true
  notOpaque : fs.get (cow.upper ++ rel ++ [opaqueMarker]) = none
  notWhiteout : fs.get (cow.upper ++ rel ++ [archiveWhiteoutName name]) = none

/-- The lower directory holds a marker, or something under a marker further up,
or it is reached through a link of the lower tree. -/
inductive Leak (fs : FS) (cow : Cow) (rel : Path) : Prop where
  | marker {name : Name} (unhidden : Unhidden fs cow rel name) (marked : isMarker name = true)
  | covered {name : Name} (unhidden : Unhidden fs cow rel name)
      (missing : fs.get (cow.upper ++ rel ++ [name]) = none)
      (above : hidden (treeAt fs cow.upper) rel = true)
  | throughLink {name : Name} (unhidden : Unhidden fs cow rel name)
      (missing : fs.get (cow.upper ++ rel ++ [name]) = none)
      (absent : fs.get (cow.lower ++ rel ++ [name]) = none)

theorem isMarker_of_cowView {row : Path × Entry}
    (shown : cowView fs cow (rel ++ [name]) = some row) : isMarker name = false := by
  have unmarked := (get_of_cowView shown).1
  rw [hasMarker_append, Bool.or_eq_false_iff, hasMarker_singleton] at unmarked
  exact unmarked.2

variable (mounted : Mounted fs cow)

include mounted

theorem Unhidden.row (shown : ShownDir fs cow rel) (permutes : ∀ names, (shuffle names).Perm names)
    (unhidden : Unhidden fs cow rel name) (notReplaced : ¬ UpperRow fs cow rel name) :
    MergedEntry.mk name (cow.lower ++ rel ++ [name]) cow.lower ∈
      mergedEntries shuffle lowercaseLe fs cow rel :=
  (mem_mergedEntries_iff permutes).mpr ⟨unhidden.plain, rfl, .inr ⟨rfl, unhidden.listed,
    (shown.unseen mounted plainName_opaqueMarker).mpr unhidden.notOpaque,
    (shown.unseen mounted (plainName_whiteout unhidden.plain)).mpr unhidden.notWhiteout, notReplaced⟩⟩

theorem ListsOverlay.noLeak (shown : ShownDir fs cow rel) (permutes : ∀ names, (shuffle names).Perm names)
    (lists : ListsOverlay shuffle lowercaseLe fs cow rel) : ¬ Leak fs cow rel := by
  intro leak
  -- what the overlay must have for a row of the lower tree
  have asked : ∀ name, Unhidden fs cow rel name → ¬ UpperRow fs cow rel name →
      isMarker name = false ∧ (fs.get (cow.upper ++ rel ++ [name]) = none →
        ¬ hidden (treeAt fs cow.upper) rel = true ∧ fs.get (cow.lower ++ rel ++ [name]) ≠ none) := by
    intro name unhidden notReplaced
    obtain ⟨_, row, there, _⟩ := (lists.entries _).mp (unhidden.row mounted shown permutes notReplaced)
    have unmarked := isMarker_of_cowView there
    refine ⟨unmarked, fun missing => ?_⟩
    rw [shown.child unmarked missing] at there
    split at there
    · cases there
    case isFalse clear =>
        refine ⟨fun above => clear (.inl above), fun absent => ?_⟩
        rw [List.append_assoc] at absent
        rw [treeAt_of_get_none absent] at there
        cases there
  have notUpper : ∀ name, fs.get (cow.upper ++ rel ++ [name]) = none → PlainName name →
      ¬ UpperRow fs cow rel name :=
    fun name missing plain row => (shown.probe mounted plain).mp row.present missing
  cases leak with
  | @marker name unhidden marked =>
      have unmarked := (asked name unhidden fun row => by simp [row.unmarked] at marked).1
      rw [marked] at unmarked
      cases unmarked
  | @covered name unhidden missing above =>
      exact ((asked name unhidden (notUpper name missing unhidden.plain)).2 missing).1 above
  | @throughLink name unhidden missing absent =>
      exact ((asked name unhidden (notUpper name missing unhidden.plain)).2 missing).2 absent

theorem UpperRow.shown (shown : ShownDir fs cow rel)
    (plain : PlainName name) (row : UpperRow fs cow rel name) :
    ∃ entry, cowView fs cow (rel ++ [name]) = some (cow.upper ++ (rel ++ [name]), entry) := by
  have unmarkedChild : hasMarker (rel ++ [name]) = false := by
    rw [hasMarker_append, hasMarker_singleton, shown.unmarked, row.unmarked]
    rfl
  obtain ⟨entry, found⟩ := Option.ne_none_iff_exists'.mp ((shown.probe mounted plain).mp row.present)
  rw [List.append_assoc] at found
  exact ⟨entry, overlay_of_upper unmarkedChild (treeAt_of_get found)⟩

theorem LowerRow.shown (shown : ShownDir fs cow rel)
    (noLeak : ¬ Leak fs cow rel) (plain : PlainName name) (row : LowerRow fs cow rel name) :
    ∃ entry, cowView fs cow (rel ++ [name]) = some (cow.lower ++ (rel ++ [name]), entry) := by
  have unhidden : Unhidden fs cow rel name :=
    ⟨plain, row.present, (shown.unseen mounted plainName_opaqueMarker).mp row.notOpaque,
      (shown.unseen mounted (plainName_whiteout plain)).mp row.notWhiteout⟩
  have unmarked : isMarker name = false := by
    rw [Bool.eq_false_iff]
    exact fun marked => noLeak (.marker unhidden marked)
  have missing : fs.get (cow.upper ++ rel ++ [name]) = none := by
    rw [← shown.unseen mounted plain, Bool.eq_false_iff]
    exact fun present => row.notReplaced ⟨unmarked, present⟩
  have present : fs.get (cow.lower ++ rel ++ [name]) ≠ none :=
    fun absent => noLeak (.throughLink unhidden missing absent)
  obtain ⟨entry, found⟩ := Option.ne_none_iff_exists'.mp present
  rw [List.append_assoc] at found
  refine ⟨entry, ?_⟩
  rw [shown.child unmarked missing, if_neg, treeAt_of_get found]
  rintro (above | whiteout | opaque_)
  · exact noLeak (.covered unhidden missing above)
  · exact whiteout unhidden.notWhiteout
  · exact opaque_ unhidden.notOpaque

theorem lowerRow_of_shown (shown : ShownDir fs cow rel)
    {row : Path × Entry} (there : cowView fs cow (rel ++ [name]) = some row)
    (lower : row.1 = cow.lower ++ (rel ++ [name])) (plain : PlainName name)
    (missing : fs.get (cow.upper ++ rel ++ [name]) = none) : LowerRow fs cow rel name := by
  have found := (get_of_cowView there).2.1
  rw [lower, ← List.append_assoc] at found
  rw [shown.child (isMarker_of_cowView there) missing] at there
  split at there
  · cases there
  case isFalse clear =>
      rw [not_or, not_or, not_not, not_not] at clear
      exact ⟨FS.lexists_of_get found, (shown.unseen mounted plainName_opaqueMarker).mpr clear.2.2,
        (shown.unseen mounted (plainName_whiteout plain)).mpr clear.2.1,
        fun row => (shown.probe mounted plain).mp row.present missing⟩

theorem listsOverlay_iff (shown : ShownDir fs cow rel) (permutes : ∀ names, (shuffle names).Perm names) :
    ListsOverlay shuffle lowercaseLe fs cow rel ↔ ¬ Leak fs cow rel := by
  refine ⟨ListsOverlay.noLeak mounted shown permutes, fun noLeak => ⟨nodup_mergedEntries, fun entry => ?_⟩⟩
  rw [mem_mergedEntries_iff permutes]
  constructor
  · rintro ⟨plain, file, ⟨source, row⟩ | ⟨source, row⟩⟩
    · obtain ⟨content, there⟩ := row.shown mounted shown plain
      exact ⟨file, _, there, by rw [file, source, List.append_assoc]⟩
    · obtain ⟨content, there⟩ := row.shown mounted shown noLeak plain
      exact ⟨file, _, there, by rw [file, source, List.append_assoc]⟩
  rintro ⟨file, row, there, place⟩
  obtain ⟨_, found, upper | ⟨lower, missing, _⟩⟩ := get_of_cowView there
  · rw [upper] at found
    have plain := plainPath_of_get found entry.name (by simp)
    rw [← List.append_assoc] at found
    rw [← place, upper, List.append_assoc] at file
    refine ⟨plain, ?_, .inl ⟨(List.append_cancel_right file).symm, isMarker_of_cowView there,
      FS.lexists_of_get found⟩⟩
    rw [← place, upper, ← List.append_cancel_right file, List.append_assoc]
  · rw [lower] at found
    have plain := plainPath_of_get found entry.name (by simp)
    rw [← List.append_assoc] at missing
    rw [← place, lower, List.append_assoc] at file
    refine ⟨plain, ?_, .inr ⟨(List.append_cancel_right file).symm,
      lowerRow_of_shown mounted shown there lower plain missing⟩⟩
    rw [← place, lower, ← List.append_cancel_right file, List.append_assoc]

omit mounted

def RenderedTo (fs : FS) (cow : Cow) (rel : Path) : Prop :=
  ∀ above, above <+: rel → rendersMerged fs cow above = true

theorem RenderedTo.append (rendered : RenderedTo fs cow rel)
    (here : rendersMerged fs cow (rel ++ [name]) = true) : RenderedTo fs cow (rel ++ [name]) := by
  intro above inPath
  rw [List.prefix_concat_iff] at inPath
  cases inPath with
  | inl whole => rw [whole]; exact here
  | inr inRel => exact rendered above inRel

theorem isDirectoryEntry_of_get {file : Path} {entry : Entry} (found : fs.get (file ++ [name]) = some entry) :
    isDirectoryEntry fs (file ++ [name]) = entry.isDir := by
  have plain : PlainName name := FS.plainName_of_get found (by simp)
  rw [isDirectoryEntry, FS.lstat_child (FS.isDirAt_parent found) plain, found]
  rfl

theorem isDirectoryEntry_of_cowView {row : Path × Entry} (there : cowView fs cow (rel ++ [name]) = some row) :
    isDirectoryEntry fs row.1 = row.2.isDir := by
  obtain ⟨_, found, place | ⟨place, _⟩⟩ := get_of_cowView there
  · rw [place, ← List.append_assoc] at found ⊢
    exact isDirectoryEntry_of_get found
  · rw [place, ← List.append_assoc] at found ⊢
    exact isDirectoryEntry_of_get found

theorem shownDir_root (mounted : Mounted fs cow) : ShownDir fs cow [] := by
  obtain ⟨mode, found⟩ := FS.isDirAt_iff.mp mounted.upper
  refine ⟨(cow.upper ++ [], .dir mode), overlay_of_upper rfl (treeAt_of_get ?_), rfl⟩
  rw [List.append_nil]
  exact found

theorem Browsed.shown (mounted : Mounted fs cow) (permutes : ∀ names, (shuffle names).Perm names)
    (noLeak : ∀ rel, ShownDir fs cow rel → RenderedTo fs cow rel → ¬ Leak fs cow rel)
    (browsed : Browsed shuffle lowercaseLe fs cow rel) : ShownDir fs cow rel ∧ RenderedTo fs cow rel := by
  induction browsed with
  | root rendered =>
      refine ⟨shownDir_root mounted, fun above inPath => ?_⟩
      rw [List.prefix_nil.mp inPath]
      exact rendered
  | @follow rel entry browsed row directory rendered ih =>
      have lists : ListsOverlay shuffle lowercaseLe fs cow rel :=
        (listsOverlay_iff mounted ih.1 permutes).mpr (noLeak rel ih.1 ih.2)
      obtain ⟨_, shownRow, there, place⟩ := (lists.entries entry).mp row
      refine ⟨⟨shownRow, there, ?_⟩, ih.2.append rendered⟩
      rw [← isDirectoryEntry_of_cowView there, place]
      exact directory

theorem browsed_of_shown
    (lists : ∀ rel, Browsed shuffle lowercaseLe fs cow rel → ListsOverlay shuffle lowercaseLe fs cow rel)
    (shown : ShownDir fs cow rel) (rendered : RenderedTo fs cow rel) :
    Browsed shuffle lowercaseLe fs cow rel := by
  induction rel using List.reverseRecOn with
  | nil => exact .root (rendered [] List.nil_prefix)
  | append_singleton rel name ih =>
      obtain ⟨row, there, directory⟩ := shown
      have browsed := ih (shownDir_parent there)
        fun above inPath => rendered above (inPath.trans (List.prefix_append _ _))
      obtain ⟨source, place⟩ : ∃ source, row.1 = source ++ rel ++ [name] := by
        obtain ⟨_, _, place | ⟨place, _⟩⟩ := get_of_cowView there
        · exact ⟨cow.upper, by rw [place, List.append_assoc]⟩
        · exact ⟨cow.lower, by rw [place, List.append_assoc]⟩
      have listed : MergedEntry.mk name row.1 source ∈ mergedEntries shuffle lowercaseLe fs cow rel :=
        ((lists rel browsed).entries _).mpr ⟨place, row, there, rfl⟩
      refine browsed.follow listed ?_ (rendered _ List.prefix_rfl)
      rw [isDirectoryEntry_of_cowView there]
      exact directory

theorem noLeak_of_table (mounted : Mounted fs cow) (noLinks : ∀ row ∈ fs.table, row.2.isSymlink = false)
    (lower : ∀ row ∈ fs.table, cow.lower <+: row.1 → hasMarker (row.1.drop cow.lower.length) = false ∧
        hidden (treeAt fs cow.upper) (row.1.drop cow.lower.length).dropLast = false) :
    ∀ rel, ShownDir fs cow rel → RenderedTo fs cow rel → ¬ Leak fs cow rel := by
  intro rel shown _ leak
  have checked : ∀ name, Unhidden fs cow rel name →
      fs.get (cow.lower ++ rel ++ [name]) ≠ none ∧ isMarker name = false ∧
        hidden (treeAt fs cow.upper) rel = false := by
    intro name unhidden
    have listed := unhidden.listed
    cases found : fs.get (cow.lower ++ rel ++ [name]) with
    | none =>
        rw [List.append_assoc] at found listed
        obtain ⟨above, _, link⟩ := FS.exists_link_of_lexists mounted.lower
          (shown.plain.append (plainPath_singleton.mpr unhidden.plain)) listed found
        obtain ⟨target, held⟩ := FS.isSymlinkAt_iff.mp link
        cases noLinks _ (FS.mem_table_of_get held)
    | some entry =>
        rw [List.append_assoc] at found
        obtain ⟨unmarked, bare⟩ := lower _ (FS.mem_table_of_get found) (List.prefix_append _ _)
        simp only [List.drop_left, List.dropLast_concat] at unmarked bare
        rw [hasMarker_append, Bool.or_eq_false_iff, hasMarker_singleton] at unmarked
        exact ⟨Option.some_ne_none _, unmarked.2, bare⟩
  cases leak with
  | marker unhidden marked =>
      rw [(checked _ unhidden).2.1] at marked
      cases marked
  | covered unhidden _ above =>
      rw [(checked _ unhidden).2.2] at above
      cases above
  | throughLink unhidden _ absent => exact (checked _ unhidden).1 absent

end

def recreatedTrees : FS :=
  .populate [.dir (pathOf "upper/work"), .file (pathOf "upper/.wh.work") [],
    .file (pathOf "upper/work/new") [1], .dir (pathOf "lower/work"),
    .file (pathOf "lower/work/old") [2]]

end PDocker.Archive
