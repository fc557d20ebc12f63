import PDocker.Posix.FileSystem

/-!
# Primitive updates

The four ways a tree changes: an object goes with everything below it, a
directory is emptied, a directory gains one name, a directory changes its
mode. Inodes are only ever appended or overwritten in place. Each update is
total and comes with the equation for `get`, which is all later proofs use.
-/

set_option autoImplicit false

namespace PDocker.Posix

theorem lookup_filter_path (keep : Path → Bool) (table : Table) (path : Path) :
    (table.filter fun row => keep row.1).lookup path =
      if keep path then table.lookup path else none := by
  induction table with
  | nil => simp
  | cons row table ih =>
      obtain ⟨key, entry⟩ := row
      by_cases same : path = key
      · subst same
        cases kept : keep path <;> simp [kept, ih]
      · have different : (path == key) = false := by simpa using same
        cases kept : keep key <;> simp [kept, ih, List.lookup_cons, different]

theorem lookup_cons_path (table : Table) (key path : Path) (entry : Entry) :
    ((key, entry) :: table).lookup path = if path = key then some entry else table.lookup path := by
  by_cases same : path = key
  · simp [same]
  · have different : (path == key) = false := by simpa using same
    simp [List.lookup_cons, same, different]

def Below (top path : Path) : Prop := top <+: path ∧ top ≠ path

instance (top path : Path) : Decidable (Below top path) :=
  inferInstanceAs (Decidable (_ ∧ _))

variable {path top left right : Path} {inodes : Nat} {table : Table}

theorem below_append_singleton {name : Name} : Below top (path ++ [name]) ↔ top <+: path := by
  unfold Below
  constructor
  · rintro ⟨⟨rest, shape⟩, proper⟩
    rcases List.eq_nil_or_concat rest with rfl | ⟨init, last, rfl⟩
    · simp at shape; exact absurd shape proper
    · rw [List.concat_eq_append, ← List.append_assoc] at shape
      exact ⟨init, (List.append_inj' shape rfl).1⟩
  · rintro ⟨rest, rfl⟩
    exact ⟨⟨rest ++ [name], by simp⟩, by simp⟩

theorem Below.prefix_parent (below : Below top path) :
    ∃ parent name, path = parent ++ [name] ∧ top <+: parent := by
  rcases List.eq_nil_or_concat path with rfl | ⟨parent, name, rfl⟩
  · obtain ⟨⟨rest, shape⟩, proper⟩ := below
    simp at shape
    exact absurd shape.1 proper
  · rw [List.concat_eq_append] at below ⊢
    exact ⟨parent, name, rfl, below_append_singleton.mp below⟩

theorem Below.extend {longer : Path} (below : Below top path) (extends_ : path <+: longer) : Below top longer := by
  refine ⟨below.1.trans extends_, ?_⟩
  rintro rfl
  exact below.2 (List.IsPrefix.eq_of_length_le below.1 extends_.length_le)

def Apart (left right : Path) : Prop := ¬ left <+: right ∧ ¬ right <+: left

instance (left right : Path) : Decidable (Apart left right) :=
  inferInstanceAs (Decidable (_ ∧ _))

theorem Apart.not_prefix_append (apart : Apart left right) (path : Path) :
    ¬ left <+: right ++ path := by
  intro below
  rcases List.prefix_or_prefix_of_prefix below (List.prefix_append right path) with inside | outside
  · exact apart.1 inside
  · exact apart.2 outside

variable (wellFormed : WellFormed table inodes)

include wellFormed

private theorem wellFormed_filter (keep : Path → Bool) (root : keep [] = true)
    (upward : ∀ path name, keep (path ++ [name]) = true → keep path = true) :
    WellFormed (table.filter fun row => keep row.1) inodes where
  root := by simpa [lookup_filter_path, root] using wellFormed.root
  closed := by
    intro path name entry found
    rw [lookup_filter_path] at found ⊢
    split at found
    · rename_i kept
      simpa [upward path name kept] using wellFormed.closed found
    · cases found
  plain := by
    intro path entry found
    rw [lookup_filter_path] at found
    split at found
    · exact wellFormed.plain found
    · cases found
  valid := by
    intro path entry found
    rw [lookup_filter_path] at found
    split at found
    · exact wellFormed.valid found
    · cases found

private theorem wellFormed_cons {key : Path} {entry : Entry}
    (parent : ∀ path name, key = path ++ [name] → ∃ mode, table.lookup path = some (.dir mode))
    (plain : ∀ name ∈ key, PlainName name) (valid : entry.ValidFor inodes)
    (keeps : entry.isDir = true ∨ table.lookup key = none ∧ key ≠ []) :
    WellFormed ((key, entry) :: table) inodes := by
  have dirStays : ∀ {path : Path}, (∃ mode, table.lookup path = some (.dir mode)) →
      ∃ mode, ((key, entry) :: table).lookup path = some (.dir mode) := by
    intro path directory
    rw [lookup_cons_path]
    by_cases same : path = key
    · rcases keeps with isDir | ⟨missing, _⟩
      · obtain ⟨mode, rfl⟩ := Entry.isDir_iff.mp isDir
        exact ⟨mode, by simp [same]⟩
      · rw [same, missing] at directory
        obtain ⟨mode, impossible⟩ := directory
        cases impossible
    · simpa [same] using directory
  refine ⟨dirStays wellFormed.root, ?_, ?_, ?_⟩
  · intro path name found foundEq
    rw [lookup_cons_path] at foundEq
    split at foundEq
    · rename_i same
      exact dirStays (parent path name same.symm)
    · exact dirStays (wellFormed.closed foundEq)
  · intro path found foundEq
    rw [lookup_cons_path] at foundEq
    split at foundEq
    · rename_i same
      exact same ▸ plain
    · exact wellFormed.plain foundEq
  · intro path found foundEq
    rw [lookup_cons_path] at foundEq
    split at foundEq
    · cases foundEq
      exact valid
    · exact wellFormed.valid foundEq

theorem WellFormed.mono {more : Nat} (le : inodes ≤ more) : WellFormed table more where
  root := wellFormed.root
  closed := wellFormed.closed
  plain := wellFormed.plain
  valid := by
    intro path entry found
    have valid := wellFormed.valid found
    cases entry with
    | file ino => exact lt_of_lt_of_le valid le
    | dir | symlink => trivial

omit wellFormed

namespace FS

def remove (fs : FS) (path : Path) : FS :=
  if nonempty : path = [] then fs
  else
    { fs with
      table := fs.table.filter fun row => !path.isPrefixOf row.1
      wellFormed := wellFormed_filter fs.wellFormed (fun key => !path.isPrefixOf key)
        (by cases path with
          | nil => exact absurd rfl nonempty
          | cons => rfl)
        (by
          intro key name kept
          simp only [Bool.not_eq_true', Bool.eq_false_iff, ne_eq, List.isPrefixOf_iff_prefix] at kept ⊢
          exact fun below => kept (below.trans (List.prefix_append _ _))) }

def clear (fs : FS) (path : Path) : FS :=
  { fs with
    table := fs.table.filter fun row => !decide (Below path row.1)
    wellFormed := wellFormed_filter fs.wellFormed (fun key => !decide (Below path key))
      (by
        simp only [Bool.not_eq_true', decide_eq_false_iff_not]
        rintro ⟨⟨rest, shape⟩, proper⟩
        simp at shape
        exact proper shape.1)
      (by
        intro key name kept
        simp only [Bool.not_eq_true', decide_eq_false_iff_not] at kept ⊢
        exact fun below => kept (below.extend (List.prefix_append _ _))) }

variable {fs : FS} {path other parent : Path} {name : Name} {mode : Nat}

theorem get_remove (nonempty : path ≠ []) (other : Path) :
    (fs.remove path).get other = if path <+: other then none else fs.get other := by
  simp only [remove, nonempty, ↓reduceDIte, get]
  rw [lookup_filter_path (fun key => !path.isPrefixOf key)]
  by_cases below : path <+: other
  · have starts : path.isPrefixOf other = true := List.isPrefixOf_iff_prefix.mpr below
    simp [starts, below]
  · simp [below]

theorem get_clear (fs : FS) (path other : Path) :
    (fs.clear path).get other = if Below path other then none else fs.get other := by
  simp only [clear, get]
  rw [lookup_filter_path (fun key => !decide (Below path key))]
  by_cases below : Below path other <;> simp [below]

@[simp] theorem inodes_remove (fs : FS) (path : Path) : (fs.remove path).inodes = fs.inodes := by
  unfold remove; split <;> rfl

@[simp] theorem inodes_clear (fs : FS) (path : Path) : (fs.clear path).inodes = fs.inodes := rfl

def add (fs : FS) (parent : Path) (name : Name) (entry : Entry) : FS :=
  if accepted : fs.isDirAt parent = true ∧ fs.get (parent ++ [name]) = none ∧
      PlainName name ∧ entry.ValidFor fs.inodes.length then
    { fs with
      table := (parent ++ [name], entry) :: fs.table
      wellFormed := wellFormed_cons fs.wellFormed
        (by
          intro path other shape
          obtain ⟨rfl, -⟩ := List.append_inj' shape rfl
          exact isDirAt_iff.mp accepted.1)
        (by
          intro other member
          rcases List.mem_append.mp member with above | last
          · obtain ⟨mode, found⟩ := isDirAt_iff.mp accepted.1
            exact plainName_of_get found above
          · rw [List.mem_singleton.mp last]
            exact accepted.2.2.1)
        accepted.2.2.2
        (.inr ⟨accepted.2.1, by simp⟩) }
  else fs

def setDirMode (fs : FS) (path : Path) (mode : Nat) : FS :=
  if directory : fs.isDirAt path = true then
    { fs with
      table := (path, .dir mode) :: fs.table
      wellFormed := wellFormed_cons fs.wellFormed
        (by
          intro parent name shape
          obtain ⟨mode, found⟩ := isDirAt_iff.mp directory
          rw [shape] at found
          exact isDirAt_iff.mp (isDirAt_parent found))
        (by
          obtain ⟨mode, found⟩ := isDirAt_iff.mp directory
          exact fun name member => plainName_of_get found member)
        trivial (.inl rfl) }
  else fs

def allocate (fs : FS) (inode : Inode) : FS :=
  { fs with
    inodes := fs.inodes ++ [inode]
    wellFormed := fs.wellFormed.mono (by simp) }

def setInode (fs : FS) (ino : Nat) (inode : Inode) : FS :=
  { fs with
    inodes := fs.inodes.set ino inode
    wellFormed := fs.wellFormed.mono (by simp) }

theorem get_add {fs : FS} {parent : Path} {name : Name} {entry : Entry}
    (directory : fs.isDirAt parent = true) (free : fs.get (parent ++ [name]) = none)
    (plain : PlainName name) (valid : entry.ValidFor fs.inodes.length) (other : Path) :
    (fs.add parent name entry).get other =
      if other = parent ++ [name] then some entry else fs.get other := by
  unfold add
  rw [dif_pos ⟨directory, free, plain, valid⟩]
  exact lookup_cons_path _ _ _ _

theorem get_add_of_ne {entry : Entry} (different : other ≠ parent ++ [name]) :
    (fs.add parent name entry).get other = fs.get other := by
  unfold add
  split
  · simp [get, lookup_cons_path, different]
  · rfl

theorem get_setDirMode (directory : fs.isDirAt path = true) (other : Path) :
    (fs.setDirMode path mode).get other = if other = path then some (.dir mode) else fs.get other := by
  simp only [setDirMode, directory, ↓reduceDIte, get]
  exact lookup_cons_path _ _ _ _

theorem get_setDirMode_of_ne (different : other ≠ path) : (fs.setDirMode path mode).get other = fs.get other := by
  unfold setDirMode
  split
  · simp [get, lookup_cons_path, different]
  · rfl

@[simp] theorem get_allocate (fs : FS) (inode : Inode) (path : Path) :
    (fs.allocate inode).get path = fs.get path := rfl

@[simp] theorem inodes_allocate (fs : FS) (inode : Inode) :
    (fs.allocate inode).inodes = fs.inodes ++ [inode] := rfl

@[simp] theorem get_setInode (fs : FS) (ino : Nat) (inode : Inode) (path : Path) :
    (fs.setInode ino inode).get path = fs.get path := rfl

@[simp] theorem inodes_setInode (fs : FS) (ino : Nat) (inode : Inode) :
    (fs.setInode ino inode).inodes = fs.inodes.set ino inode := rfl

@[simp] theorem inodes_add (fs : FS) (parent : Path) (name : Name) (entry : Entry) :
    (fs.add parent name entry).inodes = fs.inodes := by
  unfold add; split <;> rfl

@[simp] theorem inodes_setDirMode (fs : FS) (path : Path) (mode : Nat) :
    (fs.setDirMode path mode).inodes = fs.inodes := by
  unfold setDirMode; split <;> rfl

def childOf (parent path : Path) : Option Name :=
  if path.dropLast = parent then path.getLast? else none

def names (fs : FS) (path : Path) : List Name :=
  (fs.table.filterMap fun row => childOf path row.1).dedup

theorem childOf_eq_some_iff : childOf parent path = some name ↔ path = parent ++ [name] := by
  unfold childOf
  rcases List.eq_nil_or_concat path with rfl | ⟨init, last, rfl⟩
  · simp
  rw [List.concat_eq_append]
  by_cases same : init = parent
  · simp [same]
  · simp [same]

theorem mem_names : name ∈ fs.names path ↔ fs.get (path ++ [name]) ≠ none := by
  have keys : ∀ table : Table,
      (∃ row ∈ table, row.1 = path ++ [name]) ↔ table.lookup (path ++ [name]) ≠ none := by
    intro table
    induction table with
    | nil => simp
    | cons row table ih =>
        obtain ⟨key, entry⟩ := row
        rw [lookup_cons_path]
        by_cases same : path ++ [name] = key
        · simp [same]
        · simp only [List.mem_cons, exists_eq_or_imp, same, ↓reduceIte, ← ih]
          simp [Ne.symm same]
  simp only [names, List.mem_dedup, List.mem_filterMap, childOf_eq_some_iff]
  exact keys fs.table

theorem nodup_names (fs : FS) (path : Path) : (fs.names path).Nodup :=
  List.nodup_dedup _

theorem plainName_of_mem_names (member : name ∈ fs.names path) : PlainName name := by
  obtain ⟨entry, found⟩ := Option.ne_none_iff_exists'.mp (mem_names.mp member)
  exact plainName_of_get found (by simp)

end FS

end PDocker.Posix
