import Mathlib.Data.List.Dedup
import PDocker.Posix.Path

/-!
# Trees of named objects

A file system is a finite table from physical paths to directories, regular
files and symbolic links, with a separate table of inodes so that two names
may share one file. The invariants of a mounted tree (every parent is a
directory, names are single components, inode numbers are allocated) are
fields of the structure, and every operation below re-establishes them.
Permission bits are recorded but never refuse an access.
-/

set_option autoImplicit false

namespace PDocker.Posix

structure Target where
  absolute : Bool
  comps : List Name
  deriving DecidableEq, Repr

inductive Entry where
  | dir (mode : Nat)
  | file (ino : Nat)
  | symlink (target : Target)
  deriving DecidableEq, Repr

structure Inode where
  mode : Nat
  content : List UInt8
  deriving DecidableEq, Repr, Inhabited

/-- What a reader of one path can tell: kind, mode, content, link target. -/
inductive Obs where
  | dir (mode : Nat)
  | file (mode : Nat) (content : List UInt8)
  | symlink (target : Target)
  deriving DecidableEq, Repr

def Entry.isDir : Entry → Bool
  | .dir _ => true
  | .file _ | .symlink _ => false

def Entry.isSymlink : Entry → Bool
  | .symlink _ => true
  | .dir _ | .file _ => false

def Obs.isDir : Obs → Bool
  | .dir _ => true
  | _ => false

def Obs.isSymlink : Obs → Bool
  | .symlink _ => true
  | .dir _ | .file _ _ => false

def Entry.obs (inodes : List Inode) : Entry → Obs
  | .dir mode => .dir mode
  | .file ino => .file (inodes.getD ino default).mode (inodes.getD ino default).content
  | .symlink target => .symlink target

def Entry.ValidFor (inodes : Nat) : Entry → Prop
  | .file ino => ino < inodes
  | _ => True

instance (inodes : Nat) : DecidablePred (Entry.ValidFor inodes)
  | .file _ => inferInstanceAs (Decidable (_ < _))
  | .dir _ => .isTrue trivial
  | .symlink _ => .isTrue trivial

variable (mode : Nat) (ino : Nat) (target : Target) (inodes : List Inode)

@[simp] theorem Entry.isDir_dir : (Entry.dir mode).isDir = true := rfl
@[simp] theorem Entry.isDir_file : (Entry.file ino).isDir = false := rfl
@[simp] theorem Entry.isDir_symlink : (Entry.symlink target).isDir = false := rfl
@[simp] theorem Entry.isSymlink_dir : (Entry.dir mode).isSymlink = false := rfl
@[simp] theorem Entry.isSymlink_file : (Entry.file ino).isSymlink = false := rfl
@[simp] theorem Entry.isSymlink_symlink :
    (Entry.symlink target).isSymlink = true := rfl

@[simp] theorem Entry.isDir_obs (entry : Entry) :
    (entry.obs inodes).isDir = entry.isDir := by
  cases entry <;> rfl

@[simp] theorem Entry.isSymlink_obs (entry : Entry) :
    (entry.obs inodes).isSymlink = entry.isSymlink := by
  cases entry <;> rfl

theorem Entry.isDir_iff {entry : Entry} : entry.isDir = true ↔ ∃ mode, entry = .dir mode := by
  cases entry <;> simp [Entry.isDir]

abbrev Table := List (Path × Entry)

structure WellFormed (table : Table) (inodes : Nat) : Prop where
  root : ∃ mode, table.lookup [] = some (.dir mode)
  closed : ∀ {path : Path} {name : Name} {entry : Entry}, table.lookup (path ++ [name]) = some entry →
      ∃ mode, table.lookup path = some (.dir mode)
  plain : ∀ {path : Path} {entry : Entry}, table.lookup path = some entry →
    ∀ name ∈ path, PlainName name
  valid : ∀ {path : Path} {entry : Entry}, table.lookup path = some entry → entry.ValidFor inodes

/-- `umask` masks the mode of new directories; `linkable` tells whether the
platform lets the process create hard links at all. -/
structure FS where
  table : Table
  inodes : List Inode
  umask : Nat
  linkable : Bool
  wellFormed : WellFormed table inodes.length

namespace FS

def initial (umask : Nat) (linkable : Bool) : FS where
  table := [([], .dir 0o755)]
  inodes := []
  umask
  linkable
  wellFormed := by
    have only : ∀ {path : Path} {entry : Entry},
        List.lookup path [(([] : Path), Entry.dir 0o755)] = some entry →
          path = [] ∧ entry = .dir 0o755 := by
      intro path entry found
      cases path with
      | nil => exact ⟨rfl, by simpa using found.symm⟩
      | cons => simp [List.lookup_cons] at found
    refine ⟨⟨_, rfl⟩, ?_, ?_, ?_⟩
    · intro path name entry found
      simpa using (only found).1
    · intro path entry found
      simp [(only found).1]
    · intro path entry found
      rw [(only found).2]
      trivial

def get (fs : FS) (path : Path) : Option Entry := fs.table.lookup path

def obs (fs : FS) (path : Path) : Option Obs := (fs.get path).map (Entry.obs fs.inodes)

def isDirAt (fs : FS) (path : Path) : Bool :=
  match fs.get path with
  | some entry => entry.isDir
  | none => false

def isSymlinkAt (fs : FS) (path : Path) : Bool :=
  match fs.get path with
  | some entry => entry.isSymlink
  | none => false

def height (fs : FS) : Nat := (fs.table.map fun row => row.1.length).foldr max 0

/-! ## Consequences of well-formedness -/

variable {fs : FS} {path rest longer : Path} {entry : Entry} {name : Name}

theorem isDirAt_iff : fs.isDirAt path = true ↔ ∃ mode, fs.get path = some (.dir mode) := by
  unfold isDirAt
  cases fs.get path with
  | none => simp
  | some entry => simp [Entry.isDir_iff]

theorem isDirAt_of_get (found : fs.get path = some entry) : fs.isDirAt path = entry.isDir := by
  rw [isDirAt, found]

theorem isSymlinkAt_of_get (found : fs.get path = some entry) : fs.isSymlinkAt path = entry.isSymlink := by
  rw [isSymlinkAt, found]

theorem isSymlinkAt_of_get_none (missing : fs.get path = none) : fs.isSymlinkAt path = false := by
  rw [isSymlinkAt, missing]

theorem isDirAt_eq_any_obs (fs : FS) (path : Path) : fs.isDirAt path = (fs.obs path).any Obs.isDir := by
  unfold isDirAt obs
  cases fs.get path <;> simp

theorem isSymlinkAt_eq_any_obs (fs : FS) (path : Path) :
    fs.isSymlinkAt path = (fs.obs path).any Obs.isSymlink := by
  unfold isSymlinkAt obs
  cases fs.get path <;> simp

theorem isSymlinkAt_iff :
    fs.isSymlinkAt path = true ↔ ∃ target, fs.get path = some (.symlink target) := by
  unfold isSymlinkAt
  cases fs.get path with
  | none => simp
  | some entry => cases entry <;> simp

@[simp] theorem isDirAt_root (fs : FS) : fs.isDirAt [] = true :=
  isDirAt_iff.mpr fs.wellFormed.root

theorem isDirAt_parent (found : fs.get (path ++ [name]) = some entry) : fs.isDirAt path = true :=
  isDirAt_iff.mpr (fs.wellFormed.closed found)

theorem plainName_of_get (found : fs.get path = some entry) (member : name ∈ path) : PlainName name :=
  fs.wellFormed.plain found name member

theorem isDirAt_of_get_append (found : fs.get (path ++ rest) = some entry) (nonempty : rest ≠ []) :
    fs.isDirAt path = true := by
  induction rest using List.reverseRecOn generalizing entry with
  | nil => exact absurd rfl nonempty
  | append_singleton rest name ih =>
      rw [← List.append_assoc] at found
      have parent := isDirAt_parent found
      by_cases top : rest = []
      · simpa [top] using parent
      · obtain ⟨mode, parentFound⟩ := isDirAt_iff.mp parent
        exact ih parentFound top

theorem get_append_of_not_dir (leaf : fs.isDirAt path = false) (nonempty : rest ≠ []) :
    fs.get (path ++ rest) = none := by
  cases found : fs.get (path ++ rest) with
  | none => rfl
  | some entry =>
      rw [isDirAt_of_get_append found nonempty] at leaf
      cases leaf

theorem isDirAt_of_get_below (found : fs.get longer = some entry) (below : path <+: longer) (proper : path ≠ longer) :
    fs.isDirAt path = true := by
  obtain ⟨rest, rfl⟩ := below
  exact isDirAt_of_get_append found (by rintro rfl; simp at proper)

theorem get_eq_none_below (missing : fs.get path = none) (below : path <+: longer) : fs.get longer = none := by
  obtain ⟨rest, rfl⟩ := below
  by_cases top : rest = []
  · simpa [top] using missing
  · exact get_append_of_not_dir (by simp [isDirAt, missing]) top

theorem isDirAt_eq_false_of_get_none (missing : fs.get path = none) : fs.isDirAt path = false := by
  simp [isDirAt, missing]

theorem isDirAt_above (directory : fs.isDirAt longer = true) (below : path <+: longer) :
    fs.isDirAt path = true := by
  obtain ⟨mode, found⟩ := isDirAt_iff.mp directory
  by_cases same : path = longer
  · rwa [same]
  · exact isDirAt_of_get_below found below same

theorem obs_eq_none_iff : fs.obs path = none ↔ fs.get path = none := by
  simp [obs]

theorem mem_table_of_get (found : fs.get path = some entry) : (path, entry) ∈ fs.table := by
  have member : ∀ table : Table, table.lookup path = some entry → (path, entry) ∈ table := by
    intro table
    induction table with
    | nil => simp
    | cons row table ih =>
        obtain ⟨key, value⟩ := row
        intro found
        rw [List.lookup_cons] at found
        cases same : path == key with
        | true =>
            rw [same] at found
            cases found
            rw [beq_iff_eq.mp same]
            exact List.mem_cons_self
        | false =>
            rw [same] at found
            exact List.mem_cons_of_mem _ (ih found)
  exact member fs.table found

theorem length_le_height (found : fs.get path = some entry) : path.length ≤ fs.height := by
  have bound : ∀ table : Table, (path, entry) ∈ table →
      path.length ≤ (table.map fun row => row.1.length).foldr max 0 := by
    intro table
    induction table with
    | nil => simp
    | cons row table ih =>
        intro member
        simp only [List.map_cons, List.foldr_cons]
        rcases List.mem_cons.mp member with rfl | later
        · exact le_max_left _ _
        · exact le_trans (ih later) (le_max_right _ _)
  exact bound fs.table (mem_table_of_get found)

theorem length_lt_of_isDirAt_append {top : Path}
    (directory : fs.isDirAt (top ++ path) = true) : path.length < fs.height + 1 := by
  obtain ⟨mode, found⟩ := isDirAt_iff.mp directory
  have bound := length_le_height found
  simp only [List.length_append] at bound
  omega

end FS

end PDocker.Posix
