import PDocker.Posix.Resolve

/-!
# System calls and their library wrappers

Calls take path strings as component lists and go through `namei`. A call
that fails returns `none` and changes nothing. The recursive helpers of the
Python library (`makedirs`, `rmtree`) may fail half way, so they return the
tree they leave behind.
-/

set_option autoImplicit false

namespace PDocker.Posix

namespace FS

def newDirMode (fs : FS) : Nat := 0o777 ^^^ (0o777 &&& fs.umask)

def newFileMode (fs : FS) : Nat := 0o666 ^^^ (0o666 &&& fs.umask)

def create (fs : FS) (path : Path) (entry : Entry) : Option FS :=
  match path.getLast? with
  | none => none
  | some name =>
      if fs.isDirAt path.dropLast = true ∧ fs.get path = none ∧ PlainName name then
        some (fs.add path.dropLast name entry)
      else none

def mkdir (fs : FS) (raw : List Name) : Option FS :=
  (fs.namei raw false).bind fun path => fs.create path (.dir fs.newDirMode)

def symlink (fs : FS) (target : Target) (raw : List Name) : Option FS :=
  (fs.namei raw false).bind fun path => fs.create path (.symlink target)

def readlink (fs : FS) (raw : List Name) : Option Target :=
  match fs.lstat raw with
  | some (.symlink target) => some target
  | _ => none

def unlink (fs : FS) (raw : List Name) : Option FS :=
  (fs.namei raw false).bind fun path =>
    match fs.get path with
    | some (.file _) | some (.symlink _) => some (fs.remove path)
    | some (.dir _) | none => none

/-- `link(2)`: a link in the last place of `source` is not followed. -/
def link (fs : FS) (source raw : List Name) : Option FS :=
  if fs.linkable then
    match fs.lstat source with
    | some (.dir _) | none => none
    | some entry => (fs.namei raw false).bind fun path => fs.create path entry
  else none

/-- `rmdir(2)` refuses `.`, `..`, links and directories that are not empty. -/
def rmdir (fs : FS) (raw : List Name) : Option FS :=
  let trimmed := raw.rdropWhile (· = [])
  if trimmed.getLast? = some dot ∨ trimmed.getLast? = some dotdot then none
  else
    (fs.namei trimmed false).bind fun path =>
      if path ≠ [] ∧ fs.isDirAt path = true ∧ fs.names path = [] then some (fs.remove path)
      else none

def chmod (fs : FS) (raw : List Name) (mode : Nat) : Option FS :=
  (fs.namei raw true).bind fun path =>
    match fs.get path with
    | some (.dir _) => some (fs.setDirMode path mode)
    | some (.file ino) =>
        some (fs.setInode ino { mode, content := (fs.inodes.getD ino default).content })
    | _ => none

/-- `open(path, "wb")` followed by one write. -/
def writeFile (fs : FS) (raw : List Name) (content : List UInt8) : Option FS :=
  (fs.namei raw true).bind fun path =>
    match fs.get path with
    | some (.file ino) =>
        some (fs.setInode ino { mode := (fs.inodes.getD ino default).mode, content })
    | none => (fs.allocate ⟨fs.newFileMode, content⟩).create path (.file fs.inodes.length)
    | some (.dir _) | some (.symlink _) => none

def readFile (fs : FS) (raw : List Name) : Option (List UInt8) :=
  match fs.stat raw with
  | some (.file ino) => some (fs.inodes.getD ino default).content
  | _ => none

/-- `shutil.copyfile(source, raw, follow_symlinks=False)`. -/
def copyfile (fs : FS) (source raw : List Name) : Option FS :=
  match fs.stat source, fs.stat raw with
  | some (.file left), some (.file right) =>
      if left = right then none
      else (fs.readFile source).bind fun content => fs.writeFile raw content
  | _, _ =>
      match fs.readlink source with
      | some target => fs.symlink target raw
      | none => (fs.readFile source).bind fun content => fs.writeFile raw content

/-- `os.makedirs(raw, exist_ok=True)` on reversed components, with its success.
An error of the recursive call leaves the head missing, so the last `mkdir`
fails as well and reports it. -/
def makedirsRev (fs : FS) : List Name → FS × Bool
  | [] => (fs, true)
  | name :: above =>
      let raw := (name :: above).reverse
      let prepared := if fs.pathExists above.reverse then fs else (makedirsRev fs above).1
      match prepared.mkdir raw with
      | some made => (made, true)
      | none => (prepared, prepared.isdir raw)

def makedirs (fs : FS) (raw : List Name) : FS × Bool := fs.makedirsRev raw.reverse

/-- `shutil.rmtree(raw, ignore_errors=True)`: the contents go first, then the
directory itself; a symbolic link is refused. -/
def rmtree (fs : FS) (raw : List Name) : FS :=
  match fs.namei raw false with
  | none => fs
  | some path =>
      if fs.isDirAt path then
        let emptied := fs.clear path
        (emptied.rmdir raw).getD emptied
      else fs

inductive Item where
  | dir (path : Path)
  | file (path : Path) (content : List UInt8)
  | symlink (path : Path) (target : Target)

def plant (fs : FS) : Item → FS
  | .dir path => (fs.makedirs path).1
  | .file path content => (fs.writeFile path content).getD fs
  | .symlink path target => (fs.symlink target path).getD fs

def populate (items : List Item) : FS := items.foldl plant (initial 0o022 true)

end FS

namespace FS

section
variable {fs : FS} {top : Path} {name : Name}

theorem isSymlinkAt_of_isDirAt {path above : Path} (directory : fs.isDirAt path = true)
    (below : above <+: path) : fs.isSymlinkAt above = false := by
  obtain ⟨mode, found⟩ := isDirAt_iff.mp (isDirAt_above directory below)
  simp [isSymlinkAt, found]

variable (directory : fs.isDirAt top = true)

include directory

theorem lstat_child (plain : PlainName name) : fs.lstat (top ++ [name]) = fs.get (top ++ [name]) := by
  simp [lstat, namei_child directory plain]

theorem stat_dir : fs.stat top = fs.get top := by
  simp [stat, namei_dir directory]

theorem isdir_of_isDirAt : fs.isdir top = true := by
  obtain ⟨mode, found⟩ := isDirAt_iff.mp directory
  simp [isdir, stat_dir directory, found]

theorem islink_of_isDirAt : fs.islink top = false := by
  obtain ⟨mode, found⟩ := isDirAt_iff.mp directory
  simp [islink, lstat, namei_dir directory, found]

theorem pathExists_of_isDirAt : fs.pathExists top = true := by
  obtain ⟨mode, found⟩ := isDirAt_iff.mp directory
  simp [pathExists, stat_dir directory, found]

theorem listdir_of_isDirAt : fs.listdir top = some (fs.names top) := by
  simp [listdir, namei_dir directory, directory]

theorem create_child {entry : Entry} (plain : PlainName name) (free : fs.get (top ++ [name]) = none) :
    fs.create (top ++ [name]) entry = some (fs.add top name entry) := by
  simp [create, directory, free, plain]

theorem mkdir_child (plain : PlainName name) (free : fs.get (top ++ [name]) = none) :
    fs.mkdir (top ++ [name]) = some (fs.add top name (.dir fs.newDirMode)) := by
  simp [mkdir, namei_child directory plain, create_child directory plain free]

theorem symlink_child {target : Target} (plain : PlainName name) (free : fs.get (top ++ [name]) = none) :
    fs.symlink target (top ++ [name]) = some (fs.add top name (.symlink target)) := by
  simp [symlink, namei_child directory plain, create_child directory plain free]

theorem unlink_child {entry : Entry} (plain : PlainName name)
    (found : fs.get (top ++ [name]) = some entry) (leaf : entry.isDir = false) :
    fs.unlink (top ++ [name]) = some (fs.remove (top ++ [name])) := by
  cases entry with
  | dir => cases leaf
  | file | symlink => simp [unlink, namei_child directory plain, found]

omit directory

theorem unlink_of_lstat_none {raw : List Name} (missing : fs.lstat raw = none) :
    fs.unlink raw = none := by
  unfold lstat at missing
  unfold unlink
  cases located : fs.namei raw false with
  | none => rfl
  | some path =>
      rw [located, Option.bind_some] at missing
      simp [missing]

variable (straight : fs.Straight top)

include straight

theorem Straight.islink (plain : PlainName name) :
    fs.islink (top ++ [name]) = fs.isSymlinkAt (top ++ [name]) := by
  simp only [FS.islink, straight.lstat plain, isSymlinkAt]
  cases fs.get (top ++ [name]) with
  | none => rfl
  | some entry => cases entry <;> rfl

theorem Straight.isdir_self : fs.isdir top = fs.isDirAt top := by
  simp only [FS.isdir, straight.stat, isDirAt]
  cases fs.get top with
  | none => rfl
  | some entry => cases entry <;> rfl

theorem Straight.isdir (plain : PlainName name) (notLink : fs.isSymlinkAt (top ++ [name]) = false) :
    fs.isdir (top ++ [name]) = fs.isDirAt (top ++ [name]) :=
  (straight.append plain notLink).isdir_self

theorem Straight.isfile_iff (plain : PlainName name) (notLink : fs.isSymlinkAt (top ++ [name]) = false) :
    fs.isfile (top ++ [name]) = true ↔ ∃ ino, fs.get (top ++ [name]) = some (.file ino) := by
  simp only [FS.isfile, (straight.append plain notLink).stat]
  cases fs.get (top ++ [name]) with
  | none => simp
  | some entry => cases entry <;> simp

omit straight

theorem makedirs_child (directory : fs.isDirAt top = true) (plain : PlainName name)
    (free : fs.get (top ++ [name]) = none) :
    fs.makedirs (top ++ [name]) = (fs.add top name (.dir fs.newDirMode), true) := by
  have made := mkdir_child directory plain free
  simp [makedirs, makedirsRev, pathExists_of_isDirAt directory, made]

theorem names_clear (path : Path) : (fs.clear path).names path = [] := by
  rw [List.eq_nil_iff_forall_not_mem]
  intro name member
  have present := mem_names.mp member
  rw [get_clear, if_pos (below_append_singleton.mpr (List.prefix_refl _))] at present
  exact present rfl

theorem isDirAt_clear (path : Path) : (fs.clear path).isDirAt path = fs.isDirAt path := by
  have self : ¬ Below path path := fun below => below.2 rfl
  simp [isDirAt, get_clear, self]

theorem makedirs_of_isDirAt (directory : fs.isDirAt top = true) : fs.makedirs top = (fs, true) := by
  rcases List.eq_nil_or_concat top with rfl | ⟨above, name, rfl⟩
  · rfl
  rw [List.concat_eq_append] at directory ⊢
  obtain ⟨mode, found⟩ := isDirAt_iff.mp directory
  have exists_ := pathExists_of_isDirAt (isDirAt_parent found)
  have taken : fs.mkdir (above ++ [name]) = none := by
    simp [mkdir, namei_dir directory, create, found]
  simp [makedirs, makedirsRev, exists_, taken, isdir_of_isDirAt directory]

theorem rdropWhile_plain {path : Path} (plain : PlainName name) :
    (path ++ [name]).rdropWhile (· = []) = path ++ [name] := by
  simp [plain.1]

theorem get_rmtree_child (plain : PlainName name)
    (directory : fs.isDirAt (top ++ [name]) = true) (other : Path) :
    (fs.rmtree (top ++ [name])).get other = if top ++ [name] <+: other then none else fs.get other := by
  have emptyDir := (fs.isDirAt_clear (top ++ [name])).trans directory
  have located : fs.namei (top ++ [name]) false = some (top ++ [name]) := namei_dir directory
  have removed : (fs.clear (top ++ [name])).rmdir (top ++ [name]) =
      some ((fs.clear (top ++ [name])).remove (top ++ [name])) := by
    simp only [rmdir, rdropWhile_plain plain, List.getLast?_append, List.getLast?_singleton,
      Option.some_or, Option.some.injEq, plain.2.1, plain.2.2.1, or_self, ↓reduceIte,
      namei_dir emptyDir, Option.bind_some]
    simp [emptyDir, names_clear]
  simp only [rmtree, located, directory, ↓reduceIte, removed, Option.getD_some]
  rw [get_remove (by simp), get_clear]
  by_cases below : top ++ [name] <+: other
  · simp [below]
  · have notBelow : ¬ Below (top ++ [name]) other := fun strictly => below strictly.1
    simp [below, notBelow]

end

end FS

end PDocker.Posix
