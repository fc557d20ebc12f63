import PDocker.Posix.Ahead

/-!
# COPY, ADD and WORKDIR

What these instructions of a Dockerfile do to the build rootfs. Destinations are
joined as text and go to the system calls as they are. The sources were found
in the build context before and stand here with their content; permission bits
and times of the copies are left out.

A Python exception ends the build, with the tree as it is then.
-/

set_option autoImplicit false

namespace PDocker.Build

open Data Posix

inductive Leaf where
  | dir
  | file (content : List UInt8)
  | symlink (target : Target)
  deriving DecidableEq

/-- The objects below a directory, each after the directory that holds it. Links
to files are copied as links, links to directories as the directories. -/
structure Tree where
  items : List (Path × Leaf)
  filled : ∀ item ∈ items, item.1 ≠ []
  plain : ∀ item ∈ items, ∀ name ∈ item.1, PlainName name
  nodup : (items.map Prod.fst).Nodup
  closed : ∀ item ∈ items, ∀ above, above ≠ [] → Below above item.1 → (above, Leaf.dir) ∈ items

inductive Source where
  | file (content : List UInt8)
  | dir (tree : Tree)

/-- A path of the context that a source pattern matches, with its base name. -/
structure Match where
  name : Name
  plain : PlainName name
  source : Source

/-- `os.path.join(base, path)` -/
def joinText (base path : Text) : Text :=
  if path.head? = some '/' then path
  else if base = [] ∨ base.getLast? = some '/' then base ++ path
  else base ++ '/' :: path

/-- `os.path.join(raw, name)` for a name without slashes. -/
def joinLast (raw : List Name) (name : Name) : List Name :=
  if raw.getLast? = some [] then raw.dropLast ++ [name] else raw ++ [name]

/-- `os.path.join(rootfs, dest.lstrip("/"))` -/
def inRootfs (rootfs : Path) (dest : Text) : List Name :=
  rootfs ++ splitSlash (dest.dropWhile (· = '/'))

def commonPrefix : Path → Path → Nat
  | name :: path, other :: start => if name = other then commonPrefix path start + 1 else 0
  | _, _ => 0

/-- `os.path.relpath` of normalized paths; the dot that stands for no component is left out. -/
def relParts (path start : Path) : List Name :=
  List.replicate (start.length - commonPrefix path start) dotdot ++ path.drop (commonPrefix path start)

def ensureParts : FS → List Name → List Name → FS × Bool
  | fs, _, [] => (fs, true)
  | fs, cur, part :: parts =>
      match (if fs.islink (cur ++ [part]) then fs.unlink (cur ++ [part]) else some fs) with
      | none => (fs, false)
      | some now =>
          let made := now.makedirs (cur ++ [part])
          if made.2 then ensureParts made.1 (cur ++ [part]) parts else made

def ensureRootfsDirPath (fs : FS) (rootfs : Path) (raw : List Name) : FS × Bool :=
  ensureParts fs rootfs (relParts (place raw) rootfs)

/-- `os.makedirs(raw)`, which refuses a directory that is there. -/
def newDirs (fs : FS) (raw : List Name) : FS × Bool :=
  let head := raw.dropLast
  let prepared := if fs.pathExists head then fs else (fs.makedirs head).1
  if !fs.pathExists head && raw.getLast? = some dot then (prepared, prepared.isdir head)
  else
    match prepared.mkdir raw with
    | some made => (made, true)
    | none => (prepared, false)

/-- One object of `shutil.copytree`; an error is remembered and the rest copied. -/
def copyItem (dst : List Name) (now : FS × Bool) (item : Path × Leaf) : FS × Bool :=
  let raw := dst ++ item.1
  let after? :=
    match item.2 with
    | .dir => now.1.mkdir raw
    | .file content => now.1.writeFile raw content
    | .symlink target => now.1.symlink target raw
  match after? with
  | some after => (after, now.2)
  | none => (now.1, false)

def copyTree (fs : FS) (tree : Tree) (dst : List Name) : FS × Bool :=
  let made := newDirs fs dst
  if made.2 then tree.items.foldl (copyItem dst) made else made

/-- `shutil.rmtree`, which fails when something is left. -/
def removeTree (fs : FS) (dst : List Name) : FS × Bool :=
  (fs.rmtree dst, !(fs.rmtree dst).lexists dst)

def clearPlace (fs : FS) (dst : List Name) : FS × Bool :=
  if fs.lexists dst then
    if fs.isdir dst && !fs.islink dst then removeTree fs dst
    else
      match fs.unlink dst with
      | some after => (after, true)
      | none => (fs, false)
  else (fs, true)

def copyFile (fs : FS) (content : List UInt8) (dst : List Name) : FS × Bool :=
  -- `_mkparent`
  let made := fs.makedirs dst.dropLast
  if made.2 then
    let cleared := clearPlace made.1 dst
    if cleared.2 then
      match cleared.1.writeFile dst content with
      | some after => (after, true)
      | none => (cleared.1, false)
    else cleared
  else made

/-- Where a match is copied: to the target, or under its own name into it. `into`
tells that the destination ends with a slash or that there are several matches. -/
def destination (fs : FS) (target : List Name) (into : Bool) (found : Match) : List Name :=
  if into || fs.isdir target then joinLast target found.name else target

def copyMatch (fs : FS) (target : List Name) (into : Bool) (found : Match) : FS × Bool :=
  let dst := destination fs target into found
  match found.source with
  | .dir tree =>
      if fs.pathExists dst then
        let removed := removeTree fs dst
        if removed.2 then copyTree removed.1 tree dst else removed
      else copyTree fs tree dst
  | .file content => copyFile fs content dst

/-- The copies of an instruction in order: `none` for a source that is not found. -/
def copyAll (target : List Name) : FS → List (Option (Bool × Match)) → FS × Bool
  | fs, [] => (fs, true)
  | fs, none :: _ => (fs, false)
  | fs, some (into, found) :: more =>
      let copied := copyMatch fs target into found
      if copied.2 then copyAll target copied.1 more else copied

def jobs (slash : Bool) (sources : List (List Match)) : List (Option (Bool × Match)) :=
  sources.flatMap fun matches_ =>
    if matches_ = [] then [none]
    else matches_.map fun found => some (decide (1 < matches_.length) || slash, found)

/-- The state of a build: the file system of the engine, the working directory of
the image, and whether the build has ended. -/
structure Progress where
  fs : FS
  workdir : Text
  ended : Bool

def endsWithSlash (dest : Text) : Bool := dest.getLast? = some '/'

def fullDest (workdir dest : Text) : Text :=
  if dest.head? = some '/' then dest else joinText workdir dest

def ensuredDir (rootfs : Path) (dest : Text) : List Name :=
  if endsWithSlash dest then inRootfs rootfs dest else (inRootfs rootfs dest).dropLast

/-- `COPY` and `ADD`. -/
def copyInstruction (rootfs : Path) (progress : Progress) (dest : Text)
    (sources : List (List Match)) : FS × Bool :=
  let full := fullDest progress.workdir dest
  let ensured := ensureRootfsDirPath progress.fs rootfs (ensuredDir rootfs full)
  if ensured.2 then copyAll (inRootfs rootfs full) ensured.1 (jobs (endsWithSlash full) sources)
  else ensured

/-- `WORKDIR` with a leading slash. -/
def fullWorkdir (args : Text) : Text :=
  let workdir := stripSpace args
  if workdir.head? = some '/' then workdir else '/' :: workdir

inductive Instruction where
  | copy (dest : Text) (sources : List (List Match))
  | workdir (args : Text)
  /-- Any other instruction, and the snapshot after a copy. -/
  | other (after : FS) (workdir : Text)

def step (rootfs : Path) (progress : Progress) (instruction : Instruction) : Option Progress :=
  if progress.ended then none
  else
    match instruction with
    | .copy dest sources =>
        let copied := copyInstruction rootfs progress dest sources
        some { progress with fs := copied.1, ended := !copied.2 }
    | .workdir args =>
        let made := progress.fs.makedirs (inRootfs rootfs (fullWorkdir args))
        some { fs := made.1, workdir := fullWorkdir args, ended := !made.2 }
    | .other after workdir => some { progress with fs := after, workdir }

end PDocker.Build
