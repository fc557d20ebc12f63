import PDocker.Saf.Shapes
import PDocker.Saf.Transfers

/-!
# Synchronisations

`syncToTree` takes the entries of the mirror one after the other, `syncFromTree` walks through the
tree and writes into the mirror. Here nothing else changes the documents meanwhile, the provider
gives new documents the names that are asked for, and a stream that is closed has stored all. The
directory of the mirror is a parameter: what it means to make a directory there and to write a file.
-/

set_option autoImplicit false

namespace PDocker.Saf

open Data
open Context (isBlank)

theorem RelPath.ofText_passes {path normalized : Text}
    (passed : normalizeRelativePathOrThrow path false = .ok normalized) :
    normalizeRelativePathOrThrow path false = .ok path := by
  rw [passed, eq_of_normalizeRelativePathOrThrow passed]

def RelPath.ofText (path : Text) : Except PathError RelPath :=
  match passed : normalizeRelativePathOrThrow path false with
  | .error error => .error error
  | .ok _ => .ok ⟨path, RelPath.ofText_passes passed⟩

structure Report where
  files : Nat
  directories : Nat
  bytes : Nat
  evicted : Nat
  errors : List (Text × CopyError)
  deriving DecidableEq, Repr

namespace Report

def empty : Report where
  files := 0
  directories := 0
  bytes := 0
  evicted := 0
  errors := []

def success (report : Report) : Bool := report.errors.isEmpty

def withError (report : Report) (relative : Text) (error : CopyError) : Report :=
  { report with errors := report.errors ++ [(relative, error)] }

def withDirectory (report : Report) : Report := { report with directories := report.directories + 1 }

def withFile (report : Report) (bytes : Nat) (evicted : Bool) : Report :=
  { report with
    files := report.files + 1
    bytes := report.bytes + bytes
    evicted := report.evicted + if evicted then 1 else 0 }

end Report

inductive MirrorKind where
  | directory
  | file (bytes : Bytes)
  /-- Neither a directory nor a file, a broken link for example -/
  | other
  deriving DecidableEq, Repr

/-- What `walkTopDown` yields, with the path relative to the mirror. -/
structure MirrorItem where
  relative : Text
  kind : MirrorKind
  deriving DecidableEq, Repr

/-- How a copy through a stream ends when the provider keeps what it has taken. -/
inductive Transfer where
  | notOpened
  | stopped (kept : Nat)
  | whole
  deriving DecidableEq, Repr

def Transfer.stream (transfer : Transfer) (bytes : Bytes) : Stream :=
  match transfer with
  | .notOpened => .notOpened
  | .stopped kept => .stopped kept
  | .whole => .closed bytes.length

structure Course where
  available : Bool
  fails : Option Nat
  answers : Answers
  conflictWrite : SidecarWrite
  transfer : Transfer
  recording : Recording

def Course.lookup (course : Course) (tree : Doc) : Lookup where
  tree := tree
  rename := id
  fails := course.fails

variable {Digest : Type}

/-- `initializeContract`; `none` when it throws. -/
def foundContract (course : RelPath → Course) (write : SidecarWrite) (state : State Digest) : Option (State Digest) :=
  (contractDirectories.foldlM (fun tree path =>
      if (course path).recording.throws then none
      else some (ensureDirectory true ((course path).lookup tree) path).1) state.tree).map fun tree =>
    ⟨tree, writeSidecar contractName contractSidecar write state.sidecars⟩

variable [DecidableEq Digest]

/-- One entry of the mirror in `syncToTree`; `none` when it throws. -/
def syncEntry (sha256 : Bytes → Digest) (course : Text → Course) (evictMirrorPayload : Bool)
    (now : State Digest × Report) (item : MirrorItem) : Option (State Digest × Report) :=
  let meets := course item.relative
  if isBlank item.relative then some now
  else
    match item.kind with
    | .other => some now
    | .directory =>
        match RelPath.ofText item.relative with
        | .error error => some (now.1, now.2.withError item.relative (.path error))
        | .ok path =>
            match syncDirectory path meets.available (meets.lookup now.1.tree) meets.recording now.1 with
            | (state, .copied _ _) => some (state, now.2.withDirectory)
            | (state, .failed error) => some (state, now.2.withError item.relative error)
            | (_, .thrown) => none
    | .file bytes =>
        match RelPath.ofText item.relative with
        | .error error => some (now.1, now.2.withError item.relative (.path error))
        | .ok path =>
            match copyFileToTree sha256 path ⟨bytes, some bytes, true⟩ evictMirrorPayload meets.answers
              meets.conflictWrite ⟨meets.available, meets.lookup now.1.tree, meets.transfer.stream bytes⟩
              meets.recording now.1 with
            | (state, .copied count evicted) => some (state, now.2.withFile count evicted)
            | (state, .failed error) => some (state, now.2.withError item.relative error)
            | (_, .thrown) => none

/-- `syncToTree`, when there is a grant for the tree -/
def syncToTree (sha256 : Bytes → Digest) (contract : RelPath → Course) (contractWrite : SidecarWrite)
    (course : Text → Course) (evictMirrorPayload : Bool) (items : List MirrorItem) (state : State Digest) :
    Option (State Digest × Report) :=
  (foundContract contract contractWrite state).bind fun state =>
    items.foldlM (syncEntry sha256 course evictMirrorPayload) (state, .empty)

/-- The directory of the mirror: `File(mirrorRoot, relative).mkdirs()`, whose result is not looked
at, the same for its parent, and a copy into the file; `none` when the file cannot be opened. -/
structure Host (Files : Type) where
  mkdirs : Text → Files → Files
  mkParent : Text → Files → Files
  write : Text → Bytes → Files → Option Files

structure ReadCourse where
  available : Bool
  finds : Bool
  transfer : Transfer
  recording : Recording

/-- `list`: `none` when it throws. A document that is no directory has no rows. -/
def listDocuments (tree : Doc) (relative : Text) : Option (List (Text × Doc)) :=
  match normalizeRelativePathOrThrow relative true with
  | .error _ => none
  | .ok path =>
      match tree.find ((splitParts '/' path).filter fun part => !isBlank part) with
      | some (.dir children) => some (children.filter fun child => !isBlank child.1)
      | some (.file _) | none => some []

def childRelative (relative name : Text) : Text :=
  if isBlank relative then name else relative ++ '/' :: name

variable {Files : Type}

/-- One file in `copyChildren`. The parent of the target is made before the document is opened, and
the copy counts as not begun where the target cannot be opened. -/
def copyEntry (host : Host Files) (course : Text → ReadCourse) (relative : Text)
    (now : State Digest × Files × Report) : Option (State Digest × Files × Report) :=
  let meets := course relative
  match RelPath.ofText relative with
  | .error error => some (now.1, now.2.1, now.2.2.withError relative (.path error))
  | .ok path =>
      let there := if meets.available && meets.finds then now.1.tree.find path.parts else none
      let files := if there.isSome then host.mkParent relative now.2.1 else now.2.1
      let bytes := (fileBytes there).getD []
      let stream := if (host.write relative bytes files).isSome then meets.transfer.stream bytes else .notOpened
      match copyFileFromTree path ⟨meets.available, meets.finds, stream⟩ meets.recording now.1 with
      | ((_, .thrown), _) => none
      | ((state, result), written) =>
          let after := (written.bind fun bytes => host.write relative bytes files).getD files
          match result with
          | .copied count _ => some (state, after, now.2.2.withFile count false)
          | .failed error => some (state, after, now.2.2.withError relative error)
          | .thrown => none

/-- One row in `copyChildren`, given the walk through a directory -/
def copyRow (host : Host Files) (course : Text → ReadCourse)
    (copyBelow : Text → State Digest × Files × Report → Option (State Digest × Files × Report)) (relative : Text)
    (now : State Digest × Files × Report) (row : Text × Doc) : Option (State Digest × Files × Report) :=
  let child := childRelative relative row.1
  if row.2.isDir then copyBelow child (now.1, host.mkdirs child now.2.1, now.2.2.withDirectory)
  else copyEntry host course child now

/-- `copyChildren`: `none` when it throws, or when it is deeper than the fuel. -/
def copyChildren (host : Host Files) (course : Text → ReadCourse) :
    Nat → Text → State Digest × Files × Report → Option (State Digest × Files × Report)
  | 0, _, _ => none
  | fuel + 1, relative, now =>
      (listDocuments now.1.tree relative).bind fun rows =>
        rows.foldlM (copyRow host course (copyChildren host course fuel) relative) now

/-- `syncFromTree`, when there is a grant for the tree. The fuel is the depth of the tree. -/
def syncFromTree (host : Host Files) (contract : RelPath → Course) (contractWrite : SidecarWrite)
    (course : Text → ReadCourse) (files : Files) (state : State Digest) : Option (State Digest × Files × Report) :=
  (foundContract contract contractWrite state).bind fun state =>
    copyChildren host course (state.tree.height + 1) [] (state, files, .empty)

end PDocker.Saf
