import PDocker.Saf.Sidecars

/-!
# The documents mediator

Each operation of `SafDocumentsMediator` is given, beside its arguments, what it meets on its way:
how the provider answers, how a stream ends, what is changed from outside between the check of a
record and the write. A path that does not pass the check of paths is refused before anything
happens, so the operations take paths that pass.
-/

set_option autoImplicit false

namespace PDocker.Saf

open Data

structure State (Digest : Type) where
  tree : Doc
  sidecars : Sidecars Digest

/-- How `resolveDocumentUri` goes that creates what is missing: the tree it meets, the names that
the provider gives to new documents, and how far it comes when it fails. -/
structure Lookup where
  tree : Doc
  rename : Text → Text
  fails : Option Nat

def keepOrMake (found : Option Doc) : Doc := found.getD (.dir [])

/-- The tree after `resolveDocumentUri`, and whether there is a document. -/
def resolveDocument (lookup : Lookup) (act : Option Doc → Doc) (path : RelPath) : Doc × Bool :=
  match lookup.fails with
  | some depth =>
      ((lookup.tree.update lookup.rename keepOrMake (path.parts.dropLast.take depth)).getD lookup.tree, false)
  | none =>
      match lookup.tree.update lookup.rename act path.parts with
      | none => (lookup.tree, false)
      | some tree => (tree, true)

/-- How a copy through a stream ends: the stream is not opened, it stops after some bytes, or it is
closed without an error. What is kept of the bytes can then still be less than all. -/
inductive Stream where
  | notOpened
  | stopped (kept : Nat)
  | closed (kept : Nat)
  deriving DecidableEq, Repr

/-- What a document holds after `openOutputStream(uri, "wt")` and the copy. A directory is not
opened, a new document is empty at first. -/
def Stream.leaf (stream : Stream) (bytes : Bytes) : Option Doc → Doc
  | some (.dir children) => .dir children
  | found =>
      match stream with
      | .notOpened => found.getD (.file [])
      | .stopped kept | .closed kept => .file (bytes.take kept)

inductive CopyError where
  | path (error : PathError)
  | conflict (reason : ConflictReason)
  | unavailable
  | document
  | stream
  deriving DecidableEq, Repr

structure Writing where
  available : Bool
  lookup : Lookup
  stream : Stream

def Writing.onDirectory (writing : Writing) (path : RelPath) : Bool :=
  (writing.lookup.tree.find path.parts).any Doc.isDir

def writeStream (writing : Writing) (path : RelPath) (bytes : Bytes) : Doc × Except CopyError Unit :=
  if !writing.available then (writing.lookup.tree, .error .unavailable)
  else
    match resolveDocument writing.lookup (writing.stream.leaf bytes) path with
    | (tree, false) => (tree, .error .document)
    | (tree, true) =>
        match writing.stream with
        | .notOpened | .stopped _ => (tree, .error .stream)
        | .closed _ => (tree, if writing.onDirectory path then .error .stream else .ok ())

/-- Whether an error comes before the record is written, and how it is written then. -/
structure Recording where
  throws : Bool
  write : SidecarWrite
  deriving DecidableEq, Repr

inductive CopyResult where
  | failed (error : CopyError)
  | thrown
  | copied (bytes : Nat) (evicted : Bool)
  deriving DecidableEq, Repr

variable {Digest : Type}

def recorded (tree : Doc) (sidecars : Sidecars Digest) (path : RelPath) (sidecar : Sidecar Digest)
    (recording : Recording) (result : CopyResult) : State Digest × CopyResult :=
  if recording.throws then (⟨tree, sidecars⟩, .thrown)
  else (⟨tree, writeSidecar (sidecarName path) sidecar recording.write sidecars⟩, result)

@[simp] theorem recorded_tree (tree : Doc) (sidecars : Sidecars Digest) (path : RelPath) (sidecar : Sidecar Digest)
    (recording : Recording) (result : CopyResult) :
    (recorded tree sidecars path sidecar recording result).1.tree = tree := by
  rw [recorded]
  split <;> rfl

@[simp] theorem recorded_result (tree : Doc) (sidecars : Sidecars Digest) (path : RelPath)
    (sidecar : Sidecar Digest) (recording : Recording) (result : CopyResult) :
    (recorded tree sidecars path sidecar recording result).2 = if recording.throws then .thrown else result := by
  rw [recorded]
  split <;> rfl

def exportsName : Text := ['p', 'd', 'o', 'c', 'k', 'e', 'r', '-', 'e', 'x', 'p', 'o', 'r', 't', 's']

def evictableMirrorPayload (path : RelPath) : Bool :=
  path.val = exportsName || (exportsName ++ ['/']).isPrefixOf path.val

/-- The file of the mirror that is copied: the bytes that the copy reads, what the file holds when
it is deleted or hashed afterwards, unless it is no file any more, and whether it can be deleted. -/
structure Source where
  copied : Bytes
  left : Option Bytes
  deletable : Bool

/-- The check, the write and the record, which `copyFileToTree` and `writeBytes` have in common -/
def writeChecked [DecidableEq Digest] (sha256 : Bytes → Digest) (path : RelPath) (bytes : Bytes)
    (answers : Answers) (conflictWrite : SidecarWrite) (writing : Writing) (sidecar : Sidecar Digest)
    (recording : Recording) (result : CopyResult) (state : State Digest) : State Digest × CopyResult :=
  match checkNoProviderConflict sha256 answers conflictWrite state.tree path state.sidecars with
  | (sidecars, .refused reason) => (⟨state.tree, sidecars⟩, .failed (.conflict reason))
  | (sidecars, .thrown) => (⟨state.tree, sidecars⟩, .thrown)
  | (sidecars, .passed) =>
      match writeStream writing path bytes with
      | (tree, .error error) => (⟨tree, sidecars⟩, .failed error)
      | (tree, .ok ()) => recorded tree sidecars path sidecar recording result

def copyFileToTree [DecidableEq Digest] (sha256 : Bytes → Digest) (path : RelPath) (source : Source)
    (evictMirrorPayload : Bool) (answers : Answers) (conflictWrite : SidecarWrite) (writing : Writing)
    (recording : Recording) (state : State Digest) : State Digest × CopyResult :=
  let evicted := evictMirrorPayload && evictableMirrorPayload path && source.deletable
  let contentSha256 := if evicted then none else source.left.map sha256
  writeChecked sha256 path source.copied answers conflictWrite writing
    (payloadSidecar source.copied.length contentSha256 true) recording
    (.copied source.copied.length evicted) state

def writeFile [DecidableEq Digest] (sha256 : Bytes → Digest) (path : RelPath) (source : Source)
    (answers : Answers) (conflictWrite : SidecarWrite) (writing : Writing) (recording : Recording)
    (state : State Digest) : State Digest × CopyResult :=
  copyFileToTree sha256 path source false answers conflictWrite writing recording state

def writeBytes [DecidableEq Digest] (sha256 : Bytes → Digest) (path : RelPath) (bytes : Bytes)
    (answers : Answers) (conflictWrite : SidecarWrite) (writing : Writing) (recording : Recording)
    (state : State Digest) : State Digest × CopyResult :=
  if !writing.available then (state, .failed .unavailable)
  else
    writeChecked sha256 path bytes answers conflictWrite writing
      (payloadSidecar bytes.length (some (sha256 bytes)) true) recording (.copied bytes.length false) state

/-- `writeMirrorFallbackFile`: the bytes that are copied into the mirror unless that fails, and what
the file there holds when it is hashed. -/
def writeMirrorFallbackFile (sha256 : Bytes → Digest) (path : RelPath) (copied : Option Bytes)
    (left : Option Bytes) (recording : Recording) (state : State Digest) : State Digest × CopyResult :=
  match copied with
  | none => (state, .failed .stream)
  | some copied =>
      recorded state.tree state.sidecars path (payloadSidecar copied.length (left.map sha256) false) recording
        (.copied copied.length false)

structure Reading where
  available : Bool
  finds : Bool
  stream : Stream

/-- `copyFileFromTree`, with what the target holds afterwards unless it is not opened -/
def copyFileFromTree (path : RelPath) (reading : Reading) (recording : Recording) (state : State Digest) :
    (State Digest × CopyResult) × Option Bytes :=
  if !reading.available then ((state, .failed .unavailable), none)
  else
    match if reading.finds then state.tree.find path.parts else none with
    | none => ((state, .failed .document), none)
    | some (.dir _) => ((state, .failed .stream), none)
    | some (.file bytes) =>
        match reading.stream with
        | .notOpened => ((state, .failed .stream), none)
        | .stopped kept => ((state, .failed .stream), some (bytes.take kept))
        | .closed kept =>
            (recorded state.tree state.sidecars path (payloadSidecar (bytes.take kept).length none true) recording
              (.copied (bytes.take kept).length false), some (bytes.take kept))

/-- `ensureDirectory`; what is found is taken, whatever its kind. -/
def ensureDirectory (available : Bool) (lookup : Lookup) (path : RelPath) : Doc × Bool :=
  if available then resolveDocument lookup keepOrMake path else (lookup.tree, false)

/-- A directory of the mirror in `syncToTree` and `syncPathToTree` -/
def syncDirectory (path : RelPath) (available : Bool) (lookup : Lookup) (recording : Recording)
    (state : State Digest) : State Digest × CopyResult :=
  match ensureDirectory available lookup path with
  | (tree, false) => (⟨tree, state.sidecars⟩, .failed .document)
  | (tree, true) => recorded tree state.sidecars path directorySidecar recording (.copied 0 false)

/-- `pdocker`, and the directories below it that are made first -/
def contractDirectories : List RelPath :=
  [⟨['p', 'd', 'o', 'c', 'k', 'e', 'r'], rfl⟩,
   ⟨['p', 'd', 'o', 'c', 'k', 'e', 'r', '/', 'p', 'r', 'o', 'j', 'e', 'c', 't', 's'], rfl⟩,
   ⟨['p', 'd', 'o', 'c', 'k', 'e', 'r', '/', 'v', 'o', 'l', 'u', 'm', 'e', 's'], rfl⟩,
   ⟨['p', 'd', 'o', 'c', 'k', 'e', 'r', '/', 's', 'h', 'a', 'r', 'e', 'd'], rfl⟩]

structure Making where
  lookup : Lookup
  throws : Bool

def makeDirectories (makings : RelPath → Making) : List RelPath → Doc → Doc × Bool
  | [], tree => (tree, true)
  | path :: more, _ =>
      let made := (ensureDirectory true (makings path).lookup path).1
      if (makings path).throws then (made, false) else makeDirectories makings more made

/-- `initializeContract`, with which every synchronisation begins -/
def initializeContract (available : Bool) (makings : RelPath → Making) (write : SidecarWrite)
    (state : State Digest) : State Digest :=
  if !available then state
  else
    match makeDirectories makings contractDirectories state.tree with
    | (tree, false) => ⟨tree, state.sidecars⟩
    | (tree, true) => ⟨tree, writeSidecar contractName contractSidecar write state.sidecars⟩

/-- One file or directory of a synchronisation, a call for one file, the contract, or a change of
the documents from outside. -/
inductive Op where
  | initializeContract (available : Bool) (makings : RelPath → Making) (write : SidecarWrite)
  | syncDirectory (path : RelPath) (available : Bool) (lookup : Lookup) (recording : Recording)
  | copyFileToTree (path : RelPath) (source : Source) (evictMirrorPayload : Bool) (answers : Answers)
      (conflictWrite : SidecarWrite) (writing : Writing) (recording : Recording)
  | copyFileFromTree (path : RelPath) (reading : Reading) (recording : Recording)
  | writeFile (path : RelPath) (source : Source) (answers : Answers) (conflictWrite : SidecarWrite)
      (writing : Writing) (recording : Recording)
  | writeBytes (path : RelPath) (bytes : Bytes) (answers : Answers) (conflictWrite : SidecarWrite)
      (writing : Writing) (recording : Recording)
  | writeMirrorFallbackFile (path : RelPath) (copied left : Option Bytes) (recording : Recording)
  | outside (tree : Doc)

namespace Op

def path? : Op → Option RelPath
  | .initializeContract .. | .outside _ => none
  | .syncDirectory path .. | .copyFileToTree path .. | .copyFileFromTree path .. | .writeFile path ..
  | .writeBytes path .. | .writeMirrorFallbackFile path .. => some path

variable [DecidableEq Digest]

def step (sha256 : Bytes → Digest) (state : State Digest) : Op → State Digest
  | .initializeContract available makings write => Saf.initializeContract available makings write state
  | .syncDirectory path available lookup recording => (Saf.syncDirectory path available lookup recording state).1
  | .copyFileToTree path source evict answers conflictWrite writing recording =>
      (Saf.copyFileToTree sha256 path source evict answers conflictWrite writing recording state).1
  | .copyFileFromTree path reading recording => (Saf.copyFileFromTree path reading recording state).1.1
  | .writeFile path source answers conflictWrite writing recording =>
      (Saf.writeFile sha256 path source answers conflictWrite writing recording state).1
  | .writeBytes path bytes answers conflictWrite writing recording =>
      (Saf.writeBytes sha256 path bytes answers conflictWrite writing recording state).1
  | .writeMirrorFallbackFile path copied left recording =>
      (Saf.writeMirrorFallbackFile sha256 path copied left recording state).1
  | .outside tree => { state with tree }

def run (sha256 : Bytes → Digest) (state : State Digest) (ops : List Op) : State Digest :=
  ops.foldl (step sha256) state

end Op

end PDocker.Saf
