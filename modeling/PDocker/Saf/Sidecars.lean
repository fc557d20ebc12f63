import PDocker.Saf.Documents
import PDocker.Saf.Paths

/-!
# Sidecars

What is known about a document lies in a record of its own, in one directory for all paths. A
record is written after the document, and compared with what the provider answers before the next
write. Of a record only what is read again is modelled.
-/

set_option autoImplicit false

namespace PDocker.Saf

open Data

/-! ## Records -/

inductive DocType where
  | file
  | directory
  deriving DecidableEq, Repr

inductive ConflictState where
  | clean
  | externalProviderChange
  deriving DecidableEq, Repr

/-- A record, without the keys that are never read. -/
structure Sidecar (Digest : Type) where
  type : Option DocType
  size : Option Nat
  sha256 : Option Digest
  directSafPublished : Bool
  conflictState : Option ConflictState
  deriving DecidableEq, Repr

/-- What has the name of a record. A record that was cut off is no JSON. -/
inductive SidecarFile (Digest : Type) where
  | absent
  | damaged
  | record (sidecar : Sidecar Digest)
  deriving DecidableEq, Repr

abbrev Sidecars (Digest : Type) := Text → SidecarFile Digest

/-- How `writeText` ends: as it should, before the file is opened, or in between. -/
inductive SidecarWrite where
  | written
  | unchanged
  | torn
  deriving DecidableEq, Repr

def fileNameMax : Nat := 255

def fileNameFits (name : Text) : Bool := (name.map Char.utf8Size).sum ≤ fileNameMax

def jsonSuffix : Text := ['.', 'j', 's', 'o', 'n']

def sidecarName (path : RelPath) : Text :=
  let flat := path.val.map fun char => if char = '/' then '_' else char
  (if Context.isBlank flat then ['r', 'o', 'o', 't'] else flat) ++ jsonSuffix

def contractName : Text := ['c', 'o', 'n', 't', 'r', 'a', 'c', 't'] ++ jsonSuffix

variable {Digest : Type}

/-- `writeSidecar`. What goes wrong is dropped. -/
def writeSidecar (name : Text) (sidecar : Sidecar Digest) (write : SidecarWrite) (sidecars : Sidecars Digest) :
    Sidecars Digest :=
  if fileNameFits name then
    match write with
    | .written => Function.update sidecars name (.record sidecar)
    | .torn => Function.update sidecars name .damaged
    | .unchanged => sidecars
  else sidecars

def readSidecar (sidecars : Sidecars Digest) (path : RelPath) : Option (Sidecar Digest) :=
  if fileNameFits (sidecarName path) then
    match sidecars (sidecarName path) with
    | .record sidecar => some sidecar
    | .absent | .damaged => none
  else none

def payloadSidecar (size : Nat) (contentSha256 : Option Digest) (directSafPublished : Bool) : Sidecar Digest where
  type := some .file
  size := some size
  sha256 := contentSha256
  directSafPublished := directSafPublished
  conflictState := some .clean

def directorySidecar : Sidecar Digest where
  type := some .directory
  size := some 0
  sha256 := none
  directSafPublished := false
  conflictState := some .clean

def conflictSidecar (previousSidecar : Sidecar Digest) : Sidecar Digest where
  type := some (previousSidecar.type.getD .file)
  size := none
  sha256 := none
  directSafPublished := false
  conflictState := some .externalProviderChange

/-- What `initializeContract` writes has none of these keys. -/
def contractSidecar : Sidecar Digest where
  type := none
  size := none
  sha256 := none
  directSafPublished := false
  conflictState := none

/-- How the provider takes the questions of `providerEvidenceJson`: whether it finds the document if
there is one, whether the query throws, the size in the row if there is a row, and whether the
document can be read to the end. -/
structure Answers where
  finds : Bool
  throws : Bool
  row : Option Int
  readable : Bool
  deriving DecidableEq, Repr

structure Evidence (Digest : Type) where
  present : Bool
  size : Option Int
  sha256 : Option Digest
  deriving DecidableEq, Repr

def Evidence.absent : Evidence Digest where
  present := false
  size := none
  sha256 := none

/-- `providerEvidenceJson`; `none` when it throws. -/
def providerEvidence (sha256 : Bytes → Digest) (answers : Answers) (tree : Doc) (path : RelPath)
    (includeHash : Bool) : Option (Evidence Digest) :=
  match if answers.finds then tree.find path.parts else none with
  | none => some .absent
  | some doc =>
      if answers.throws then none
      else some {
        present := true
        size := answers.row
        sha256 :=
          match doc with
          | .file bytes => if includeHash && answers.readable then some (sha256 bytes) else none
          | .dir _ => none }

inductive ConflictReason where
  | externalProviderChange
  | payloadMissing
  | hashChanged
  | sizeChanged
  deriving DecidableEq, Repr

def ConflictReason.message (reason : ConflictReason) : String :=
  "SAF/Documents conflict detected: " ++ (match reason with
    | .externalProviderChange => "external-provider-change"
    | .payloadMissing => "provider-payload-missing"
    | .hashChanged => "provider-payload-hash-changed"
    | .sizeChanged => "provider-payload-size-changed") ++
    "; refusing to overwrite without repair"

variable [DecidableEq Digest]

def conflictReason (sidecar : Sidecar Digest) (evidence : Evidence Digest) : Option ConflictReason :=
  if !evidence.present then some .payloadMissing
  else
    match sidecar.sha256, evidence.sha256 with
    | some expected, some found => if found ≠ expected then some .hashChanged else none
    | some _, none => none
    | none, _ =>
        match sidecar.size, evidence.size with
        | some expected, some found => if found ≠ expected then some .sizeChanged else none
        | _, _ => none

inductive Check where
  | passed
  | refused (reason : ConflictReason)
  | thrown
  deriving DecidableEq, Repr

/-- `checkNoProviderConflict`, with what it records -/
def checkNoProviderConflict (sha256 : Bytes → Digest) (answers : Answers) (write : SidecarWrite) (tree : Doc)
    (path : RelPath) (sidecars : Sidecars Digest) : Sidecars Digest × Check :=
  match readSidecar sidecars path with
  | none => (sidecars, .passed)
  | some sidecar =>
      if sidecar.conflictState = some .externalProviderChange then (sidecars, .refused .externalProviderChange)
      else if !sidecar.directSafPublished then (sidecars, .passed)
      else
        match providerEvidence sha256 answers tree path sidecar.sha256.isSome with
        | none => (sidecars, .thrown)
        | some evidence =>
            match conflictReason sidecar evidence with
            | none => (sidecars, .passed)
            | some reason =>
                (writeSidecar (sidecarName path) (conflictSidecar sidecar) write sidecars, .refused reason)

omit [DecidableEq Digest]

theorem readSidecar_written {path : RelPath} (fits : fileNameFits (sidecarName path) = true)
    (sidecar : Sidecar Digest) (sidecars : Sidecars Digest) :
    readSidecar (writeSidecar (sidecarName path) sidecar .written sidecars) path = some sidecar := by
  simp only [readSidecar, writeSidecar, fits, ↓reduceIte, Function.update_self]

theorem writeSidecar_other {name other : Text} (apart : other ≠ name) (sidecar : Sidecar Digest)
    (write : SidecarWrite) (sidecars : Sidecars Digest) :
    writeSidecar name sidecar write sidecars other = sidecars other := by
  unfold writeSidecar
  split
  · cases write with
    | written | torn => exact Function.update_of_ne apart _ _
    | unchanged => rfl
  · rfl

theorem readSidecar_other {path : RelPath} {name : Text}
    (other : fileNameFits (sidecarName path) = true → name ≠ sidecarName path) (sidecar : Sidecar Digest)
    (write : SidecarWrite) (sidecars : Sidecars Digest) :
    readSidecar (writeSidecar name sidecar write sidecars) path = readSidecar sidecars path := by
  rw [readSidecar, readSidecar]
  split
  · rename_i fits
    rw [writeSidecar_other (other fits).symm]
  · rfl

end PDocker.Saf
