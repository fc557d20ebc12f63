import PDocker.Posix.Spelling

/-!
# Volumes and networks on disk

A volume or a network is a directory named by the client. The names go into
path joins as they are, and the binds of a container are read from its
configuration each time they are needed.
-/

set_option autoImplicit false

namespace PDocker.Storage

open Data Posix

/-- `os.path.join(root, name)` -/
def joinName (root : Path) (name : Text) : List Name :=
  if name.head? = some '/' then splitSlash name else root ++ splitSlash name

theorem joinName_of_plain {root : Path} {name : Text} (plain : PlainName name) :
    joinName root name = root ++ [name] := by
  have relative : name.head? ≠ some '/' := by
    intro first
    exact plain.2.2.2 (List.mem_of_mem_head? first)
  rw [joinName, if_neg relative, splitSlash_of_plain plain.2.2.2]

def isHexDigit (char : Char) : Bool := char.isDigit || decide (char ∈ "abcdef".toList)

/-- The first digits of `uuid.uuid4().hex`. -/
structure Hex where
  digits : Text
  hex : digits.all isHexDigit = true

def Hex.none : Hex := ⟨[], rfl⟩

def nameOr (stem : String) (hex : Hex) (name : Text) : Text :=
  if name = [] then stem.toList ++ hex.digits else name

def dataName : Name := "_data".toList
def metaName : Name := "meta.json".toList
def membersName : Name := "members.json".toList

/-! ## Volumes -/

/-- `_ensure_volume`; false when an exception leaves it. -/
def ensureVolume (volumes : Path) (record : Text → List UInt8) (fs : FS) (name : Text) : FS × Bool :=
  let vdir := joinName volumes name
  let made := if fs.isdir vdir then (fs, true) else fs.makedirs (stripDots (vdir ++ [dataName]))
  if made.2 then
    if made.1.pathExists (vdir ++ [metaName]) then made
    else ((made.1.writeFile (vdir ++ [metaName]) (record name)).getD made.1, true)
  else made

structure Mount where
  type : Text
  source : Text
  target : Text
  readOnly : Bool

structure HostConfig where
  binds : List Text
  mounts : List Mount

/-- A bind string: the path on the host, the one in the container, and `:ro`. -/
structure Bind where
  host : List Name
  target : Text
  readOnly : Bool
  deriving DecidableEq

def volumeMountpoint (volumes : Path) (name : Text) : List Name := joinName volumes name ++ [dataName]

/-- One of `HostConfig.Binds`, with the volume to create. -/
def legacyBind (volumes : Path) (spec : Text) : Option (Option Text × Bind) :=
  match splitParts ':' spec with
  | source :: target :: flags =>
      let readOnly := decide ("ro".toList ∈ flags)
      if source = [] ∨ target = [] then none
      else if source.head? = some '/' then some (none, ⟨splitSlash source, target, readOnly⟩)
      else some (some source, ⟨volumeMountpoint volumes source, target, readOnly⟩)
  | _ => none

/-- One of `HostConfig.Mounts`, with the volume to create. -/
def mountBind (volumes : Path) (hex : Hex) (mount : Mount) : Option (Option Text × Bind) :=
  if mount.target = [] then none
  else if mount.type = "bind".toList then
    if mount.source = [] then none
    else some (none, ⟨splitSlash mount.source, mount.target, mount.readOnly⟩)
  else if mount.type = "volume".toList then
    let source := nameOr "anon_" hex mount.source
    some (some source, ⟨volumeMountpoint volumes source, mount.target, mount.readOnly⟩)
  else none

/-- The mounts take their names from `fresh`, one after the other. -/
def mountEntries (volumes : Path) : (Nat → Hex) → List Mount → List (Option Text × Bind)
  | _, [] => []
  | fresh, mount :: rest =>
      (mountBind volumes (fresh 0) mount).toList ++
        mountEntries volumes (fun index => fresh (index + 1)) rest

/-- What `_effective_binds` goes through. -/
def bindEntries (volumes : Path) (fresh : Nat → Hex) (config : HostConfig) :
    List (Option Text × Bind) :=
  config.binds.filterMap (legacyBind volumes) ++ mountEntries volumes fresh config.mounts

/-- One round of `_effective_binds`, none after an exception. -/
def ensureBind (volumes : Path) (record : Text → List UInt8) (now : FS × Option (List Bind))
    (entry : Option Text × Bind) : FS × Option (List Bind) :=
  match now.2, entry.1 with
  | none, _ => now
  | some binds, none => (now.1, some (binds ++ [entry.2]))
  | some binds, some name =>
      let ensured := ensureVolume volumes record now.1 name
      (ensured.1, if ensured.2 then some (binds ++ [entry.2]) else none)

def effectiveBinds (volumes : Path) (record : Text → List UInt8) (fresh : Nat → Hex)
    (config : HostConfig) (fs : FS) : FS × Option (List Bind) :=
  (bindEntries volumes fresh config).foldl (ensureBind volumes record) (fs, some [])

/-- A reference that `_volume_refcount` recognizes. -/
def HostConfig.mentions (config : HostConfig) (name : Text) : Bool :=
  (config.binds.any fun spec => firstPart ':' spec = name) ||
    config.mounts.any fun mount => decide (mount.type = "volume".toList) && mount.source = name

def volumeRefcount (containers : List HostConfig) (name : Text) : Nat :=
  containers.countP (·.mentions name)

def volumeOf (path : Text) : Option Text :=
  match path.dropPrefix? "/volumes/".toList with
  | some name => if name = [] ∨ '\n' ∈ name then none else some name
  | none => none

/-- `DELETE /volumes/{name}` -/
def deleteVolume (volumes : Path) (containers : List HostConfig) (name : Text) (force : Bool)
    (fs : FS) : FS :=
  let vp := joinName volumes name
  if fs.isdir vp then
    if force = false ∧ 0 < volumeRefcount containers name then fs else fs.rmtree vp
  else fs

/-- What `POST /volumes/prune` does with an entry of the directory. -/
def pruneVolume (volumes : Path) (containers : List HostConfig) (fs : FS) (name : Text) : FS :=
  let vp := joinName volumes name
  if fs.isdir vp = true ∧ volumeRefcount containers name = 0 then fs.rmtree vp else fs

/-- `POST /volumes/prune` -/
def pruneVolumes (volumes : Path) (containers : List HostConfig) (fs : FS) : FS :=
  ((fs.listdir volumes).getD []).foldl (pruneVolume volumes containers) fs

/-- The name and the verb in `/networks/(.+?)(/connect|/disconnect)?`. -/
def networkOf (path : Text) : Option (Text × Text) :=
  match path.dropPrefix? "/networks/".toList with
  | none => none
  | some rest =>
      if rest = [] ∨ '\n' ∈ rest then none
      else
        match rest.dropSuffix? "/connect".toList, rest.dropSuffix? "/disconnect".toList with
        | some (head :: name), _ => some (head :: name, "/connect".toList)
        | _, some (head :: name) => some (head :: name, "/disconnect".toList)
        | _, _ => some (rest, [])

/-- `POST /networks/create` -/
def createNetwork (networks : Path) (record : Text → List UInt8) (name : Text) (fs : FS) : FS :=
  let np := joinName networks name
  let made := fs.makedirs (stripDots np)
  if made.2 then
    let listed :=
      if made.1.pathExists (np ++ [membersName]) then some made.1
      else made.1.writeFile (np ++ [membersName]) "[]".toUTF8.toList
    match listed with
    | some listed => (listed.writeFile (np ++ [metaName]) (record name)).getD listed
    | none => made.1
  else made.1

/-- `DELETE /networks/{name}` -/
def deleteNetwork (networks : Path) (name : Text) (fs : FS) : FS := fs.rmtree (joinName networks name)

/-- What `POST /networks/{name}/connect` writes for a container that exists. -/
def connectNetwork (networks : Path) (members : List UInt8) (name : Text) (fs : FS) : FS :=
  let np := joinName networks name
  if fs.isdir np then (fs.writeFile (np ++ [membersName]) members).getD fs else fs

end PDocker.Storage
