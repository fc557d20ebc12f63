import PDocker.Posix.Walk
import PDocker.Overlay.View

/-!
# Merging extracted layers

`merge_layers_into` builds a root file system from layer trees, lowest first:
the markers of a layer are applied to what is merged so far, the layer is
hard-linked on top, and at the end the markers that were linked along are
stripped. Every call of the original goes through `os`, so every path here
goes through path resolution.
-/

set_option autoImplicit false

namespace PDocker.Layers

open Posix Overlay

/-- `did.split(":", 1)[-1]` -/
def bareDiffId (did : Name) : Name :=
  match did.dropWhile (· ≠ ':') with
  | [] => did
  | _ :: bare => bare

def extractedTree (layersDir : Path) (bare : Name) : Path :=
  layersDir ++ [bare, ['t', 'r', 'e', 'e']]

def layerTree (layersDir : Path) (did : Name) : Path := extractedTree layersDir (bareDiffId did)

/-- `_clobber`; also the loop body that empties an opaque directory. -/
def clobber (fs : FS) (path : Path) : FS :=
  if fs.islink path || !fs.isdir path then (fs.unlink path).getD fs else fs.rmtree path

def removeVictim (fs : FS) (victim : Path) : FS :=
  if fs.islink victim || (fs.isfile victim && !fs.isdir victim) then
    (fs.unlink victim).getD fs
  else if fs.isdir victim then fs.rmtree victim
  else fs

/-- Make `path` a directory, removing anything else that has the name. -/
def ensureDirectory (fs : FS) (path : Path) : FS :=
  let cleared :=
    if fs.lexists path && (fs.islink path || !fs.isdir path) then clobber fs path else fs
  if cleared.isdir path then cleared else (cleared.makedirs path).1

def clearOpaque (fs : FS) (dir : Path) : FS :=
  if fs.isdir dir then
    ((fs.listdir dir).getD []).foldl (fun now entry => clobber now (dir ++ [entry])) fs
  else fs

def isWhiteoutFile (name : Name) : Bool := isMarker name && name ≠ opaqueMarker

def applyWhiteout (dir : Path) (fs : FS) (name : Name) : FS :=
  if isWhiteoutFile name then
    removeVictim fs (dir ++ [name.drop whiteoutPrefix.length])
  else fs

def whiteoutVisit (target : Path) (fs : FS) (rel : Path) (_dirs files : List Name) : FS :=
  let cleared := if opaqueMarker ∈ files then clearOpaque fs (target ++ rel) else fs
  files.foldl (applyWhiteout (target ++ rel)) cleared

def applyWhiteoutsInTree (fs : FS) (layer target : Path) : FS :=
  osWalk id layer (whiteoutVisit target) (fs.height + 1) [] fs

/-- `_copy_no_xattr`: content and mode; errors after the copy are dropped. -/
def copyNoXattr (fs : FS) (source raw : Path) : Option FS :=
  (fs.copyfile source raw).map fun copied =>
    match copied.lstat source with
    | some (.dir mode) => (copied.chmod raw mode).getD copied
    | some (.file ino) => (copied.chmod raw (copied.inodes.getD ino default).mode).getD copied
    | some (.symlink _) => (copied.chmod raw 0o777).getD copied
    | none => copied

/-- `os.link`, or a copy where the platform refuses hard links. -/
def linkOrCopy (fs : FS) (source raw : Path) : FS :=
  match fs.link source raw with
  | some linked => linked
  | none => (copyNoXattr fs source raw).getD fs

def clonePlace (fs : FS) (source raw : Path) : FS :=
  let cleared := if fs.lexists raw then clobber fs raw else fs
  linkOrCopy cleared source raw

def cloneEntry (fs : FS) (source raw : Path) : FS :=
  match fs.lstat source with
  | none => fs
  | some (.symlink target) =>
      let cleared := if fs.lexists raw then clobber fs raw else fs
      (cleared.symlink target raw).getD cleared
  | some (.dir _) => ensureDirectory fs raw
  | some (.file ino) =>
      if fs.lstat raw = some (.file ino) then fs else clonePlace fs source raw

def cloneMode (fs : FS) (source raw : Path) : FS :=
  match fs.lstat source with
  | some (.dir mode) => (fs.chmod raw mode).getD fs
  | _ => fs

def cloneVisit (layer target : Path) (fs : FS) (rel : Path) (dirs files : List Name) : FS :=
  let prepared := cloneMode (ensureDirectory fs (target ++ rel)) (layer ++ rel) (target ++ rel)
  (files ++ dirs).foldl
    (fun now name => cloneEntry now (layer ++ rel ++ [name]) (target ++ rel ++ [name])) prepared

def hardlinkCloneTree (fs : FS) (layer target : Path) : FS :=
  osWalk id layer (cloneVisit layer target) (fs.height + 1) [] fs

def stripVisit (target : Path) (fs : FS) (rel : Path) (_dirs files : List Name) : FS :=
  files.foldl
    (fun now name =>
      if isMarker name then (now.unlink (target ++ rel ++ [name])).getD now else now) fs

def stripWhiteoutMarkers (fs : FS) (target : Path) : FS :=
  osWalk id target (stripVisit target) (fs.height + 1) [] fs

def mergeLayer (fs : FS) (layer target : Path) : FS :=
  hardlinkCloneTree (applyWhiteoutsInTree fs layer target) layer target

inductive MergeError where
  | makedirs
  | layerNotExtracted (did : Name)
  deriving DecidableEq, Repr

def mergeLayers (layersDir target : Path) : FS → List Name → FS × Option MergeError
  | fs, [] => (stripWhiteoutMarkers fs target, none)
  | fs, did :: rest =>
      if fs.isdir (layerTree layersDir did) then
        mergeLayers layersDir target (mergeLayer fs (layerTree layersDir did) target) rest
      else (fs, some (.layerNotExtracted did))

def mergeLayersInto (fs : FS) (layersDir target : Path) (dids : List Name) : FS × Option MergeError :=
  match fs.makedirs target with
  | (made, true) => mergeLayers layersDir target made dids
  | (made, false) => (made, some .makedirs)

end PDocker.Layers
