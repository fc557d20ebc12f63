import Mathlib.Data.List.Sort
import Mathlib.Data.Char
import Mathlib.Data.List.Lex
import PDocker.Overlay.View
import PDocker.Posix.Calls

/-!
# Sources of container archives

How a request path of the archive endpoint becomes a host path, and which
entry of the two trees of a `cow_bind` container is shown for it. Path strings
are joined and normalised as text; only the final calls go through the kernel.
-/

set_option autoImplicit false

namespace PDocker.Archive

open Posix Overlay

/-- The loop of `os.path.normpath` on an absolute path. -/
def normAbsolute : List Name → List Name → List Name
  | kept, [] => kept
  | kept, comp :: rest =>
      if comp = [] ∨ comp = dot then normAbsolute kept rest
      else if comp = dotdot then normAbsolute kept.dropLast rest
      else normAbsolute (kept ++ [comp]) rest

def joinUnder (base : Path) (relpath : List Char) : Option Path :=
  let path := normAbsolute [] (base ++ splitSlash (relpath.dropWhile (· = '/')))
  if base <+: path then some path else none

/-- The two trees that `_container_cow_bind` reads from the state. -/
structure Cow where
  upper : Path
  lower : Path

def containerArchiveRelpath (cow : Cow) (ctrPath : List Char) : Option Path :=
  if '\x00' ∈ ctrPath then none
  else (joinUnder cow.upper ctrPath).map fun resolved => resolved.drop cow.upper.length

def archiveWhiteoutName (name : Name) : Name := whiteoutPrefix ++ name

def archiveRelParts (rel : Path) : List Name :=
  rel.filter fun part => part ≠ [] ∧ part ≠ dot

def archiveIsInternalWhiteoutPath (rel : Path) : Bool := (archiveRelParts rel).any isMarker

/-- The loop of `_cow_path_hidden_by_whiteout`; `parent` is the directory of the
next part. -/
def hiddenByMarker (fs : FS) (parent : Path) : List Name → Bool
  | [] => false
  | part :: rest =>
      fs.lexists (parent ++ [archiveWhiteoutName part]) ||
        (fs.lexists (parent ++ [opaqueMarker]) && !fs.lexists (parent ++ [part])) ||
        hiddenByMarker fs (parent ++ [part]) rest

def cowPathHiddenByWhiteout (fs : FS) (cow : Cow) (rel : Path) : Bool :=
  if archiveRelParts rel = [] ∨ archiveIsInternalWhiteoutPath rel = true then
    archiveIsInternalWhiteoutPath rel
  else hiddenByMarker fs cow.upper (archiveRelParts rel)

def cowArchiveSource (fs : FS) (cow : Cow) (rel : Path) : Option Path :=
  if cowPathHiddenByWhiteout fs cow rel then none
  else if fs.lexists (cow.upper ++ rel) then some (cow.upper ++ rel)
  else if fs.lexists (cow.lower ++ rel) then some (cow.lower ++ rel)
  else none

/-- One name of the upper listing in `_cow_merged_dir_entries`. -/
def mergeUpperName (names : List Name) (name : Name) : List Name :=
  if name = opaqueMarker then names
  else if isMarker name = true then names.filter (· ≠ name.drop whiteoutPrefix.length)
  else names.insert name

/-- `_cow_merged_dir_entries`; `shuffle` is the order in which `os.listdir`
returns the names of a directory. -/
def cowMergedDirEntries (shuffle : List Name → List Name) (fs : FS) (cow : Cow) (rel : Path) :
    List Name :=
  let lowerNames :=
    if fs.lexists (cow.upper ++ rel ++ [opaqueMarker]) = false ∧ fs.isdir (cow.lower ++ rel) = true
    then shuffle ((fs.listdir (cow.lower ++ rel)).getD [])
    else []
  let upperNames :=
    if fs.isdir (cow.upper ++ rel) then shuffle ((fs.listdir (cow.upper ++ rel)).getD []) else []
  ((upperNames.foldl mergeUpperName lowerNames).filter fun name => isMarker name = false)
    |>.insertionSort (· ≤ ·)

/-- A tree below `top`, with the host path of each entry. -/
def treeAt (fs : FS) (top : Path) : View (Path × Entry) :=
  fun rel => (fs.get (top ++ rel)).map fun entry => (top ++ rel, entry)

def cowView (fs : FS) (cow : Cow) : View (Path × Entry) :=
  overlay (fun row => row.2.isDir) (treeAt fs cow.upper) (treeAt fs cow.lower)

end PDocker.Archive
