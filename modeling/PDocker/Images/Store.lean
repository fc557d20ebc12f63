import PDocker.Data.Script
import PDocker.Data.Table
import PDocker.Images.Reference
import PDocker.Layers.Merge

/-!
# The image store

The directories of IMAGES_DIR, LAYERS_DIR and of the builds in CONTAINERS_DIR,
with the files that decide whether an image may be used. What a directory tree
holds is left open; `platform`, `pulled_at` and `layers.json` are left out.
-/

set_option autoImplicit false

namespace PDocker.Images

open Data Layers

/-- `config.json`: `rootfs.diff_ids`, and everything else. -/
structure Config where
  diffIds : List Text
  rest : Text
  deriving DecidableEq

/-- An image directory. A file that is missing or cannot be parsed is `none`. -/
structure ImageDir (Tree : Type) where
  config : Option Config
  manifest : Option (List Text)
  rootfs : Option Tree
  imageRef : Option Text
  deriving DecidableEq

/-- A layer directory; `info` is the `diff_id` of its `meta.json`. -/
structure LayerDir (Tree : Type) where
  tree : Option Tree
  info : Option Text
  deriving DecidableEq

inductive Area where
  | images
  | layers
  | builds
  deriving DecidableEq

structure Place where
  area : Area
  name : Text
  deriving DecidableEq

abbrev Entry (Tree : Type) : Area → Type
  | .images => ImageDir Tree
  | .layers => LayerDir Tree
  | .builds => Option Tree

abbrev Store (Tree : Type) := AList fun place : Place => Entry Tree place.area

section
variable {Tree : Type}

def Entry.empty : (area : Area) → Entry Tree area
  | .images => ImageDir.mk none none none none
  | .layers => LayerDir.mk none none
  | .builds => none

def Entry.onRootfs (change : Option Tree → Option Tree) : (area : Area) → Entry Tree area → Entry Tree area
  | .images, dir => ImageDir.mk dir.config dir.manifest (change dir.rootfs) dir.imageRef
  | .layers, dir => LayerDir.mk (change dir.tree) dir.info
  | .builds, dir => change dir

abbrev Place.image (name : Text) : Place := ⟨.images, name⟩

abbrev Place.layer (name : Text) : Place := ⟨.layers, name⟩

abbrev Place.build (name : Text) : Place := ⟨.builds, name⟩

def Store.image (store : Store Tree) (name : Text) : Option (ImageDir Tree) :=
  store.lookup (.image name)

def Store.layer (store : Store Tree) (name : Text) : Option (LayerDir Tree) :=
  store.lookup (.layer name)

def Store.build (store : Store Tree) (name : Text) : Option (Option Tree) :=
  store.lookup (.build name)

def Store.names (store : Store Tree) (area : Area) : List Text :=
  store.keys.filterMap fun place => if place.area = area then some place.name else none

/-- `re.fullmatch(r"[A-Fa-f0-9]{64}", name)` -/
def isDigest (name : Text) : Bool :=
  name.length = 64 && name.all fun char =>
    ('A' ≤ char && char ≤ 'F') || ('a' ≤ char && char ≤ 'f') || char.isDigit

def Store.layerExists (store : Store Tree) (did : Text) : Bool :=
  isDigest (bareDiffId did) &&
    match store.layer (bareDiffId did) with
    | some ⟨some _, some info⟩ => bareDiffId info = bareDiffId did
    | _ => false

def ImageDir.loadManifest (dir : ImageDir Tree) : List Text :=
  ((dir.manifest.getD []).filter (· ≠ [])).map bareDiffId

def ImageDir.requiredDiffIds (dir : ImageDir Tree) (config : Config) : List Text :=
  ((dir.loadManifest ++ config.diffIds).map bareDiffId).filter (· ≠ []) |>.eraseDups

/-- A name that `_image_dir_complete` refuses. -/
def isInternal (name : Text) : Bool := contains pullMarker name || contains oldMarker name

def Store.filesComplete (store : Store Tree) (dir : ImageDir Tree) (expected : Option Text) : Bool :=
  match dir.config, dir.imageRef with
  | some config, some text =>
      let ref := stripSpace text
      ref ≠ [] && (expected.all fun expected => expected = [] || ref = expected) &&
        dir.rootfs.isSome && (dir.requiredDiffIds config).all store.layerExists
  | _, _ => false

def Store.imageDirComplete (store : Store Tree) (name : Text) (expected : Option Text) : Bool :=
  match store.image name with
  | none => false
  | some dir => !isInternal name && store.filesComplete dir expected

/-- What a script does to the store in one go. `outside` stands for everything
that is done elsewhere: a download, a read of the staging directory. A check
whose answer is no goes the way of an act that raises. -/
inductive Act (Tree : Type) where
  | outside
  | checkLayer (did : Text)
  | make (existOk : Bool) (place : Place)
  | edit (place : Place) (change : Entry Tree place.area → Entry Tree place.area)
  | move (area : Area) (source target : Text)
  | drop (place : Place)
  | takeRootfs (build image : Text)

def Act.apply (act : Act Tree) (store : Store Tree) : Option (Store Tree) :=
  match act with
  | .outside => some store
  | .checkLayer did => if store.layerExists did then some store else none
  -- `os.makedirs`
  | .make existOk place =>
      match store.lookup place with
      | none => some (store.insert place (Entry.empty place.area))
      | some _ => if existOk then some store else none
  | .edit place change => (store.lookup place).map fun dir => store.insert place (change dir)
  -- `os.replace` of a directory; none of the callers replaces an empty one
  | .move area source target =>
      match store.lookup ⟨area, source⟩, store.lookup ⟨area, target⟩ with
      | some dir, none =>
          some ((store.erase ⟨area, source⟩).insert (Place.mk area target) dir)
      | _, _ => none
  -- `os.rmdir` of a directory that is empty by now
  | .drop place => (store.lookup place).map fun _ => store.erase place
  -- `shutil.move` of the root file system of a build
  | .takeRootfs build image =>
      match store.build build, store.image image with
      | some (some tree), some ⟨config, manifest, none, imageRef⟩ =>
          some ((store.insert (Place.build build) (none : Option Tree)).insert (Place.image image)
            (ImageDir.mk config manifest (some tree) imageRef))
      | _, _ => none

def Act.isCheck : Act Tree → Bool
  | .checkLayer _ => true
  | _ => false

abbrev ImageScript (Tree : Type) := Script (Act Tree) (Store Tree)

structure Loss (Tree : Type) where
  tree : Option Tree
  config : Bool
  manifest : Bool
  imageRef : Bool
  info : Bool

def Entry.lose (loss : Loss Tree) : (area : Area) → Entry Tree area → Entry Tree area
  | .images, dir =>
      ImageDir.mk (if loss.config then dir.config else none)
        (if loss.manifest then dir.manifest else none) (dir.rootfs.bind fun _ => loss.tree)
        (if loss.imageRef then dir.imageRef else none)
  | .layers, dir =>
      LayerDir.mk (dir.tree.bind fun _ => loss.tree) (if loss.info then dir.info else none)
  | .builds, dir => dir.bind fun _ => loss.tree

/-- `shutil.rmtree`, with what is left after each file removed. -/
def removeTree (place : Place) (next failed : ImageScript Tree) : List (Loss Tree) → ImageScript Tree
  | [] => .act (.drop place) next failed
  | loss :: losses => .act (.edit place (Entry.lose loss place.area))
      (removeTree place next failed losses) failed

/-- `shutil.rmtree` of a directory that may be missing, errors ignored. -/
def removeQuietly (place : Place) (losses : List (Loss Tree)) (next : ImageScript Tree) :
    ImageScript Tree :=
  .ask fun store => if (store.lookup place).isSome then removeTree place next next losses else next

/-- `open(path, "w")` and a write: the file is empty in between. -/
def writeFile (name : Text) (clear fill : ImageDir Tree → ImageDir Tree)
    (next failed : ImageScript Tree) : ImageScript Tree :=
  .act (.edit (.image name) clear) (.act (.edit (.image name) fill) next failed) failed

def writeConfig (name : Text) (config : Config) (next failed : ImageScript Tree) : ImageScript Tree :=
  writeFile name (fun dir => { dir with config := none })
    (fun dir => { dir with config := some config }) next failed

def writeRef (name ref : Text) (next failed : ImageScript Tree) : ImageScript Tree :=
  writeFile name (fun dir => { dir with imageRef := some [] })
    (fun dir => { dir with imageRef := some ref }) next failed

/-- The `diff_id` of a layer as `_save_image_manifest` writes it. -/
def fullDiffId (did : Text) : Text :=
  if "sha256:".toList.isPrefixOf did then did else "sha256:".toList ++ did

def saveImageManifest (name : Text) (dids : List Text) (config : Config)
    (next failed : ImageScript Tree) : ImageScript Tree :=
  .act (.make true (.image name)) (writeFile name (fun dir => { dir with manifest := none })
      (fun dir => { dir with manifest := some (dids.map fullDiffId) })
      (writeConfig name config next failed) failed)
    failed

/-- What the merge does to the target: `_apply_whiteouts_in_tree` and
`_hardlink_clone_tree` for each layer, `_strip_whiteout_markers` at the end. -/
structure TreeOps (Tree : Type) where
  empty : Tree
  overlay : Tree → Tree → Tree
  strip : Tree → Tree

def TreeOps.merge (ops : TreeOps Tree) (trees : List Tree) : Tree :=
  ops.strip (trees.foldl ops.overlay ops.empty)

def countOps : TreeOps Nat := ⟨0, (· + ·), id⟩

variable (ops : TreeOps Tree)

/-- The loop of `merge_layers_into`, with one step for each layer. -/
def mergeFrom (place : Place) (next failed : ImageScript Tree) : List Text → ImageScript Tree
  | [] => .act (.edit place (Entry.onRootfs (·.map ops.strip) place.area)) next failed
  | did :: dids => .ask fun store =>
      match (store.layer (bareDiffId did)).bind LayerDir.tree with
      | none => failed
      | some tree =>
          .act (.edit place (Entry.onRootfs (·.map (ops.overlay · tree)) place.area))
            (mergeFrom place next failed dids) failed

/-- `merge_layers_into` the root file system in a directory. -/
def mergeLayersInto (place : Place) (dids : List Text) (next failed : ImageScript Tree) :
    ImageScript Tree :=
  .act (.make true place)
    (.act (.edit place (Entry.onRootfs (fun now => some (now.getD ops.empty)) place.area))
      (mergeFrom ops place next failed dids) failed)
    failed

end

end PDocker.Images
