import PDocker.Images.Publish
import PDocker.Images.ShortName

/-!
# Saving images

`save_images` packs the layers of every image again, under the digests that the
new archives have, and rewrites the configs to name these.
-/

set_option autoImplicit false

namespace PDocker.Images

open Data Layers

inductive Content (Tar : Type) where
  | layer (tar : Tar)
  | config (config : Config)
  | manifest (config : Text) (layers : List Text)
  deriving DecidableEq

/-- `tar` and `sha256`. What `tar` makes of a layer may depend on more than the
files of its tree. -/
structure Tools (Tree Tar : Type) where
  retar : Text → Tree → Tar
  extract : Tar → Tree
  sha256 : Content Tar → Text

structure Bundle where
  norm : Text
  diffIds : List Text
  config : Config

/-- An entry of the `manifest.json` in the archive. -/
structure SavedEntry where
  config : Text
  repoTag : Text
  layers : List Text

/-- The archive: `blobs/sha256` and `manifest.json`. -/
structure Saved (Tar : Type) where
  blobs : Table Text (Content Tar)
  manifest : List SavedEntry

section
variable {Tree Tar : Type} (tools : Tools Tree Tar) (store : Store Tree)

/-- The loop of `save_images` that collects its bundles. -/
def collectBundle (name : Text) : Option Bundle :=
  let norm := normalizeImage name
  match store.image (imageToPath norm) with
  | none => none
  | some dir =>
      match dir.config with
      | none => none
      | some config =>
          if dir.loadManifest = [] then none else some ⟨norm, dir.loadManifest, config⟩

/-- Its loop over the layers of a bundle, which edits the list it goes through:
`index` is where the loop stands in the list as it is then. -/
def retarLayers : Nat → Nat → List Text → Table Text (Content Tar) → List Text →
    Option (Table Text (Content Tar) × List Text)
  | 0, _, _, blobs, digests => some (blobs, digests)
  | steps + 1, index, diffIds, blobs, digests =>
      match diffIds[index]? with
      | none => some (blobs, digests)
      | some did =>
          if did ∈ blobs then retarLayers steps (index + 1) diffIds blobs (digests ++ [did])
          else match (store.layer did).bind LayerDir.tree with
            | none => none
            | some tree =>
                let tar := tools.retar did tree
                let actual := tools.sha256 (.layer tar)
                let edited := if actual = did then diffIds else diffIds.set (diffIds.idxOf did) actual
                retarLayers steps (index + 1) edited (blobs.insert actual (.layer tar))
                  (digests ++ [actual])

def saveBundle (saved : Saved Tar) (bundle : Bundle) : Option (Saved Tar) :=
  match retarLayers tools store bundle.diffIds.length 0 bundle.diffIds saved.blobs [] with
  | none => none
  | some (blobs, digests) =>
      let config := patchConfig bundle.config digests
      let configDigest := tools.sha256 (.config config)
      let blobs := blobs.insert configDigest (.config config)
      let blobs := blobs.insert (tools.sha256 (.manifest configDigest digests))
        (.manifest configDigest digests)
      some ⟨blobs, saved.manifest ++ [⟨configDigest, shortName bundle.norm, digests⟩]⟩

def saveImages (names : List Text) : Option (Saved Tar) :=
  (names.mapM (collectBundle store)).bind fun bundles =>
    bundles.foldlM (saveBundle tools store) ⟨∅, []⟩

/-- A config, layers and tags as `load_images` reads them. -/
abbrev Contents (Tree : Type) := Option Config × List (Option (Text × Tree)) × List Text

def Saved.layer (saved : Saved Tar) (digest : Text) : Option (Text × Tree) :=
  match saved.blobs.lookup digest with
  | some (.layer tar) => some (tools.sha256 (.layer tar), tools.extract tar)
  | _ => none

def Saved.config (saved : Saved Tar) (digest : Text) : Option Config :=
  match saved.blobs.lookup digest with
  | some (.config config) => some config
  | _ => none

def Saved.contents (saved : Saved Tar) (entry : SavedEntry) : Contents Tree :=
  (saved.config entry.config, entry.layers.map (saved.layer tools), [entry.repoTag])

def ArchiveEntry.contents (entry : ArchiveEntry Tree) : Contents Tree :=
  (entry.config, entry.layers.map (Option.map fun blob => (blob.digest, blob.tree)),
    entry.repoTags.map Tag.name)

def Saved.Reads (saved : Saved Tar) (entries : List (ArchiveEntry Tree)) : Prop :=
  entries.map ArchiveEntry.contents = saved.manifest.map (saved.contents tools)

end

end PDocker.Images
