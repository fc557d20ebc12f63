import PDocker.Images.Pull

/-!
# Loading, building and removing images

`load_images` and the last step of `execute_dockerfile_build` write an image in
its place, after the directory that was there has been removed.
-/

set_option autoImplicit false

namespace PDocker.Images

open Data Layers

section
variable {Tree : Type}

/-- `if not _layer_exists(did): _extract_layer_tar(path, did)` -/
def importLayer (blob : Blob Tree) (next failed : ImageScript Tree) : ImageScript Tree :=
  .act (.checkLayer blob.digest) next (extractLayer blob.digest blob next failed)

/-- One of `RepoTags`, and how the directory that is there is removed. -/
structure Tag (Tree : Type) where
  name : Text
  losses : List (Loss Tree)

/-- An entry of `manifest.json`. A config or layer that is not in the archive is `none`. -/
structure ArchiveEntry (Tree : Type) where
  config : Option Config
  layers : List (Option (Blob Tree))
  repoTags : List (Tag Tree)

def patchConfig (config : Config) (dids : List Text) : Config :=
  { config with diffIds := dids.map ("sha256:".toList ++ ·) }

/-- `if os.path.exists(dest): shutil.rmtree(dest)`, then `os.makedirs(dest)` -/
def clearDest (dest : Text) (losses : List (Loss Tree)) (next failed : ImageScript Tree) :
    ImageScript Tree :=
  let make := .act (.make false (.image dest)) next failed
  .ask fun store =>
    if (store.image dest).isSome then removeTree (.image dest) make failed losses else make

/-- The loop of `load_images` over the tags of an entry. -/
def publishTags (ops : TreeOps Tree) (config : Config) (dids : List Text)
    (next failed : ImageScript Tree) : List (Tag Tree) → ImageScript Tree
  | [] => next
  | tag :: tags =>
      let norm := normalizeImage tag.name
      let dest := imageToPath norm
      clearDest dest tag.losses (writeConfig dest config (saveImageManifest dest dids config
            (mergeLayersInto ops (.image dest) dids
              (writeRef dest norm (publishTags ops config dids next failed tags) failed)
              failed)
            failed)
          failed)
        failed

def importLayers (next : List Text → ImageScript Tree) (failed : ImageScript Tree) :
    List Text → List (Option (Blob Tree)) → ImageScript Tree
  | dids, [] => next dids
  | _, none :: _ => failed
  | dids, some blob :: rest =>
      .act .outside (importLayer blob (importLayers next failed (dids ++ [blob.digest]) rest) failed)
        failed

/-- Its loop over `manifest.json`. -/
def loadEntries (ops : TreeOps Tree) : List (ArchiveEntry Tree) → ImageScript Tree
  | [] => .done true
  | entry :: entries =>
      match entry.config with
      | none => .done false
      | some config =>
          importLayers
            (fun dids => publishTags ops (patchConfig config dids) dids (loadEntries ops entries)
              (.done false) entry.repoTags)
            (.done false) [] entry.layers

def loadImages (ops : TreeOps Tree) (archive : List (ArchiveEntry Tree)) : ImageScript Tree :=
  .act .outside (loadEntries ops archive) (.done false)

/-- The end of `execute_dockerfile_build`. -/
def storeBuiltImage (build ref : Text) (config : Config) (dids : List Text)
    (lossesDest lossesBuild : List (Loss Tree)) : ImageScript Tree :=
  let dest := imageToPath ref
  let raised := .done false
  clearDest dest lossesDest (.act (.takeRootfs build dest) (writeConfig dest (patchConfig config dids)
        (saveImageManifest dest dids (patchConfig config dids)
          (writeRef dest ref (removeQuietly (.build build) lossesBuild (.done true)) raised) raised)
        raised) raised)
    raised

/-- `remove_image` of a reference that is normalised. -/
def removeImage (ref : Text) (losses : List (Loss Tree)) : ImageScript Tree :=
  .ask fun store =>
    if (store.image (imageToPath ref)).isSome then
      removeTree (.image (imageToPath ref)) (.done true) (.done false) losses
    else .done true

end

end PDocker.Images
