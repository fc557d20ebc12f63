import PDocker.Images.Store

/-!
# Pulling an image, and the clean-up of what pulls leave behind

`pull_image` builds a stage directory, moves the old image out of the way and
the stage into place. `prune_build_artifacts` removes stages and puts a backup
back where the image is missing.
-/

set_option autoImplicit false

namespace PDocker.Images

open Data Layers

section
variable {Tree : Type}

/-- A layer blob, and how the directories are removed that stand in its way. -/
structure Blob (Tree : Type) where
  digest : Text
  tree : Tree
  partials : List Tree
  tmpId : Text
  lossesOld : List (Loss Tree)
  lossesTmp : List (Loss Tree)

def tmpMarker : Text := ".tmp-".toList

def Blob.tmp (blob : Blob Tree) (bare : Text) : Text := bare ++ tmpMarker ++ blob.tmpId

def unpackLayer (name : Text) (next failed : ImageScript Tree) : List Tree → ImageScript Tree
  | [] => next
  | part :: parts => .act (.edit (.layer name) (Entry.onRootfs (fun _ => some part) .layers))
      (unpackLayer name next failed parts) failed

def writeInfo (name : Text) (info : Text) (next failed : ImageScript Tree) : ImageScript Tree :=
  .act (.edit (.layer name) fun dir : LayerDir Tree => { dir with info := none })
    (.act (.edit (.layer name) fun dir : LayerDir Tree => { dir with info := some info }) next failed)
    failed

def extractLayer (bare : Text) (blob : Blob Tree) (next failed : ImageScript Tree) : ImageScript Tree :=
  let tmp := blob.tmp bare
  let cleanup := removeQuietly (.layer tmp) blob.lossesTmp failed
  .act (.checkLayer bare) next (removeQuietly (.layer bare) blob.lossesOld
      (.act (.make true (.layer tmp)) (unpackLayer tmp (writeInfo tmp ("sha256:".toList ++ bare)
            (.act (.move .layers tmp bare) next cleanup) cleanup)
          cleanup (blob.partials ++ [blob.tree]))
        failed))

/-- The loop of `pull_image` over the layers. -/
def pullLayers (next failed : ImageScript Tree) : List (Text × Blob Tree) → ImageScript Tree
  | [] => next
  | (did, blob) :: rest =>
      .act (.checkLayer (bareDiffId did)) (pullLayers next failed rest) (.act .outside
          (if blob.digest = bareDiffId did then
            extractLayer (bareDiffId did) blob (pullLayers next failed rest) failed
          else failed)
          failed)

/-- What one pull is given from outside: the names it makes up, the config and
the blobs of the registry, and how its clean-ups go. -/
structure Draw (Tree : Type) where
  stageId : Text
  backupId : Text
  config : Config
  blobs : List (Blob Tree)
  lossesStage : List (Loss Tree)
  lossesBackup : List (Loss Tree)

def Draw.stage (draw : Draw Tree) (ref : Text) : Text :=
  imageToPath ref ++ pullMarker ++ draw.stageId

def Draw.backup (draw : Draw Tree) (ref : Text) : Text :=
  imageToPath ref ++ oldMarker ++ draw.backupId

/-- The `finally` of `pull_image`. -/
def finishPull (ref : Text) (draw : Draw Tree) (ok : Bool) : ImageScript Tree :=
  removeQuietly (.image (draw.backup ref)) draw.lossesBackup (.done ok)

/-- Its `except`. -/
def recoverPull (ref : Text) (draw : Draw Tree) : ImageScript Tree :=
  let cleanup :=
    removeQuietly (.image (draw.stage ref)) draw.lossesStage (finishPull ref draw false)
  .ask fun store =>
    if (store.image (draw.backup ref)).isSome && (store.image (imageToPath ref)).isNone then
      .act (.move .images (draw.backup ref) (imageToPath ref)) cleanup (finishPull ref draw false)
    else cleanup

def publishPull (ref : Text) (draw : Draw Tree) : ImageScript Tree :=
  let replace := .act (.move .images (draw.stage ref) (imageToPath ref)) (finishPull ref draw true)
    (recoverPull ref draw)
  .ask fun store =>
    if (store.image (imageToPath ref)).isSome then
      .act (.move .images (imageToPath ref) (draw.backup ref)) replace (recoverPull ref draw)
    else replace

/-- `pull_image` of a reference that is normalised. -/
def pullImage (ops : TreeOps Tree) (ref : Text) (draw : Draw Tree) : ImageScript Tree :=
  let stage := draw.stage ref
  let raised := recoverPull ref draw
  let bare := draw.config.diffIds.map bareDiffId
  .act (.make true (.image stage)) (.act .outside (.act .outside (writeConfig stage draw.config
          (if draw.config.diffIds.length ≠ draw.blobs.length then raised
          else pullLayers (saveImageManifest stage bare draw.config
              (mergeLayersInto ops (.image stage) bare
                (writeRef stage ref (publishPull ref draw) raised) raised) raised)
            raised (draw.config.diffIds.zip draw.blobs))
          raised) raised) raised)
    (.done false)

end

end PDocker.Images
