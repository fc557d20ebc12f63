import PDocker.Images.Pull

/-!
# Pruning

`prune_build_artifacts` removes what interrupted work leaves behind and puts
backups back; `prune_unreferenced_layers` removes the layers that no manifest
names. Caches and files in PDOCKER_TMP are left out: to lose one of them is an
error of whoever reads it.
-/

set_option autoImplicit false

namespace PDocker.Images

open Data Layers

section
variable {Tree : Type}

/-- How a clean-up lists directories, which builds it finds active, which layers
it finds old enough, and how its removals go. -/
structure Sweep (Tree : Type) where
  listing : List Text → List Text
  active : Text → Bool
  old : Text → Bool
  losses : Place → List (Loss Tree)

/-- The loop of `prune_build_artifacts` over IMAGES_DIR. -/
def pruneImages (sweep : Sweep Tree) (next : ImageScript Tree) : List Text → ImageScript Tree
  | [] => next
  | name :: rest =>
      let remove := removeQuietly (.image name) (sweep.losses (.image name)) (pruneImages sweep next rest)
      if contains pullMarker name then remove
      else if contains oldMarker name then .ask fun store =>
        if (store.image (before oldMarker name)).isNone then
          .act (.move .images name (before oldMarker name)) (pruneImages sweep next rest)
            (pruneImages sweep next rest)
        else remove
      else pruneImages sweep next rest

def pruneLayers (sweep : Sweep Tree) (next : ImageScript Tree) : List Text → ImageScript Tree
  | [] => next
  | name :: rest =>
      let remove := removeQuietly (.layer name) (sweep.losses (.layer name)) (pruneLayers sweep next rest)
      if contains tmpMarker name then remove
      else .ask fun store =>
        if isDigest name && !store.layerExists name then remove else pruneLayers sweep next rest

def pruneBuilds (sweep : Sweep Tree) (next : ImageScript Tree) : List Text → ImageScript Tree
  | [] => next
  | name :: rest =>
      if sweep.active name then pruneBuilds sweep next rest
      else removeQuietly (.build name) (sweep.losses (.build name)) (pruneBuilds sweep next rest)

def pruneBuildArtifacts (sweep : Sweep Tree) (next : ImageScript Tree) : ImageScript Tree :=
  .ask fun store => pruneImages sweep (.ask fun store => pruneLayers sweep
      (.ask fun store => pruneBuilds sweep next (sweep.listing (store.names .builds)))
      (sweep.listing (store.names .layers)))
    (sweep.listing (store.names .images))

def referencedFrom (next : List Text → ImageScript Tree) : List Text → List Text → ImageScript Tree
  | refs, [] => next refs
  | refs, name :: rest => .ask fun store =>
      referencedFrom next (refs ++ ((store.image name).map ImageDir.loadManifest).getD []) rest

def pruneUnreferenced (sweep : Sweep Tree) (refs : List Text) (next : ImageScript Tree) :
    List Text → ImageScript Tree
  | [] => next
  | name :: rest =>
      if name ∈ refs ∨ !isDigest name ∨ !sweep.old name then pruneUnreferenced sweep refs next rest
      else removeQuietly (.layer name) (sweep.losses (.layer name)) (pruneUnreferenced sweep refs next rest)

def pruneUnreferencedLayers (sweep : Sweep Tree) (next : ImageScript Tree) : ImageScript Tree :=
  .ask fun store => referencedFrom
    (fun refs => .ask fun store =>
      pruneUnreferenced sweep refs next (sweep.listing (store.names .layers)))
    [] (sweep.listing (store.names .images))

/-- A `/build/prune` or `/system/prune` request. -/
def pruneRequest (artifacts layers : Sweep Tree) (next : ImageScript Tree) : ImageScript Tree :=
  pruneBuildArtifacts artifacts (pruneUnreferencedLayers layers next)

end

end PDocker.Images
