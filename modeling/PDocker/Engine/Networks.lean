import PDocker.State.Names
import PDocker.Storage.Volumes

/-!
# Networks and their members

Which containers are in which networks is written down twice: every network has
a list of its members, every container a table of its networks.
-/

set_option autoImplicit false

namespace PDocker.Engine

open Data Posix Storage
open State (bridge stripSlashes)

structure Member where
  id : Text
  name : Text
  aliases : List Text

/-- What `state.json` of a container says about its networks. `services` are the two labels
that give aliases, and a network has the aliases of its endpoint. -/
structure Endpoints where
  name : Text
  services : List Text
  networks : Table Text (List Text)

/-- NETWORKS_DIR with the `members.json` of its directories, and the containers. -/
structure NetworkWorld where
  fs : FS
  rosters : Table Path (List Member)
  containers : Table Text Endpoints

def networkAliases (cid : Text) (container : Endpoints) (extra : List Text) : List Text :=
  ([stripSlashes container.name, cid.take 12] ++ container.services ++ extra).foldl
    (fun aliases value => if value ≠ [] ∧ value ∉ aliases then aliases ++ [value] else aliases) []

/-- The loop of `_connect_network_metadata` over the members. -/
def putMember (member : Member) : List Member → List Member
  | [] => [member]
  | first :: rest => if first.id = member.id then member :: rest else first :: putMember member rest

def containerNetworkNames (endpoints : List (Text × List Text)) (mode : Text) : List Text :=
  let named := (endpoints.map Prod.fst).foldl
    (fun names name => if name ≠ [] ∧ name ∉ names then names ++ [name] else names) []
  let names :=
    if mode ≠ [] ∧ mode ∉ ["default".toList, bridge, "host".toList, "none".toList] ∧ mode ∉ named then
      named ++ [mode]
    else named
  if names = [] ∧ mode ≠ "none".toList then [bridge] else names

namespace NetworkWorld

variable (root : Path)

def directory (world : NetworkWorld) (name : Text) : Option Path :=
  if world.fs.isdir (joinName root name) = true then world.fs.namei (joinName root name) true
  else none

def members (world : NetworkWorld) (name : Text) : List Member :=
  match world.directory root name with
  | some path => (world.rosters.lookup path).getD []
  | none => []

def connectMetadata (world : NetworkWorld) (cid name : Text) (extra : List Text) : NetworkWorld :=
  match world.containers.lookup cid with
  | none => world
  | some container =>
      let aliases := networkAliases cid container extra
      { world with
        rosters :=
          match world.directory root name with
          | some path => world.rosters.insert path
              (putMember ⟨cid, stripSlashes container.name, aliases⟩ ((world.rosters.lookup path).getD []))
          | none => world.rosters
        containers := world.containers.insert cid
          { container with networks := container.networks.insert name aliases } }

def dropMember (world : NetworkWorld) (cid name : Text) : Table Path (List Member) :=
  match world.directory root name with
  | some path =>
      match world.rosters.lookup path with
      | some roster => world.rosters.insert path (roster.filter fun member => member.id ≠ cid)
      | none => world.rosters
  | none => world.rosters

def disconnectMetadata (world : NetworkWorld) (cid name : Text) : NetworkWorld :=
  match world.containers.lookup cid with
  | none => world
  | some container =>
      { world with
        rosters := world.dropMember root cid name
        containers := world.containers.insert cid
          { container with networks := container.networks.erase name } }

def removeTree (world : NetworkWorld) (name : Text) : NetworkWorld :=
  match world.fs.namei (joinName root name) false with
  | some top =>
      if world.fs.isDirAt top = true then
        { world with
          fs := world.fs.rmtree (joinName root name)
          rosters := world.rosters.eraseWhere fun path => decide (top <+: path) }
      else world
  | none => world

/-- `POST /networks/create` -/
def createNetwork (world : NetworkWorld) (name : Text) : NetworkWorld :=
  let made := world.fs.makedirs (stripDots (joinName root name))
  if made.2 then
    match made.1.namei (joinName root name) true with
    | some path =>
        { world with
          fs := made.1
          rosters :=
            if (world.rosters.lookup path).isSome then world.rosters else world.rosters.insert path [] }
    | none => { world with fs := made.1 }
  else { world with fs := made.1 }

def pruneNetwork (world : NetworkWorld) (name : Text) : NetworkWorld :=
  if world.fs.isdir (joinName root name) = true ∧ world.members root name = [] then
    world.removeTree root name
  else world

def pruneNetworks (world : NetworkWorld) : NetworkWorld :=
  ((world.fs.listdir root).getD []).foldl (pruneNetwork root) world

/-- The part of `create_container` that is about networks. -/
def createContainer (world : NetworkWorld) (cid name : Text) (services : List Text)
    (endpoints : List (Text × List Text)) (mode : Text) : NetworkWorld :=
  let names := containerNetworkNames endpoints mode
  let unnamed : Endpoints :=
    ⟨'/' :: (if name = [] then "c_".toList ++ cid.take 12 else name), services, ∅⟩
  let aliasesOf := fun network =>
    networkAliases cid unnamed ((endpoints.lookup network).getD [])
  let container : Endpoints :=
    { unnamed with
      networks := names.foldl (fun table network => table.insert network (aliasesOf network)) ∅ }
  names.foldl
    (fun now network =>
      if network ≠ bridge ∧ now.fs.isdir (joinName root network) = true then
        now.connectMetadata root cid network ((endpoints.lookup network).getD [])
      else now)
    { world with containers := world.containers.insert cid container }

/-- The part of `start_container` that is about networks. -/
def startContainer (world : NetworkWorld) (cid : Text) : NetworkWorld :=
  match world.containers.lookup cid with
  | none => world
  | some container => container.networks.keys.foldl
      (fun now network => if network ≠ bridge then now.connectMetadata root cid network [] else now)
      world

def renameContainer (world : NetworkWorld) (cid name : Text) : NetworkWorld :=
  match world.containers.lookup cid with
  | none => world
  | some container =>
      let newName := stripSlashes (stripSpace name)
      if newName = [] then world
      else
        { world with
          containers := world.containers.insert cid { container with name := '/' :: newName } }

/-- A round of the loop over NETWORKS_DIR in `remove_container`. -/
def forget (cid : Text) (world : NetworkWorld) (name : Text) : NetworkWorld :=
  { world with rosters := world.dropMember root cid name }

/-- `remove_container` of a container that is there and may go. -/
def removeContainer (world : NetworkWorld) (cid : Text) : NetworkWorld :=
  match world.containers.lookup cid with
  | none => world
  | some _ =>
      let forgotten := ((world.fs.listdir root).getD []).foldl (forget root cid) world
      { forgotten with containers := forgotten.containers.erase cid }

end NetworkWorld

/-- Containers are given by the id that their identifier resolves to; a new one has a new id. -/
inductive NetworkStep where
  | createNetwork (name : Text) (hex : Hex)
  | deleteNetwork (path : Text)
  | pruneNetworks
  | createContainer (cid name : Text) (services : List Text) (endpoints : List (Text × List Text))
      (mode : Text)
  | start (cid : Text)
  | connect (path cid : Text) (aliases : List Text)
  | disconnect (path cid : Text)
  | rename (cid name : Text)
  | remove (cid : Text)

def NetworkWorld.step (root : Path) (world : NetworkWorld) : NetworkStep → Option NetworkWorld
  | .createNetwork name hex => some (world.createNetwork root (nameOr "net_" hex name))
  | .deleteNetwork path =>
      match networkOf path with
      | some (name, _) => some (world.removeTree root name)
      | none => some world
  | .pruneNetworks => some (world.pruneNetworks root)
  | .createContainer cid name services endpoints mode =>
      if (world.containers.lookup cid).isSome then none
      else some (world.createContainer root cid name services endpoints mode)
  | .start cid => some (world.startContainer root cid)
  | .connect path cid aliases =>
      match networkOf path with
      | some (name, verb) =>
          if verb ≠ "/connect".toList ∨
              name ≠ bridge ∧ world.fs.isdir (joinName root name) = false then some world
          else some (world.connectMetadata root cid name aliases)
      | none => some world
  | .disconnect path cid =>
      match networkOf path with
      | some (name, verb) =>
          if verb ≠ "/disconnect".toList then some world
          else some (world.disconnectMetadata root cid name)
      | none => some world
  | .rename cid name => some (world.renameContainer cid name)
  | .remove cid => some (world.removeContainer root cid)

end PDocker.Engine
