import PDocker.Engine.HostsFile
import PDocker.Engine.Membership

/-!
# Aliases

The aliases that a container is given for a network stand in the list of its members, and the
members of one of its networks go to its hosts file when it is started.
-/

set_option autoImplicit false

namespace PDocker.Engine

open Data Posix Storage
open State (bridge)

namespace NetworkWorld

variable (root : Path)

def others (world : NetworkWorld) (cid name : Text) : List Member :=
  (world.members root name).filter fun member => member.id ≠ cid

/-- The network whose members a start takes: the last of the configured ones in the order of their
dictionary, or the first directory whose list has the container. Neither order is kept here. -/
def Chooses (world : NetworkWorld) (configured : List Text) (cid : Text) : Option Text → Prop
  | some name => name ∈ configured ∨
      configured = [] ∧ name ∈ (world.fs.listdir root).getD [] ∧ ∃ member ∈ world.members root name, member.id = cid
  | none => configured = [] ∧
      ∀ name ∈ (world.fs.listdir root).getD [], ∀ member ∈ world.members root name, member.id ≠ cid

instance (world : NetworkWorld) (configured : List Text) (cid : Text) (chosen : Option Text) :
    Decidable (world.Chooses root configured cid chosen) :=
  match chosen with
  | some _ => inferInstanceAs (Decidable (_ ∨ _ = _ ∧ _ ∧ ∃ member ∈ _, _ = _))
  | none => inferInstanceAs (Decidable (_ = _ ∧ ∀ name ∈ _, ∀ member ∈ _, _ ≠ _))

end NetworkWorld

/-- The hosts file that is read and written, and the one of the lower layer that it hides. -/
structure HostsFiles where
  target : Option Text := none
  below : Option Text := none

def HostsFiles.view (files : HostsFiles) : Text := (files.target.or files.below).getD []

/-- `given` is what the requests have given as aliases: for a container, in a network. -/
structure AliasWorld where
  network : NetworkWorld
  given : Text → Text → List Text := fun _ _ => []
  hosts : Text → HostsFiles := fun _ => {}

inductive AliasStep where
  | network (step : NetworkStep)
  | start (cid : Text) (live : Bool) (chosen : Option Text)
  /-- Whatever else changes a hosts file. -/
  | hosts (cid : Text) (files : HostsFiles)

def filled (aliases : List Text) : List Text := aliases.filter (· ≠ [])

namespace AliasWorld

variable (root : Path)

def give (world : AliasWorld) : NetworkStep → Text → Text → List Text
  | .createContainer cid _ _ endpoints mode => fun id name =>
      if id = cid ∧ name ∈ containerNetworkNames endpoints mode then filled ((endpoints.lookup name).getD [])
      else world.given id name
  | .connect path cid aliases =>
      match networkOf path with
      | some (network, verb) =>
          if verb ≠ "/connect".toList ∨
              network ≠ bridge ∧ world.network.fs.isdir (joinName root network) = false ∨
                world.network.containers.lookup cid = none then world.given
          else fun id name => if id = cid ∧ name = network then filled aliases else world.given id name
      | none => world.given
  | _ => world.given

def configured (container : Endpoints) : List Text := container.networks.keys.filter (· ≠ bridge)

/-- `start_container` of a container that is not live. -/
def start (world : AliasWorld) (cid : Text) (chosen : Option Text) : Option AliasWorld :=
  match world.network.containers.lookup cid with
  | none => none
  | some container =>
      let network := world.network.startContainer root cid
      if network.Chooses root (configured container) cid chosen then
        match chosen with
        | none => some { world with network }
        | some name =>
            let files := world.hosts cid
            let target := injectNetworkHosts (network.others root cid name) files.target
            some { world with network, hosts := Function.update world.hosts cid { files with target } }
      else none

def step (world : AliasWorld) : AliasStep → Option AliasWorld
  | .network (.start _) => none
  | .network step => (world.network.step root step).map fun network => { world with network, given := world.give root step }
  | .start cid live chosen => if live then some world else world.start root cid chosen
  | .hosts cid files => some { world with hosts := Function.update world.hosts cid files }

def Aliased (world : AliasWorld) : Prop :=
  ∀ name, UserDefined name → world.network.Network root name →
    ∀ member ∈ world.network.members root name, world.given member.id name ⊆ member.aliases

def Joined (world : AliasWorld) (cid name : Text) : Prop :=
  UserDefined name ∧ world.network.Network root name ∧ ∃ member ∈ world.network.members root name, member.id = cid

/-- After a start the block has the names of the other members of all networks and no others, the
lines outside are there, and the same block changes nothing. -/
structure Started (before after : AliasWorld) (cid : Text) (chosen : Option Text) : Prop where
  exact : ∀ host, host ∈ generatedNames (after.hosts cid).view ↔
    ∃ name, after.Joined root cid name ∧ ∃ member ∈ after.network.others root cid name, host ∈ hostNames member
  kept : (outsideLines (before.hosts cid).view).Sublist (outsideLines (after.hosts cid).view)
  again : ∀ name, chosen = some name →
    injectNetworkHosts (after.network.others root cid name) (after.hosts cid).target = (after.hosts cid).target

def chosenOthers (world : AliasWorld) (cid : Text) : Option Text → List Member
  | none => []
  | some name => world.network.others root cid name

/-- The container has no aliases of its own, those of the chosen network are those of all its networks,
and the file is in order; or there are none, and none are left in the file. -/
structure Startable (world : AliasWorld) (cid : Text) (chosen : Option Text) (container : Endpoints) : Prop where
  plain : ∀ name ∈ container.networks, UserDefined name → world.network.Network root name →
    world.given cid name ⊆ networkAliases cid container []
  all : ∀ host, (∃ member ∈ world.chosenOthers root cid chosen, host ∈ hostNames member) ↔
    ∃ name, (world.Joined root cid name ∨ UserDefined name ∧ world.network.Network root name ∧ name ∈ container.networks) ∧
      ∃ member ∈ world.network.others root cid name, host ∈ hostNames member
  alone : world.chosenOthers root cid chosen = [] → generatedNames (world.hosts cid).view = []
  orderly : world.chosenOthers root cid chosen ≠ [] →
    (∀ member ∈ world.chosenOthers root cid chosen, ∀ name ∈ hostNames member, HostWord name) ∧
      Arranged ((world.hosts cid).target.getD []) ∧
        ((world.hosts cid).target = none → outsideLines ((world.hosts cid).below.getD []) = [])

def Kept (world : AliasWorld) : AliasStep → Prop
  | .network step =>
      (∀ name ∈ step.names, PlainName name) ∧
        ∀ cid name services endpoints mode, step = .createContainer cid name services endpoints mode →
          ∀ network ∈ containerNetworkNames endpoints mode, PlainName network
  | .start cid live chosen => live = false → ∀ container,
      world.network.containers.lookup cid = some container → world.Startable root cid chosen container
  | .hosts _ _ => True

end AliasWorld

/-! ## Connecting to several networks -/

section
variable {member found : Member} {list : List Member}

theorem map_id_putMember (member : Member) (list : List Member) :
    (putMember member list).map Member.id =
      if member.id ∈ list.map Member.id then list.map Member.id else list.map Member.id ++ [member.id] := by
  induction list with
  | nil => rfl
  | cons first rest ih =>
      rw [putMember]
      by_cases same : first.id = member.id
      · rw [if_pos same, List.map_cons, List.map_cons, same, if_pos List.mem_cons_self]
      rw [if_neg same, List.map_cons, List.map_cons, ih]
      by_cases later : member.id ∈ rest.map Member.id
      · rw [if_pos later, if_pos (List.mem_cons_of_mem _ later)]
      · rw [if_neg later, if_neg (List.mem_cons.not.mpr (not_or.mpr ⟨Ne.symm same, later⟩)), List.cons_append]

theorem nodup_putMember (single : (list.map Member.id).Nodup) : ((putMember member list).map Member.id).Nodup := by
  rw [map_id_putMember]
  split
  · exact single
  · rename_i fresh
    exact List.nodup_append.mpr ⟨single, List.nodup_singleton _, fun id old other new same =>
      fresh (List.mem_singleton.mp new ▸ same ▸ old)⟩

theorem mem_putMember_single (single : (list.map Member.id).Nodup) (inside : found ∈ putMember member list) :
    found = member ∨ found ∈ list ∧ found.id ≠ member.id := by
  induction list with
  | nil => exact .inl (List.mem_singleton.mp inside)
  | cons first rest ih =>
      rw [List.map_cons, List.nodup_cons] at single
      rw [putMember] at inside
      by_cases same : first.id = member.id
      · rw [if_pos same] at inside
        rcases List.mem_cons.mp inside with here | later
        · exact .inl here
        · exact .inr ⟨List.mem_cons_of_mem _ later, fun equal =>
            single.1 (same ▸ equal ▸ List.mem_map_of_mem later)⟩
      · rw [if_neg same] at inside
        rcases List.mem_cons.mp inside with here | later
        · exact .inr ⟨here ▸ List.mem_cons_self, here ▸ same⟩
        · rcases ih single.2 later with new | ⟨old, other⟩
          · exact .inl new
          · exact .inr ⟨List.mem_cons_of_mem _ old, other⟩

theorem filter_putMember (member : Member) (list : List Member) :
    (putMember member list).filter (fun found => found.id ≠ member.id) = list.filter fun found => found.id ≠ member.id := by
  induction list with
  | nil => simp [putMember]
  | cons first rest ih =>
      rw [putMember]
      by_cases same : first.id = member.id
      · simp [same]
      · rw [if_neg same, List.filter_cons, List.filter_cons, ih]

theorem putMember_putMember (member : Member) (list : List Member) :
    putMember member (putMember member list) = putMember member list := by
  induction list with
  | nil => simp [putMember]
  | cons first rest ih =>
      rw [putMember]
      by_cases same : first.id = member.id
      · rw [if_pos same, putMember, if_pos rfl]
      · rw [if_neg same, putMember, if_neg same, ih]

end

namespace NetworkWorld

variable {root : Path} {world : NetworkWorld} {cid : Text} {container : Endpoints}

def connectAll (root : Path) (cid : Text) (extra : Text → List Text) (world : NetworkWorld) (names : List Text) : NetworkWorld :=
  names.foldl (fun now name => now.connectMetadata root cid name (extra name)) world

theorem foldl_connect_where (guard : NetworkWorld → Text → Prop) [∀ now name, Decidable (guard now name)]
    (chosen : Text → Bool) (names : List Text) (extra : Text → List Text)
    (guarded : ∀ now : NetworkWorld, now.fs = world.fs → ∀ name, guard now name ↔ chosen name = true) :
    names.foldl (fun now name => if guard now name then now.connectMetadata root cid name (extra name) else now) world =
      world.connectAll root cid extra (names.filter chosen) := by
  induction names generalizing world with
  | nil => rfl
  | cons name rest ih =>
      rw [List.foldl_cons, List.filter_cons]
      have here := guarded world rfl name
      by_cases taken : guard world name
      · rw [if_pos taken, if_pos (here.mp taken), ih fun now same => guarded now (same.trans connectMetadata_fs)]
        rfl
      · rw [if_neg taken, if_neg (here.not.mp taken), ih guarded]

theorem connectAll_fs (extra : Text → List Text) (names : List Text) :
    (world.connectAll root cid extra names).fs = world.fs := by
  induction names generalizing world with
  | nil => rfl
  | cons name rest ih => exact ih.trans connectMetadata_fs

theorem Placed.connectAll (placed : world.Placed root) (found : world.containers.lookup cid = some container)
    (extra : Text → List Text) (names : List Text) (plain : ∀ name ∈ names, PlainName name) :
    (world.connectAll root cid extra names).Placed root ∧
      (∀ name, (world.connectAll root cid extra names).roster root name =
        if name ∈ names ∧ world.fs.isDirAt (root ++ [name]) = true then
          putMember (memberOf cid container (extra name)) (world.roster root name)
        else world.roster root name) ∧
      ∀ id holder, (world.connectAll root cid extra names).containers.lookup id = some holder →
        ∀ name ∈ holder.networks, name ∈ names ∨
          ∃ old, world.containers.lookup id = some old ∧ name ∈ old.networks := by
  induction names generalizing world container with
  | nil => exact ⟨placed, fun name => (if_neg fun both => List.not_mem_nil both.1).symm,
      fun id holder holds name inside => .inr ⟨holder, holds, inside⟩⟩
  | cons first rest ih =>
      have plain_first := plain first List.mem_cons_self
      have lookup := @connectMetadata_lookup root world cid first container (extra first) found
      obtain ⟨after, rosters, containers⟩ := ih (placed.connect found plain_first)
        ((lookup cid).trans (if_pos rfl)) fun name member => plain name (List.mem_cons_of_mem _ member)
      refine ⟨after, fun name => (rosters name).trans ?_, ?_⟩
      · have alike : ∀ networks, memberOf cid { container with networks } (extra name) =
            memberOf cid container (extra name) := fun _ => rfl
        rw [connectMetadata_fs, placed.connectMetadata_roster found plain_first, alike]
        by_cases directory : world.fs.isDirAt (root ++ [name]) = true
        · by_cases here : name = first
          · subst here
            simp [directory, putMember_putMember]
          · simp [directory, here]
        · have away : ¬ (name = first ∧ world.fs.isDirAt (root ++ [first]) = true) :=
            fun both => directory (both.1 ▸ both.2)
          rw [if_neg away]
          simp [directory]
      · intro id holder holds name inside
        rcases containers id holder holds name inside with later | ⟨old, looked, within⟩
        · exact .inl (List.mem_cons_of_mem _ later)
        rw [lookup] at looked
        split at looked
        · rename_i self
          cases looked
          rcases (AList.mem_insert _).mp within with here | before
          · exact .inl (here ▸ List.mem_cons_self)
          · exact .inr ⟨container, self ▸ found, before⟩
        · exact .inr ⟨old, looked, within⟩

theorem startContainer_eq (found : world.containers.lookup cid = some container) :
    world.startContainer root cid =
      world.connectAll root cid (fun _ => []) (AliasWorld.configured container) := by
  rw [startContainer, found]
  exact foldl_connect_where (fun _ name => name ≠ bridge) (fun name => decide (name ≠ bridge)) _ _
    fun _ _ _ => decide_eq_true_iff.symm

/-- The aliases of the members are recorded, each id stands once in a list, and the networks of
the containers have plain names. -/
structure Recorded (root : Path) (given : Text → Text → List Text) (world : NetworkWorld) : Prop where
  placed : world.Placed root
  plain : ∀ cid container, world.containers.lookup cid = some container → ∀ name ∈ container.networks, PlainName name
  single : ∀ name, ((world.roster root name).map Member.id).Nodup
  aliased : ∀ name, UserDefined name → ∀ member ∈ world.roster root name, given member.id name ⊆ member.aliases

section
variable {given later : Text → Text → List Text} {extra : Text → List Text} {names : List Text}

theorem Recorded.connectAll (recorded : world.Recorded root given) (found : world.containers.lookup cid = some container)
    (plain : ∀ name ∈ names, PlainName name) (others : ∀ id, id ≠ cid → later id = given id)
    (kept : ∀ name, name ∉ names → UserDefined name → world.fs.isDirAt (root ++ [name]) = true →
      later cid name = given cid name)
    (taken : ∀ name ∈ names, UserDefined name → world.fs.isDirAt (root ++ [name]) = true →
      later cid name ⊆ networkAliases cid container (extra name)) :
    (world.connectAll root cid extra names).Recorded root later := by
  obtain ⟨placed, rosters, containers⟩ := recorded.placed.connectAll found extra names plain
  refine ⟨placed, ?_, ?_, ?_⟩
  · intro other holder holds name inside
    rcases containers other holder holds name inside with new | ⟨old, looked, before⟩
    · exact plain name new
    · exact recorded.plain other old looked name before
  · intro name
    rw [rosters]
    split
    · exact nodup_putMember (recorded.single name)
    · exact recorded.single name
  intro name user member inside
  have old : member ∈ world.roster root name → member.id ≠ cid → later member.id name ⊆ member.aliases := by
    intro listed other
    rw [others _ other]
    exact recorded.aliased name user member listed
  rw [rosters] at inside
  by_cases here : name ∈ names ∧ world.fs.isDirAt (root ++ [name]) = true
  · rw [if_pos here] at inside
    rcases mem_putMember_single (recorded.single name) inside with rfl | ⟨listed, other⟩
    · exact taken name here.1 user here.2
    · exact old listed other
  rw [if_neg here] at inside
  by_cases self : member.id = cid
  · have there : world.fs.isDirAt (root ++ [name]) = true := by
      by_contra missing
      rw [recorded.placed.roster_eq_nil (Bool.eq_false_iff.mpr missing)] at inside
      cases inside
    rw [self, kept name (fun named => here ⟨named, there⟩) user there]
    exact self ▸ recorded.aliased name user member inside
  · exact old inside self

theorem Recorded.shrink {after : NetworkWorld} (recorded : world.Recorded root given) (placed : after.Placed root)
    (containers : ∀ id holder, after.containers.lookup id = some holder →
      ∃ old, world.containers.lookup id = some old ∧ ∀ name ∈ holder.networks, name ∈ old.networks)
    (rosters : ∀ name, (after.roster root name).Sublist (world.roster root name)) : after.Recorded root given where
  placed := placed
  plain other holder holds name inside := by
    obtain ⟨old, looked, fewer⟩ := containers other holder holds
    exact recorded.plain other old looked name (fewer name inside)
  single name := (recorded.single name).sublist ((rosters name).map _)
  aliased name user member inside := recorded.aliased name user member ((rosters name).subset inside)

theorem Recorded.same {after : NetworkWorld} (recorded : world.Recorded root given)
    (rest : after.Placed root ∧ after.containers = world.containers ∧
      ∀ name, (after.roster root name).Sublist (world.roster root name)) : after.Recorded root given :=
  recorded.shrink rest.1 (fun _ holder holds => ⟨holder, rest.2.1 ▸ holds, fun _ inside => inside⟩) rest.2.2

theorem Recorded.disconnect (recorded : world.Recorded root given) {name : Text} (plain : PlainName name) :
    (world.disconnectMetadata root cid name).Recorded root given := by
  have placed := @Placed.disconnect root world recorded.placed cid name plain
  cases found : world.containers.lookup cid with
  | none =>
      rw [disconnectMetadata, found]
      exact recorded
  | some container =>
      have rosters := recorded.placed.disconnect_roster found plain
      rw [disconnectMetadata, found] at placed rosters ⊢
      refine recorded.shrink placed (fun id holder holds => ?_) fun other => ?_
      · dsimp only at holds
        rw [Table.lookup_insert_eq_ite] at holds
        split at holds
        · rename_i self
          cases holds
          exact ⟨container, self ▸ found, fun other inside => (AList.mem_erase.mp inside).2⟩
        · exact ⟨holder, holds, fun _ inside => inside⟩
      · rw [rosters]
        split
        · exact List.filter_sublist
        · exact .refl _

theorem Recorded.rename (recorded : world.Recorded root given) (name : Text) :
    (world.renameContainer cid name).Recorded root given := by
  unfold renameContainer
  split
  · exact recorded
  rename_i container found
  dsimp only
  split
  · exact recorded
  refine recorded.shrink ⟨recorded.placed.directory, recorded.placed.noLink, recorded.placed.stored⟩
    (fun id holder holds => ?_) fun _ => .refl _
  dsimp only at holds
  rw [Table.lookup_insert_eq_ite] at holds
  split at holds
  · rename_i self
    cases holds
    exact ⟨container, self ▸ found, fun _ inside => inside⟩
  · exact ⟨holder, holds, fun _ inside => inside⟩

theorem Recorded.remove (recorded : world.Recorded root given) (cid : Text) :
    (world.removeContainer root cid).Recorded root given := by
  obtain ⟨placed, rosters⟩ := recorded.placed.remove cid
  refine recorded.shrink placed (fun id holder holds => ?_) rosters
  unfold removeContainer at holds
  split at holds
  · exact ⟨holder, holds, fun _ inside => inside⟩
  have containers := (recorded.placed.forgotten cid).2.2.1
  dsimp only at containers holds
  rw [containers, Table.lookup_erase_eq_ite] at holds
  split at holds
  · cases holds
  · exact ⟨holder, holds, fun _ inside => inside⟩

theorem mem_networkAliases {value : Text} {more : List Text} (filled : value ≠ []) (inside : value ∈ more) :
    value ∈ networkAliases cid container more := by
  suffices loop : ∀ (values : List Text) (found : List Text), value ∈ found ∨ value ∈ values →
      value ∈ values.foldl (fun aliases value => if value ≠ [] ∧ value ∉ aliases then aliases ++ [value] else aliases) found from
    loop _ [] (.inr (List.mem_append_right _ inside))
  intro values
  induction values with
  | nil => exact fun found either => either.resolve_right List.not_mem_nil
  | cons first rest ih =>
      intro found either
      rw [List.foldl_cons]
      apply ih
      split
      · rcases either with old | new
        · exact .inl (List.mem_append_left _ old)
        · rcases List.mem_cons.mp new with here | later
          · exact .inl (List.mem_append_right _ (List.mem_singleton.mpr here))
          · exact .inr later
      · rename_i known
        rcases either with old | new
        · exact .inl old
        rcases List.mem_cons.mp new with here | later
        · subst here
          exact .inl (Classical.not_not.mp fun fresh => known ⟨filled, fresh⟩)
        · exact .inr later

theorem filled_subset (more : List Text) : filled more ⊆ networkAliases cid container more := by
  intro value inside
  obtain ⟨listed, some_char⟩ := List.mem_filter.mp inside
  exact mem_networkAliases (of_decide_eq_true some_char) listed

variable (recorded : world.Recorded root given)

include recorded

theorem Recorded.create {name mode : Text} {services : List Text}
    {endpoints : List (Text × List Text)} (plain : ∀ network ∈ containerNetworkNames endpoints mode, PlainName network) :
    (world.createContainer root cid name services endpoints mode).Recorded root fun id network =>
      if id = cid ∧ network ∈ containerNetworkNames endpoints mode then filled ((endpoints.lookup network).getD [])
      else given id network := by
  unfold createContainer
  dsimp only
  generalize shape : Endpoints.mk _ services (List.foldl _ _ _) = container
  have fewer : ∀ network ∈ container.networks, network ∈ containerNetworkNames endpoints mode := by
    intro network inside
    rw [← shape, mem_foldl_insert] at inside
    exact inside.resolve_right List.not_mem_nil
  have added : NetworkWorld.Recorded root given { world with containers := world.containers.insert cid container } := by
    refine ⟨⟨recorded.placed.directory, recorded.placed.noLink, recorded.placed.stored⟩, ?_, recorded.single, recorded.aliased⟩
    intro id holder holds network inside
    dsimp only at holds
    rw [Table.lookup_insert_eq_ite] at holds
    split at holds
    · cases holds
      exact plain network (fewer network inside)
    · exact recorded.plain id holder holds network inside
  rw [foldl_connect_where (fun now network => network ≠ bridge ∧ now.fs.isdir (joinName root network) = true)
    (fun network => decide (network ≠ bridge ∧ world.fs.isdir (joinName root network) = true)) _
    (fun network => (endpoints.lookup network).getD [])
    fun now same network => by rw [same, decide_eq_true_iff]]
  apply added.connectAll ((Table.lookup_insert_eq_ite _ _ _ _).trans (if_pos rfl))
  · exact fun network inside => plain network (List.mem_filter.mp inside).1
  · intro id other
    funext network
    exact if_neg fun both => other both.1
  · intro network outside user there
    apply if_neg
    intro both
    apply outside
    have isdir := (recorded.placed.isdir_eq (plain network both.2)).trans there
    exact List.mem_filter.mpr ⟨both.2, decide_eq_true ⟨userDefined_ne_bridge user, isdir⟩⟩
  · intro network inside user there
    rw [if_pos ⟨rfl, (List.mem_filter.mp inside).1⟩]
    exact filled_subset _

theorem Recorded.start (found : world.containers.lookup cid = some container)
    (plain : ∀ name ∈ container.networks, UserDefined name → world.Network root name →
      given cid name ⊆ networkAliases cid container []) :
    (world.startContainer root cid).Recorded root given := by
  rw [startContainer_eq found]
  have named : ∀ name ∈ AliasWorld.configured container, name ∈ container.networks :=
    fun name inside => AList.mem_keys.mpr (List.mem_filter.mp inside).1
  apply recorded.connectAll found
  · exact fun name inside => recorded.plain cid container found name (named name inside)
  · exact fun _ _ => rfl
  · exact fun _ _ _ _ => rfl
  · intro name inside user there
    exact plain name (named name inside) user (recorded.placed.network_iff.mpr there)

theorem Recorded.connect (found : world.containers.lookup cid = some container)
    {name : Text} (plain : PlainName name) (aliases : List Text) :
    (world.connectMetadata root cid name aliases).Recorded root fun id network =>
      if id = cid ∧ network = name then filled aliases else given id network := by
  apply @Recorded.connectAll root world cid container given _ (fun _ => aliases) [name] recorded found
  · intro network inside
    rw [List.mem_singleton.mp inside]
    exact plain
  · intro id other
    funext network
    exact if_neg fun both => other both.1
  · intro network outside _ _
    exact if_neg fun both => outside (List.mem_singleton.mpr both.2)
  · intro network inside _ _
    rw [if_pos ⟨rfl, List.mem_singleton.mp inside⟩]
    exact filled_subset _

omit recorded

end

end NetworkWorld

namespace AliasWorld

variable {root : Path} {world after : AliasWorld}

theorem recorded_step {step : AliasStep} (recorded : world.network.Recorded root world.given)
    (kept : world.Kept root step) (result : world.step root step = some after) :
    after.network.Recorded root after.given := by
  cases step with
  | hosts cid files =>
      cases result
      exact recorded
  | start cid live chosen =>
      rw [AliasWorld.step] at result
      cases live with
      | true =>
          cases result
          exact recorded
      | false =>
          rw [if_neg Bool.false_ne_true, AliasWorld.start] at result
          cases found : world.network.containers.lookup cid with
          | none =>
              rw [found] at result
              cases result
          | some container =>
              have started := recorded.start found (kept rfl container found).plain
              rw [found] at result
              dsimp only at result
              split at result
              · cases chosen <;> cases result <;> exact started
              · cases result
  | network step =>
      cases step with
      | start cid => cases result
      | createNetwork name hex =>
          cases result
          have rest := recorded.placed.createNetwork (kept.1 _ List.mem_cons_self)
          exact recorded.same ⟨rest.1, rest.2.1, fun other => by rw [rest.2.2.1 other]⟩
      | deleteNetwork path =>
          obtain ⟨network, moved, rfl⟩ := Option.map_eq_some_iff.mp result
          rw [NetworkWorld.step] at moved
          cases named : networkOf path with
          | none =>
              rw [named] at moved
              cases moved
              exact recorded
          | some both =>
              rw [named] at moved
              cases moved
              exact recorded.same (recorded.placed.removeTree_roster (kept.1 both.1 (by simp [NetworkStep.names, named])))
      | pruneNetworks =>
          cases result
          exact recorded.same recorded.placed.prune
      | createContainer cid name services endpoints mode =>
          obtain ⟨network, moved, rfl⟩ := Option.map_eq_some_iff.mp result
          rw [NetworkWorld.step] at moved
          split at moved
          · cases moved
          · cases moved
            exact recorded.create (kept.2 cid name services endpoints mode rfl)
      | connect path cid aliases =>
          obtain ⟨network, moved, rfl⟩ := Option.map_eq_some_iff.mp result
          rw [NetworkWorld.step] at moved
          dsimp only [give]
          cases named : networkOf path with
          | none =>
              rw [named] at moved
              cases moved
              exact recorded
          | some both =>
              have plain : PlainName both.1 := kept.1 both.1 (by simp [NetworkStep.names, named])
              rw [named] at moved
              dsimp only at moved ⊢
              split at moved
              · rename_i refused
                cases moved
                rw [if_pos (or_assoc.mp (.inl refused))]
                exact recorded
              rename_i accepted
              cases moved
              cases found : world.network.containers.lookup cid with
              | none =>
                  rw [if_pos (.inr (.inr rfl)), NetworkWorld.connectMetadata, found]
                  exact recorded
              | some container =>
                  rw [if_neg fun refused => (or_assoc.mpr refused).elim accepted (fun same => by cases same)]
                  exact recorded.connect found plain aliases
      | disconnect path cid =>
          obtain ⟨network, moved, rfl⟩ := Option.map_eq_some_iff.mp result
          rw [NetworkWorld.step] at moved
          cases named : networkOf path with
          | none =>
              rw [named] at moved
              cases moved
              exact recorded
          | some both =>
              rw [named] at moved
              dsimp only at moved
              split at moved
              · cases moved
                exact recorded
              · cases moved
                exact recorded.disconnect (kept.1 both.1 (by simp [NetworkStep.names, named]))
      | rename cid name =>
          cases result
          exact recorded.rename name
      | remove cid =>
          cases result
          exact recorded.remove cid

theorem start_members {cid : Text} {container : Endpoints} (recorded : world.network.Recorded root world.given)
    (found : world.network.containers.lookup cid = some container) {name : Text} (plain : PlainName name) :
    (world.network.startContainer root cid).others root cid name = world.network.others root cid name ∧
      ((∃ member ∈ (world.network.startContainer root cid).members root name, member.id = cid) ↔
        (∃ member ∈ world.network.members root name, member.id = cid) ∨
          name ∈ configured container ∧ world.network.fs.isDirAt (root ++ [name]) = true) := by
  obtain ⟨placed, rosters, -⟩ := recorded.placed.connectAll found (fun _ => []) (configured container)
    fun other inside => recorded.plain cid container found other (AList.mem_keys.mpr (List.mem_filter.mp inside).1)
  rw [NetworkWorld.startContainer_eq found, NetworkWorld.others, NetworkWorld.others, placed.members_eq plain,
    recorded.placed.members_eq plain, rosters]
  by_cases joins : name ∈ configured container ∧ world.network.fs.isDirAt (root ++ [name]) = true
  · rw [if_pos joins]
    refine ⟨filter_putMember (NetworkWorld.memberOf cid container []) _, NetworkWorld.exists_mem_putMember.trans ?_⟩
    exact ⟨fun _ => .inr joins, fun _ => .inl rfl⟩
  · rw [if_neg joins]
    exact ⟨rfl, (or_iff_left joins).symm⟩

theorem startable_all {cid : Text} {chosen : Option Text} {container : Endpoints}
    (recorded : world.network.Recorded root world.given) (found : world.network.containers.lookup cid = some container)
    (startable : world.Startable root cid chosen container)
    (same : after.network = world.network.startContainer root cid) (host : Text) :
    (∃ member ∈ world.chosenOthers root cid chosen, host ∈ hostNames member) ↔
      ∃ name, after.Joined root cid name ∧ ∃ member ∈ after.network.others root cid name, host ∈ hostNames member := by
  rw [startable.all host]
  apply exists_congr
  intro name
  have fs : after.network.fs = world.network.fs := by
    rw [same, NetworkWorld.startContainer_eq found, NetworkWorld.connectAll_fs]
  by_cases network : UserDefined name ∧ world.network.Network root name
  · obtain ⟨others, members⟩ := start_members recorded found network.2.1
    have listed : name ∈ configured container ↔ name ∈ container.networks := by
      rw [configured, List.mem_filter, AList.mem_keys, decide_eq_true_iff]
      exact and_iff_left (NetworkWorld.userDefined_ne_bridge network.1)
    have directory := recorded.placed.network_iff.mp network.2
    have there : after.network.Network root name := ⟨network.2.1, fs ▸ network.2.2⟩
    rw [same] at there
    rw [Joined, Joined, same, others, members, listed, and_iff_left directory]
    simp only [network.1, network.2, there, true_and]
  · have neither : ¬ (world.Joined root cid name ∨ UserDefined name ∧ world.network.Network root name ∧ name ∈ container.networks) :=
      fun either => either.elim (fun joined => network ⟨joined.1, joined.2.1⟩) fun joined => network ⟨joined.1, joined.2.1⟩
    have nor : ¬ after.Joined root cid name := by
      intro joined
      apply network
      refine ⟨joined.1, joined.2.1.1, ?_⟩
      rw [← fs]
      exact joined.2.1.2
    exact iff_of_false (fun both => neither both.1) fun both => nor both.1

theorem inject_view {files : HostsFiles} {others : List Member}
    (alone : others = [] → generatedNames files.view = [])
    (orderly : others ≠ [] → (∀ member ∈ others, ∀ name ∈ hostNames member, HostWord name) ∧
      Arranged (files.target.getD []) ∧ (files.target = none → outsideLines (files.below.getD []) = [])) :
    (∀ host, host ∈ generatedNames (HostsFiles.view ⟨injectNetworkHosts others files.target, files.below⟩) ↔
      ∃ member ∈ others, host ∈ hostNames member) ∧
      (outsideLines files.view).Sublist
        (outsideLines (HostsFiles.view ⟨injectNetworkHosts others files.target, files.below⟩)) := by
  by_cases empty : others = []
  · rw [injectNetworkHosts, if_pos empty, alone empty]
    refine ⟨fun host => iff_of_false List.not_mem_nil fun some_other => ?_, .refl _⟩
    obtain ⟨member, inside, -⟩ := some_other
    rw [empty] at inside
    cases inside
  obtain ⟨words, ordered, below⟩ := orderly empty
  obtain ⟨after, injected, names, outside⟩ := injectNetworkHosts_arranged empty words ordered
  rw [injected]
  refine ⟨names, ?_⟩
  cases target : files.target with
  | none =>
      rw [HostsFiles.view, target, Option.none_or, below target]
      exact List.nil_sublist _
  | some text =>
      rw [HostsFiles.view, target, Option.some_or, ← target]
      exact outside

theorem started {cid : Text} {chosen : Option Text} (recorded : world.network.Recorded root world.given)
    (startable : ∀ container, world.network.containers.lookup cid = some container → world.Startable root cid chosen container)
    (result : world.start root cid chosen = some after) : world.Started root after cid chosen := by
  rw [start] at result
  cases found : world.network.containers.lookup cid with
  | none =>
      rw [found] at result
      cases result
  | some container =>
      have ready := startable container found
      rw [found] at result
      dsimp only at result
      split at result
      · rename_i chooses
        cases chosen with
        | none =>
            cases result
            refine ⟨fun host => ?_, .refl _, nofun⟩
            rw [← startable_all recorded found ready rfl, ready.alone rfl]
            refine iff_of_false List.not_mem_nil fun some_other => ?_
            obtain ⟨_, inside, _⟩ := some_other
            cases inside
        | some name =>
            cases result
            have plain : PlainName name := by
              rcases chooses with inside | ⟨-, inside, -⟩
              · exact recorded.plain cid container found name (AList.mem_keys.mpr (List.mem_filter.mp inside).1)
              · rw [NetworkWorld.startContainer_eq found, NetworkWorld.connectAll_fs,
                  FS.listdir_of_isDirAt recorded.placed.directory] at inside
                exact FS.plainName_of_mem_names inside
            have others : (world.network.startContainer root cid).others root cid name =
                world.chosenOthers root cid (some name) := (start_members recorded found plain).1
            obtain ⟨names, outside⟩ := inject_view ready.alone ready.orderly
            refine ⟨fun host => ?_, ?_, ?_⟩
            · rw [← startable_all recorded found ready rfl]
              dsimp only
              rw [Function.update_self, others]
              exact names host
            · dsimp only
              rw [Function.update_self, others]
              exact outside
            intro _ same
            cases same
            dsimp only
            rw [Function.update_self]
            exact injectNetworkHosts_idem _ _
      · cases result

section

private def alone : AliasWorld := { network := noNetworks }

private theorem alone_recorded : alone.network.Recorded netRoot alone.given where
  placed := noNetworks_placed
  plain cid container found := by cases found
  single name := .nil
  aliased name user member inside := by cases inside

private def makeDb : AliasStep := .network (.createNetwork "db".toList .none)

private def join (cid name : String) (aliases : List String) : AliasStep :=
  .network (.createContainer cid.toList name.toList [] [("db".toList, aliases.map String.toList)] [])

private def startIn (cid : String) : AliasStep := .start cid.toList false (some "db".toList)

private def aliasesOf (world : AliasWorld) : List (List Text) :=
  (world.network.members netRoot "db".toList).map Member.aliases

private def anyAliasStep : AliasWorld → AliasStep → Bool := fun _ _ => true

private theorem reaches_alone (steps : List AliasStep) {last : AliasWorld}
    (result : runAll (AliasWorld.step netRoot) anyAliasStep alone steps = some last) :
    Reaches (AliasWorld.step netRoot) (fun _ _ => True) alone last :=
  reaches_of_runAll (fun _ _ _ => trivial) steps .refl result

private def lacks (world : AliasWorld) : Bool :=
  world.network.fs.isdir (joinName netRoot "db".toList) &&
    (world.network.members netRoot "db".toList).any fun member =>
      (world.given member.id "db".toList).any fun value => decide (value ∉ member.aliases)

private theorem not_aliased {world : AliasWorld} (lacking : lacks world = true) : ¬ world.Aliased netRoot := by
  intro aliased
  obtain ⟨there, some_member⟩ := Bool.and_eq_true_iff.mp lacking
  obtain ⟨member, inside, some_value⟩ := List.any_eq_true.mp some_member
  obtain ⟨value, given, missing⟩ := List.any_eq_true.mp some_value
  exact of_decide_eq_true missing
    (aliased "db".toList (by decide) ⟨by decide, there⟩ member inside given)

private def stale (cid host : String) (world : AliasWorld) : Bool :=
  decide (host.toList ∈ generatedNames (world.hosts cid.toList).view) &&
    world.network.rosters.entries.all fun entry => entry.2.all fun member => decide (member.id = cid.toList)

private theorem not_started {cid host : String} {before world : AliasWorld} {chosen : Option Text}
    (left : stale cid host world = true) : ¬ before.Started netRoot world cid.toList chosen := by
  intro started
  obtain ⟨mapped, own⟩ := Bool.and_eq_true_iff.mp left
  obtain ⟨name, -, member, inside, -⟩ := (started.exact _).mp (of_decide_eq_true mapped)
  obtain ⟨listed, other⟩ := List.mem_filter.mp inside
  rw [NetworkWorld.members] at listed
  split at listed
  · rename_i path located
    cases found : world.network.rosters.lookup path with
    | none =>
        rw [found] at listed
        cases listed
    | some roster =>
        rw [found] at listed
        have entry := List.all_eq_true.mp own ⟨path, roster⟩ (AList.mem_lookup_iff.mp found)
        have same := List.all_eq_true.mp entry member listed
        exact of_decide_eq_true other (of_decide_eq_true same)
  · cases listed

end

end AliasWorld

end PDocker.Engine
