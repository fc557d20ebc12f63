import PDocker.Engine.Networks
import PDocker.Posix.Walk
import PDocker.Storage.Confinement

/-!
# Network membership

The two records of membership agree as long as no network goes while a
container is in it, no container is created into a network that is not there,
and no container is renamed while it is in a network.
-/

set_option autoImplicit false

namespace PDocker.Engine

open Data Posix Storage
open State (bridge stripSlashes)

def UserDefined (name : Text) : Prop :=
  name ∉ ["default".toList, bridge, "host".toList, "none".toList]

instance : DecidablePred UserDefined := fun _ => inferInstanceAs (Decidable (_ ∉ _))

namespace NetworkWorld

variable (root : Path)

def Network (world : NetworkWorld) (name : Text) : Prop :=
  PlainName name ∧ world.fs.isdir (joinName root name) = true

/-- The two records of membership agree, with the names of the containers, and no
container is in a network that is not there. -/
structure Agree (world : NetworkWorld) : Prop where
  member : ∀ name, UserDefined name → world.Network root name → ∀ cid,
    (∃ member ∈ world.members root name, member.id = cid) ↔
      ∃ container, world.containers.lookup cid = some container ∧ name ∈ container.networks
  named : ∀ name, UserDefined name → world.Network root name →
    ∀ member ∈ world.members root name, ∀ container,
      world.containers.lookup member.id = some container → member.name = stripSlashes container.name
  known : ∀ cid container, world.containers.lookup cid = some container →
    ∀ name ∈ container.networks, UserDefined name → world.Network root name

/-- What `members.json` of a network holds. -/
def roster (world : NetworkWorld) (name : Text) : List Member :=
  (world.rosters.lookup (root ++ [name])).getD []

structure Placed (world : NetworkWorld) : Prop where
  directory : world.fs.isDirAt root = true
  noLink : ∀ name, world.fs.isSymlinkAt (root ++ [name]) = false
  stored : ∀ path, world.rosters.lookup path ≠ none →
    ∃ name, path = root ++ [name] ∧ world.fs.isDirAt path = true

/-- The records agree, but for one container and the networks that wait for it. -/
structure Coherent (world : NetworkWorld) (late : Text) (waiting : List Text) : Prop where
  placed : world.Placed root
  member : ∀ name, UserDefined name → world.fs.isDirAt (root ++ [name]) = true → ∀ cid,
    ¬ (cid = late ∧ name ∈ waiting) → ((∃ member ∈ world.roster root name, member.id = cid) ↔
      ∃ container, world.containers.lookup cid = some container ∧ name ∈ container.networks)
  named : ∀ name, UserDefined name → ∀ member ∈ world.roster root name, ∀ container,
    world.containers.lookup member.id = some container → member.name = stripSlashes container.name
  known : ∀ cid container, world.containers.lookup cid = some container →
    ∀ name ∈ container.networks, UserDefined name → world.fs.isDirAt (root ++ [name]) = true

variable {root}

section
variable {world : NetworkWorld} {late : Text} {waiting : List Text}

theorem plain_of_isDirAt {name : Text} (directory : world.fs.isDirAt (root ++ [name]) = true) :
    PlainName name := by
  obtain ⟨mode, found⟩ := FS.isDirAt_iff.mp directory
  exact FS.plainName_of_get found (List.mem_append_right _ List.mem_cons_self)

variable (placed : world.Placed root)

include placed

theorem Placed.isdir_eq {name : Text} (plain : PlainName name) :
    world.fs.isdir (joinName root name) = world.fs.isDirAt (root ++ [name]) := by
  rw [joinName_of_plain plain]
  exact (FS.straight_of_isDirAt placed.directory).isdir plain (placed.noLink name)

theorem Placed.network_iff {name : Text} :
    world.Network root name ↔ world.fs.isDirAt (root ++ [name]) = true := by
  constructor
  · intro network
    rw [← placed.isdir_eq network.1]
    exact network.2
  · intro directory
    have plain := plain_of_isDirAt directory
    exact ⟨plain, (placed.isdir_eq plain).trans directory⟩

theorem Placed.directory_eq {name : Text} (plain : PlainName name) : world.directory root name =
      if world.fs.isDirAt (root ++ [name]) = true then some (root ++ [name]) else none := by
  rw [NetworkWorld.directory, placed.isdir_eq plain]
  split
  · rename_i directory
    rw [joinName_of_plain plain, FS.namei_dir directory]
  · rfl

theorem Placed.roster_eq_nil {name : Text}
    (missing : world.fs.isDirAt (root ++ [name]) = false) : world.roster root name = [] := by
  have absent : world.rosters.lookup (root ++ [name]) = none := by
    by_contra present
    obtain ⟨_, _, directory⟩ := placed.stored _ present
    rw [missing] at directory
    cases directory
  rw [roster, absent]
  rfl

theorem Placed.members_eq {name : Text}
    (plain : PlainName name) : world.members root name = world.roster root name := by
  rw [NetworkWorld.members, placed.directory_eq plain]
  cases directory : world.fs.isDirAt (root ++ [name]) with
  | true => rfl
  | false => exact (placed.roster_eq_nil directory).symm

omit placed

theorem Coherent.agree (coherent : world.Coherent root late []) : world.Agree root where
  member name user network cid := by
    rw [coherent.placed.members_eq network.1]
    exact coherent.member name user (coherent.placed.network_iff.mp network) cid fun exempt => by
      cases exempt.2
  named name user network member listed container found := by
    rw [coherent.placed.members_eq network.1] at listed
    exact coherent.named name user member listed container found
  known cid container found name inside user :=
    coherent.placed.network_iff.mpr (coherent.known cid container found name inside user)

theorem Coherent.settle {name : Text} (coherent : world.Coherent root late (name :: waiting))
    (settled : UserDefined name → world.fs.isDirAt (root ++ [name]) = true →
      ((∃ member ∈ world.roster root name, member.id = late) ↔
        ∃ container, world.containers.lookup late = some container ∧ name ∈ container.networks)) :
    world.Coherent root late waiting where
  placed := coherent.placed
  member other user directory cid free := by
    by_cases exempt : cid = late ∧ other = name
    · obtain ⟨rfl, rfl⟩ := exempt
      exact settled user directory
    apply coherent.member other user directory cid
    intro both
    rcases List.mem_cons.mp both.2 with here | later
    · exact exempt ⟨both.1, here⟩
    · exact free ⟨both.1, later⟩
  named := coherent.named
  known := coherent.known

theorem Coherent.weaken (coherent : world.Coherent root late []) (other : Text) (more : List Text) :
    world.Coherent root other more :=
  { coherent with
    member := fun name user directory cid _ =>
      coherent.member name user directory cid fun exempt => by cases exempt.2 }

/-! ## Connecting -/

theorem exists_mem_putMember {member : Member} {list : List Member} {cid : Text} :
    (∃ found ∈ putMember member list, found.id = cid) ↔
      cid = member.id ∨ ∃ found ∈ list, found.id = cid := by
  induction list with
  | nil => simp [putMember, eq_comm]
  | cons first rest ih =>
      rw [putMember]
      split
      · rename_i same
        simp only [List.exists_mem_cons_iff, same]
        constructor
        · intro found
          cases found with
          | inl here => exact .inl here.symm
          | inr later => exact .inr (.inr later)
        · intro found
          rcases found with here | here | later
          · exact .inl here.symm
          · exact .inl here
          · exact .inr later
      · simp only [List.exists_mem_cons_iff, ih]
        constructor
        · intro found
          rcases found with here | here | later
          · exact .inr (.inl here)
          · exact .inl here
          · exact .inr (.inr later)
        · intro found
          rcases found with here | here | later
          · exact .inr (.inl here)
          · exact .inl here
          · exact .inr (.inr later)

theorem mem_putMember {member found : Member} {list : List Member}
    (inside : found ∈ putMember member list) : found = member ∨ found ∈ list := by
  induction list with
  | nil => exact .inl (List.mem_singleton.mp inside)
  | cons first rest ih =>
      rw [putMember] at inside
      split at inside
      · rcases List.mem_cons.mp inside with here | later
        · exact .inl here
        · exact .inr (List.mem_cons_of_mem _ later)
      rcases List.mem_cons.mp inside with here | later
      · exact .inr (here ▸ List.mem_cons_self)
      · rcases ih later with same | old
        · exact .inl same
        · exact .inr (List.mem_cons_of_mem _ old)

def memberOf (cid : Text) (container : Endpoints) (extra : List Text) : Member :=
  ⟨cid, stripSlashes container.name, networkAliases cid container extra⟩

section
variable {cid name : Text} {container : Endpoints} {extra : List Text}

theorem connectMetadata_fs : (world.connectMetadata root cid name extra).fs = world.fs := by
  unfold connectMetadata
  split <;> rfl

theorem connectMetadata_lookup (found : world.containers.lookup cid = some container) (other : Text) :
    (world.connectMetadata root cid name extra).containers.lookup other = if other = cid then
        some { container with
          networks := container.networks.insert name (networkAliases cid container extra) }
      else world.containers.lookup other := by
  rw [connectMetadata, found]
  exact Table.lookup_insert_eq_ite _ _ _ _

theorem Placed.connectMetadata_rosters (placed : world.Placed root)
    (found : world.containers.lookup cid = some container) (plain : PlainName name) (path : Path) :
    (world.connectMetadata root cid name extra).rosters.lookup path =
      if path = root ++ [name] ∧ world.fs.isDirAt path = true then
        some (putMember (memberOf cid container extra) (world.roster root name))
      else world.rosters.lookup path := by
  rw [connectMetadata, found]
  dsimp only
  rw [placed.directory_eq plain]
  cases directory : world.fs.isDirAt (root ++ [name]) with
  | false =>
      have never : ¬ (path = root ++ [name] ∧ world.fs.isDirAt path = true) := by
        intro both
        rw [both.1, directory] at both
        cases both.2
      rw [if_neg never]
      rfl
  | true =>
      simp only [↓reduceIte]
      rw [Table.lookup_insert_eq_ite]
      by_cases same : path = root ++ [name]
      · rw [if_pos same, if_pos ⟨same, same ▸ directory⟩]
        rfl
      · rw [if_neg same, if_neg fun both => same both.1]

theorem Placed.connectMetadata_roster (placed : world.Placed root)
    (found : world.containers.lookup cid = some container) (plain : PlainName name) (other : Text) :
    (world.connectMetadata root cid name extra).roster root other =
      if other = name ∧ world.fs.isDirAt (root ++ [name]) = true then
        putMember (memberOf cid container extra) (world.roster root name)
      else world.roster root other := by
  rw [roster, placed.connectMetadata_rosters found plain]
  by_cases same : other = name
  · subst same
    by_cases directory : world.fs.isDirAt (root ++ [other]) = true
    · rw [if_pos ⟨rfl, directory⟩, if_pos ⟨rfl, directory⟩]
      rfl
    · rw [if_neg fun both => directory both.2, if_neg fun both => directory both.2]
      rfl
  · have apart : ¬ (root ++ [other] = root ++ [name] ∧ world.fs.isDirAt (root ++ [other]) = true) :=
      fun both => same (List.cons.inj (List.append_cancel_left both.1)).1
    rw [if_neg apart, if_neg fun both => same both.1]
    rfl

theorem Placed.connect (placed : world.Placed root)
    (found : world.containers.lookup cid = some container) (plain : PlainName name) :
    (world.connectMetadata root cid name extra).Placed root where
  directory := by
    rw [connectMetadata_fs]
    exact placed.directory
  noLink other := by
    rw [connectMetadata_fs]
    exact placed.noLink other
  stored path present := by
    rw [placed.connectMetadata_rosters found plain] at present
    rw [connectMetadata_fs]
    split at present
    · rename_i here
      exact ⟨name, here⟩
    · exact placed.stored path present

theorem Coherent.connect (coherent : world.Coherent root cid (name :: waiting))
    (found : world.containers.lookup cid = some container) (plain : PlainName name)
    (there : UserDefined name → world.fs.isDirAt (root ++ [name]) = true) :
    (world.connectMetadata root cid name extra).Coherent root cid waiting where
  placed := coherent.placed.connect found plain
  member other user directory id free := by
    rw [connectMetadata_fs] at directory
    rw [coherent.placed.connectMetadata_roster found plain, connectMetadata_lookup found]
    by_cases same : other = name
    · subst same
      rw [if_pos ⟨rfl, directory⟩, exists_mem_putMember]
      by_cases self : id = cid
      · simp [self, memberOf]
      · have before := coherent.member other user directory id fun both => self both.1
        rw [if_neg self, ← before]
        exact ⟨fun either => either.resolve_left self, .inr⟩
    · rw [if_neg fun both => same both.1]
      have before := coherent.member other user directory id fun both => free ⟨both.1, by
        rcases List.mem_cons.mp both.2 with here | later
        · exact absurd here same
        · exact later⟩
      rw [before]
      by_cases self : id = cid
      · subst self
        simp [found, same]
      · rw [if_neg self]
  named other user member inside holder holds := by
    rw [coherent.placed.connectMetadata_roster found plain] at inside
    rw [connectMetadata_lookup found] at holds
    obtain ⟨earlier, looked, same⟩ : ∃ earlier, world.containers.lookup member.id = some earlier ∧
        stripSlashes earlier.name = stripSlashes holder.name := by
      by_cases self : member.id = cid
      · rw [if_pos self] at holds
        cases holds
        exact ⟨container, self ▸ found, rfl⟩
      · rw [if_neg self] at holds
        exact ⟨holder, holds, rfl⟩
    rw [← same]
    split at inside
    · rename_i here
      rcases mem_putMember inside with new | listed
      · subst new
        rw [memberOf, found] at looked
        cases looked
        rfl
      · exact coherent.named other user member (here.1 ▸ listed) earlier looked
    · exact coherent.named other user member inside earlier looked
  known id holder holds other inside user := by
    rw [connectMetadata_lookup found] at holds
    rw [connectMetadata_fs]
    split at holds
    · cases holds
      rcases (AList.mem_insert _).mp inside with here | before
      · exact here ▸ there (here ▸ user)
      · exact coherent.known cid container found other before user
    · exact coherent.known id holder holds other inside user

end

end

section
variable {world : NetworkWorld} {late : Text}

theorem isSome_connectMetadata {cid other name : Text} {extra : List Text}
    (present : (world.containers.lookup other).isSome = true) :
    ((world.connectMetadata root cid name extra).containers.lookup other).isSome = true := by
  cases found : world.containers.lookup cid with
  | none =>
      rw [connectMetadata, found]
      exact present
  | some container =>
      rw [connectMetadata_lookup found]
      split
      · rfl
      · exact present

def ConnectsOne (root : Path) (cid : Text) (fs : FS) (connectOne : NetworkWorld → Text → NetworkWorld)
    (name : Text) : Prop :=
  ∀ now : NetworkWorld, now.fs = fs →
    (connectOne now name = now ∧ (UserDefined name → fs.isDirAt (root ++ [name]) = false)) ∨
      ∃ extra, connectOne now name = now.connectMetadata root cid name extra ∧ PlainName name ∧
        (UserDefined name → fs.isDirAt (root ++ [name]) = true)

theorem Coherent.foldl_connect {cid : Text} (connectOne : NetworkWorld → Text → NetworkWorld)
    (names : List Text) (one : ∀ name ∈ names, ConnectsOne root cid world.fs connectOne name)
    (coherent : world.Coherent root cid names)
    (present : (world.containers.lookup cid).isSome = true) :
    (names.foldl connectOne world).Coherent root cid [] := by
  induction names generalizing world with
  | nil => exact coherent
  | cons name rest ih =>
      have later := fun other member => one other (List.mem_cons_of_mem name member)
      rw [List.foldl_cons]
      cases one name List.mem_cons_self world rfl with
      | inl skipped =>
          rw [skipped.1]
          refine ih later (coherent.settle fun user directory => ?_) present
          rw [skipped.2 user] at directory
          cases directory
      | inr connected =>
          obtain ⟨extra, shape, plain, there⟩ := connected
          obtain ⟨container, found⟩ := Option.isSome_iff_exists.mp present
          rw [shape]
          apply ih
          · rw [connectMetadata_fs]
            exact later
          · exact coherent.connect found plain there
          · exact isSome_connectMetadata present

theorem plain_of_not_userDefined {name : Text} (builtin : ¬ UserDefined name) : PlainName name := by
  have names : ∀ other ∈ ["default".toList, bridge, "host".toList, "none".toList],
      PlainName other := by decide
  exact names name (Classical.not_not.mp builtin)

theorem userDefined_ne_bridge {name : Text} (user : UserDefined name) : name ≠ bridge := by
  intro same
  rw [same] at user
  exact user (by decide)

theorem Coherent.start (coherent : world.Coherent root late []) (cid : Text) :
    (world.startContainer root cid).Coherent root late [] := by
  unfold startContainer
  split
  · exact coherent
  rename_i container found
  refine @Coherent.weaken root _ cid ?_ late []
  apply Coherent.foldl_connect _ _ _ (coherent.weaken cid _) (by rw [found]; rfl)
  intro name member now same
  have inside : name ∈ container.networks := AList.mem_keys.mpr member
  by_cases builtin : name = bridge
  · exact .inl ⟨if_neg fun other : name ≠ bridge => other builtin,
      fun user => absurd builtin (userDefined_ne_bridge user)⟩
  right
  have there := coherent.known cid container found name inside
  refine ⟨[], if_pos builtin, ?_, there⟩
  by_cases user : UserDefined name
  · exact plain_of_isDirAt (there user)
  · exact plain_of_not_userDefined user

theorem mem_foldl_insert {aliasesOf : Text → List Text} {name : Text} (names : List Text)
    (table : Table Text (List Text)) :
    name ∈ names.foldl (fun table network => table.insert network (aliasesOf network)) table ↔
      name ∈ names ∨ name ∈ table := by
  induction names generalizing table with
  | nil => simp
  | cons first rest ih =>
      rw [List.foldl_cons, ih, AList.mem_insert, List.mem_cons]
      constructor
      · intro inside
        rcases inside with later | here | old
        · exact .inl (.inr later)
        · exact .inl (.inl here)
        · exact .inr old
      · intro inside
        rcases inside with (here | later) | old
        · exact .inr (.inl here)
        · exact .inl later
        · exact .inr (.inr old)

theorem Coherent.add (coherent : world.Coherent root late []) {cid : Text} {container : Endpoints}
    {names : List Text} (fresh : world.containers.lookup cid = none)
    (networks : ∀ name, name ∈ container.networks ↔ name ∈ names)
    (there : ∀ name ∈ names, UserDefined name → world.fs.isDirAt (root ++ [name]) = true) :
    Coherent root { world with containers := world.containers.insert cid container } cid names where
  placed := ⟨coherent.placed.directory, coherent.placed.noLink, coherent.placed.stored⟩
  member name user directory id free := by
    have before := coherent.member name user directory id fun exempt => by cases exempt.2
    dsimp only
    rw [Table.lookup_insert_eq_ite]
    refine before.trans ?_
    by_cases self : id = cid
    · subst self
      have away : name ∉ container.networks := fun inside => free ⟨rfl, (networks name).mp inside⟩
      simp [fresh, away]
    · rw [if_neg self]
  named name user member inside holder holds := by
    have inside : member ∈ world.roster root name := inside
    dsimp only at holds
    rw [Table.lookup_insert_eq_ite] at holds
    split at holds
    · rename_i self
      have directory : world.fs.isDirAt (root ++ [name]) = true := by
        by_contra missing
        rw [coherent.placed.roster_eq_nil (Bool.eq_false_iff.mpr missing)] at inside
        cases inside
      obtain ⟨ghost, looked, _⟩ := (coherent.member name user directory cid fun exempt => by
        cases exempt.2).mp ⟨member, inside, self⟩
      rw [fresh] at looked
      cases looked
    · exact coherent.named name user member inside holder holds
  known id holder holds name inside user := by
    dsimp only at holds
    rw [Table.lookup_insert_eq_ite] at holds
    split at holds
    · cases holds
      exact there name ((networks name).mp inside) user
    · exact coherent.known id holder holds name inside user

theorem Coherent.create (coherent : world.Coherent root late []) {cid name mode : Text}
    {services : List Text} {endpoints : List (Text × List Text)}
    (fresh : world.containers.lookup cid = none)
    (there : ∀ network ∈ containerNetworkNames endpoints mode, UserDefined network →
      world.fs.isDirAt (root ++ [network]) = true) :
    (world.createContainer root cid name services endpoints mode).Coherent root late [] := by
  refine @Coherent.weaken root _ cid ?_ late []
  unfold createContainer
  dsimp only
  apply Coherent.foldl_connect
  · intro network member now same
    by_cases connects : network ≠ bridge ∧ now.fs.isdir (joinName root network) = true
    · right
      refine ⟨_, if_pos connects, ?_, there network member⟩
      by_cases user : UserDefined network
      · exact plain_of_isDirAt (there network member user)
      · exact plain_of_not_userDefined user
    · left
      refine ⟨if_neg connects, fun user => ?_⟩
      have directory := there network member user
      have isdir := coherent.placed.isdir_eq (plain_of_isDirAt directory)
      rw [directory] at isdir
      exact absurd ⟨userDefined_ne_bridge user, same ▸ isdir⟩ connects
  · apply coherent.add fresh _ there
    intro network
    rw [mem_foldl_insert]
    exact or_iff_left (List.not_mem_nil)
  · dsimp only
    rw [Table.lookup_insert_eq_ite, if_pos rfl]
    rfl

theorem Placed.dropMember_lookup (placed : world.Placed root) {cid name : Text}
    (plain : PlainName name) (path : Path) :
    (world.dropMember root cid name).lookup path = if path = root ++ [name] then
        (world.rosters.lookup path).map (List.filter fun member => member.id ≠ cid)
      else world.rosters.lookup path := by
  rw [dropMember, placed.directory_eq plain]
  by_cases same : path = root ++ [name]
  · subst same
    rw [if_pos rfl]
    cases found : world.rosters.lookup (root ++ [name]) with
    | none =>
        split
        · rename_i other located
          split at located
          · cases located
            rw [found]
            exact found
          · cases located
        · exact found
    | some roster =>
        obtain ⟨_, _, directory⟩ := placed.stored (root ++ [name]) (by simp [found])
        rw [if_pos directory]
        simp [found]
  · rw [if_neg same]
    split
    · rename_i other located
      split at located
      · cases located
        split
        · rw [Table.lookup_insert_eq_ite, if_neg same]
        · rfl
      · cases located
    · rfl

theorem roster_of_lookup {after : NetworkWorld} {name : Text} {keep : Member → Bool}
    (shape : after.rosters.lookup (root ++ [name]) =
      (world.rosters.lookup (root ++ [name])).map (List.filter keep)) :
    after.roster root name = (world.roster root name).filter keep := by
  rw [roster, roster, shape]
  cases world.rosters.lookup (root ++ [name]) <;> rfl

theorem append_singleton_inj {name other : Text} : root ++ [other] = root ++ [name] ↔ other = name := by
  simp

theorem Placed.disconnect (placed : world.Placed root) {cid name : Text} (plain : PlainName name) :
    (world.disconnectMetadata root cid name).Placed root := by
  unfold disconnectMetadata
  split
  · exact placed
  refine ⟨placed.directory, placed.noLink, fun path present => ?_⟩
  apply placed.stored path
  intro absent
  apply present
  dsimp only
  rw [placed.dropMember_lookup plain, absent]
  split <;> rfl

theorem Placed.disconnect_roster (placed : world.Placed root) {cid name : Text} {container : Endpoints}
    (found : world.containers.lookup cid = some container) (plain : PlainName name) (other : Text) :
    (world.disconnectMetadata root cid name).roster root other =
      if other = name then (world.roster root other).filter (fun member => member.id ≠ cid)
      else world.roster root other := by
  rw [disconnectMetadata, found]
  have dropped := @Placed.dropMember_lookup root world placed cid name plain
  by_cases same : other = name
  · rw [if_pos same]
    apply roster_of_lookup
    rw [dropped, if_pos (append_singleton_inj.mpr same)]
  · rw [if_neg same, roster, dropped, if_neg fun equal => same (append_singleton_inj.mp equal)]
    rfl

theorem Coherent.disconnect (coherent : world.Coherent root late []) {cid name : Text}
    (plain : PlainName name) : (world.disconnectMetadata root cid name).Coherent root late [] := by
  have placed := @Placed.disconnect root world coherent.placed cid name plain
  cases found : world.containers.lookup cid with
  | none =>
      rw [disconnectMetadata, found]
      exact coherent
  | some container =>
    have rosters := coherent.placed.disconnect_roster found plain
    rw [disconnectMetadata, found] at placed rosters ⊢
    refine ⟨placed, ?_, ?_, ?_⟩
    · intro other user directory id free
      have before := coherent.member other user directory id fun exempt => by cases exempt.2
      rw [rosters]
      dsimp only
      rw [Table.lookup_insert_eq_ite]
      by_cases self : id = cid
      · subst self
        rw [found] at before
        by_cases same : other = name
        · simp [same]
        · rw [if_neg same, before]
          simp [AList.mem_erase, same]
      rw [if_neg self, ← before]
      split
      · simp only [List.mem_filter, decide_eq_true_eq]
        constructor
        · intro listed
          obtain ⟨member, inside, named⟩ := listed
          exact ⟨member, inside.1, named⟩
        · intro listed
          obtain ⟨member, inside, named⟩ := listed
          exact ⟨member, ⟨inside, named ▸ self⟩, named⟩
      · exact Iff.rfl
    · intro other user member inside holder holds
      have listed : member ∈ world.roster root other := by
        rw [rosters] at inside
        split at inside
        · exact (List.mem_filter.mp inside).1
        · exact inside
      dsimp only at holds
      rw [Table.lookup_insert_eq_ite] at holds
      split at holds
      · rename_i self
        cases holds
        exact coherent.named other user member listed container (self ▸ found)
      · exact coherent.named other user member listed holder holds
    · intro id holder holds other inside user
      dsimp only at holds
      rw [Table.lookup_insert_eq_ite] at holds
      split at holds
      · cases holds
        exact coherent.known cid container found other (AList.mem_erase.mp inside).2 user
      · exact coherent.known id holder holds other inside user

theorem Placed.foldl_forget (placed : world.Placed root) {cid : Text} (names : List Text)
    (plain : ∀ name ∈ names, PlainName name) :
    (names.foldl (forget root cid) world).fs = world.fs ∧
      (names.foldl (forget root cid) world).containers = world.containers ∧
      ∀ path, (names.foldl (forget root cid) world).rosters.lookup path =
        if ∃ name ∈ names, path = root ++ [name] then
          (world.rosters.lookup path).map (List.filter fun member => member.id ≠ cid)
        else world.rosters.lookup path := by
  induction names generalizing world with
  | nil => simp
  | cons name rest ih =>
      have dropped := @Placed.dropMember_lookup root world placed cid name (plain name List.mem_cons_self)
      have next : (forget root cid world name).Placed root := by
        refine ⟨placed.directory, placed.noLink, fun path present => ?_⟩
        apply placed.stored path
        intro absent
        apply present
        rw [forget, dropped, absent]
        split <;> rfl
      obtain ⟨fs, containers, lookup⟩ := ih next fun other member =>
        plain other (List.mem_cons_of_mem _ member)
      rw [List.foldl_cons]
      refine ⟨fs, containers, fun path => ?_⟩
      rw [lookup path, forget, dropped path]
      by_cases here : path = root ++ [name]
      · have all : ∃ other ∈ name :: rest, path = root ++ [other] := ⟨name, List.mem_cons_self, here⟩
        rw [if_pos here, if_pos all]
        cases world.rosters.lookup path with
        | none => simp
        | some roster =>
            split
            · simp
            · rfl
      · rw [if_neg here]
        by_cases later : ∃ name ∈ rest, path = root ++ [name]
        · rw [if_pos later, if_pos]
          obtain ⟨other, member, same⟩ := later
          exact ⟨other, List.mem_cons_of_mem _ member, same⟩
        rw [if_neg later, if_neg]
        intro all
        obtain ⟨other, member, same⟩ := all
        rcases List.mem_cons.mp member with first | further
        · exact here (first ▸ same)
        · exact later ⟨other, further, same⟩

theorem Placed.forgotten (placed : world.Placed root) (cid : Text) :
    let after := ((world.fs.listdir root).getD []).foldl (forget root cid) world
    after.Placed root ∧ after.fs = world.fs ∧ after.containers = world.containers ∧
      ∀ name, after.roster root name = (world.roster root name).filter fun member => member.id ≠ cid := by
  rw [FS.listdir_of_isDirAt placed.directory, Option.getD_some]
  have forgotten := @Placed.foldl_forget root world placed cid (world.fs.names root)
    fun name member => FS.plainName_of_mem_names member
  generalize (world.fs.names root).foldl (forget root cid) world = after at forgotten ⊢
  obtain ⟨fs, containers, lookup⟩ := forgotten
  refine ⟨⟨?_, ?_, ?_⟩, fs, containers, ?_⟩
  · rw [fs]
    exact placed.directory
  · intro name
    rw [fs]
    exact placed.noLink name
  · intro path present
    rw [fs]
    apply placed.stored path
    intro absent
    apply present
    rw [lookup, absent]
    split <;> rfl
  · intro name
    by_cases directory : world.fs.isDirAt (root ++ [name]) = true
    · apply roster_of_lookup
      rw [lookup, if_pos]
      obtain ⟨mode, present⟩ := FS.isDirAt_iff.mp directory
      exact ⟨name, FS.mem_names.mpr (by simp [present]), rfl⟩
    have empty := placed.roster_eq_nil (Bool.eq_false_iff.mpr directory)
    rw [empty, roster, lookup]
    have absent : world.rosters.lookup (root ++ [name]) = none := by
      by_contra present
      obtain ⟨_, _, there⟩ := placed.stored _ present
      exact directory there
    rw [absent]
    split <;> rfl

theorem Placed.remove (placed : world.Placed root) (cid : Text) :
    (world.removeContainer root cid).Placed root ∧
      ∀ name, ((world.removeContainer root cid).roster root name).Sublist (world.roster root name) := by
  unfold removeContainer
  split
  · exact ⟨placed, fun _ => .refl _⟩
  obtain ⟨after, -, -, rosters⟩ := placed.forgotten cid
  refine ⟨⟨after.directory, after.noLink, after.stored⟩, fun name => ?_⟩
  have kept := rosters name
  rw [roster] at kept
  rw [roster]
  dsimp only
  rw [kept]
  exact List.filter_sublist

theorem Coherent.remove (coherent : world.Coherent root late []) (cid : Text) :
    (world.removeContainer root cid).Coherent root late [] := by
  unfold removeContainer
  split
  · exact coherent
  rename_i container found
  have forgotten := coherent.placed.forgotten cid
  generalize ((world.fs.listdir root).getD []).foldl (forget root cid) world = after at forgotten ⊢
  obtain ⟨placed, fs, containers, rosters⟩ := forgotten
  refine ⟨⟨placed.directory, placed.noLink, placed.stored⟩, ?_, ?_, ?_⟩
  · intro name user directory id free
    dsimp only at directory ⊢
    rw [fs] at directory
    have before := coherent.member name user directory id fun exempt => by cases exempt.2
    have roster := rosters name
    simp only [NetworkWorld.roster] at roster before ⊢
    rw [roster, containers]
    by_cases self : id = cid
    · subst self
      simp
    rw [AList.lookup_erase_ne self, ← before]
    simp only [List.mem_filter, decide_eq_true_eq]
    constructor
    · intro listed
      obtain ⟨member, inside, named⟩ := listed
      exact ⟨member, inside.1, named⟩
    · intro listed
      obtain ⟨member, inside, named⟩ := listed
      exact ⟨member, ⟨inside, named ▸ self⟩, named⟩
  · intro name user member inside holder holds
    have listed : member ∈ after.roster root name := inside
    rw [rosters] at listed
    have apart : member.id ≠ cid := by simpa using (List.mem_filter.mp listed).2
    dsimp only at holds
    rw [containers, AList.lookup_erase_ne apart] at holds
    exact coherent.named name user member (List.mem_filter.mp listed).1 holder holds
  · intro id holder holds name inside user
    dsimp only at holds ⊢
    rw [containers] at holds
    rw [fs]
    have apart : id ≠ cid := by
      intro same
      rw [same, AList.lookup_erase] at holds
      cases holds
    rw [AList.lookup_erase_ne apart] at holds
    exact coherent.known id holder holds name inside user

theorem Coherent.rename (coherent : world.Coherent root late []) {cid name : Text}
    (apart : ∀ container, world.containers.lookup cid = some container →
      stripSlashes (stripSpace name) ≠ [] →
        stripSlashes (stripSlashes (stripSpace name)) ≠ stripSlashes container.name →
          ∀ network ∈ container.networks, ¬ UserDefined network) :
    (world.renameContainer cid name).Coherent root late [] := by
  unfold renameContainer
  split
  · exact coherent
  rename_i container found
  dsimp only
  split
  · exact coherent
  rename_i filled
  refine ⟨⟨coherent.placed.directory, coherent.placed.noLink, coherent.placed.stored⟩, ?_, ?_, ?_⟩
  · intro network user directory id free
    have before := coherent.member network user directory id free
    dsimp only
    rw [Table.lookup_insert_eq_ite]
    refine before.trans ?_
    by_cases self : id = cid
    · subst self
      simp [found]
    · rw [if_neg self]
  · intro network user member inside holder holds
    have inside : member ∈ world.roster root network := inside
    dsimp only at holds
    rw [Table.lookup_insert_eq_ite] at holds
    split at holds
    · rename_i self
      cases holds
      have named := coherent.named network user member inside container (self ▸ found)
      rw [named]
      dsimp only
      by_contra differ
      have directory : world.fs.isDirAt (root ++ [network]) = true := by
        by_contra missing
        rw [coherent.placed.roster_eq_nil (Bool.eq_false_iff.mpr missing)] at inside
        cases inside
      obtain ⟨other, looked, there⟩ := (coherent.member network user directory cid fun exempt => by
        cases exempt.2).mp ⟨member, inside, self⟩
      rw [found] at looked
      cases looked
      exact apart container found filled (fun same => differ same.symm) network there user
    · exact coherent.named network user member inside holder holds
  · intro id holder holds network inside user
    dsimp only at holds
    rw [Table.lookup_insert_eq_ite] at holds
    split at holds
    · cases holds
      exact coherent.known cid container found network inside user
    · exact coherent.known id holder holds network inside user

theorem not_below_child {name other : Text} (apart : other ≠ name) :
    ¬ root ++ [name] <+: root ++ [other] := by
  intro below
  exact apart (append_singleton_inj.mp (below.eq_of_length (by simp)).symm)

theorem not_below_root {name : Text} : ¬ root ++ [name] <+: root := by
  intro below
  have length := below.length_le
  rw [List.length_append, List.length_singleton] at length
  omega

theorem Placed.removeTree (placed : world.Placed root) {name : Text} (plain : PlainName name) :
    world.removeTree root name = world ∨
      (world.removeTree root name).Placed root ∧ (world.removeTree root name).containers = world.containers ∧
        (∀ other, (world.removeTree root name).fs.isDirAt (root ++ [other]) = true ↔
          other ≠ name ∧ world.fs.isDirAt (root ++ [other]) = true) ∧
        ∀ other, (world.removeTree root name).roster root other =
          if other = name then [] else world.roster root other := by
  unfold NetworkWorld.removeTree
  rw [joinName_of_plain plain, FS.namei_child placed.directory plain]
  dsimp only
  split
  · rename_i directory
    right
    have gone := FS.get_rmtree_child plain directory
    have get : ∀ path, ¬ root ++ [name] <+: path →
        (world.fs.rmtree (root ++ [name])).get path = world.fs.get path := by
      intro path free
      rw [gone, if_neg free]
    refine ⟨⟨?_, ?_, ?_⟩, rfl, ?_, ?_⟩
    · rw [FS.isDirAt, get _ not_below_root]
      exact placed.directory
    · intro other
      by_cases same : other = name
      · subst same
        apply FS.isSymlinkAt_of_get_none
        rw [gone, if_pos (List.prefix_refl _)]
      · rw [FS.isSymlinkAt, get _ (not_below_child same)]
        exact placed.noLink other
    · intro path present
      dsimp only at present ⊢
      rw [Table.lookup_eraseWhere] at present
      split at present
      · exact absurd rfl present
      rename_i free
      obtain ⟨other, shape, there⟩ := placed.stored path present
      refine ⟨other, shape, ?_⟩
      rw [FS.isDirAt, get path (by simpa using free)]
      exact there
    · intro other
      by_cases same : other = name
      · subst same
        rw [FS.isDirAt, gone, if_pos (List.prefix_refl _)]
        simp
      · rw [FS.isDirAt, get _ (not_below_child same)]
        simp [same, FS.isDirAt]
    · intro other
      rw [roster, Table.lookup_eraseWhere]
      by_cases same : other = name
      · subst same
        simp
      · simp [not_below_child same, same, roster]
  · exact .inl rfl

theorem Placed.removeTree_roster (placed : world.Placed root) {name : Text} (plain : PlainName name) :
    (world.removeTree root name).Placed root ∧
      (world.removeTree root name).containers = world.containers ∧
      ∀ other, ((world.removeTree root name).roster root other).Sublist (world.roster root other) := by
  rcases placed.removeTree plain with same | ⟨after, containers, -, rosters⟩
  · rw [same]
    exact ⟨placed, rfl, fun _ => .refl _⟩
  refine ⟨after, containers, fun other => ?_⟩
  rw [rosters]
  split
  · exact List.nil_sublist _
  · exact .refl _

theorem Coherent.removeTree (coherent : world.Coherent root late []) {name : Text}
    (plain : PlainName name) (unused : UserDefined name → ∀ cid container,
      world.containers.lookup cid = some container → name ∉ container.networks) :
    (world.removeTree root name).Coherent root late [] := by
  rcases coherent.placed.removeTree plain with same | ⟨after, containers, still, rosters⟩
  · rw [same]
    exact coherent
  refine ⟨after, ?_, ?_, ?_⟩
  · intro other user there id free
    obtain ⟨apart, there⟩ := (still other).mp there
    rw [rosters, if_neg apart, containers]
    exact coherent.member other user there id free
  · intro other user member inside holder holds
    rw [containers] at holds
    rw [rosters] at inside
    split at inside
    · cases inside
    · exact coherent.named other user member inside holder holds
  · intro id holder holds other inside user
    rw [containers] at holds
    apply (still other).mpr
    refine ⟨fun same => ?_, coherent.known id holder holds other inside user⟩
    subst same
    exact unused user id holder holds inside

theorem Placed.prune (placed : world.Placed root) :
    (world.pruneNetworks root).Placed root ∧ (world.pruneNetworks root).containers = world.containers ∧
      ∀ other, ((world.pruneNetworks root).roster root other).Sublist (world.roster root other) := by
  unfold pruneNetworks
  rw [FS.listdir_of_isDirAt placed.directory, Option.getD_some]
  suffices loop : ∀ (names : List Text), (∀ name ∈ names, PlainName name) → ∀ now : NetworkWorld, now.Placed root →
      (names.foldl (pruneNetwork root) now).Placed root ∧
        (names.foldl (pruneNetwork root) now).containers = now.containers ∧
        ∀ other, ((names.foldl (pruneNetwork root) now).roster root other).Sublist (now.roster root other) from
    loop _ (fun name member => FS.plainName_of_mem_names member) world placed
  intro names
  induction names with
  | nil => exact fun _ now placed => ⟨placed, rfl, fun _ => .refl _⟩
  | cons name rest ih =>
      intro plains now placed
      have one : (pruneNetwork root now name).Placed root ∧ (pruneNetwork root now name).containers = now.containers ∧
          ∀ other, ((pruneNetwork root now name).roster root other).Sublist (now.roster root other) := by
        unfold pruneNetwork
        split
        · exact placed.removeTree_roster (plains name List.mem_cons_self)
        · exact ⟨placed, rfl, fun _ => .refl _⟩
      obtain ⟨after, same, fewer⟩ := ih (fun other member => plains other (List.mem_cons_of_mem _ member)) _ one.1
      exact ⟨after, same.trans one.2.1, fun other => (fewer other).trans (one.2.2 other)⟩

theorem Coherent.prune (coherent : world.Coherent root late []) :
    (world.pruneNetworks root).Coherent root late [] := by
  unfold pruneNetworks
  rw [FS.listdir_of_isDirAt coherent.placed.directory, Option.getD_some]
  suffices loop : ∀ (names : List Text), (∀ name ∈ names, PlainName name) →
      ∀ world : NetworkWorld, world.Coherent root late [] →
        (names.foldl (pruneNetwork root) world).Coherent root late [] from
    loop _ (fun name member => FS.plainName_of_mem_names member) world coherent
  intro names
  induction names with
  | nil => exact fun _ world coherent => coherent
  | cons name rest ih =>
      intro plains world coherent
      have plain := plains name List.mem_cons_self
      apply ih fun other member => plains other (List.mem_cons_of_mem _ member)
      unfold pruneNetwork
      split
      · rename_i idle
        rw [coherent.placed.isdir_eq plain, coherent.placed.members_eq plain] at idle
        apply coherent.removeTree plain
        intro user cid container found inside
        obtain ⟨member, listed, _⟩ := (coherent.member name user idle.1 cid fun exempt => by
          cases exempt.2).mpr ⟨container, found, inside⟩
        rw [idle.2] at listed
        cases listed
      · exact coherent

theorem Placed.enlarge (placed : world.Placed root) {name : Text} {fs : FS}
    {rosters : Table Path (List Member)} (directory : fs.isDirAt root = true)
    (noLink : ∀ other, fs.isSymlinkAt (root ++ [other]) = false)
    (there : ∀ other, fs.isDirAt (root ++ [other]) = true ↔
      other = name ∨ world.fs.isDirAt (root ++ [other]) = true)
    (lookup : ∀ path, rosters.lookup path =
      if path = root ++ [name] then some (world.roster root name) else world.rosters.lookup path) :
    Placed root { world with fs, rosters } ∧
      ∀ other, NetworkWorld.roster root { world with fs, rosters } other = world.roster root other := by
  refine ⟨⟨directory, noLink, ?_⟩, ?_⟩
  · intro path present
    dsimp only at present ⊢
    rw [lookup] at present
    split at present
    · rename_i here
      exact ⟨name, here, here ▸ (there name).mpr (.inl rfl)⟩
    · obtain ⟨other, shape, old⟩ := placed.stored path present
      exact ⟨other, shape, shape ▸ (there other).mpr (.inr (shape ▸ old))⟩
  · intro other
    rw [roster, lookup]
    by_cases here : other = name
    · subst here
      rw [if_pos rfl]
      rfl
    · rw [if_neg fun equal => here (append_singleton_inj.mp equal)]
      rfl

theorem Placed.createNetwork (placed : world.Placed root) {name : Text} (plain : PlainName name) :
    (world.createNetwork root name).Placed root ∧ (world.createNetwork root name).containers = world.containers ∧
      (∀ other, (world.createNetwork root name).roster root other = world.roster root other) ∧
      ∀ other, world.fs.isDirAt (root ++ [other]) = true →
        (world.createNetwork root name).fs.isDirAt (root ++ [other]) = true := by
  have top := placed.directory
  have raw : stripDots (joinName root name) = root ++ [name] := by
    rw [joinName_of_plain plain]
    apply stripDots_of_plain
    intro other member
    rcases List.mem_append.mp member with above | last
    · exact (FS.straight_of_isDirAt top).plain other above
    · rw [List.mem_singleton.mp last]
      exact plain
  have lookup : ∀ path, (if (world.rosters.lookup (root ++ [name])).isSome then world.rosters
      else world.rosters.insert (root ++ [name]) []).lookup path =
        if path = root ++ [name] then some (world.roster root name)
        else world.rosters.lookup path := by
    intro path
    cases found : world.rosters.lookup (root ++ [name]) with
    | none =>
        simp only [Option.isSome_none, Bool.false_eq_true, ↓reduceIte, roster, found, Option.getD_none]
        exact Table.lookup_insert_eq_ite _ _ _ _
    | some members =>
        simp only [Option.isSome_some, ↓reduceIte, roster, found, Option.getD_some]
        by_cases here : path = root ++ [name]
        · rw [if_pos here, here, found]
        · rw [if_neg here]
  unfold NetworkWorld.createNetwork
  rw [raw, joinName_of_plain plain]
  dsimp only
  by_cases directory : world.fs.isDirAt (root ++ [name]) = true
  · rw [FS.makedirs_of_isDirAt directory]
    simp only [↓reduceIte]
    rw [FS.namei_dir directory]
    have larger := placed.enlarge top placed.noLink (fun other => ?_) lookup
    · exact ⟨larger.1, rfl, larger.2, fun _ there => there⟩
    constructor
    · exact .inr
    intro either
    rcases either with here | old
    · exact here ▸ directory
    · exact old
  · cases free : world.fs.get (root ++ [name]) with
    | none =>
        have get := @FS.get_add world.fs root name (.dir world.fs.newDirMode) top free plain trivial
        have made : (world.fs.add root name (.dir world.fs.newDirMode)).isDirAt (root ++ [name]) =
            true := by
          rw [FS.isDirAt, get, if_pos rfl]
          rfl
        have there : ∀ other, (world.fs.add root name (.dir world.fs.newDirMode)).isDirAt (root ++ [other]) = true ↔
            other = name ∨ world.fs.isDirAt (root ++ [other]) = true := by
          intro other
          by_cases here : other = name
          · subst here
            simp [made]
          · rw [FS.isDirAt, get, if_neg fun same => here (append_singleton_inj.mp same)]
            simp [here, FS.isDirAt]
        rw [FS.makedirs_child top plain free]
        simp only [↓reduceIte]
        rw [FS.namei_dir made]
        have larger := placed.enlarge ?_ ?_ there lookup
        · exact ⟨larger.1, rfl, larger.2, fun other old => (there other).mpr (.inr old)⟩
        · rw [FS.isDirAt, get, if_neg (by simp)]
          exact top
        intro other
        by_cases here : other = name
        · rw [here]
          exact FS.isSymlinkAt_of_isDirAt made (List.prefix_refl _)
        · rw [FS.isSymlinkAt, get, if_neg fun same => here (append_singleton_inj.mp same)]
          exact placed.noLink other
    | some entry =>
        have taken : world.fs.mkdir (root ++ [name]) = none := by
          simp [FS.mkdir, FS.namei_child top plain, FS.create, free]
        have isdir := placed.isdir_eq plain
        rw [joinName_of_plain plain, Bool.eq_false_iff.mpr directory] at isdir
        have failed : world.fs.makedirs (root ++ [name]) = (world.fs, false) := by
          simp [FS.makedirs, FS.makedirsRev, FS.pathExists_of_isDirAt top, taken, isdir]
        rw [failed]
        exact ⟨placed, rfl, fun _ => rfl, fun _ there => there⟩

theorem Coherent.createNetwork (coherent : world.Coherent root late []) {name : Text}
    (plain : PlainName name) : (world.createNetwork root name).Coherent root late [] := by
  obtain ⟨placed, containers, rosters, there⟩ := coherent.placed.createNetwork plain
  refine ⟨placed, ?_, ?_, ?_⟩
  · intro other user present id free
    rw [rosters, containers]
    by_cases old : world.fs.isDirAt (root ++ [other]) = true
    · exact coherent.member other user old id free
    rw [coherent.placed.roster_eq_nil (Bool.eq_false_iff.mpr old)]
    constructor
    · intro listed
      obtain ⟨_, inside, _⟩ := listed
      cases inside
    · intro mentioned
      obtain ⟨container, found, inside⟩ := mentioned
      exact absurd (coherent.known id container found other inside user) old
  · intro other user member inside holder holds
    rw [rosters] at inside
    rw [containers] at holds
    exact coherent.named other user member inside holder holds
  · intro id container found other inside user
    rw [containers] at found
    exact there other (coherent.known id container found other inside user)

end

end NetworkWorld

/-! ## Runs -/

def NetworkStep.names : NetworkStep → List Text
  | .createNetwork name hex => [nameOr "net_" hex name]
  | .deleteNetwork path | .connect path _ _ | .disconnect path _ =>
      ((networkOf path).map Prod.fst).toList
  | .pruneNetworks | .createContainer .. | .start _ | .rename .. | .remove _ => []

/-- Networks are named by single components, none goes while a container is in it, a new
container is in networks that are there, and no container in a network is renamed. -/
structure Considerate (root : Path) (world : NetworkWorld) (step : NetworkStep) : Prop where
  plain : ∀ name ∈ step.names, PlainName name
  unused : ∀ path, step = .deleteNetwork path → ∀ name ∈ step.names, UserDefined name →
    ∀ cid container, world.containers.lookup cid = some container → name ∉ container.networks
  there : ∀ cid name services endpoints mode, step = .createContainer cid name services endpoints mode →
      ∀ network ∈ containerNetworkNames endpoints mode, UserDefined network → world.Network root network
  apart : ∀ cid name, step = .rename cid name → ∀ container,
    world.containers.lookup cid = some container → stripSlashes (stripSpace name) ≠ [] →
      stripSlashes (stripSlashes (stripSpace name)) ≠ stripSlashes container.name →
        ∀ network ∈ container.networks, ¬ UserDefined network

theorem coherent_step {root : Path} {world after : NetworkWorld} {step : NetworkStep}
    (coherent : world.Coherent root [] []) (considerate : Considerate root world step)
    (result : world.step root step = some after) : after.Coherent root [] [] := by
  cases step with
  | createNetwork name hex =>
      cases result
      exact coherent.createNetwork (considerate.plain _ List.mem_cons_self)
  | deleteNetwork path =>
      simp only [NetworkWorld.step] at result
      split at result
      · rename_i name verb named
        cases result
        have member : name ∈ (NetworkStep.deleteNetwork path).names := by
          simp [NetworkStep.names, named]
        exact coherent.removeTree (considerate.plain name member)
          (considerate.unused path rfl name member)
      · cases result
        exact coherent
  | pruneNetworks =>
      cases result
      exact coherent.prune
  | createContainer cid name services endpoints mode =>
      simp only [NetworkWorld.step] at result
      split at result
      · cases result
      rename_i fresh
      cases result
      apply coherent.create (by simpa using fresh)
      intro network member user
      exact coherent.placed.network_iff.mp
        (considerate.there cid name services endpoints mode rfl network member user)
  | start cid =>
      cases result
      exact coherent.start cid
  | connect path cid aliases =>
      simp only [NetworkWorld.step] at result
      split at result
      · rename_i name verb named
        have plain : PlainName name := considerate.plain name (by simp [NetworkStep.names, named])
        split at result
        · cases result
          exact coherent
        rename_i accepted
        cases result
        cases found : world.containers.lookup cid with
        | none =>
            rw [NetworkWorld.connectMetadata, found]
            exact coherent
        | some container =>
            refine @NetworkWorld.Coherent.weaken root _ cid ?_ [] []
            apply (coherent.weaken cid [name]).connect found plain
            intro user
            rw [← coherent.placed.isdir_eq plain]
            by_contra missing
            exact accepted (.inr ⟨NetworkWorld.userDefined_ne_bridge user,
              Bool.eq_false_iff.mpr missing⟩)
      · cases result
        exact coherent
  | disconnect path cid =>
      simp only [NetworkWorld.step] at result
      split at result
      · rename_i name verb named
        split at result
        · cases result
          exact coherent
        · cases result
          exact coherent.disconnect (considerate.plain name (by simp [NetworkStep.names, named]))
      · cases result
        exact coherent
  | rename cid name =>
      cases result
      exact coherent.rename (considerate.apart cid name rfl)
  | remove cid =>
      cases result
      exact coherent.remove cid

/-- In every run of considerate steps the two records of membership agree. -/
theorem membership_agrees {root : Path} {first last : NetworkWorld} (start : first.Coherent root [] [])
    (reaches : Reaches (NetworkWorld.step root) (Considerate root) first last) : last.Agree root :=
  (reaches.invariant (fun world : NetworkWorld => world.Coherent root [] []) start
    fun _ _ _ coherent considerate result => coherent_step coherent considerate result).agree

section

def netRoot : Path := pathOf "n"

def noNetworks : NetworkWorld := ⟨.populate [.dir netRoot], ∅, ∅⟩

theorem noNetworks_placed : noNetworks.Placed netRoot := by
  refine ⟨by decide +kernel, fun name => ?_, fun path present => absurd rfl present⟩
  rw [Bool.eq_false_iff]
  intro link
  obtain ⟨target, found⟩ := FS.isSymlinkAt_iff.mp link
  have rows : ∀ row ∈ noNetworks.fs.table, row.2.isSymlink = false := by decide +kernel
  cases rows _ (FS.mem_table_of_get found)

private theorem noNetworks_coherent : noNetworks.Coherent netRoot [] [] where
  placed := noNetworks_placed
  member name user directory cid _ := by
    constructor
    · intro listed
      obtain ⟨_, inside, _⟩ := listed
      cases inside
    · intro mentioned
      obtain ⟨_, found, _⟩ := mentioned
      cases found
  named name user member inside := by cases inside
  known cid container found := by cases found

private def makeNetwork : NetworkStep := .createNetwork "db".toList .none

private def makeContainer (network : String) : NetworkStep :=
  .createContainer "c1".toList "web".toList [] [(network.toList, [])] []

theorem membership_agrees_once : ∃ last, Reaches (NetworkWorld.step netRoot) (Considerate netRoot)
    noNetworks last ∧ (last.members netRoot "db".toList).length = 1 ∧ last.Agree netRoot := by
  obtain ⟨second, made⟩ : ∃ second, noNetworks.step netRoot makeNetwork = some second := ⟨_, rfl⟩
  obtain ⟨last, added, joined⟩ := Option.map_eq_some_iff.mp
    (by decide +kernel : ((noNetworks.step netRoot makeNetwork).bind
      (·.step netRoot (makeContainer "db"))).map
        (fun last => (last.members netRoot "db".toList).length) = some 1)
  rw [made, Option.bind_some] at added
  have there : second.Network netRoot "db".toList := by
    refine ⟨by decide, ?_⟩
    have isdir : ((noNetworks.step netRoot makeNetwork).map fun second =>
        second.fs.isdir (joinName netRoot "db".toList)) = some true := by decide +kernel
    rw [made, Option.map_some, Option.some.injEq] at isdir
    exact isdir
  have first : Considerate netRoot noNetworks makeNetwork := by
    refine ⟨fun name member => ?_, nofun, nofun, nofun⟩
    rw [List.mem_singleton.mp member]
    decide
  have later : Considerate netRoot second (makeContainer "db") := by
    refine ⟨nofun, nofun, fun _ _ _ _ _ same network member _ => ?_, nofun⟩
    cases same
    rw [List.mem_singleton.mp member]
    exact there
  have reaches := Reaches.step (Reaches.step .refl first made) later added
  exact ⟨last, reaches, joined, membership_agrees noNetworks_coherent reaches⟩

private def anyNetworkStep : NetworkWorld → NetworkStep → Bool := fun _ _ => true

private theorem reaches_networks (steps : List NetworkStep) {last : NetworkWorld}
    (result : runAll (NetworkWorld.step netRoot) anyNetworkStep noNetworks steps = some last) :
    Reaches (NetworkWorld.step netRoot) (fun _ _ => True) noNetworks last :=
  reaches_of_runAll (fun _ _ _ => trivial) steps .refl result

private def mentions (network : Text) (world : NetworkWorld) : Option Bool × Bool :=
  ((world.containers.lookup "c1".toList).map fun container => decide (network ∈ container.networks),
    world.fs.isdir (joinName netRoot network))

private theorem not_agree_of_gone {network : Text} {world : NetworkWorld} (user : UserDefined network)
    (gone : mentions network world = (some true, false)) : ¬ world.Agree netRoot := by
  intro agree
  simp only [mentions, Prod.mk.injEq, Option.map_eq_some_iff, decide_eq_true_eq] at gone
  obtain ⟨⟨container, found, inside⟩, missing⟩ := gone
  have there := (agree.known _ container found network inside user).2
  rw [missing] at there
  cases there

private def namesOf (world : NetworkWorld) : List (Text × Text) × Option Text × Bool :=
  ((world.members netRoot "db".toList).map fun member => (member.id, member.name),
    (world.containers.lookup "c1".toList).map Endpoints.name,
    world.fs.isdir (joinName netRoot "db".toList))

private theorem not_agree_of_renamed {world : NetworkWorld}
    (renamed : namesOf world = ([("c1".toList, "web".toList)], some "/new".toList, true)) :
    ¬ world.Agree netRoot := by
  intro agree
  simp only [namesOf, Prod.mk.injEq, Option.map_eq_some_iff] at renamed
  obtain ⟨listed, ⟨container, found, named⟩, there⟩ := renamed
  obtain ⟨member, inside, shape⟩ := List.mem_map.mp
    (listed ▸ List.mem_cons_self : ("c1".toList, "web".toList) ∈ _)
  simp only [Prod.mk.injEq] at shape
  have same := agree.named "db".toList (by decide) ⟨by decide, there⟩ member inside container
    (shape.1 ▸ found)
  rw [shape.2, named] at same
  exact absurd same (by decide)

/-- A network goes with a container in it, a container is created into a network that is not
there, and a renamed container keeps its old name in its networks. -/
theorem membership_breaks :
    (∃ last, Reaches (NetworkWorld.step netRoot) (fun _ _ => True) noNetworks last ∧
      mentions "db".toList last = (some true, false) ∧ ¬ last.Agree netRoot) ∧
    (∃ last, Reaches (NetworkWorld.step netRoot) (fun _ _ => True) noNetworks last ∧
      mentions "gone".toList last = (some true, false) ∧ ¬ last.Agree netRoot) ∧
    (∃ last, Reaches (NetworkWorld.step netRoot) (fun _ _ => True) noNetworks last ∧
      namesOf last = ([("c1".toList, "web".toList)], some "/new".toList, true) ∧
        ¬ last.Agree netRoot) := by
  refine ⟨?_, ?_, ?_⟩
  · obtain ⟨last, moved, gone⟩ := Option.map_eq_some_iff.mp
      (by decide +kernel : (runAll (NetworkWorld.step netRoot) anyNetworkStep noNetworks
        [makeNetwork, makeContainer "db", .deleteNetwork "/networks/db".toList]).map
          (mentions "db".toList) = some (some true, false))
    exact ⟨last, reaches_networks _ moved, gone, not_agree_of_gone (by decide) gone⟩
  · obtain ⟨last, moved, gone⟩ := Option.map_eq_some_iff.mp
      (by decide +kernel : (runAll (NetworkWorld.step netRoot) anyNetworkStep noNetworks
        [makeContainer "gone"]).map (mentions "gone".toList) = some (some true, false))
    exact ⟨last, reaches_networks _ moved, gone, not_agree_of_gone (by decide) gone⟩
  · obtain ⟨last, moved, renamed⟩ := Option.map_eq_some_iff.mp
      (by decide +kernel : (runAll (NetworkWorld.step netRoot) anyNetworkStep noNetworks
        [makeNetwork, makeContainer "db", .rename "c1".toList "new".toList]).map namesOf =
          some ([("c1".toList, "web".toList)], some "/new".toList, true))
    exact ⟨last, reaches_networks _ moved, renamed, not_agree_of_renamed renamed⟩

end

end PDocker.Engine
