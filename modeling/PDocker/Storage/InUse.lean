import PDocker.Storage.Volumes

/-!
# Volumes in use

The binds of a container are resolved from its configuration whenever they are
needed, and a volume may go when no configuration spells its name. The two
read the same strings in different ways.
-/

set_option autoImplicit false

namespace PDocker.Storage

open Data Posix

/-- The runtime cuts a bind string at its first colon. -/
def cutColon : List Name → List Name
  | [] => []
  | name :: rest => if ':' ∈ name then [firstPart ':' name] else name :: cutColon rest

/-- What `_effective_binds` returns when it returns. -/
def resolvedBinds (volumes : Path) (fresh : Nat → Hex) (config : HostConfig) : List Bind :=
  (bindEntries volumes fresh config).map Prod.snd

def Stable (volumes : Path) (config : HostConfig) : Prop :=
  ∀ fresh fresh' : Nat → Hex, (resolvedBinds volumes fresh config).map Bind.host =
    (resolvedBinds volumes fresh' config).map Bind.host

def Mount.Anonymous (mount : Mount) : Prop :=
  mount.type = "volume".toList ∧ mount.target ≠ [] ∧ mount.source = []

variable {mount : Mount}

theorem mountBind_eq {volumes : Path} (named : ¬ mount.Anonymous) (hex hex' : Hex) :
    mountBind volumes hex mount = mountBind volumes hex' mount := by
  unfold mountBind
  by_cases target : mount.target = []
  · rw [if_pos target, if_pos target]
  rw [if_neg target, if_neg target]
  by_cases bind : mount.type = "bind".toList
  · rw [if_pos bind, if_pos bind]
  rw [if_neg bind, if_neg bind]
  by_cases volume : mount.type = "volume".toList
  · have source : mount.source ≠ [] := fun empty => named ⟨volume, target, empty⟩
    rw [nameOr, nameOr, if_neg source, if_neg source]
  · rw [if_neg volume, if_neg volume]

private def lowest : Hex := ⟨"0".toList, rfl⟩
private def highest : Hex := ⟨"f".toList, rfl⟩

theorem mountBind_differs {volumes : Path} (anonymous : mount.Anonymous) :
    ∃ left right, mountBind volumes lowest mount = some left ∧
      mountBind volumes highest mount = some right ∧ left.2.host ≠ right.2.host := by
  obtain ⟨volume, target, empty⟩ := anonymous
  have other : mount.type ≠ "bind".toList := by
    rw [volume]
    decide
  have shape : ∀ hex, mountBind volumes hex mount = some (some (nameOr "anon_" hex []),
      ⟨volumeMountpoint volumes (nameOr "anon_" hex []), mount.target, mount.readOnly⟩) := by
    intro hex
    simp only [mountBind, if_neg target, if_neg other, if_pos volume, empty]
  refine ⟨_, _, shape lowest, shape highest, fun same => ?_⟩
  have names := List.append_inj_left' same rfl
  have left : joinName volumes (nameOr "anon_" lowest []) = volumes ++ ["anon_0".toList] := rfl
  have right : joinName volumes (nameOr "anon_" highest []) = volumes ++ ["anon_f".toList] := rfl
  rw [left, right] at names
  exact absurd (List.append_cancel_left names) (by decide)

theorem stable_iff {volumes : Path} {config : HostConfig} :
    Stable volumes config ↔ ∀ mount ∈ config.mounts, ¬ mount.Anonymous := by
  constructor
  · intro stable
    have same := stable (fun _ => lowest) (fun _ => highest)
    simp only [resolvedBinds, bindEntries, List.map_append, List.append_cancel_left_eq,
      List.map_map] at same
    revert same
    generalize config.mounts = mounts
    induction mounts with
    | nil =>
        intro _ mount member
        cases member
    | cons first rest ih =>
        intro same mount member
        simp only [mountEntries, List.map_append] at same
        have apart : ¬ first.Anonymous := by
          intro anonymous
          obtain ⟨left, right, low, high, differ⟩ := mountBind_differs anonymous
          rw [low, high] at same
          exact differ (List.cons.inj same).1
        rw [mountBind_eq apart lowest highest, List.append_cancel_left_eq] at same
        rcases List.mem_cons.mp member with here | later
        · rwa [here]
        · exact ih same mount later
  · intro named fresh fresh'
    have mounts : ∀ (mounts : List Mount) (fresh fresh' : Nat → Hex),
        (∀ mount ∈ mounts, ¬ mount.Anonymous) →
          mountEntries volumes fresh mounts = mountEntries volumes fresh' mounts := by
      intro mounts
      induction mounts with
      | nil => exact fun _ _ _ => rfl
      | cons first rest ih =>
          intro fresh fresh' named
          rw [mountEntries, mountEntries, mountBind_eq (named first List.mem_cons_self) _ (fresh' 0),
            ih _ (fun index => fresh' (index + 1))
              fun mount member => named mount (List.mem_cons_of_mem _ member)]
    simp only [resolvedBinds, bindEntries, mounts config.mounts fresh fresh' named]

/-- `POST /volumes/prune`, and `DELETE /volumes/{name}` without `force`. -/
inductive Sweep where
  | prune
  | delete (name : Text)

def Sweep.run (volumes : Path) (containers : List HostConfig) (fs : FS) : Sweep → FS
  | .prune => pruneVolumes volumes containers fs
  | .delete name => deleteVolume volumes containers name false fs

def Sweep.names (volumes : Path) (fs : FS) : Sweep → List Text
  | .prune => (fs.listdir volumes).getD []
  | .delete name => [name]

/-- The directory that `rmtree` would remove. -/
def target (fs : FS) (raw : List Name) : Option Path :=
  if fs.isdir raw = true then (fs.namei raw false).filter fs.isDirAt else none

def removals (volumes : Path) (containers : List HostConfig) : FS → List Text → List Path
  | _, [] => []
  | fs, name :: rest =>
      (if volumeRefcount containers name = 0 then (target fs (joinName volumes name)).toList else []) ++
        removals volumes containers (pruneVolume volumes containers fs name) rest

section
variable {volumes : Path} {containers : List HostConfig} {fs : FS}

theorem deleteVolume_eq (name : Text) :
    deleteVolume volumes containers name false fs = pruneVolume volumes containers fs name := by
  unfold deleteVolume pruneVolume
  dsimp only
  by_cases present : fs.isdir (joinName volumes name) = true
  · by_cases unused : volumeRefcount containers name = 0
    · simp [present, unused]
    · simp [present, unused, Nat.pos_of_ne_zero unused]
  · simp [present]

theorem Sweep.run_eq (sweep : Sweep) : sweep.run volumes containers fs =
    (sweep.names volumes fs).foldl (pruneVolume volumes containers) fs := by
  cases sweep with
  | prune => rfl
  | delete name => exact deleteVolume_eq name

variable {name : Text} {path top : Path}

theorem pruneVolume_get (free : ∀ top, volumeRefcount containers name = 0 →
      target fs (joinName volumes name) = some top → ¬ top <+: path) :
    (pruneVolume volumes containers fs name).get path = fs.get path := by
  unfold pruneVolume
  dsimp only
  split
  · rename_i removed
    unfold FS.rmtree
    cases located : fs.namei (joinName volumes name) false with
    | none => rfl
    | some top =>
        dsimp only
        split
        · rename_i directory
          have found : target fs (joinName volumes name) = some top := by
            simp [target, removed.1, located, directory]
          have inside : FS.LocatedIn top fs (joinName volumes name) := by
            intro other walk _
            rw [located] at walk
            cases walk
            exact List.prefix_refl _
          have shrunk := FS.shrunk_rmtree inside
          simp only [FS.rmtree, located, directory, ↓reduceIte] at shrunk
          exact shrunk.outside path (free top removed.2 found)
        · rfl
  · rfl

theorem foldl_pruneVolume_get (names : List Text)
    (free : ∀ top ∈ removals volumes containers fs names, ¬ top <+: path) :
    (names.foldl (pruneVolume volumes containers) fs).get path = fs.get path := by
  induction names generalizing fs with
  | nil => rfl
  | cons name rest ih =>
      rw [List.foldl_cons, ih fun top member => free top (List.mem_append_right _ member)]
      apply pruneVolume_get
      intro top unused found
      apply free top
      rw [removals, if_pos unused, found]
      exact List.mem_cons_self

theorem target_child (directory : fs.isDirAt volumes = true)
    (plain : PlainName name) : target fs (joinName volumes name) = some top ↔
      top = volumes ++ [name] ∧ fs.isDirAt top = true := by
  rw [joinName_of_plain plain, target]
  cases child : fs.isDirAt (volumes ++ [name]) with
  | true =>
      rw [if_pos (FS.isdir_of_isDirAt child), FS.namei_dir child, Option.filter_some, if_pos child]
      constructor
      · intro same
        cases same
        exact ⟨rfl, child⟩
      · intro shape
        rw [shape.1]
  | false =>
      have none : (fs.namei (volumes ++ [name]) false).filter fs.isDirAt = none := by
        rw [FS.namei_child directory plain, Option.filter_some, child]
        rfl
      constructor
      · intro found
        split at found
        · rw [none] at found
          cases found
        · cases found
      · intro shape
        rw [shape.1, child] at shape
        cases shape.2

theorem mem_removals {names : List Text} (directory : fs.isDirAt volumes = true)
    (plain : ∀ name ∈ names, PlainName name) (nodup : names.Nodup) :
    top ∈ removals volumes containers fs names ↔ ∃ name ∈ names,
      volumeRefcount containers name = 0 ∧ top = volumes ++ [name] ∧ fs.isDirAt top = true := by
  induction names generalizing fs with
  | nil => simp [removals]
  | cons name rest ih =>
      have single := plain name List.mem_cons_self
      have other := List.nodup_cons.mp nodup
      have same : ∀ path, ¬ volumes ++ [name] <+: path →
          (pruneVolume volumes containers fs name).get path = fs.get path := by
        intro path away
        apply pruneVolume_get
        intro top _ found
        rw [((target_child directory single).mp found).1]
        exact away
      have above : ¬ volumes ++ [name] <+: volumes := by
        intro inside
        have length := inside.length_le
        rw [List.length_append, List.length_singleton] at length
        omega
      have still : (pruneVolume volumes containers fs name).isDirAt volumes = true := by
        rw [FS.isDirAt, same volumes above]
        exact directory
      have later : ∀ found ∈ rest, (pruneVolume volumes containers fs name).isDirAt (volumes ++ [found]) =
          fs.isDirAt (volumes ++ [found]) := by
        intro found member
        rw [FS.isDirAt, FS.isDirAt, same]
        intro inside
        have equal := List.append_cancel_left (inside.eq_of_length (by simp))
        exact other.1 ((List.cons.inj equal).1 ▸ member)
      rw [removals, List.mem_append, ih still (fun found member => plain found
        (List.mem_cons_of_mem _ member)) other.2]
      constructor
      · intro removed
        cases removed with
        | inl here =>
            split at here
            · rename_i unused
              have found := (target_child directory single).mp (Option.mem_toList.mp here)
              exact ⟨name, List.mem_cons_self, unused, found⟩
            · cases here
        | inr there =>
            obtain ⟨found, member, unused, shape, dir⟩ := there
            refine ⟨found, List.mem_cons_of_mem _ member, unused, shape, ?_⟩
            rw [shape] at dir ⊢
            rwa [later found member] at dir
      · intro removed
        obtain ⟨found, member, unused, shape, dir⟩ := removed
        rcases List.mem_cons.mp member with here | there
        · subst here
          left
          rw [if_pos unused, Option.mem_toList]
          exact (target_child directory single).mpr ⟨shape, dir⟩
        · right
          refine ⟨found, there, unused, shape, ?_⟩
          rw [shape] at dir ⊢
          rwa [later found there]

end

/-! ## Containers and the volumes they use -/

def InUse (volumes : Path) (containers : List HostConfig) (fs : FS) (path : Path) : Prop :=
  ∃ config ∈ containers, ∃ fresh, ∃ bind ∈ resolvedBinds volumes fresh config,
    fs.namei (cutColon bind.host) true = some path ∧ fs.isDirAt path = true

/-- Resolution is stable, and no directory in use is removed or lies in a removed one. -/
structure Survive (volumes : Path) (containers : List HostConfig) (fs : FS) (sweep : Sweep) :
    Prop where
  stable : ∀ config ∈ containers, Stable volumes config
  spared : ∀ path, InUse volumes containers fs path →
    ∀ top ∈ removals volumes containers fs (sweep.names volumes fs), ¬ top <+: path
  there : ∀ path, InUse volumes containers fs path →
    (sweep.run volumes containers fs).isDirAt path = true

inductive MountedAt (volumes : Path) (config : HostConfig) : List Name → Prop where
  | path {spec source target : Text} {flags : List Text} (member : spec ∈ config.binds)
      (parts : splitParts ':' spec = source :: target :: flags) (filled : target ≠ [])
      (absolute : source.head? = some '/') : MountedAt volumes config (splitSlash source)
  | volume {spec source target : Text} {flags : List Text} (member : spec ∈ config.binds)
      (parts : splitParts ':' spec = source :: target :: flags) (filled : target ≠ [])
      (named : source ≠ []) (relative : source.head? ≠ some '/') :
      MountedAt volumes config (volumeMountpoint volumes source)
  | pathMount {mount : Mount} (member : mount ∈ config.mounts) (kind : mount.type = "bind".toList)
      (filled : mount.target ≠ []) (named : mount.source ≠ []) :
      MountedAt volumes config (splitSlash mount.source)
  | volumeMount {mount : Mount} (member : mount ∈ config.mounts)
      (kind : mount.type = "volume".toList) (filled : mount.target ≠ []) (named : mount.source ≠ []) :
      MountedAt volumes config (volumeMountpoint volumes mount.source)

/-- A bind up to its first colon, or the source of a volume mount, is exactly the name. -/
def Spells (config : HostConfig) (name : Text) : Prop :=
  (∃ spec ∈ config.binds, firstPart ':' spec = name) ∨
    ∃ mount ∈ config.mounts, mount.type = "volume".toList ∧ mount.source = name

def Sweep.Asks (volumes : Path) (fs : FS) (name : Text) (top : Path) : Sweep → Prop
  | .prune => top = volumes ++ [name] ∧ fs.isDirAt top = true
  | .delete asked => name = asked ∧ target fs (joinName volumes asked) = some top

/-- No volume is anonymous, and wherever a container has a bind at or below the directory
that is asked for, some container spells the name that is asked for. -/
structure Accounted (volumes : Path) (containers : List HostConfig) (fs : FS) (sweep : Sweep) :
    Prop where
  named : ∀ config ∈ containers, ∀ mount ∈ config.mounts, ¬ mount.Anonymous
  spelled : ∀ name top, sweep.Asks volumes fs name top → ∀ config ∈ containers, ∀ raw,
    MountedAt volumes config raw → ∀ path, fs.namei (cutColon raw) true = some path →
      fs.isDirAt path = true → top <+: path → ∃ user ∈ containers, Spells user name

section
variable {volumes : Path} {containers : List HostConfig} {fs : FS} {config : HostConfig}

theorem volumeRefcount_eq_zero {name : Text} :
    volumeRefcount containers name = 0 ↔ ¬ ∃ user ∈ containers, Spells user name := by
  have spells : ∀ user : HostConfig, user.mentions name = true ↔ Spells user name := by
    intro user
    simp [HostConfig.mentions, Spells]
  simp [volumeRefcount, List.countP_eq_zero, spells]

theorem mem_removals_iff {sweep : Sweep} {top : Path} (directory : fs.isDirAt volumes = true) :
    top ∈ removals volumes containers fs (sweep.names volumes fs) ↔
      ∃ name, sweep.Asks volumes fs name top ∧ volumeRefcount containers name = 0 := by
  cases sweep with
  | delete asked =>
      simp only [Sweep.names, Sweep.Asks, removals, List.append_nil]
      constructor
      · intro removed
        split at removed
        · rename_i unused
          exact ⟨asked, ⟨rfl, Option.mem_toList.mp removed⟩, unused⟩
        · cases removed
      · intro removed
        obtain ⟨name, ⟨rfl, found⟩, unused⟩ := removed
        rw [if_pos unused]
        exact Option.mem_toList.mpr found
  | prune =>
      simp only [Sweep.names, Sweep.Asks, FS.listdir_of_isDirAt directory, Option.getD_some]
      rw [mem_removals directory (fun name member => FS.plainName_of_mem_names member)
        (FS.nodup_names fs volumes)]
      constructor
      · intro removed
        obtain ⟨name, _, unused, found⟩ := removed
        exact ⟨name, found, unused⟩
      intro removed
      obtain ⟨name, found, unused⟩ := removed
      refine ⟨name, FS.mem_names.mpr ?_, unused, found⟩
      obtain ⟨mode, present⟩ := FS.isDirAt_iff.mp found.2
      rw [← found.1, present]
      exact Option.some_ne_none _

variable {entry : Option Text × Bind} {hex : Hex} {mount : Mount} {mounts : List Mount}

theorem legacyBind_mountedAt {spec : Text} (member : spec ∈ config.binds)
    (resolved : legacyBind volumes spec = some entry) : MountedAt volumes config entry.2.host := by
  unfold legacyBind at resolved
  split at resolved
  · rename_i source target flags parts
    dsimp only at resolved
    split at resolved
    · cases resolved
    rename_i filled
    rw [not_or] at filled
    split at resolved
    · rename_i absolute
      cases resolved
      exact .path member parts filled.2 absolute
    · rename_i relative
      cases resolved
      exact .volume member parts filled.2 filled.1 relative
  · cases resolved

theorem mountBind_mountedAt (member : mount ∈ config.mounts) (named : ¬ mount.Anonymous)
    (resolved : mountBind volumes hex mount = some entry) :
    MountedAt volumes config entry.2.host := by
  unfold mountBind at resolved
  split at resolved
  · cases resolved
  rename_i filled
  split at resolved
  · rename_i kind
    split at resolved
    · cases resolved
    · rename_i source
      cases resolved
      exact .pathMount member kind filled source
  · split at resolved
    · rename_i kind
      have source : mount.source ≠ [] := fun empty => named ⟨kind, filled, empty⟩
      rw [nameOr, if_neg source] at resolved
      cases resolved
      exact .volumeMount member kind filled source
    · cases resolved

theorem mem_mountEntries {fresh : Nat → Hex} (member : entry ∈ mountEntries volumes fresh mounts) :
    ∃ mount ∈ mounts, ∃ hex, mountBind volumes hex mount = some entry := by
  induction mounts generalizing fresh with
  | nil => cases member
  | cons mount rest ih =>
      rcases List.mem_append.mp member with here | later
      · exact ⟨mount, List.mem_cons_self, fresh 0, Option.mem_toList.mp here⟩
      · obtain ⟨found, inside, hex, resolved⟩ := ih later
        exact ⟨found, List.mem_cons_of_mem _ inside, hex, resolved⟩

theorem mountEntries_of_mountBind (member : mount ∈ mounts) (resolved : mountBind volumes hex mount = some entry) :
    entry ∈ mountEntries volumes (fun _ => hex) mounts := by
  induction mounts with
  | nil => cases member
  | cons first rest ih =>
      rw [mountEntries, List.mem_append]
      rcases List.mem_cons.mp member with here | later
      · left
        rw [← here, resolved]
        exact List.mem_cons_self
      · exact .inr (ih later)

theorem resolved_of_entry {hex : Hex} {entry : Option Text × Bind}
    (listed : entry ∈ bindEntries volumes (fun _ => hex) config) :
    ∃ fresh, ∃ bind ∈ resolvedBinds volumes fresh config, bind.host = entry.2.host :=
  ⟨fun _ => hex, entry.2, List.mem_map_of_mem listed, rfl⟩

theorem MountedAt.resolved {raw : List Name} (mounted : MountedAt volumes config raw) :
    ∃ fresh, ∃ bind ∈ resolvedBinds volumes fresh config, bind.host = raw := by
  cases mounted with
  | @path spec source target flags member parts filled absolute =>
      have named : source ≠ [] := by
        intro empty
        rw [empty] at absolute
        cases absolute
      have result : legacyBind volumes spec = some (none,
          ⟨splitSlash source, target, decide ("ro".toList ∈ flags)⟩) := by
        simp only [legacyBind, parts, named, filled, or_self, ↓reduceIte, absolute]
      exact @resolved_of_entry volumes config lowest _
        (List.mem_append_left _ (List.mem_filterMap.mpr ⟨spec, member, result⟩))
  | @volume spec source target flags member parts filled named relative =>
      have result : legacyBind volumes spec = some (some source,
          ⟨volumeMountpoint volumes source, target, decide ("ro".toList ∈ flags)⟩) := by
        simp only [legacyBind, parts, named, filled, or_self, ↓reduceIte, relative]
      exact @resolved_of_entry volumes config lowest _
        (List.mem_append_left _ (List.mem_filterMap.mpr ⟨spec, member, result⟩))
  | @pathMount mount member kind filled named =>
      have result : mountBind volumes lowest mount = some (none,
          ⟨splitSlash mount.source, mount.target, mount.readOnly⟩) := by
        simp only [mountBind, if_neg filled, if_pos kind, if_neg named]
      exact @resolved_of_entry volumes config lowest _
        (List.mem_append_right _ (mountEntries_of_mountBind member result))
  | @volumeMount mount member kind filled named =>
      have other : mount.type ≠ "bind".toList := by
        rw [kind]
        decide
      have result : mountBind volumes lowest mount = some (some mount.source,
          ⟨volumeMountpoint volumes mount.source, mount.target, mount.readOnly⟩) := by
        simp only [mountBind, if_neg filled, if_neg other, if_pos kind, nameOr, if_neg named]
      exact @resolved_of_entry volumes config lowest _
        (List.mem_append_right _ (mountEntries_of_mountBind member result))

theorem mountedAt_iff {raw : List Name} (named : ∀ mount ∈ config.mounts, ¬ mount.Anonymous) :
    MountedAt volumes config raw ↔
      ∃ fresh, ∃ bind ∈ resolvedBinds volumes fresh config, bind.host = raw := by
  constructor
  · exact MountedAt.resolved
  intro resolved
  obtain ⟨fresh, bind, member, rfl⟩ := resolved
  obtain ⟨entry, listed, rfl⟩ := List.mem_map.mp member
  rcases List.mem_append.mp listed with legacy | mount
  · obtain ⟨spec, inside, result⟩ := List.mem_filterMap.mp legacy
    exact legacyBind_mountedAt inside result
  · obtain ⟨mount, inside, hex, result⟩ := mem_mountEntries mount
    exact mountBind_mountedAt inside (named mount inside) result

end

section

private def volumesTree : FS :=
  .populate [.dir (pathOf "v/a/_data"), .dir (pathOf "v/a/b/_data"), .dir (pathOf "v/c/_data")]

private def bindOf (text : String) : HostConfig := ⟨[text.toList], []⟩

private def unnamed : HostConfig := ⟨[], [⟨"volume".toList, [], "/x".toList, false⟩]⟩

private theorem not_survive (config : HostConfig) (sweep : Sweep) (path : Path)
    (used : ∃ bind ∈ resolvedBinds (pathOf "v") (fun _ => lowest) config,
      volumesTree.namei (cutColon bind.host) true = some path ∧ volumesTree.isDirAt path = true)
    (gone : (sweep.run (pathOf "v") [config] volumesTree).isDirAt path = false) :
    ¬ Survive (pathOf "v") [config] volumesTree sweep := by
  intro survive
  obtain ⟨bind, listed, found⟩ := used
  have there := survive.there path ⟨_, List.mem_cons_self, _, bind, listed, found⟩
  rw [gone] at there
  cases there

end

end PDocker.Storage
