import PDocker.Data.Transition
import PDocker.Storage.Volumes

/-!
# Named objects stay in their store

Nothing checks the names. The ones that lead, component by component, along
the way to their store or through what the engine owns in it, and end below
it, only ever touch what is there; a container may put links into the data of
its volumes, so a name must not lead through these.
-/

set_option autoImplicit false

namespace PDocker.Storage

open Data Posix

/-- A directory of named objects, and the names in an object below which
everything belongs to containers. -/
structure NamedStore where
  root : Path
  foreign : List Name

namespace NamedStore

def Owned (store : NamedStore) (path : Path) : Prop :=
  store.root <+: path ∧ ∀ name ∈ (path.drop store.root.length).tail, name ∉ store.foreign

instance (store : NamedStore) : DecidablePred store.Owned :=
  fun _ => inferInstanceAs (Decidable (_ ∧ _))

def Known (store : NamedStore) (path : Path) : Prop :=
  path <+: store.root ∨ Below store.root path ∧ store.Owned path.dropLast

/-- No link on the way to the store or among the names that the engine makes. -/
structure Laid (store : NamedStore) (fs : FS) : Prop where
  directory : fs.isDirAt store.root = true
  noLink : ∀ path, store.Owned path → ∀ name, fs.isSymlinkAt (path ++ [name]) = false

/-- The name leads along the way to the store or through what the engine owns, and ends
below the store. -/
structure Safe (store : NamedStore) (name : Text) : Prop where
  stays : ∀ first ∈ (joinName store.root name).inits,
    place first <+: store.root ∨ store.Owned (place first)
  below : Below store.root (place (joinName store.root name))

variable {store : NamedStore} {fs : FS}

variable {path : Path}

theorem Owned.known (owned : store.Owned path) : store.Known path := by
  by_cases top : store.root = path
  · exact .inl (top ▸ List.prefix_refl _)
  obtain ⟨rest, rfl⟩ := owned.1
  rcases List.eq_nil_or_concat rest with rfl | ⟨above, name, rfl⟩
  · exact absurd (List.append_nil _).symm top
  rw [List.concat_eq_append] at owned top ⊢
  refine .inr ⟨⟨owned.1, top⟩, ?_⟩
  rw [← List.append_assoc, List.dropLast_concat]
  refine ⟨List.prefix_append _ _, fun other member => ?_⟩
  apply owned.2 other
  rw [List.drop_left] at member ⊢
  cases above with
  | nil => cases member
  | cons head tail => exact List.mem_append_left _ member

theorem Owned.child (owned : store.Owned path) (name : Name) :
    store.Known (path ++ [name]) ∧ Below store.root (path ++ [name]) := by
  have below : Below store.root (path ++ [name]) := below_append_singleton.mpr owned.1
  refine ⟨.inr ⟨below, ?_⟩, below⟩
  rwa [List.dropLast_concat]

theorem Laid.notLink (laid : store.Laid fs) (known : store.Known path) :
    fs.isSymlinkAt path = false := by
  cases known with
  | inl above => exact FS.isSymlinkAt_of_isDirAt laid.directory above
  | inr inside =>
      have nonempty : path ≠ [] := by
        intro root
        rw [root] at inside
        exact inside.1.2 (List.prefix_nil.mp inside.1.1)
      rw [← List.dropLast_concat_getLast nonempty]
      exact laid.noLink _ inside.2 _

theorem Laid.plain (laid : store.Laid fs) : ∀ name ∈ store.root, PlainName name :=
  (FS.straight_of_isDirAt laid.directory).plain

theorem Safe.owned {name : Text} (safe : store.Safe name) :
    store.Owned (place (joinName store.root name)) := by
  cases safe.stays _ ((List.mem_inits _ _).mpr (List.prefix_refl _)) with
  | inr owned => exact owned
  | inl above => exact absurd (safe.below.1.eq_of_length_le above.length_le) safe.below.2

theorem Safe.onWay {name : Text} (safe : store.Safe name) (laid : store.Laid fs) :
    FS.OnWay fs store.Known (Below store.root) (joinName store.root name) where
  noLink _ known := laid.notLink known
  stays first below := by
    cases safe.stays first ((List.mem_inits _ _).mpr below) with
    | inl above => exact .inl above
    | inr owned => exact owned.known
  missing first below gone := by
    have present : ∀ path, path <+: store.root → fs.get path ≠ none := by
      intro path above missing
      have directory := FS.isDirAt_above laid.directory above
      rw [FS.isDirAt_eq_false_of_get_none missing] at directory
      cases directory
    cases safe.stays first ((List.mem_inits _ _).mpr below) with
    | inl above => exact absurd gone (present _ above)
    | inr owned =>
        refine ⟨owned.1, fun top => ?_⟩
        exact present _ (List.prefix_refl _) (top ▸ gone)

theorem Safe.onWay_child {name : Text} (safe : store.Safe name) (laid : store.Laid fs) {child : Name}
    (plain : PlainName child) :
    FS.OnWay fs store.Known (Below store.root) (joinName store.root name ++ [child]) := by
  have onWay := safe.onWay laid
  have last := safe.owned.child child
  refine ⟨onWay.noLink, fun first below => ?_, fun first below gone => ?_⟩
  · rcases List.prefix_concat_iff.mp below with whole | shorter
    · rw [whole, place_concat_plain plain]
      exact last.1
    · exact onWay.stays first shorter
  · rcases List.prefix_concat_iff.mp below with whole | shorter
    · rw [whole, place_concat_plain plain]
      exact last.2
    · exact onWay.missing first shorter gone

theorem Laid.safe_of_plain (laid : store.Laid fs) {name : Text} (plain : PlainName name) :
    store.Safe name := by
  have whole : place (store.root ++ [name]) = store.root ++ [name] := by
    rw [place_concat_plain plain, place_of_plain laid.plain]
  constructor
  · intro first member
    rw [joinName_of_plain plain, List.mem_inits] at member
    rcases List.prefix_concat_iff.mp member with all | above
    · right
      rw [all, whole]
      refine ⟨List.prefix_append _ _, fun other later => ?_⟩
      rw [List.drop_left] at later
      cases later
    · left
      rwa [place_of_plain fun other inside => laid.plain other (above.subset inside)]
  · rw [joinName_of_plain plain, whole]
    exact below_append_singleton.mpr (List.prefix_refl _)

theorem plain_nameOr {stem : String} {hex : Hex} (plain : PlainName stem.toList)
    (long : 2 < stem.toList.length) : PlainName (nameOr stem hex []) := by
  have slash : '/' ∉ hex.digits := by
    intro member
    have digit := List.all_eq_true.mp hex.hex _ member
    revert digit
    decide
  have size : 2 < (nameOr stem hex []).length := by
    rw [nameOr, if_pos rfl, List.length_append]
    omega
  refine ⟨?_, ?_, ?_, ?_⟩
  · intro same
    rw [same] at size
    cases size
  · intro same
    rw [same] at size
    exact absurd size (by decide)
  · intro same
    rw [same] at size
    exact absurd size (by decide)
  · rw [nameOr, if_pos rfl, List.mem_append, not_or]
    exact ⟨plain.2.2.2, slash⟩

end NamedStore

/-- Names are made and removed strictly below `root` only, and no link is made. -/
structure Within (root : Path) (before after : FS) : Prop where
  outside : ∀ path, ¬ Below root path → after.get path = before.get path
  noLink : ∀ path, before.isSymlinkAt path = false → after.isSymlinkAt path = false

namespace Within

variable {root : Path} {first second third : FS}

theorem refl (root : Path) (fs : FS) : Within root fs fs :=
  ⟨fun _ _ => rfl, fun _ notLink => notLink⟩

theorem trans (left : Within root first second) (right : Within root second third) :
    Within root first third :=
  ⟨fun path free => (right.outside path free).trans (left.outside path free),
    fun path notLink => right.noLink path (left.noLink path notLink)⟩

theorem of_grown (grown : Grown (Below root) first second) : Within root first second :=
  ⟨fun _ free => grown.get_eq free, fun _ notLink => grown.isSymlinkAt notLink⟩

theorem of_shrunk {top : Path} (shrunk : Shrunk top first second) (below : Below root top) :
    Within root first second where
  outside path free := shrunk.outside path fun inside => free (below.extend inside)
  noLink path notLink := by
    cases shrunk.inside path with
    | inl gone => exact FS.isSymlinkAt_of_get_none gone
    | inr same => simpa only [FS.isSymlinkAt, same] using notLink

end Within

theorem NamedStore.Laid.of_within {store : NamedStore} {root : Path} {first second : FS}
    (laid : store.Laid first) (within : Within root first second)
    (apart : ¬ Below root store.root) : store.Laid second where
  directory := by
    rw [FS.isDirAt, within.outside _ apart]
    exact laid.directory
  noLink path owned name := within.noLink _ (laid.noLink path owned name)

section
variable {store : NamedStore} {fs : FS} {name : Text}

theorem stripDots_onWay {raw : List Name} (onWay : FS.OnWay fs store.Known (Below store.root) raw) :
    FS.OnWay fs store.Known (Below store.root) (stripDots raw) where
  noLink := onWay.noLink
  stays first below := by
    obtain ⟨longer, inside, same⟩ := exists_prefix_of_stripDots below
    exact same ▸ onWay.stays longer inside
  missing first below := by
    obtain ⟨longer, inside, same⟩ := exists_prefix_of_stripDots below
    exact same ▸ onWay.missing longer inside

variable {record : Text → List UInt8}

variable (safe : store.Safe name)

include safe

theorem ensureVolume_within
    (laid : store.Laid fs) : Within store.root fs (ensureVolume store.root record fs name).1 := by
  have data := safe.onWay_child laid (by decide : PlainName dataName)
  have note := safe.onWay_child laid (by decide : PlainName metaName)
  have grown : Grown (Below store.root) fs (if fs.isdir (joinName store.root name) then (fs, true)
        else fs.makedirs (stripDots (joinName store.root name ++ [dataName]))).1 := by
    split
    · exact .refl _ _
    · exact (stripDots_onWay data).makedirs
  apply Within.of_grown
  unfold ensureVolume
  dsimp only
  generalize (if fs.isdir (joinName store.root name) then (fs, true)
    else fs.makedirs (stripDots (joinName store.root name ++ [dataName]))) = made at grown ⊢
  by_cases done : made.2 = true
  · rw [if_pos done]
    by_cases noted : made.1.pathExists (joinName store.root name ++ [metaName]) = true
    · rwa [if_pos noted]
    · rw [if_neg noted]
      exact grown.trans (note.of_grown grown).writeFile
  · rwa [if_neg done]

theorem deleteVolume_within {containers : List HostConfig} {force : Bool} (laid : store.Laid fs) :
    Within store.root fs (deleteVolume store.root containers name force fs) := by
  have removed := Within.of_shrunk (safe.onWay laid).rmtree safe.below
  unfold deleteVolume
  dsimp only
  by_cases present : fs.isdir (joinName store.root name) = true
  · rw [if_pos present]
    split
    · exact .refl _ _
    · exact removed
  · rw [if_neg present]
    exact .refl _ _

theorem createNetwork_within
    (laid : store.Laid fs) : Within store.root fs (createNetwork store.root record name fs) := by
  have members := safe.onWay_child laid (by decide : PlainName membersName)
  have note := safe.onWay_child laid (by decide : PlainName metaName)
  have grown := (stripDots_onWay (safe.onWay laid)).makedirs
  apply Within.of_grown
  unfold createNetwork
  dsimp only
  generalize fs.makedirs (stripDots (joinName store.root name)) = made at grown ⊢
  by_cases done : made.2 = true
  · rw [if_pos done]
    by_cases listed : made.1.pathExists (joinName store.root name ++ [membersName]) = true
    · rw [if_pos listed]
      exact grown.trans (note.of_grown grown).writeFile
    rw [if_neg listed]
    have written := grown.trans (@FS.OnWay.writeFile _ _ _ _ "[]".toUTF8.toList (members.of_grown grown))
    cases wrote : made.1.writeFile (joinName store.root name ++ [membersName]) "[]".toUTF8.toList with
    | none => exact grown
    | some listed =>
        rw [wrote, Option.getD_some] at written
        exact written.trans (note.of_grown written).writeFile
  · rwa [if_neg done]

theorem deleteNetwork_within (laid : store.Laid fs) :
    Within store.root fs (deleteNetwork store.root name fs) :=
  Within.of_shrunk (safe.onWay laid).rmtree safe.below

theorem connectNetwork_within {members : List UInt8}
    (laid : store.Laid fs) : Within store.root fs (connectNetwork store.root members name fs) := by
  unfold connectNetwork
  dsimp only
  split
  · exact .of_grown (safe.onWay_child laid (by decide : PlainName membersName)).writeFile
  · exact .refl _ _

omit safe

theorem effectiveBinds_within {fresh : Nat → Hex} {config : HostConfig}
    (safe : ∀ name, ∀ bind, (some name, bind) ∈ bindEntries store.root fresh config → store.Safe name)
    (laid : store.Laid fs) :
    Within store.root fs (effectiveBinds store.root record fresh config fs).1 := by
  suffices loop : ∀ entries : List (Option Text × Bind), (∀ name bind, (some name, bind) ∈ entries → store.Safe name) →
      ∀ now : FS × Option (List Bind), store.Laid now.1 →
        Within store.root now.1 (entries.foldl (ensureBind store.root record) now).1 from
    loop _ safe (fs, some []) laid
  intro entries
  induction entries with
  | nil => exact fun _ now _ => .refl _ now.1
  | cons entry entries ih =>
      intro safe now laid
      have step : Within store.root now.1 (ensureBind store.root record now entry).1 := by
        unfold ensureBind
        split
        · exact .refl _ _
        · exact .refl _ _
        rename_i name _ named
        have member : (some name, entry.2) ∈ entry :: entries := by
          rw [← named]
          exact List.mem_cons_self
        exact ensureVolume_within (safe name entry.2 member) laid
      have rest := ih (fun name bind member => safe name bind (List.mem_cons_of_mem _ member))
        (ensureBind store.root record now entry) (laid.of_within step fun below => below.2 rfl)
      exact step.trans rest

end

/-! ## Requests -/

/-- The requests that name a volume or a network, and the resolution of binds. -/
inductive Request where
  | createVolume (name : Text) (hex : Hex)
  | deleteVolume (path : Text) (force : Bool)
  | createNetwork (name : Text) (hex : Hex)
  | deleteNetwork (path : Text)
  | connectNetwork (path : Text) (members : List UInt8)
  | resolveBinds (config : HostConfig) (fresh : Nat → Hex)

structure Disk where
  fs : FS
  containers : List HostConfig

/-- `VOLUMES_DIR`. The directory `_data` of a volume belongs to the containers. -/
def volumesStore (home : Path) : NamedStore := ⟨home ++ ["volumes".toList], [dataName]⟩

def networksStore (home : Path) : NamedStore := ⟨home ++ ["networks".toList], []⟩

def Request.names (home : Path) : Request → NamedStore × List Text
  | .createVolume name hex => (volumesStore home, [nameOr "vol_" hex name])
  | .deleteVolume path _ => (volumesStore home, (volumeOf path).toList)
  | .createNetwork name hex => (networksStore home, [nameOr "net_" hex name])
  | .deleteNetwork path | .connectNetwork path _ =>
      (networksStore home, ((networkOf path).map Prod.fst).toList)
  | .resolveBinds config fresh =>
      (volumesStore home, (bindEntries (volumesStore home).root fresh config).filterMap Prod.fst)

def Disk.serve (home : Path) (record : Text → List UInt8) (disk : Disk) : Request → FS
  | .createVolume name hex =>
      (ensureVolume (volumesStore home).root record disk.fs (nameOr "vol_" hex name)).1
  | .deleteVolume path force =>
      match volumeOf path with
      | some name => deleteVolume (volumesStore home).root disk.containers name force disk.fs
      | none => disk.fs
  | .createNetwork name hex =>
      createNetwork (networksStore home).root record (nameOr "net_" hex name) disk.fs
  | .deleteNetwork path =>
      match networkOf path with
      | some (name, _) => deleteNetwork (networksStore home).root name disk.fs
      | none => disk.fs
  | .connectNetwork path members =>
      match networkOf path with
      | some (name, verb) =>
          if verb = "/connect".toList then
            connectNetwork (networksStore home).root members name disk.fs
          else disk.fs
      | none => disk.fs
  | .resolveBinds config fresh =>
      (effectiveBinds (volumesStore home).root record fresh config disk.fs).1

inductive DiskStep where
  | request (request : Request)
  | elsewhere (after : Disk)

def Disk.step (home : Path) (record : Text → List UInt8) (disk : Disk) : DiskStep → Option Disk
  | .request request => some { disk with fs := disk.serve home record request }
  | .elsewhere after => some after

structure Disk.Laid (home : Path) (disk : Disk) : Prop where
  volumes : (volumesStore home).Laid disk.fs
  networks : (networksStore home).Laid disk.fs

def Request.Safe (home : Path) (request : Request) : Prop :=
  ∀ name ∈ (request.names home).2, (request.names home).1.Safe name

structure Careful (home : Path) (disk : Disk) (step : DiskStep) : Prop where
  safe : ∀ request, step = .request request → request.Safe home
  laid : ∀ after, step = .elsewhere after → after.Laid home

/-- Entries appear and disappear strictly below the store of the request only. -/
def StaysIn (home : Path) (record : Text → List UInt8) (disk : Disk) (request : Request) : Prop :=
  ∀ path, (disk.serve home record request).get path ≠ disk.fs.get path →
    Below (request.names home).1.root path

theorem serve_within {home : Path} {record : Text → List UInt8} {disk : Disk} {request : Request}
    (laid : disk.Laid home) (safe : request.Safe home) :
    Within (request.names home).1.root disk.fs (disk.serve home record request) := by
  cases request with
  | createVolume name hex => exact ensureVolume_within (safe _ List.mem_cons_self) laid.volumes
  | deleteVolume path force =>
      cases named : volumeOf path with
      | none =>
          simp only [Disk.serve, named]
          exact .refl _ _
      | some name =>
          simp only [Disk.serve, named]
          have member : name ∈ ((Request.deleteVolume path force).names home).2 := by
            simp [Request.names, named]
          exact deleteVolume_within (safe name member) laid.volumes
  | createNetwork name hex => exact createNetwork_within (safe _ List.mem_cons_self) laid.networks
  | deleteNetwork path =>
      cases named : networkOf path with
      | none =>
          simp only [Disk.serve, named]
          exact .refl _ _
      | some found =>
          simp only [Disk.serve, named]
          have member : found.1 ∈ ((Request.deleteNetwork path).names home).2 := by
            simp [Request.names, named]
          exact deleteNetwork_within (safe found.1 member) laid.networks
  | connectNetwork path members =>
      cases named : networkOf path with
      | none =>
          simp only [Disk.serve, named]
          exact .refl _ _
      | some found =>
          simp only [Disk.serve, named]
          have member : found.1 ∈ ((Request.connectNetwork path members).names home).2 := by
            simp [Request.names, named]
          split
          · exact connectNetwork_within (safe found.1 member) laid.networks
          · exact .refl _ _
  | resolveBinds config fresh =>
      apply effectiveBinds_within _ laid.volumes
      intro name bind member
      exact safe name (List.mem_filterMap.mpr ⟨_, member, rfl⟩)

theorem stores_apart (home : Path) : ¬ Below (networksStore home).root (volumesStore home).root ∧
      ¬ Below (volumesStore home).root (networksStore home).root := by
  have same : (networksStore home).root.length = (volumesStore home).root.length := by
    simp [networksStore, volumesStore]
  constructor
  · exact fun below => below.2 (below.1.eq_of_length same)
  · exact fun below => below.2 (below.1.eq_of_length same.symm)

variable {disk : Disk} {home : Path} {request : Request}

theorem laid_serve {record : Text → List UInt8} (laid : disk.Laid home) (safe : request.Safe home) :
    Disk.Laid home { disk with fs := disk.serve home record request } := by
  have within := @serve_within home record disk request laid safe
  have store : (request.names home).1 = volumesStore home ∨
      (request.names home).1 = networksStore home := by
    cases request <;> simp [Request.names]
  rcases store with volumes | networks
  · rw [volumes] at within
    exact ⟨laid.volumes.of_within within fun below => below.2 rfl,
      laid.networks.of_within within (stores_apart home).2⟩
  · rw [networks] at within
    exact ⟨laid.volumes.of_within within (stores_apart home).1,
      laid.networks.of_within within fun below => below.2 rfl⟩

theorem Request.safe_of_plain (laid : disk.Laid home) (plain : ∀ name ∈ (request.names home).2, PlainName name) :
    request.Safe home := by
  intro name member
  have single := plain name member
  cases request with
  | createVolume | deleteVolume | resolveBinds => exact laid.volumes.safe_of_plain single
  | createNetwork | deleteNetwork | connectNetwork => exact laid.networks.safe_of_plain single

/-- In every run of requests with safe names, whatever else happens outside the names of the
engine, each request stays in its store. -/
theorem names_stay {home : Path} {record : Text → List UInt8} {first last : Disk} {request : Request}
    (start : first.Laid home) (reaches : Reaches (Disk.step home record) (Careful home) first last)
    (careful : Careful home last (.request request)) : StaysIn home record last request := by
  have laid : last.Laid home := by
    refine reaches.invariant (Disk.Laid home) start fun disk step next laid careful result => ?_
    cases step with
    | request other =>
        cases result
        exact laid_serve laid (careful.safe other rfl)
    | elsewhere after =>
        cases result
        exact careful.laid _ rfl
  intro path changed
  by_contra outside
  exact changed ((serve_within laid (careful.safe request rfl)).outside path outside)

section
variable {fs : FS}

private theorem laid_of_table {store : NamedStore} (directory : fs.isDirAt store.root = true)
    (rows : ∀ row ∈ fs.table, row.2.isSymlink = true → ¬ store.Owned row.1.dropLast) :
    store.Laid fs where
  directory := directory
  noLink path owned name := by
    rw [Bool.eq_false_iff]
    intro link
    obtain ⟨target, found⟩ := FS.isSymlinkAt_iff.mp link
    apply rows _ (FS.mem_table_of_get found) rfl
    rwa [List.dropLast_concat]

private def linkedDisk : Disk where
  fs := .populate [.dir (pathOf "p/networks"), .dir (pathOf "p/volumes/db/_data"),
    .symlink (pathOf "p/volumes/db/_data/l") ⟨true, pathOf "etc"⟩, .dir (pathOf "etc"),
    .file (pathOf "p/images") []]
  containers := []

private theorem linkedDisk_laid : linkedDisk.Laid (pathOf "p") where
  volumes := laid_of_table (by decide +kernel) (by decide +kernel)
  networks := laid_of_table (by decide +kernel) (by decide +kernel)

private def emptyRecord : Text → List UInt8 := fun _ => []

theorem names_stay_fresh :
    StaysIn (pathOf "p") emptyRecord linkedDisk (.createVolume [] ⟨"0f".toList, rfl⟩) := by
  have plain : PlainName (nameOr "vol_" ⟨"0f".toList, rfl⟩ []) :=
    NamedStore.plain_nameOr (by decide) (by decide)
  have careful : Careful (pathOf "p") linkedDisk (.request (.createVolume [] ⟨"0f".toList, rfl⟩)) := by
    refine ⟨?_, nofun⟩
    rintro request ⟨⟩
    apply Request.safe_of_plain linkedDisk_laid
    intro name member
    rw [List.mem_singleton.mp member]
    exact plain
  exact names_stay linkedDisk_laid .refl careful

/-- `DELETE /volumes/..` removes what lies next to the volumes, a network is created next to
the networks, and a volume is created through a link in the data of another one. -/
theorem names_escape :
    ¬ StaysIn (pathOf "p") emptyRecord linkedDisk (.deleteVolume "/volumes/..".toList false) ∧
    ¬ StaysIn (pathOf "p") emptyRecord linkedDisk (.createNetwork "../n".toList .none) ∧
    ¬ StaysIn (pathOf "p") emptyRecord linkedDisk (.createVolume "db/_data/l/x".toList .none) := by
  refine ⟨fun stays => ?_, fun stays => ?_, fun stays => ?_⟩
  · exact absurd (stays (pathOf "p/images") (by decide +kernel)) (by decide +kernel)
  · exact absurd (stays (pathOf "p/n") (by decide +kernel)) (by decide +kernel)
  · exact absurd (stays (pathOf "etc/x") (by decide +kernel)) (by decide +kernel)

end

end PDocker.Storage
