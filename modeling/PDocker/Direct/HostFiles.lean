import PDocker.Direct.Routes

/-!
# Host files that the tracer touches

`linkat`, `symlinkat` into the package cache and `faccessat` are carried out by the
tracer itself, on host paths that nothing checks. Every call that it makes is noted
with the tree that it finds.
-/

set_option autoImplicit false

namespace PDocker.Direct

open Data (Text contains)
open Posix

def EEXIST : Nat := 17
def EFAULT : Nat := 14
def AT_SYMLINK_FOLLOW : Nat := 0x400

structure Tracer where
  host : Host
  /-- its own directory -/
  cwd : Path
  /-- what the link `/proc/<pid>/fd/<n>` or `/proc/<pid>/cwd` says -/
  link : CInt → Option Text
  string : Reg → Option Text

structure Ask where
  part : LastPart
  path : Text

structure Touch where
  fs : FS
  ask : Ask

def Ask.object (ask : Ask) (t : Tracer) (fs : FS) : Option Path :=
  (kernelWalk t.cwd ask.path).bind (objectAt fs ask.part)

def Touch.Stays (touch : Touch) (t : Tracer) : Prop :=
  ∀ object, touch.ask.object t touch.fs = some object → Inside t.host.room object

/-- The path is spelled below `base`, does not climb out of it and meets no link. -/
def straightBelow (fs : FS) (base : Path) (raw : List Name) : Bool :=
  (([] : Name) :: base).isPrefixOf raw && base.all (fun name => decide (PlainName name)) &&
    staysBelow 0 (raw.drop (base.length + 1)) &&
    raw.inits.all fun first => !fs.isSymlinkAt (place first)

def Ask.straight (ask : Ask) (host : Host) : Bool :=
  (host.room.rootfs :: host.binds.map BindMap.host).any fun above =>
    above.head? = some '/' && straightBelow host.fs (writtenParts above) (splitSlash ask.path)

theorem place_trimmed (raw : List Name) : place (raw.rdropWhile (· = [])) = place raw := by
  have still : ∀ (count : Nat) (cur : Path), (List.replicate count ([] : Name)).foldl goTo cur = cur := by
    intro count cur
    induction count with
    | zero => rfl
    | succ count ih =>
        rw [List.replicate_succ, List.foldl_cons, goTo, if_pos (.inl rfl)]
        exact ih
  obtain ⟨count, split⟩ := exists_blanks raw
  conv_rhs => rw [split, place_append, still]

theorem straightBelow_leads {fs : FS} {base object : Path} {part : LastPart} {raw : List Name}
    (straight : straightBelow fs base raw = true) (located : objectAt fs part raw = some object) :
    base <+: object := by
  simp only [straightBelow, Bool.and_eq_true, List.isPrefixOf_iff_prefix, List.all_eq_true,
    decide_eq_true_eq, List.mem_inits, Bool.not_eq_true'] at straight
  obtain ⟨⟨⟨⟨rest, rfl⟩, plain⟩, stays⟩, noLink⟩ := straight
  rw [List.drop_left' (by simp)] at stays
  have ends : place (([] :: base) ++ rest) = base ++ place rest := by
    rw [place_append_of_stays _ stays]
    have base_place : place ([] :: base) = base := place_of_plain plain
    rw [base_place]
  have walk : ∀ follow first, first <+: ([] :: base) ++ rest → fs.namei first follow = some object →
      object = place first := by
    intro follow first below found
    exact @FS.namei_eq_place fs first (fun path => fs.isSymlinkAt path = false) follow object (fun _ => id)
      (fun shorter less => noLink shorter (less.trans below)) found
  have found : object = place (([] :: base) ++ rest) := by
    cases part with
    | follow | nofollow => exact walk _ _ (List.prefix_refl _) located
    | parent =>
        simp only [objectAt] at located
        split at located
        · rw [← place_trimmed]
          exact walk _ _ (List.rdropWhile_prefix _ _) located
        · cases located
  rw [found, ends]
  exact List.prefix_append _ _

theorem absolute_of_splitSlash {path : Text} {name : Name} {rest : List Name}
    (split : splitSlash path = [] :: name :: rest) : path.head? = some '/' := by
  cases path with
  | nil => cases split
  | cons first text =>
      by_cases slash : first = '/'
      · rw [slash, List.head?_cons]
      · rw [splitSlash, if_neg slash] at split
        split at split <;> cases split

theorem straight_inside {t : Tracer} {ask : Ask} {object : Path} (straight : ask.straight t.host = true)
    (located : ask.object t t.host.fs = some object) : Inside t.host.room object := by
  obtain ⟨raw, walk, found⟩ := Option.bind_eq_some_iff.mp located
  simp only [Ask.straight, List.any_eq_true, Bool.and_eq_true, decide_eq_true_eq] at straight
  obtain ⟨above, member, absolute, below⟩ := straight
  have slash : ask.path.head? = some '/' := by
    have spelled := below
    simp only [straightBelow, Bool.and_eq_true, List.isPrefixOf_iff_prefix] at spelled
    obtain ⟨rest, split⟩ := spelled.1.1.1
    cases base : writtenParts above with
    | nil =>
        obtain ⟨rest, rfl⟩ : ∃ rest, above = '/' :: rest := by
          cases above with
          | nil => cases absolute
          | cons first rest =>
              cases absolute
              exact ⟨rest, rfl⟩
        obtain ⟨parts, last, ends⟩ := exists_parts rest
        rw [writtenParts, splitSlash_slash, List.drop_one, List.tail_cons, ends] at base
        cases (List.append_eq_nil_iff.mp base).2
    | cons name more =>
        rw [base] at split
        exact absolute_of_splitSlash split.symm
  obtain ⟨_, rfl⟩ := kernelWalk_fits walk
  rw [if_pos slash] at found
  have under : Under above object := by
    right
    rw [splitSlash_absolute absolute]
    exact (List.prefix_cons_inj _).mpr (straightBelow_leads below found)
  rcases List.mem_cons.mp member with rfl | bind
  · exact .inl under
  · obtain ⟨m, listed, rfl⟩ := List.mem_map.mp bind
    exact .inr ⟨m, listed, under⟩

/-- What `resolve_tracee_host_path` returns: 0, an error, or 1 and the path. -/
inductive HostPath
  | none
  | error (err : Nat)
  | path (text : Text)

namespace Tracer

def readTraceeString (t : Tracer) (addr : Reg) : Option Text :=
  (t.string addr).map (List.take (PATH_MAX - 1))

/-- `resolve_guest_host_path` looks for a file that stands for one of `/proc`. -/
def procAsks (t : Tracer) (guest : Text) : List Ask :=
  let out := t.host.room.rootfs ++ "/.pdocker-proc".toList ++ guest.drop procPath.length
  if startsAt procPath guest = true ∧ ¬ "/proc/self/fd".toList.isPrefixOf guest = true ∧
      guest ≠ "/proc/self/exe".toList ∧ guest ≠ "/proc/thread-self/exe".toList ∧ out.length < PATH_MAX then
    [⟨.follow, out⟩]
  else []

def resolveTraceeHostPath (t : Tracer) (dirfd : CInt) (addr : Reg) : HostPath × List Ask :=
  match t.readTraceeString addr with
  | none => (.none, [])
  | some guest =>
      if guest = [] then (.error ENOENT, [])
      else if guest.head? = some '/' then
        match resolveGuestHostPath t.host.room t.host.present guest with
        | .kept => (.none, t.procAsks guest)
        | .tooLong => (.error ENAMETOOLONG, t.procAsks guest)
        | .host path _ => (.path path, t.procAsks guest)
      else
        match t.link dirfd with
        | none => (.none, [])
        | some base =>
            if !hostPathIsUnderPrefix t.host.room.rootfs base then (.none, [])
            else if PATH_MAX ≤ (base ++ '/' :: guest).length then (.error ENAMETOOLONG, [])
            else (.path (base ++ '/' :: guest), [])

end Tracer

structure CopyFaults where
  openOld : Option Nat
  openNew : Option Nat
  openAgain : Option Nat
  copy : Option Nat

/-- `open(path, O_WRONLY | O_CREAT | O_EXCL)` -/
def openExclusive (t : Tracer) (fs : FS) (path : Text) (fault : Option Nat) (inode : Inode) :
    Except Nat FS :=
  match fault with
  | some err => .error err
  | none =>
      match (Ask.mk .parent path).object t fs with
      | none => .error ENOENT
      | some place =>
          if fs.get place ≠ none then .error EEXIST
          else
            match (fs.allocate inode).create place (.file fs.inodes.length) with
            | some after => .ok after
            | none => .error ENOENT

def unlinkHost (t : Tracer) (fs : FS) (path : Text) : FS :=
  ((kernelWalk t.cwd path).bind fs.unlink).getD fs

/-- The file that `stat` finds there, if it is a regular one. -/
def regularAt (t : Tracer) (path : Text) : Option Inode :=
  match (kernelWalk t.cwd path).bind t.host.fs.stat with
  | some (.file ino) => some (t.host.fs.inodes.getD ino default)
  | _ => none

def dpkgStatusOld : Text := "/var/lib/dpkg/status-old".toList

/-- The second half of `copy_file_for_linkat`, from the opening of the new file on. -/
def copyToNew (t : Tracer) (faults : CopyFaults) (path : Text) (inode : Inode) : List Touch × FS × Int :=
  let new : Ask := ⟨.parent, path⟩
  let fs := t.host.fs
  let opened : List Touch × FS × Except Nat FS :=
    match openExclusive t fs path faults.openNew ⟨inode.mode &&& 0o777, []⟩ with
    | .error err =>
        if err = EEXIST ∧ contains dpkgStatusOld path then
          let emptied := unlinkHost t fs path
          ([⟨fs, new⟩, ⟨fs, new⟩, ⟨emptied, new⟩], emptied,
            openExclusive t emptied path faults.openAgain ⟨inode.mode &&& 0o777, []⟩)
        else ([⟨fs, new⟩], fs, .error err)
    | .ok made => ([⟨fs, new⟩], fs, .ok made)
  match opened with
  | (touches, before, .error err) => (touches, before, negative err)
  | (touches, before, .ok made) =>
      match faults.copy with
      | some err => (touches ++ [⟨made, new⟩], unlinkHost t made path, negative err)
      | none =>
          (touches, made.setInode before.inodes.length ⟨inode.mode &&& 0o7777, inode.content⟩, 0)

def copyFileForLinkat (t : Tracer) (faults : CopyFaults) (old new : Text) (flags : Nat) :
    List Touch × FS × Int :=
  let source : Touch := ⟨t.host.fs, .follow, old⟩
  if flags ≠ 0 ∧ flags ≠ AT_SYMLINK_FOLLOW then ([], t.host.fs, negative EINVAL)
  else
    match (kernelWalk t.cwd old).bind t.host.fs.stat with
    | none => ([source], t.host.fs, negative (t.host.errno old).value)
    | some _ =>
        match regularAt t old with
        | none => ([source], t.host.fs, -EXDEV.toInt)
        | some inode =>
            match faults.openOld with
            | some err => ([source, source], t.host.fs, negative err)
            | none =>
                let copied := copyToNew t faults new inode
                ([source, source] ++ copied.1, copied.2)

structure Emulated where
  result : Option Int
  touches : List Touch
  fs : FS

def Tracer.at (t : Tracer) (ask : Ask) : Touch := ⟨t.host.fs, ask⟩

def emulateLinkatCopy (t : Tracer) (faults : CopyFaults) (regs : Regs) : Emulated :=
  let old := t.resolveTraceeHostPath (toInt32 (regs.x 0)) (regs.x 1)
  let new := t.resolveTraceeHostPath (toInt32 (regs.x 2)) (regs.x 3)
  let probes := (old.2 ++ new.2).map t.at
  match old.1, new.1 with
  | .none, _ => ⟨none, probes, t.host.fs⟩
  | _, .none => ⟨none, probes, t.host.fs⟩
  | .error err, _ => ⟨some (negative err), probes, t.host.fs⟩
  | _, .error err => ⟨some (negative err), probes, t.host.fs⟩
  | .path old, .path new =>
      let copied := copyFileForLinkat t faults old new (toInt32 (regs.x 4)).toNat
      ⟨some copied.2.2, probes ++ copied.1, copied.2.1⟩

def aptArchives : Text := "/var/cache/apt/archives/".toList

def emulateRuntimeTmpSymlinkat (t : Tracer) (faults : CopyFaults) (regs : Regs) : Emulated :=
  match t.readTraceeString (regs.x 0), t.readTraceeString (regs.x 2) with
  | some target, some _ =>
      if target.head? ≠ some '/' ∨ !contains aptArchives target then ⟨none, [], t.host.fs⟩
      else if !shouldRewritePath t.host.room.rootfs target then ⟨none, [], t.host.fs⟩
      else if PATH_MAX ≤ (t.host.room.rootfs ++ target).length then
        ⟨some (negative ENAMETOOLONG), [], t.host.fs⟩
      else
        let link := t.resolveTraceeHostPath (toInt32 (regs.x 1)) (regs.x 2)
        let probes := link.2.map t.at
        match link.1 with
        | .none => ⟨some (negative ENOENT), probes, t.host.fs⟩
        | .error err => ⟨some (negative err), probes, t.host.fs⟩
        | .path link =>
            let copied := copyFileForLinkat t faults (t.host.room.rootfs ++ target) link 0
            ⟨some copied.2.2, probes ++ copied.1, copied.2.1⟩
  | _, _ => ⟨none, [], t.host.fs⟩

/-- `access` is what that call says of the mode on the path. -/
def emulateFaccessatPath (t : Tracer) (access : Text → Option Nat) (regs : Regs) : Emulated :=
  let asked := t.resolveTraceeHostPath (toInt32 (regs.x 0)) (regs.x 1)
  let probes := asked.2.map t.at
  let answer (host : Text) : Emulated :=
    ⟨some (match access host with | none => 0 | some err => negative err),
      probes ++ [t.at ⟨.follow, host⟩], t.host.fs⟩
  match asked.1 with
  | .path host => answer host
  | .error err => ⟨some (negative err), probes, t.host.fs⟩
  | .none =>
      match t.readTraceeString (regs.x 1) with
      | none => ⟨some (negative EFAULT), probes, t.host.fs⟩
      | some original =>
          if original.head? = some '/' then answer original
          else ⟨some (negative ENOENT), probes, t.host.fs⟩

def copyAsks (t : Tracer) (faults : CopyFaults) (old new : Text) (flags : Nat) : List Ask :=
  if flags ≠ 0 ∧ flags ≠ AT_SYMLINK_FOLLOW then []
  else ⟨.follow, old⟩ ::
    if (regularAt t old).isSome ∧ faults.openOld = none then [⟨.parent, new⟩] else []

theorem object_of_fewer {t : Tracer} {fs now : FS} {path : Text} {object : Path}
    (fewer : ∀ path entry, now.get path = some entry → fs.get path = some entry)
    (located : (Ask.mk .parent path).object t now = some object) :
    (Ask.mk .parent path).object t fs = some object := by
  obtain ⟨raw, walk, found⟩ := Option.bind_eq_some_iff.mp located
  rw [Ask.object, walk, Option.bind_some]
  simp only [objectAt] at found ⊢
  split at found
  · rename_i named
    rw [if_pos named]
    exact FS.namei_of_less fewer found
  · cases found

theorem unlinkHost_fewer (t : Tracer) (fs : FS) (name : Text) (path : Path) (entry : Entry)
    (found : (unlinkHost t fs name).get path = some entry) : fs.get path = some entry := by
  rw [unlinkHost] at found
  cases walk : kernelWalk t.cwd name with
  | none => rwa [walk] at found
  | some raw =>
      rw [walk, Option.bind_some] at found
      have shrunk : Shrunk [] fs ((fs.unlink raw).getD fs) :=
        FS.shrunk_unlink fun _ _ _ => List.nil_prefix
      exact shrunk.get_of_get found

theorem openExclusive_made {t : Tracer} {fs made : FS} {path : Text} {fault : Option Nat} {inode : Inode}
    (opened : openExclusive t fs path fault inode = .ok made) :
    (∃ place, (Ask.mk .parent path).object t fs = some place) ∧
      ∀ path entry, fs.get path = some entry → made.get path = some entry := by
  simp only [openExclusive] at opened
  split at opened
  · cases opened
  split at opened
  · cases opened
  rename_i place located
  split at opened
  · cases opened
  split at opened
  · rename_i after created
    cases opened
    refine ⟨⟨place, located⟩, fun path entry found => ?_⟩
    have grown : Grown (fun _ => True) (fs.allocate inode) made :=
      FS.grown_create created rfl fun _ => trivial
    exact grown.kept path entry found
  · cases opened

theorem copyToNew_touches {t : Tracer} {faults : CopyFaults} {path : Text} {inode : Inode} :
    (t.at ⟨.parent, path⟩) ∈ (copyToNew t faults path inode).1 ∧
      ∀ touch ∈ (copyToNew t faults path inode).1, touch.ask = ⟨.parent, path⟩ ∧
        ∀ object, touch.ask.object t touch.fs = some object →
          (Ask.mk .parent path).object t t.host.fs = some object := by
  have emptied : ∀ object, (Ask.mk .parent path).object t (unlinkHost t t.host.fs path) = some object →
      (Ask.mk .parent path).object t t.host.fs = some object :=
    fun object => object_of_fewer (unlinkHost_fewer t t.host.fs path)
  have filled : ∀ {fs made : FS} {fault : Option Nat} {inode : Inode},
      openExclusive t fs path fault inode = .ok made →
      (∀ object, (Ask.mk .parent path).object t fs = some object →
        (Ask.mk .parent path).object t t.host.fs = some object) →
      ∀ object, (Ask.mk .parent path).object t made = some object →
        (Ask.mk .parent path).object t t.host.fs = some object := by
    intro fs made fault inode opened before object located
    obtain ⟨⟨place, there⟩, kept⟩ := openExclusive_made opened
    have same := (object_of_fewer kept there).symm.trans located
    exact before object (there.trans same)
  simp only [copyToNew]
  cases first : openExclusive t t.host.fs path faults.openNew ⟨inode.mode &&& 0o777, []⟩ with
  | ok made =>
      have later := filled first fun _ => id
      cases faults.copy with
      | none => simp [Tracer.at]
      | some err => simpa [Tracer.at] using later
  | error err =>
      simp only
      by_cases again : err = EEXIST ∧ contains dpkgStatusOld path = true
      · rw [if_pos again]
        cases second : openExclusive t (unlinkHost t t.host.fs path) path faults.openAgain
            ⟨inode.mode &&& 0o777, []⟩ with
        | error err => simpa [Tracer.at] using emptied
        | ok made =>
            have later := filled second emptied
            cases faults.copy with
            | none => simpa [Tracer.at] using emptied
            | some err => simpa [Tracer.at] using ⟨emptied, later⟩
      · rw [if_neg again]
        simp [Tracer.at]

theorem copyFileForLinkat_stays (t : Tracer) (faults : CopyFaults) (old new : Text) (flags : Nat) :
    (∀ touch ∈ (copyFileForLinkat t faults old new flags).1, touch.Stays t) ↔
      ∀ ask ∈ copyAsks t faults old new flags, (t.at ask).Stays t := by
  simp only [copyFileForLinkat, copyAsks]
  split
  · simp
  cases found : (kernelWalk t.cwd old).bind t.host.fs.stat with
  | none => simp [regularAt, found, Tracer.at]
  | some entry =>
      cases regular : regularAt t old with
      | none => simp [Tracer.at]
      | some inode =>
          cases faults.openOld with
          | some err => simp [Tracer.at]
          | none =>
              obtain ⟨first, all⟩ := @copyToNew_touches t faults new inode
              simp only [List.cons_append, List.nil_append, Option.isSome_some, and_self, ↓reduceIte,
                List.forall_mem_cons, List.not_mem_nil, false_implies, implies_true, and_true]
              constructor
              · exact fun ⟨source, _, rest⟩ => ⟨source, rest _ first⟩
              · refine fun ⟨source, target⟩ => ⟨source, source, fun touch member object located => ?_⟩
                obtain ⟨asked, leads⟩ := all touch member
                exact target object (leads object located)

theorem stays_iff (t : Tracer) (asks : List Ask) : (∀ ask ∈ asks, (t.at ask).Stays t) ↔
      ∀ ask ∈ asks, ask.straight t.host = false → (t.at ask).Stays t := by
  refine ⟨fun stays ask member _ => stays ask member, fun stays ask member => ?_⟩
  cases straight : ask.straight t.host with
  | true => exact fun object located => straight_inside straight located
  | false => exact stays ask member straight

def linkatAsks (t : Tracer) (faults : CopyFaults) (regs : Regs) : List Ask :=
  let old := t.resolveTraceeHostPath (toInt32 (regs.x 0)) (regs.x 1)
  let new := t.resolveTraceeHostPath (toInt32 (regs.x 2)) (regs.x 3)
  old.2 ++ new.2 ++
    match old.1, new.1 with
    | .path old, .path new => copyAsks t faults old new (toInt32 (regs.x 4)).toNat
    | _, _ => []

def symlinkatAsks (t : Tracer) (faults : CopyFaults) (regs : Regs) : List Ask :=
  match t.readTraceeString (regs.x 0), t.readTraceeString (regs.x 2) with
  | some target, some _ =>
      if target.head? ≠ some '/' ∨ !contains aptArchives target then []
      else if !shouldRewritePath t.host.room.rootfs target then []
      else if PATH_MAX ≤ (t.host.room.rootfs ++ target).length then []
      else
        let link := t.resolveTraceeHostPath (toInt32 (regs.x 1)) (regs.x 2)
        link.2 ++
          match link.1 with
          | .path link => copyAsks t faults (t.host.room.rootfs ++ target) link 0
          | _ => []
  | _, _ => []

def faccessatAsks (t : Tracer) (regs : Regs) : List Ask :=
  let asked := t.resolveTraceeHostPath (toInt32 (regs.x 0)) (regs.x 1)
  asked.2 ++
    match asked.1, t.readTraceeString (regs.x 1) with
    | .path host, _ => [⟨.follow, host⟩]
    | .none, some original => if original.head? = some '/' then [⟨.follow, original⟩] else []
    | _, _ => []

section

variable (t : Tracer) (faults : CopyFaults) (regs : Regs)

theorem emulateLinkatCopy_stays : (∀ touch ∈ (emulateLinkatCopy t faults regs).touches, touch.Stays t) ↔
      ∀ ask ∈ linkatAsks t faults regs, (t.at ask).Stays t := by
  simp only [emulateLinkatCopy, linkatAsks]
  generalize t.resolveTraceeHostPath (toInt32 (regs.x 0)) (regs.x 1) = old
  generalize t.resolveTraceeHostPath (toInt32 (regs.x 2)) (regs.x 3) = new
  obtain ⟨oldPath, oldAsks⟩ := old
  obtain ⟨newPath, newAsks⟩ := new
  cases oldPath with
  | none | error err => cases newPath <;> simp only [List.append_nil, List.forall_mem_map]
  | path old =>
      cases newPath with
      | none | error err => simp only [List.append_nil, List.forall_mem_map]
      | path new =>
          simp only [List.forall_mem_append, List.forall_mem_map, copyFileForLinkat_stays]

theorem emulateRuntimeTmpSymlinkat_stays :
    (∀ touch ∈ (emulateRuntimeTmpSymlinkat t faults regs).touches, touch.Stays t) ↔
      ∀ ask ∈ symlinkatAsks t faults regs, (t.at ask).Stays t := by
  simp only [emulateRuntimeTmpSymlinkat, symlinkatAsks]
  cases t.readTraceeString (regs.x 0) with
  | none => simp
  | some target =>
      cases t.readTraceeString (regs.x 2) with
      | none => simp
      | some name =>
          simp only
          split
          · simp
          split
          · simp
          split
          · simp
          generalize t.resolveTraceeHostPath (toInt32 (regs.x 1)) (regs.x 2) = link
          obtain ⟨path, asks⟩ := link
          cases path with
          | none | error err => simp only [List.append_nil, List.forall_mem_map]
          | path link =>
              simp only [List.forall_mem_append, List.forall_mem_map, copyFileForLinkat_stays]

theorem emulateFaccessatPath_stays (access : Text → Option Nat) :
    (∀ touch ∈ (emulateFaccessatPath t access regs).touches, touch.Stays t) ↔
      ∀ ask ∈ faccessatAsks t regs, (t.at ask).Stays t := by
  simp only [emulateFaccessatPath, faccessatAsks]
  generalize t.resolveTraceeHostPath (toInt32 (regs.x 0)) (regs.x 1) = asked
  obtain ⟨path, asks⟩ := asked
  cases path with
  | path host => simp only [List.forall_mem_append, List.forall_mem_map, List.forall_mem_singleton]
  | error err => simp only [List.append_nil, List.forall_mem_map]
  | none =>
      cases t.readTraceeString (regs.x 1) with
      | none => simp only [List.append_nil, List.forall_mem_map]
      | some original =>
          simp only
          split
          · simp only [List.forall_mem_append, List.forall_mem_map, List.forall_mem_singleton]
          · simp only [List.append_nil, List.forall_mem_map]

end

end PDocker.Direct
