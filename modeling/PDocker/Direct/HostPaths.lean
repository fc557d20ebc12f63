import PDocker.Direct.Entry
import PDocker.Posix.Spelling

/-!
# Host paths of the executor

`pdocker_direct_exec.c`: the table of binds, the way from a guest path to a host
path, and the check that a host path lies in the rootfs or below a bind. The
`realpath` of the C library is a parameter, a function of the path for as long as
one check runs.
-/

set_option autoImplicit false

namespace PDocker.Direct

open Data (Text)
open Posix (Name splitSlash dot dotdot render)

def PATH_MAX : Nat := 4096
def MAX_BIND_MAPS : Nat := 96

def ENOENT : Nat := 2
def ENOTDIR : Nat := 20
def EINVAL : Nat := 22
def ENAMETOOLONG : Nat := 36

/-- `-err` -/
def negative (err : Nat) : Int := -(err : Int)

structure BindMap where
  host : Text
  guest : Text
deriving DecidableEq

def trimTrailingSlashes (path : Text) : Text :=
  if path.rdropWhile (· = '/') = [] ∧ path ≠ [] then ['/'] else path.rdropWhile (· = '/')

/-- The guest and the options of `host:guest[:options]` behind the host. -/
def splitSpec (spec : Text) : Option (Text × Text) :=
  let host := spec.takeWhile (· ≠ ':')
  if host.length = spec.length then none
  else some (host, (spec.drop (host.length + 1)).takeWhile (· ≠ ':'))

/-- The table after the specification, which is ignored when it is not one. -/
def parseBindSpec (realpath : Text → Except Nat Text) (binds : List BindMap) (spec : Text) :
    List BindMap :=
  if spec = [] ∨ MAX_BIND_MAPS ≤ binds.length then binds
  else
    match splitSpec (spec.take (2 * PATH_MAX - 1)) with
    | none => binds
    | some (host, guest) =>
        if host = [] ∨ guest.head? ≠ some '/' then binds
        else
          let host :=
            match realpath host with
            | .ok resolved => resolved
            | .error _ => host
          binds ++ [⟨trimTrailingSlashes (host.take (PATH_MAX - 1)),
            trimTrailingSlashes (guest.take (PATH_MAX - 1))⟩]

def startsAt (above path : Text) : Bool :=
  above.isPrefixOf path && (path.drop above.length = [] || (path.drop above.length).head? = some '/')

def bindGuestMatch (m : BindMap) (guest : Text) : Option Text :=
  if m.guest = ['/'] then some guest
  else if startsAt m.guest guest then some (guest.drop m.guest.length)
  else none

def bestBind (guest : Text) (best : Option (BindMap × Text)) (m : BindMap) : Option (BindMap × Text) :=
  match bindGuestMatch m guest with
  | none => best
  | some suffix =>
      match best with
      | none => some (m, suffix)
      | some (other, _) => if other.guest.length ≤ m.guest.length then some (m, suffix) else best

/-- `none` when no bind applies, otherwise the host path. -/
def resolveBindPath (binds : List BindMap) (guest : Text) : Option Text :=
  match binds.foldl (bestBind guest) none with
  | none => none
  | some (m, suffix) =>
      some (if suffix = [] then m.host else if m.host = ['/'] then suffix else m.host ++ suffix)

structure Room where
  rootfs : Text
  binds : List BindMap
  /-- standard input is a terminal -/
  tty : Bool

def hostPathIsUnderPrefix (above path : Text) : Bool :=
  above ≠ [] && path ≠ [] && startsAt above path

def hostPathIsUnderBindHost (binds : List BindMap) (path : Text) : Bool :=
  binds.any fun m => hostPathIsUnderPrefix m.host path

def hostPathIsUnderAllowedHostPath (room : Room) (path : Text) : Bool :=
  hostPathIsUnderPrefix room.rootfs path || hostPathIsUnderBindHost room.binds path

def procPath : Text := "/proc".toList
def devPath : Text := "/dev".toList
def sysPath : Text := "/sys".toList

def shouldRewritePath (rootfs path : Text) : Bool :=
  rootfs ≠ [] && path.head? = some '/' && !startsAt rootfs path && !startsAt procPath path &&
    !startsAt devPath path && !startsAt sysPath path

/-- A path that fits a buffer of `PATH_MAX`. -/
def fitting (path : Text) (bind : Bool) : Resolved :=
  if PATH_MAX ≤ path.length then .tooLong else .host path bind

/-- `exists` is `access(path, F_OK) == 0`. -/
def resolveGuestHostPath (room : Room) (present : Text → Bool) (guest : Text) : Resolved :=
  if startsAt procPath guest then
    if "/proc/self/fd".toList.isPrefixOf guest ∨ guest = "/proc/self/exe".toList ∨
        guest = "/proc/thread-self/exe".toList then .kept
    else
      let out := room.rootfs ++ "/.pdocker-proc".toList ++ guest.drop procPath.length
      if PATH_MAX ≤ out.length then .tooLong else if present out then .host out false else .kept
  else if guest = "/dev/tty".toList ∧ room.tty then .host "/proc/self/fd/0".toList false
  else if !shouldRewritePath room.rootfs guest then .kept
  else
    match resolveBindPath room.binds guest with
    | some path => fitting path true
    | none => fitting (room.rootfs ++ guest) false

def pathParent (path : Text) : Except Nat Text :=
  if path = [] then .error EINVAL
  else if PATH_MAX ≤ path.length then .error ENAMETOOLONG
  else
    let above := (trimTrailingSlashes path).rdropWhile (· ≠ '/')
    if above = [] then .ok dot
    else if above.dropLast = [] then .ok ['/']
    else .ok above.dropLast

def pushSegment (parts : List Name) (segment : Name) : Except Nat (List Name) :=
  if segment = [] ∨ segment = dot then .ok parts
  else if segment = dotdot then .ok parts.dropLast
  else if PATH_MAX / 2 ≤ parts.length then .error ENAMETOOLONG
  else
    let len := (render parts).length
    if 1 < len ∧ PATH_MAX ≤ len + 1 then .error ENAMETOOLONG
    else if PATH_MAX ≤ (if 1 < len then len + 1 else len) + segment.length then .error ENAMETOOLONG
    else .ok (parts ++ [segment])

def normalizeAbsolutePathLexical (path : Text) : Except Nat Text :=
  if path.head? ≠ some '/' then .error EINVAL
  else ((splitSlash path).foldlM pushSegment []).map render

def verdict (room : Room) (resolved : Text) : Int :=
  if hostPathIsUnderAllowedHostPath room resolved then 0 else -EXDEV.toInt

def validateParents (room : Room) (hash : Text → Nat → Nat) (realpath : Text → Except Nat Text) :
    Nat → PathCaches → Text → Int × PathCaches
  | 0, c, _ => (negative ENOENT, c)
  | fuel + 1, c, probe =>
      match c.cachedRealpath hash realpath probe with
      | (.ok resolved, c) => (verdict room resolved, c)
      | (.error err, c) =>
          if err ≠ ENOENT ∧ err ≠ ENOTDIR then (negative err, c)
          else if probe = ['/'] ∨ probe = dot then (negative err, c)
          else
            match pathParent probe with
            | .error err => (negative err, c)
            | .ok parent => validateParents room hash realpath fuel c parent

def validateResolved (room : Room) (hash : Text → Nat → Nat) (realpath : Text → Except Nat Text)
    (c : PathCaches) (hostPath : Text) (followFinal : Bool) : Int × PathCaches :=
  let parents (c : PathCaches) :=
    match pathParent hostPath with
    | .error err => (negative err, c)
    | .ok probe => validateParents room hash realpath (hostPath.length + 1) c probe
  if followFinal then
    match c.cachedRealpath hash realpath hostPath with
    | (.ok resolved, c) => (verdict room resolved, c)
    | (.error err, c) =>
        if err ≠ ENOENT ∧ err ≠ ENOTDIR then (negative err, c) else parents c
  else parents c

def validateHostPathUnderAllowed (room : Room) (hash : Text → Nat → Nat)
    (realpath : Text → Except Nat Text) (c : PathCaches) (hostPath : Text) (followFinal : Bool) :
    Int × PathCaches :=
  let put (outcome : Int × PathCaches) :=
    (outcome.1, outcome.2.pathValidationCachePut hash hostPath followFinal outcome.1)
  if hostPath = [] then (negative ENOENT, c)
  else
    match normalizeAbsolutePathLexical hostPath with
    | .error err => put (negative err, c)
    | .ok normalized =>
        if normalized = "/proc/self/fd/0".toList ∧ room.tty then put (0, c)
        else if !hostPathIsUnderAllowedHostPath room normalized then put (-EXDEV.toInt, c)
        else
          match c.pathValidationCacheGet hash hostPath followFinal with
          | some rc => (rc, c)
          | none => put (validateResolved room hash realpath c hostPath followFinal)

def freshValidation (room : Room) (realpath : Text → Except Nat Text) (hostPath : Text)
    (followFinal : Bool) : Int :=
  (validateHostPathUnderAllowed room (fun _ _ => 0) realpath (.initial false) hostPath followFinal).1

theorem head?_above {above path : Text} (filled : above ≠ []) (below : above <+: path) :
    above.head? = path.head? := by
  obtain ⟨rest, rfl⟩ := below
  cases above with
  | nil => exact absurd rfl filled
  | cons first above => rfl

theorem trimTrailingSlashes_spec (path : Text) (absolute : path.head? = some '/') :
    trimTrailingSlashes path <+: path ∧ trimTrailingSlashes path ≠ [] := by
  rw [trimTrailingSlashes]
  split
  · refine ⟨?_, List.cons_ne_nil _ _⟩
    cases path with
    | nil => cases absolute
    | cons first path =>
        cases absolute
        exact List.cons_prefix_cons.mpr ⟨rfl, List.nil_prefix⟩
  · rename_i filled
    refine ⟨List.rdropWhile_prefix _ _, fun empty => filled ⟨empty, ?_⟩⟩
    intro none
    rw [none] at absolute
    cases absolute

theorem pathParent_shorter {path up : Text} (absolute : path.head? = some '/')
    (parent : pathParent path = .ok up) :
    up.head? = some '/' ∧ (path ≠ ['/'] → up.length < path.length) := by
  obtain ⟨below, filled⟩ := trimTrailingSlashes_spec path absolute
  have slash : (trimTrailingSlashes path).head? = some '/' :=
    (head?_above filled below).trans absolute
  have above : (trimTrailingSlashes path).rdropWhile (· ≠ '/') <+: path :=
    (List.rdropWhile_prefix _ _).trans below
  have present : (trimTrailingSlashes path).rdropWhile (· ≠ '/') ≠ [] := by
    intro empty
    have plain := List.rdropWhile_eq_nil_iff.mp empty '/' (List.mem_of_mem_head? slash)
    simp at plain
  rw [pathParent] at parent
  split at parent
  · cases parent
  split at parent
  · cases parent
  simp only [if_neg present] at parent
  split at parent
  · cases parent
    refine ⟨rfl, fun proper => ?_⟩
    cases path with
    | nil => cases absolute
    | cons first path =>
        cases absolute
        cases path with
        | nil => exact absurd rfl proper
        | cons second path => simp
  · rename_i longer
    cases parent
    have inside := (List.dropLast_prefix _).trans above
    refine ⟨(head?_above longer inside).trans absolute, fun _ => ?_⟩
    have length := above.length_le
    have positive := List.length_pos_iff.mpr present
    rw [List.length_dropLast]
    omega

theorem validateParents_fuel (room : Room) (hash : Text → Nat → Nat)
    (realpath : Text → Except Nat Text) (fuel more : Nat) (c : PathCaches) (probe : Text)
    (absolute : probe.head? = some '/') (enough : probe.length ≤ fuel) (still : probe.length ≤ more) :
    validateParents room hash realpath fuel c probe = validateParents room hash realpath more c probe := by
  induction fuel generalizing more c probe with
  | zero => exact absurd enough (Nat.not_le.mpr (List.length_pos_of_mem (List.mem_of_mem_head? absolute)))
  | succ fuel ih =>
      cases more with
      | zero => exact absurd still (Nat.not_le.mpr (List.length_pos_of_mem (List.mem_of_mem_head? absolute)))
      | succ more =>
          simp only [validateParents]
          split
          · rfl
          split
          · rfl
          split
          · rfl
          rename_i inner
          split
          · rfl
          rename_i parent up
          obtain ⟨slash, shorter⟩ := pathParent_shorter absolute up
          have less := shorter fun root => inner (.inl root)
          exact ih more _ parent slash (by omega) (by omega)

end PDocker.Direct
