import PDocker.Data.Text

/-!
# The caches of the path checks

`pdocker_direct_exec.c`: results of path validation and of `realpath`, stamped
with a generation, and the counters that keep new results out while a system
call that changes paths is under way. A hash picks the slot of a path; the one
of the source is FNV-1a and stands as a parameter.
-/

set_option autoImplicit false

namespace PDocker.Direct

open Data (Text)

structure PathValidationCacheEntry where
  generation : BitVec 64
  followFinal : Bool
  rc : Int
  host : Text

structure PathRealpathCacheEntry where
  generation : BitVec 64
  path : Text
  resolved : Text

structure PathCaches where
  enabled : Bool
  storeDisabled : Nat
  mutationInflight : Nat
  generation : BitVec 64
  validation : Nat → PathValidationCacheEntry
  realpath : Nat → PathRealpathCacheEntry

namespace PathCaches

def PATH_VALIDATION_CACHE_SIZE : Nat := 512
def PATH_REALPATH_CACHE_SIZE : Nat := 256

def noValidation : Nat → PathValidationCacheEntry := fun _ => ⟨0, false, 0, []⟩
def noRealpath : Nat → PathRealpathCacheEntry := fun _ => ⟨0, [], []⟩

def initial (enabled : Bool) : PathCaches where
  enabled
  storeDisabled := 0
  mutationInflight := 0
  generation := 1
  validation := noValidation
  realpath := noRealpath

def invalidatePathCaches (c : PathCaches) : PathCaches :=
  let generation := c.generation + 1
  if generation = 0 then
    { c with generation := 1, validation := noValidation, realpath := noRealpath }
  else { c with generation }

def beginPathCacheMutation (c : PathCaches) : PathCaches :=
  let c := c.invalidatePathCaches
  { c with mutationInflight := c.mutationInflight + 1, storeDisabled := c.storeDisabled + 1 }

def finishPathCacheMutation (c : PathCaches) : PathCaches :=
  { c with mutationInflight := c.mutationInflight - 1, storeDisabled := c.storeDisabled - 1 }

def pathValidationCacheGet (c : PathCaches) (hash : Text → Nat → Nat) (hostPath : Text)
    (followFinal : Bool) : Option Int :=
  if !c.enabled || hostPath = [] then none
  else
    let entry := c.validation (hash hostPath followFinal.toNat % PATH_VALIDATION_CACHE_SIZE)
    if entry.generation = c.generation ∧ entry.followFinal = followFinal ∧ entry.host = hostPath then
      some entry.rc
    else none

def pathValidationCachePut (c : PathCaches) (hash : Text → Nat → Nat) (hostPath : Text)
    (followFinal : Bool) (rc : Int) : PathCaches :=
  if !c.enabled || c.storeDisabled ≠ 0 || 0 < c.mutationInflight || hostPath = [] then c
  else if rc ≠ 0 then c
  else
    let slot := hash hostPath followFinal.toNat % PATH_VALIDATION_CACHE_SIZE
    { c with validation := fun other =>
        if other = slot then ⟨c.generation, followFinal, rc, hostPath⟩ else c.validation other }

/-- The resolved path, from the cache or from `realpath` as the file system has it
now, or its error. -/
def cachedRealpath (c : PathCaches) (hash : Text → Nat → Nat) (realpath : Text → Except Nat Text)
    (path : Text) : Except Nat Text × PathCaches :=
  if !c.enabled || path = [] then (realpath path, c)
  else
    let slot := hash path 17 % PATH_REALPATH_CACHE_SIZE
    let entry := c.realpath slot
    if entry.generation = c.generation ∧ entry.path = path then (.ok entry.resolved, c)
    else
      match realpath path with
      | .error err => (.error err, c)
      | .ok resolved =>
          if c.storeDisabled = 0 ∧ c.mutationInflight = 0 then
            (.ok resolved, { c with realpath := fun other =>
              if other = slot then ⟨c.generation, path, resolved⟩ else c.realpath other })
          else (.ok resolved, c)

variable (c : PathCaches) (hash : Text → Nat → Nat)

@[simp] theorem begin_mutationInflight :
    c.beginPathCacheMutation.mutationInflight = c.mutationInflight + 1 := by
  simp only [beginPathCacheMutation, invalidatePathCaches]
  split <;> rfl

@[simp] theorem begin_storeDisabled :
    c.beginPathCacheMutation.storeDisabled = c.storeDisabled + 1 := by
  simp only [beginPathCacheMutation, invalidatePathCaches]
  split <;> rfl

@[simp] theorem finish_mutationInflight :
    c.finishPathCacheMutation.mutationInflight = c.mutationInflight - 1 := rfl

@[simp] theorem finish_storeDisabled :
    c.finishPathCacheMutation.storeDisabled = c.storeDisabled - 1 := rfl

theorem cachedRealpath_off (realpath : Text → Except Nat Text) (path : Text) :
    (initial false).cachedRealpath hash realpath path = (realpath path, initial false) := rfl

theorem pathValidationCacheGet_off (path : Text) (follow : Bool) :
    (initial false).pathValidationCacheGet hash path follow = none := rfl

end PathCaches

end PDocker.Direct
