import PDocker.Direct.Credentials
import PDocker.Direct.HostPaths
import PDocker.Direct.Stops

/-!
# Coherence of the path caches

All tracees and the file system below them. A call that changes paths is
announced at its entry and over at its exit, in the handler or when its tracee
is gone; between the two the kernel changes the file system at any time. The
check of one path asks for the resolved form of each path at most once, so its
answers are a function even where the file system changes under it.
-/

set_option autoImplicit false

namespace PDocker.Direct

open Data (Text Table Reaches runAll reaches_of_runAll)

namespace PathCaches

/-- Stamps are not from the future, and an entry of the current generation is good. -/
structure Stamped (validated : PathValidationCacheEntry → Prop)
    (resolved : PathRealpathCacheEntry → Prop) (c : PathCaches) : Prop where
  positive : c.generation ≠ 0
  validation : ∀ slot, (c.validation slot).generation.toNat ≤ c.generation.toNat ∧
    ((c.validation slot).generation = c.generation → validated (c.validation slot))
  realpath : ∀ slot, (c.realpath slot).generation.toNat ≤ c.generation.toNat ∧
    ((c.realpath slot).generation = c.generation → resolved (c.realpath slot))

section
variable {validated validated' : PathValidationCacheEntry → Prop}
  {resolved resolved' : PathRealpathCacheEntry → Prop} {c after : PathCaches}

theorem stamped_initial (enabled : Bool) : Stamped validated resolved (initial enabled) := by
  have none : (0 : BitVec 64) ≠ 1 := by decide
  exact ⟨none.symm, fun _ => ⟨Nat.zero_le _, fun current => absurd current none⟩,
    fun _ => ⟨Nat.zero_le _, fun current => absurd current none⟩⟩

variable (stamped : Stamped validated resolved c)

include stamped

theorem Stamped.imp (left : ∀ entry, validated entry → validated' entry)
    (right : ∀ entry, resolved entry → resolved' entry) : Stamped validated' resolved' c where
  positive := stamped.positive
  validation slot := ⟨(stamped.validation slot).1, fun current => left _ ((stamped.validation slot).2 current)⟩
  realpath slot := ⟨(stamped.realpath slot).1, fun current => right _ ((stamped.realpath slot).2 current)⟩

theorem Stamped.finish : Stamped validated resolved c.finishPathCacheMutation :=
  ⟨stamped.positive, stamped.validation, stamped.realpath⟩

theorem Stamped.begin : Stamped validated' resolved' c.beginPathCacheMutation := by
  by_cases wraps : c.generation + 1 = 0
  · have none : (0 : BitVec 64) ≠ 1 := by decide
    simp only [beginPathCacheMutation, invalidatePathCaches, if_pos wraps]
    exact ⟨none.symm, fun _ => ⟨Nat.zero_le _, fun current => absurd current none⟩,
      fun _ => ⟨Nat.zero_le _, fun current => absurd current none⟩⟩
  have next : (c.generation + 1).toNat = c.generation.toNat + 1 := by
    have small := c.generation.isLt
    have one : BitVec.toNat (1 : BitVec 64) = 1 := rfl
    have proper : (c.generation + 1).toNat ≠ 0 := fun zero => wraps (BitVec.eq_of_toNat_eq zero)
    rw [BitVec.toNat_add, one] at proper ⊢
    omega
  simp only [beginPathCacheMutation, invalidatePathCaches, if_neg wraps]
  constructor
  · exact wraps
  · intro slot
    have stamp := (stamped.validation slot).1
    refine ⟨stamp.trans (by rw [next]; exact Nat.le_succ _), fun current => ?_⟩
    simp only at current
    rw [current, next] at stamp
    omega
  · intro slot
    have stamp := (stamped.realpath slot).1
    refine ⟨stamp.trans (by rw [next]; exact Nat.le_succ _), fun current => ?_⟩
    simp only at current
    rw [current, next] at stamp
    omega

theorem Stamped.get {hash : Text → Nat → Nat} {path : Text}
    {follow : Bool} {rc : Int} (found : c.pathValidationCacheGet hash path follow = some rc) :
    ∃ generation, validated ⟨generation, follow, rc, path⟩ := by
  rw [pathValidationCacheGet] at found
  split at found
  · cases found
  have good := (stamped.validation (hash path follow.toNat % PATH_VALIDATION_CACHE_SIZE)).2
  generalize c.validation (hash path follow.toNat % PATH_VALIDATION_CACHE_SIZE) = entry at found good
  obtain ⟨generation, entryFollow, entryRc, host⟩ := entry
  simp only at found
  split at found
  · rename_i hit
    obtain ⟨current, rfl, rfl⟩ := hit
    cases found
    exact ⟨generation, good current⟩
  · cases found

theorem Stamped.cachedRealpath (hash : Text → Nat → Nat) (realpath : Text → Except Nat Text) (path : Text) :
    (c.cachedRealpath hash realpath path).1 = realpath path ∨
      ∃ generation text, (c.cachedRealpath hash realpath path).1 = .ok text ∧
        resolved ⟨generation, path, text⟩ := by
  rw [PathCaches.cachedRealpath]
  split
  · exact .inl rfl
  have good := (stamped.realpath (hash path 17 % PATH_REALPATH_CACHE_SIZE)).2
  simp only
  generalize c.realpath (hash path 17 % PATH_REALPATH_CACHE_SIZE) = entry at good ⊢
  obtain ⟨generation, entryPath, text⟩ := entry
  simp only at good ⊢
  split
  · rename_i hit
    obtain ⟨current, rfl⟩ := hit
    exact .inr ⟨generation, text, rfl, good current⟩
  split
  · rename_i failed
    exact .inl failed.symm
  · rename_i found
    split <;> exact .inl found.symm

omit stamped

structure Filled (validated : PathValidationCacheEntry → Prop)
    (resolved : PathRealpathCacheEntry → Prop) (c after : PathCaches) : Prop where
  frame : after = { c with validation := after.validation, realpath := after.realpath }
  validation : ∀ slot, after.validation slot = c.validation slot ∨
    (after.validation slot).generation = c.generation ∧ validated (after.validation slot)
  realpath : ∀ slot, after.realpath slot = c.realpath slot ∨
    (after.realpath slot).generation = c.generation ∧ resolved (after.realpath slot)

theorem Filled.refl (c : PathCaches) : Filled validated resolved c c :=
  ⟨rfl, fun _ => .inl rfl, fun _ => .inl rfl⟩

theorem Filled.generation (filled : Filled validated resolved c after) :
    after.generation = c.generation := by
  rw [filled.frame]

theorem Filled.trans {third : PathCaches} (left : Filled validated resolved c after)
    (right : Filled validated resolved after third) : Filled validated resolved c third where
  frame := by
    rw [right.frame, left.frame]
  validation slot := by
    have same := left.generation
    cases right.validation slot with
    | inl kept =>
        rw [kept]
        exact left.validation slot
    | inr added =>
        rw [same] at added
        exact .inr added
  realpath slot := by
    have same := left.generation
    cases right.realpath slot with
    | inl kept =>
        rw [kept]
        exact left.realpath slot
    | inr added =>
        rw [same] at added
        exact .inr added

theorem Stamped.filled (stamped : Stamped validated resolved c)
    (filled : Filled validated resolved c after) : Stamped validated resolved after where
  positive := by
    rw [filled.generation]
    exact stamped.positive
  validation slot := by
    rw [filled.generation]
    cases filled.validation slot with
    | inl kept =>
        rw [kept]
        exact stamped.validation slot
    | inr added => exact ⟨by rw [added.1], fun _ => added.2⟩
  realpath slot := by
    rw [filled.generation]
    cases filled.realpath slot with
    | inl kept =>
        rw [kept]
        exact stamped.realpath slot
    | inr added => exact ⟨by rw [added.1], fun _ => added.2⟩

/-- The current entries of `realpath` say what the file system says. -/
def Agrees (realpath : Text → Except Nat Text) (c : PathCaches) : Prop :=
  ∀ slot, (c.realpath slot).generation = c.generation →
    realpath (c.realpath slot).path = .ok (c.realpath slot).resolved

theorem Filled.agrees {realpath : Text → Except Nat Text}
    (filled : Filled validated (fun entry => realpath entry.path = .ok entry.resolved) c after)
    (agrees : Agrees realpath c) : Agrees realpath after := by
  intro slot current
  rw [filled.generation] at current
  cases filled.realpath slot with
  | inl kept =>
      rw [kept] at current ⊢
      exact agrees slot current
  | inr added => exact added.2

theorem cachedRealpath_agrees {realpath : Text → Except Nat Text} (agrees : Agrees realpath c)
    (hash : Text → Nat → Nat) (path : Text) :
    (c.cachedRealpath hash realpath path).1 = realpath path ∧
      Filled validated (fun entry => realpath entry.path = .ok entry.resolved) c
        (c.cachedRealpath hash realpath path).2 := by
  rw [PathCaches.cachedRealpath]
  split
  · exact ⟨rfl, .refl c⟩
  simp only
  split
  · rename_i hit
    obtain ⟨current, samePath⟩ := hit
    have said := agrees _ current
    rw [samePath] at said
    exact ⟨said.symm, .refl c⟩
  split
  · rename_i failed
    exact ⟨failed.symm, .refl c⟩
  rename_i found
  split
  · refine ⟨found.symm, rfl, fun _ => .inl rfl, fun slot => ?_⟩
    simp only
    split
    · exact .inr ⟨rfl, found⟩
    · exact .inl rfl
  · exact ⟨found.symm, .refl c⟩

theorem pathValidationCachePut_filled {path : Text} {follow : Bool} {rc : Int}
    (good : ∀ generation, validated ⟨generation, follow, rc, path⟩) (hash : Text → Nat → Nat) :
    Filled validated resolved c (c.pathValidationCachePut hash path follow rc) := by
  rw [pathValidationCachePut]
  split
  · exact .refl c
  split
  · exact .refl c
  refine ⟨rfl, fun slot => ?_, fun _ => .inl rfl⟩
  simp only
  split
  · exact .inr ⟨rfl, good _⟩
  · exact .inl rfl

def Shut (c : PathCaches) : Prop := c.enabled = false ∨ c.storeDisabled ≠ 0 ∧ c.mutationInflight ≠ 0

theorem Shut.pathValidationCachePut (shut : Shut c) (hash : Text → Nat → Nat) (path : Text)
    (follow : Bool) (rc : Int) : c.pathValidationCachePut hash path follow rc = c := by
  rw [PathCaches.pathValidationCachePut]
  rcases shut with off | ⟨disabled, _⟩
  · simp [off]
  · simp [disabled]

theorem Shut.cachedRealpath (shut : Shut c) (hash : Text → Nat → Nat)
    (realpath : Text → Except Nat Text) (path : Text) :
    (c.cachedRealpath hash realpath path).2 = c := by
  rw [PathCaches.cachedRealpath]
  rcases shut with off | ⟨disabled, _⟩
  · simp [off]
  split
  · rfl
  simp only
  split
  · rfl
  · split
    · rfl
    · simp [disabled]

end

end PathCaches

section
variable {room : Room} {realpath : Text → Except Nat Text} {c : PathCaches}
  {validated : PathValidationCacheEntry → Prop}

open PathCaches

theorem validateParents_agrees (hash : Text → Nat → Nat) (fuel : Nat) (agrees : Agrees realpath c)
    (probe : Text) :
    (validateParents room hash realpath fuel c probe).1 =
        (validateParents room (fun _ _ => 0) realpath fuel (.initial false) probe).1 ∧
      Filled validated (fun entry => realpath entry.path = .ok entry.resolved) c
        (validateParents room hash realpath fuel c probe).2 := by
  induction fuel generalizing c probe with
  | zero => exact ⟨rfl, .refl c⟩
  | succ fuel ih =>
      obtain ⟨said, filled⟩ := @cachedRealpath_agrees validated _ _ agrees hash probe
      have later := filled.agrees agrees
      simp only [validateParents, cachedRealpath_off]
      generalize c.cachedRealpath hash realpath probe = looked at said filled later ⊢
      obtain ⟨answer, after⟩ := looked
      simp only at said filled later
      subst said
      cases realpath probe with
      | ok resolved => exact ⟨rfl, filled⟩
      | error err =>
          simp only
          split
          · exact ⟨rfl, filled⟩
          split
          · exact ⟨rfl, filled⟩
          cases pathParent probe with
          | error err => exact ⟨rfl, filled⟩
          | ok parent =>
              obtain ⟨same, rest⟩ := ih later parent
              exact ⟨same, filled.trans rest⟩

theorem validateParents_shut {hash : Text → Nat → Nat} (fuel : Nat) (shut : Shut c) (probe : Text) :
    (validateParents room hash realpath fuel c probe).2 = c := by
  induction fuel generalizing probe with
  | zero => rfl
  | succ fuel ih =>
      have kept := shut.cachedRealpath hash realpath probe
      simp only [validateParents]
      generalize c.cachedRealpath hash realpath probe = looked at kept ⊢
      obtain ⟨answer, after⟩ := looked
      simp only at kept
      subst kept
      cases answer with
      | ok resolved => rfl
      | error err =>
          simp only
          split
          · rfl
          split
          · rfl
          · cases pathParent probe with
            | error err => rfl
            | ok parent => exact ih parent

theorem validateResolved_agrees (hash : Text → Nat → Nat) (agrees : Agrees realpath c)
    (hostPath : Text) (followFinal : Bool) :
    (validateResolved room hash realpath c hostPath followFinal).1 =
        (validateResolved room (fun _ _ => 0) realpath (.initial false) hostPath followFinal).1 ∧
      Filled validated (fun entry => realpath entry.path = .ok entry.resolved) c
        (validateResolved room hash realpath c hostPath followFinal).2 := by
  cases followFinal with
  | false =>
      simp only [validateResolved, Bool.false_eq_true, ↓reduceIte]
      cases pathParent hostPath with
      | error err => exact ⟨rfl, .refl c⟩
      | ok parent => exact validateParents_agrees hash _ agrees parent
  | true =>
      obtain ⟨said, filled⟩ := @cachedRealpath_agrees validated _ _ agrees hash hostPath
      have later := filled.agrees agrees
      simp only [validateResolved, ↓reduceIte, cachedRealpath_off]
      generalize c.cachedRealpath hash realpath hostPath = looked at said filled later ⊢
      obtain ⟨answer, after⟩ := looked
      simp only at said filled later
      subst said
      cases realpath hostPath with
      | ok resolved => exact ⟨rfl, filled⟩
      | error err =>
          simp only
          split
          · exact ⟨rfl, filled⟩
          cases pathParent hostPath with
          | error err => exact ⟨rfl, filled⟩
          | ok parent =>
              obtain ⟨same, rest⟩ := validateParents_agrees hash (hostPath.length + 1) later parent
              exact ⟨same, filled.trans rest⟩

theorem validateResolved_shut {hash : Text → Nat → Nat} (shut : Shut c) (hostPath : Text)
    (followFinal : Bool) : (validateResolved room hash realpath c hostPath followFinal).2 = c := by
  have parents : ∀ after, after = c → (validateResolved room hash realpath after hostPath false).2 = c := by
    intro after same
    subst same
    simp only [validateResolved, Bool.false_eq_true, if_false]
    cases pathParent hostPath with
    | error err => rfl
    | ok probe => exact validateParents_shut _ shut probe
  cases followFinal with
  | false => exact parents c rfl
  | true =>
      have kept := shut.cachedRealpath hash realpath hostPath
      simp only [validateResolved, ↓reduceIte]
      generalize c.cachedRealpath hash realpath hostPath = looked at kept ⊢
      obtain ⟨answer, after⟩ := looked
      cases answer with
      | ok resolved => exact kept
      | error err =>
          simp only
          split
          · exact kept
          · exact parents after kept

theorem validateHostPath_filled (hash : Text → Nat → Nat) (agrees : Agrees realpath c)
    (hostPath : Text) (followFinal : Bool) :
    Filled (fun entry => freshValidation room realpath entry.host entry.followFinal = entry.rc)
      (fun entry => realpath entry.path = .ok entry.resolved) c
      (validateHostPathUnderAllowed room hash realpath c hostPath followFinal).2 := by
  have put := fun {after : PathCaches} {rc : Int}
      (fresh : freshValidation room realpath hostPath followFinal = rc) =>
    @pathValidationCachePut_filled
      (fun entry => freshValidation room realpath entry.host entry.followFinal = entry.rc)
      (fun entry => realpath entry.path = .ok entry.resolved) after _ _ rc (fun _ => fresh) hash
  have fresh_def : freshValidation room realpath hostPath followFinal =
      (validateHostPathUnderAllowed room (fun _ _ => 0) realpath (.initial false) hostPath followFinal).1 :=
    rfl
  rw [validateHostPathUnderAllowed] at fresh_def ⊢
  by_cases empty : hostPath = []
  · rw [if_pos empty]
    exact .refl c
  rw [if_neg empty] at fresh_def ⊢
  cases normalized_def : normalizeAbsolutePathLexical hostPath with
  | error err =>
      rw [normalized_def] at fresh_def
      exact put fresh_def
  | ok normalized =>
      rw [normalized_def] at fresh_def
      simp only at fresh_def ⊢
      split
      · rename_i terminal
        rw [if_pos terminal] at fresh_def
        exact put fresh_def
      rename_i plain
      rw [if_neg plain] at fresh_def
      split
      · rename_i outside
        rw [if_pos outside] at fresh_def
        exact put fresh_def
      rename_i inside
      rw [if_neg inside, pathValidationCacheGet_off] at fresh_def
      split
      · exact .refl c
      · obtain ⟨same, filled⟩ := @validateResolved_agrees room realpath c _ hash agrees hostPath followFinal
        exact filled.trans (put (fresh_def.trans same.symm))

theorem validateHostPath_shut {hash : Text → Nat → Nat} (shut : Shut c) (hostPath : Text)
    (followFinal : Bool) :
    (validateHostPathUnderAllowed room hash realpath c hostPath followFinal).2 = c := by
  rw [validateHostPathUnderAllowed]
  split
  · rfl
  split
  · exact shut.pathValidationCachePut hash _ _ _
  simp only
  split
  · exact shut.pathValidationCachePut hash _ _ _
  split
  · exact shut.pathValidationCachePut hash _ _ _
  split
  · rfl
  · rw [validateResolved_shut shut]
    exact shut.pathValidationCachePut hash _ _ _

end

/-- `since` holds every state of the file system since an announced call last
changed paths. -/
structure Tracing (FS : Type) where
  fs : FS
  since : List FS
  tracees : Tracees
  caches : PathCaches
  handling : Option Pid

inductive TraceEvent (FS : Type)
  | firstStop (pid : Pid)
  | fork (parent child : Pid)
  /-- the head of `handle_syscall_entry`, and its tail with the record it leaves -/
  | enter (pid : Pid) (regs : Regs)
  | leave (completed : Bool) (state : TraceeState)
  | validate (hostPath : Text) (followFinal : Bool) (answers : Text → Except Nat Text)
  | exit (pid : Pid) (env : Env) (registers : Bool) (tracee : Stopped)
  | sigsys (pid : Pid) (env : Env) (tracee : Stopped)
  | gone (pid : Pid)
  | prune (dead : Pid → Bool)
  /-- a call that is not announced, or another process -/
  | change (after : FS)
  | mutate (pid : Pid) (after : FS)

def removeTracee (tracees : Tracees) (caches : PathCaches) (pid : Pid) : Tracees × PathCaches :=
  match findTracee tracees pid with
  | none => (tracees, caches)
  | some state =>
      (tracees.erase pid,
        if state.pendingPathCacheInvalidation then caches.finishPathCacheMutation else caches)

def pruneDeadTracees (tracees : Tracees) (dead : Pid → Bool) : Tracees := Table.eraseWhere dead tracees

namespace Tracing

variable {FS : Type}

def start (enabled : Bool) (fs : FS) : Tracing FS where
  fs
  since := [fs]
  tracees := ∅
  caches := .initial enabled
  handling := none

def pending (s : Tracing FS) : Nat :=
  Table.count (fun state : TraceeState => state.pendingPathCacheInvalidation) s.tracees

def handled (s : Tracing FS) (pid : Pid) (scene : Scene) : Tracing FS :=
  { s with tracees := s.tracees.insert pid scene.state, caches := scene.caches }

def entered (s : Tracing FS) (pid : Pid) (state : TraceeState) (regs : Regs) : Tracing FS :=
  { s.handled pid (enterSyscall ⟨state, ⟨regs, regs.nr⟩, s.caches⟩ regs) with handling := some pid }

def left (s : Tracing FS) (pid : Pid) (completed : Bool) (state : TraceeState) : Tracing FS :=
  let finished := pathSyscallInvalidatesCache state.lastNr && completed
  let state := if finished then state.settle else state
  { s with
    tracees := s.tracees.insert pid
      { state with inSyscall := state.inSyscall || completed || state.pendingPathCacheInvalidation }
    caches := if finished then s.caches.finishPathCacheMutation else s.caches
    handling := none }

def step (room : Room) (hash : Text → Nat → Nat) (s : Tracing FS) : TraceEvent FS → Option (Tracing FS)
  | .firstStop pid =>
      if s.handling.isSome then none
      else
        match addTracee s.tracees pid with
        | none => some s
        | some (tracees, _) => some { s with tracees }
  | .fork parent child =>
      if s.handling.isSome then none
      else
        match findTracee s.tracees parent, addTracee s.tracees child with
        | none, _ => none
        | some _, none => some s
        | some state, some (tracees, newState) =>
            some { s with tracees := tracees.insert child (Tree.inherit state newState) }
  | .enter pid regs =>
      if s.handling.isSome then none
      else
        match findTracee s.tracees pid with
        | none => none
        | some state => some (s.entered pid state regs)
  | .leave completed state =>
      match s.handling with
      | none => none
      | some pid =>
          match findTracee s.tracees pid with
          | none => none
          | some entered =>
              if state.lastNr = entered.lastNr ∧
                  state.pendingPathCacheInvalidation = entered.pendingPathCacheInvalidation then
                some (s.left pid completed state)
              else none
  | .validate hostPath followFinal answers =>
      some { s with
        caches := (validateHostPathUnderAllowed room hash answers s.caches hostPath followFinal).2 }
  | .exit pid env registers tracee =>
      if s.handling.isSome then none
      else
        match findTracee s.tracees pid with
        | none => none
        | some state =>
            if state.inSyscall then
              some (s.handled pid (syscallStop env registers ⟨state, tracee, s.caches⟩))
            else none
  | .sigsys pid env tracee =>
      if s.handling.isSome then none
      else
        match findTracee s.tracees pid with
        | none => none
        | some state => some (s.handled pid (sigsysStop env ⟨state, tracee, s.caches⟩).1)
  | .gone pid =>
      if s.handling.isSome then none
      else
        let removed := removeTracee s.tracees s.caches pid
        some { s with tracees := removed.1, caches := removed.2 }
  | .prune dead =>
      if s.handling.isSome then none else some { s with tracees := pruneDeadTracees s.tracees dead }
  | .change after => some { s with fs := after, since := after :: s.since }
  | .mutate pid after =>
      match findTracee s.tracees pid with
      | none => none
      | some state =>
          if state.pendingPathCacheInvalidation then some { s with fs := after, since := [after] }
          else none

/-- What the tracer reads is what the file system said at some time since the last
announced change, and results are kept exactly while no such change is under way. -/
structure Coherent (room : Room) (hash : Text → Nat → Nat) (resolve : FS → Text → Except Nat Text)
    (s : Tracing FS) : Prop where
  validation : ∀ hostPath followFinal rc,
    s.caches.pathValidationCacheGet hash hostPath followFinal = some rc →
      ∃ fs ∈ s.since, freshValidation room (resolve fs) hostPath followFinal = rc
  realpath : ∀ path, ∃ fs ∈ s.since,
    (s.caches.cachedRealpath hash (resolve s.fs) path).1 = resolve fs path
  inflight : s.caches.mutationInflight = s.pending
  disabled : s.caches.storeDisabled = s.pending

/-- No record is cleared or reused while its change is under way, and a check whose
result may be kept sees one state of the file system, in which every path that has
been resolved since the last announced change still is. -/
def Settled (resolve : FS → Text → Except Nat Text) (s : Tracing FS) : TraceEvent FS → Prop
  | .enter pid regs => pathSyscallInvalidatesCache regs.nr = true →
      ∀ state, findTracee s.tracees pid = some state → state.pendingPathCacheInvalidation = false
  | .prune dead => ∀ pid state, findTracee s.tracees pid = some state → dead pid = true →
      state.pendingPathCacheInvalidation = false
  | .validate _ _ answers => s.caches.enabled = true → s.pending = 0 →
      (∀ path, answers path = resolve s.fs path) ∧
        ∀ fs ∈ s.since, ∀ path resolved, resolve fs path = .ok resolved → resolve s.fs path = .ok resolved
  | _ => True

def Validated (room : Room) (resolve : FS → Text → Except Nat Text) (s : Tracing FS)
    (entry : PathValidationCacheEntry) : Prop :=
  s.pending = 0 ∧ ∃ fs ∈ s.since, freshValidation room (resolve fs) entry.host entry.followFinal = entry.rc

def Resolves (resolve : FS → Text → Except Nat Text) (s : Tracing FS) (entry : PathRealpathCacheEntry) :
    Prop :=
  s.pending = 0 ∧ ∃ fs ∈ s.since, resolve fs entry.path = .ok entry.resolved

structure Inv (room : Room) (resolve : FS → Text → Except Nat Text) (s : Tracing FS) : Prop where
  inflight : s.caches.mutationInflight = s.pending
  disabled : s.caches.storeDisabled = s.pending
  stamped : s.caches.Stamped (Validated room resolve s) (Resolves resolve s)
  now : s.fs ∈ s.since
  entered : ∀ pid, s.handling = some pid → ∃ state, findTracee s.tracees pid = some state ∧
    (pathSyscallInvalidatesCache state.lastNr = true → state.pendingPathCacheInvalidation = true)

variable {room : Room} {hash : Text → Nat → Nat} {resolve : FS → Text → Except Nat Text}
  {s next : Tracing FS} {pid : Pid} {state : TraceeState}

theorem Inv.coherent (inv : Inv room resolve s) : Coherent room hash resolve s where
  validation hostPath followFinal rc found := by
    obtain ⟨generation, _, fresh⟩ := inv.stamped.get found
    exact fresh
  realpath path := by
    cases inv.stamped.cachedRealpath hash (resolve s.fs) path with
    | inl asked => exact ⟨s.fs, inv.now, asked⟩
    | inr kept =>
        obtain ⟨generation, text, said, _, fs, member, resolved⟩ := kept
        exact ⟨fs, member, said.trans resolved.symm⟩
  inflight := inv.inflight
  disabled := inv.disabled

theorem inv_start (enabled : Bool) (fs : FS) : Inv room resolve (start enabled fs) where
  inflight := rfl
  disabled := rfl
  stamped := PathCaches.stamped_initial enabled
  now := List.mem_singleton_self fs
  entered := nofun

theorem Inv.kept (inv : Inv room resolve s) (caches : next.caches = s.caches)
    (pending : next.pending = s.pending) (fs : next.fs = s.fs) (since : next.since = s.since)
    (handling : next.handling = none) : Inv room resolve next where
  inflight := by rw [caches, pending, inv.inflight]
  disabled := by rw [caches, pending, inv.disabled]
  stamped := by
    rw [caches]
    refine inv.stamped.imp (fun entry => ?_) fun entry => ?_
    · rw [Validated, Validated, pending, since]
      exact id
    · rw [Resolves, Resolves, pending, since]
      exact id
  now := by
    rw [fs, since]
    exact inv.now
  entered pid handled := by
    rw [handling] at handled
    cases handled

theorem Inv.finished (inv : Inv room resolve s) (caches : next.caches = s.caches.finishPathCacheMutation)
    (pending : next.pending + 1 = s.pending) (fs : next.fs = s.fs) (since : next.since = s.since)
    (handling : next.handling = none) : Inv room resolve next where
  inflight := by
    rw [caches, PathCaches.finish_mutationInflight, inv.inflight]
    omega
  disabled := by
    rw [caches, PathCaches.finish_storeDisabled, inv.disabled]
    omega
  stamped := by
    rw [caches]
    refine inv.stamped.finish.imp (fun entry ⟨quiet, _⟩ => ?_) fun entry ⟨quiet, _⟩ => ?_
    · omega
    · omega
  now := by
    rw [fs, since]
    exact inv.now
  entered pid handled := by
    rw [handling] at handled
    cases handled

theorem findTracee_insert (tracees : Tracees) (pid : Pid) (state : TraceeState) :
    findTracee (tracees.insert pid state) pid = some state := AList.lookup_insert _

theorem pending_insert (found : findTracee s.tracees pid = some state) (after : TraceeState) :
    Table.count (fun state : TraceeState => state.pendingPathCacheInvalidation)
        (s.tracees.insert pid after) + state.pendingPathCacheInvalidation.toNat =
      s.pending + after.pendingPathCacheInvalidation.toNat := by
  have counted := Table.count_insert (fun state : TraceeState => state.pendingPathCacheInvalidation)
    s.tracees pid after
  rw [findTracee] at found
  rw [found] at counted
  exact counted

theorem pending_pos (found : findTracee s.tracees pid = some state)
    (flag : state.pendingPathCacheInvalidation = true) : 0 < s.pending :=
  Table.count_pos found flag

theorem pending_addTracee {tracees : Tracees} (added : addTracee s.tracees pid = some (tracees, state)) :
    Table.count (fun state : TraceeState => state.pendingPathCacheInvalidation) tracees = s.pending := by
  rcases addTracee_spec added with ⟨_, rfl⟩ | ⟨missing, _, rfl⟩
  · rfl
  have counted := Table.count_insert (fun state : TraceeState => state.pendingPathCacheInvalidation)
    s.tracees pid freshTracee
  rw [findTracee] at missing
  rw [missing] at counted
  exact counted

/-! ## Steps -/

variable {regs : Regs} {env : Env} {tracee : Stopped}

theorem Inv.enter (inv : Inv room resolve s) (found : findTracee s.tracees pid = some state)
    (settled : pathSyscallInvalidatesCache regs.nr = true → state.pendingPathCacheInvalidation = false) :
    Inv room resolve (s.entered pid state regs) := by
  rw [Tracing.entered]
  have counted := pending_insert found (enterSyscall ⟨state, ⟨regs, regs.nr⟩, s.caches⟩ regs).state
  rw [enterSyscall_eq] at counted ⊢
  cases announced : pathSyscallInvalidatesCache regs.nr with
  | true =>
      simp only [announced, Bool.true_or, settled announced, Bool.toNat_true, Bool.toNat_false,
        Nat.add_zero, ↓reduceIte] at counted ⊢
      constructor
      · exact (PathCaches.begin_mutationInflight _).trans
          ((congrArg (· + 1) inv.inflight).trans counted.symm)
      · exact (PathCaches.begin_storeDisabled _).trans
          ((congrArg (· + 1) inv.disabled).trans counted.symm)
      · exact inv.stamped.begin
      · exact inv.now
      · intro other handling
        cases handling
        exact ⟨_, findTracee_insert _ _ _, fun _ => rfl⟩
  | false =>
      simp only [announced, Bool.false_or, Bool.false_eq_true, ↓reduceIte] at counted ⊢
      have same : Table.count (fun state : TraceeState => state.pendingPathCacheInvalidation)
          (s.tracees.insert pid { state.entered regs with
            pendingPathCacheInvalidation := state.pendingPathCacheInvalidation }) = s.pending :=
        Nat.add_right_cancel counted
      constructor
      · exact inv.inflight.trans same.symm
      · exact inv.disabled.trans same.symm
      · refine inv.stamped.imp (fun entry good => ?_) fun entry good => ?_
        · exact ⟨same.trans good.1, good.2⟩
        · exact ⟨same.trans good.1, good.2⟩
      · exact inv.now
      intro other handling
      cases handling
      refine ⟨_, findTracee_insert _ _ _, fun invalidates => ?_⟩
      have number : pathSyscallInvalidatesCache regs.nr = true := invalidates
      rw [announced] at number
      cases number

theorem Inv.leave {completed : Bool} {entered : TraceeState} (inv : Inv room resolve s)
    (handling : s.handling = some pid) (found : findTracee s.tracees pid = some entered)
    (number : state.lastNr = entered.lastNr)
    (flag : state.pendingPathCacheInvalidation = entered.pendingPathCacheInvalidation) :
    Inv room resolve (s.left pid completed state) := by
  obtain ⟨there, present, announced⟩ := inv.entered pid handling
  rw [found] at present
  cases present
  rw [← number, ← flag] at announced
  cases finished : pathSyscallInvalidatesCache state.lastNr && completed with
  | true =>
      have under : state.pendingPathCacheInvalidation = true :=
        announced (Bool.and_eq_true_iff.mp finished).1
      have counted := pending_insert found
        { state.settle with inSyscall := state.inSyscall || completed || false }
      rw [← flag, under] at counted
      refine inv.finished ?_ ?_ rfl rfl rfl
      · simp only [left, finished, ↓reduceIte]
      · simp only [left, finished, ↓reduceIte]
        exact counted
  | false =>
      have counted := pending_insert found
        { state with inSyscall := state.inSyscall || completed || state.pendingPathCacheInvalidation }
      rw [← flag] at counted
      refine inv.kept ?_ ?_ rfl rfl rfl
      · simp [left, finished]
      · simp only [left, finished, Bool.false_eq_true, ↓reduceIte]
        exact Nat.add_right_cancel counted

theorem exitSyscall_kept (registers : Bool) (scene : Scene) :
    (exitSyscall registers scene).state.pendingPathCacheInvalidation =
        scene.state.pendingPathCacheInvalidation ∧
      (exitSyscall registers scene).caches = scene.caches := by
  rw [exitSyscall]
  split
  · exact ⟨rfl, rfl⟩
  split
  · exact ⟨rfl, rfl⟩
  split
  · simp only [maybeFinishManagedMmap]
    split
    · exact ⟨rfl, rfl⟩
    · split <;> exact ⟨rfl, rfl⟩
  · exact ⟨rfl, rfl⟩

theorem Inv.exit {registers : Bool} (inv : Inv room resolve s)
    (idle : s.handling = none) (found : findTracee s.tracees pid = some state)
    (inside : state.inSyscall = true) :
    Inv room resolve (s.handled pid (syscallStop env registers ⟨state, tracee, s.caches⟩)) := by
  have counted := pending_insert found (syscallStop env registers ⟨state, tracee, s.caches⟩).state
  obtain ⟨flag, caches⟩ := exitSyscall_kept registers ⟨state, tracee, s.caches⟩
  simp only [syscallStop, inside, ↓reduceIte] at counted ⊢
  generalize exitSyscall registers ⟨state, tracee, s.caches⟩ = after at counted flag caches ⊢
  simp only at flag caches
  cases under : state.pendingPathCacheInvalidation with
  | true =>
      rw [under] at flag counted
      simp only [flag, ↓reduceIte] at counted ⊢
      refine inv.finished ?_ counted rfl rfl idle
      simp only [handled, setInSyscall, finishMutation, caches]
  | false =>
      rw [under] at flag counted
      simp only [flag, Bool.false_eq_true, ↓reduceIte] at counted ⊢
      have still : (setInSyscall after false).state.pendingPathCacheInvalidation = false := flag
      rw [still] at counted
      exact inv.kept caches counted rfl rfl idle

theorem suppressSigsys_kept (scene : Scene) (completed : Bool) :
    (suppressSigsys scene completed).state.pendingPathCacheInvalidation =
        scene.state.pendingPathCacheInvalidation ∧
      (suppressSigsys scene completed).caches = scene.caches := by
  simp only [suppressSigsys]
  split
  · exact ⟨rfl, rfl⟩
  · split <;> exact ⟨rfl, rfl⟩

theorem directEmulation_kept {after : TraceeState} {result : Reg}
    (emulated : directEmulation env regs state = some (after, result)) :
    after.pendingPathCacheInvalidation = state.pendingPathCacheInvalidation := by
  have credentials := prepareEmulatedResult_alike { state with lastNr := regs.nr, lastArgs := regs.args } regs.nr
  simp only [directEmulation] at emulated
  split at emulated
  · cases emulated
    rfl
  split at emulated
  · cases emulated
    rfl
  split at emulated
  · cases emulated
    rfl
  split at emulated
  · cases emulated
    rfl
  split at emulated
  · cases emulated
    exact credentials.pending
  split at emulated
  · cases emulated
    rfl
  split at emulated
  · cases emulated
    rfl
  · cases emulated

theorem sigsysStop_kept (env : Env) (scene : Scene) :
    (sigsysStop env scene).1.state.pendingPathCacheInvalidation =
        scene.state.pendingPathCacheInvalidation ∧
      (sigsysStop env scene).1.caches = scene.caches := by
  have blocked : (emulateBlocked env scene).1.state.pendingPathCacheInvalidation =
      scene.state.pendingPathCacheInvalidation ∧ (emulateBlocked env scene).1.caches = scene.caches := by
    rw [emulateBlocked]
    split
    · exact ⟨rfl, rfl⟩
    rename_i state result emulated
    have kept := directEmulation_kept emulated
    simp only
    split
    · exact ⟨kept, rfl⟩
    · exact ⟨kept, rfl⟩
  simp only [sigsysStop]
  split
  · exact suppressSigsys_kept scene _
  split
  · obtain ⟨flag, caches⟩ := suppressSigsys_kept (emulateBlocked env scene).1 (completedCurrent scene)
    exact ⟨flag.trans blocked.1, caches.trans blocked.2⟩
  · exact blocked

variable (inv : Inv room resolve s)

include inv

theorem Inv.sigsys (idle : s.handling = none) (found : findTracee s.tracees pid = some state) :
    Inv room resolve (s.handled pid (sigsysStop env ⟨state, tracee, s.caches⟩).1) := by
  obtain ⟨flag, caches⟩ := sigsysStop_kept env ⟨state, tracee, s.caches⟩
  have counted := pending_insert found (sigsysStop env ⟨state, tracee, s.caches⟩).1.state
  rw [flag] at counted
  exact inv.kept caches (Nat.add_right_cancel counted) rfl rfl idle

theorem Inv.gone (idle : s.handling = none) (pid : Pid) :
    Inv room resolve { s with
      tracees := (removeTracee s.tracees s.caches pid).1
      caches := (removeTracee s.tracees s.caches pid).2 } := by
  have counted := Table.count_erase (fun state : TraceeState => state.pendingPathCacheInvalidation)
    s.tracees pid
  rw [removeTracee, findTracee]
  cases found : s.tracees.lookup pid with
  | none => exact inv.kept rfl rfl rfl rfl idle
  | some state =>
      rw [found, Option.elim_some] at counted
      cases under : state.pendingPathCacheInvalidation with
      | true =>
          rw [under] at counted
          refine inv.finished ?_ counted rfl rfl idle
          simp [under]
      | false =>
          rw [under] at counted
          refine inv.kept ?_ counted rfl rfl idle
          simp [under]

theorem Inv.validate {hostPath : Text} {followFinal : Bool} {answers : Text → Except Nat Text}
    (settled : s.Settled resolve (.validate hostPath followFinal answers)) :
    Inv room resolve { s with
      caches := (validateHostPathUnderAllowed room hash answers s.caches hostPath followFinal).2 } := by
  by_cases shut : s.caches.Shut
  · rw [validateHostPath_shut shut]
    exact ⟨inv.inflight, inv.disabled, inv.stamped, inv.now, inv.entered⟩
  obtain ⟨enabled, quiet⟩ : s.caches.enabled = true ∧ s.pending = 0 := by
    rw [PathCaches.Shut, inv.inflight, inv.disabled] at shut
    constructor
    · exact Bool.not_eq_false _ ▸ fun off => shut (.inl off)
    · by_contra under
      exact shut (.inr ⟨under, under⟩)
  obtain ⟨still, steady⟩ := settled enabled quiet
  obtain rfl : answers = resolve s.fs := funext still
  have agrees : PathCaches.Agrees (resolve s.fs) s.caches := by
    intro slot current
    obtain ⟨_, fs, member, resolved⟩ := (inv.stamped.realpath slot).2 current
    exact steady fs member _ _ resolved
  have filled := @validateHostPath_filled room _ _ hash agrees hostPath followFinal
  have good : PathCaches.Filled (Validated room resolve s) (Resolves resolve s) s.caches
      (validateHostPathUnderAllowed room hash (resolve s.fs) s.caches hostPath followFinal).2 :=
    ⟨filled.frame,
      fun slot => (filled.validation slot).imp_right fun ⟨stamp, fresh⟩ =>
        ⟨stamp, quiet, s.fs, inv.now, fresh⟩,
      fun slot => (filled.realpath slot).imp_right fun ⟨stamp, fresh⟩ =>
        ⟨stamp, quiet, s.fs, inv.now, fresh⟩⟩
  constructor
  · rw [filled.frame]
    exact inv.inflight
  · rw [filled.frame]
    exact inv.disabled
  · exact inv.stamped.filled good
  · exact inv.now
  · exact inv.entered

theorem Inv.change (after : FS) :
    Inv room resolve { s with fs := after, since := after :: s.since } where
  inflight := inv.inflight
  disabled := inv.disabled
  stamped := inv.stamped.imp
    (fun _ ⟨quiet, fs, member, fresh⟩ => ⟨quiet, fs, List.mem_cons_of_mem _ member, fresh⟩)
    fun _ ⟨quiet, fs, member, fresh⟩ => ⟨quiet, fs, List.mem_cons_of_mem _ member, fresh⟩
  now := List.mem_cons_self
  entered := inv.entered

theorem Inv.mutate (found : findTracee s.tracees pid = some state)
    (under : state.pendingPathCacheInvalidation = true) (after : FS) :
    Inv room resolve { s with fs := after, since := [after] } where
  inflight := inv.inflight
  disabled := inv.disabled
  stamped := by
    have busy := pending_pos found under
    refine inv.stamped.imp (fun entry ⟨quiet, _⟩ => ?_) fun entry ⟨quiet, _⟩ => ?_
    · omega
    · omega
  now := List.mem_singleton_self after
  entered := inv.entered

omit inv

theorem Inv.step {event : TraceEvent FS} (inv : Inv room resolve s) (settled : s.Settled resolve event)
    (result : s.step room hash event = some next) : Inv room resolve next := by
  cases event with
  | firstStop pid =>
      simp only [Tracing.step] at result
      split at result
      · cases result
      rename_i free
      have idle := Option.not_isSome_iff_eq_none.mp free
      split at result
      · cases result
        exact inv.kept rfl rfl rfl rfl idle
      · rename_i tracees state added
        cases result
        exact inv.kept rfl (pending_addTracee added) rfl rfl idle
  | fork parent child =>
      simp only [Tracing.step] at result
      split at result
      · cases result
      rename_i free
      have idle := Option.not_isSome_iff_eq_none.mp free
      split at result
      · cases result
      · cases result
        exact inv.kept rfl rfl rfl rfl idle
      rename_i state tracees newState found added
      cases result
      refine inv.kept rfl ?_ rfl rfl idle
      have present := (findTracee_addTracee added child).trans (if_pos rfl)
      exact (Table.count_insert_alike present rfl).trans (pending_addTracee added)
  | enter pid regs =>
      simp only [Tracing.step] at result
      split at result
      · cases result
      split at result
      · cases result
      · rename_i state found
        cases result
        exact inv.enter found fun announced => settled announced state found
  | leave completed state =>
      simp only [Tracing.step] at result
      split at result
      · cases result
      rename_i pid handling
      split at result
      · cases result
      rename_i entered found
      split at result
      · rename_i alike
        cases result
        exact inv.leave handling found alike.1 alike.2
      · cases result
  | validate hostPath followFinal answers =>
      cases result
      exact inv.validate settled
  | exit pid env registers tracee =>
      simp only [Tracing.step] at result
      split at result
      · cases result
      rename_i free
      have idle := Option.not_isSome_iff_eq_none.mp free
      split at result
      · cases result
      rename_i state found
      split at result
      · rename_i inside
        cases result
        exact inv.exit idle found inside
      · cases result
  | sigsys pid env tracee =>
      simp only [Tracing.step] at result
      split at result
      · cases result
      rename_i free
      have idle := Option.not_isSome_iff_eq_none.mp free
      split at result
      · cases result
      · rename_i state found
        cases result
        exact inv.sigsys idle found
  | gone pid =>
      simp only [Tracing.step] at result
      split at result
      · cases result
      · rename_i free
        cases result
        exact inv.gone (Option.not_isSome_iff_eq_none.mp free) pid
  | prune dead =>
      simp only [Tracing.step] at result
      split at result
      · cases result
      rename_i free
      cases result
      refine inv.kept rfl ?_ rfl rfl (Option.not_isSome_iff_eq_none.mp free)
      exact Table.count_eraseWhere fun pid state looked gone => settled pid state looked gone
  | change after =>
      cases result
      exact inv.change after
  | mutate pid after =>
      simp only [Tracing.step] at result
      split at result
      · cases result
      rename_i state found
      split at result
      · rename_i under
        cases result
        exact inv.mutate found under after
      · cases result

/-- In a run whose steps are settled the caches are coherent. -/
theorem caches_coherent {enabled : Bool} {fs : FS}
    (reaches : Reaches (Tracing.step room hash) (Settled resolve) (start enabled fs) s) :
    Coherent room hash resolve s :=
  (reaches.invariant (Inv room resolve) (inv_start enabled fs) fun _ _ _ inv settled result =>
    inv.step settled result).coherent

section

private def silent : Env where
  svcAt := fun _ => false
  rootfsFd := 3
  rootfdRewrite := false
  candidateMmap := fun _ => false
  mmapRegs := true
  guardMemory := none
  emulateGetcwd := 0
  emulateProcSelfExeReadlinkat := none
  emulateLinkatCopy := none
  emulateRuntimeTmpSymlinkat := none
  emulateFaccessatPath := 0
  readTraceeString := fun _ => none
  writeTraceeString := fun _ _ => false
  resolveGuestHostPath := fun _ => .kept
  validateHostPathUnderAllowed := fun _ _ => 0
  validateRelativeTraceePath := fun _ _ _ => 0
  rewriteUnixSockaddrArg := fun _ => none
  rewriteExecveArg := fun _ => none
  denying := ⟨true, true⟩
  completing := ⟨true, true⟩
  setRegs := true

private def bare : Room := ⟨"/r".toList, [], false⟩

private def oneSlot : Text → Nat → Nat := fun _ _ => 0

/-- `/r/a/b` is a link out of the rootfs at first; later `/r/a` is one and has no `b`. -/
private def moved (later : Bool) (path : Text) : Except Nat Text :=
  if path = "/r/a".toList then .ok (if later then "/o".toList else path)
  else if path = "/r/a/b".toList ∧ later = false then .ok "/o".toList
  else .error ENOENT

private def renameat : Regs := ⟨fun index => if index = 8 then 38 else 0, 8192, 4096⟩

private def underWay : TraceeState :=
  { freshTracee with
    lastNr := 38
    lastArgs := renameat.args
    pendingPathCacheInvalidation := true }

private def attached : Tracing Bool := { start true false with tracees := (∅ : Tracees).insert 1 freshTracee }

private def settles : Tracing Bool → TraceEvent Bool → Bool
  | s, .enter pid _ => (findTracee s.tracees pid).all fun state => !state.pendingPathCacheInvalidation
  | _, .prune _ => false
  | _, .validate .. => false
  | _, _ => true

private theorem settled_of_settles (s : Tracing Bool) (event : TraceEvent Bool)
    (checked : settles s event = true) : s.Settled moved event := by
  cases event with
  | enter pid regs =>
      intro _ state found
      simpa [settles, found] using checked
  | prune dead => cases checked
  | validate hostPath followFinal answers => cases checked
  | _ => trivial

/-- The result of a check is forgotten at the renameat that makes it wrong. -/
theorem caches_coherent_rename : ∃ first last,
    (start true false).step bare oneSlot (.validate "/r/a".toList true (moved false)) = some first ∧
      first.caches.pathValidationCacheGet oneSlot "/r/a".toList true = some 0 ∧
      Reaches (Tracing.step bare oneSlot) (Settled moved) (start true false) last ∧
      last.caches.pathValidationCacheGet oneSlot "/r/a".toList true = none ∧
      Coherent bare oneSlot moved last := by
  obtain ⟨first, checked⟩ : ∃ first,
      (start true false).step bare oneSlot (.validate "/r/a".toList true (moved false)) = some first :=
    ⟨_, rfl⟩
  have settled : (start true false).Settled moved (.validate "/r/a".toList true (moved false)) := by
    refine fun _ _ => ⟨fun _ => rfl, fun fs member path resolved said => ?_⟩
    rw [List.mem_singleton.mp member] at said
    exact said
  obtain ⟨last, ran⟩ : ∃ last, runAll (Tracing.step bare oneSlot) settles first
      [.firstStop 1, .enter 1 renameat, .leave false underWay, .mutate 1 true,
        .exit 1 silent true ⟨renameat, 38⟩] = some last := by
    cases checked
    exact ⟨_, rfl⟩
  have reaches := reaches_of_runAll settled_of_settles _ (.step .refl settled checked) ran
  refine ⟨first, last, checked, ?_, reaches, ?_, caches_coherent reaches⟩
  · cases checked
    decide
  · cases checked
    cases ran
    decide

private def anyTraceEvent : Tracing Bool → TraceEvent Bool → Bool := fun _ _ => true

/-- The tracee of a renameat is pruned; a second thread takes its process id in an
execve and makes a renameat of its own; a path is resolved on the way from one state
of the file system to another. -/
theorem caches_incoherent :
    (∃ last, Reaches (Tracing.step bare oneSlot) (fun _ _ => True) (start true false) last ∧
      last.tracees.entries.length = 0 ∧ last.caches.mutationInflight = 1 ∧
      ¬ Coherent bare oneSlot moved last) ∧
    (∃ last, Reaches (Tracing.step bare oneSlot) (fun _ _ => True) (start true false) last ∧
      last.tracees.entries.length = 1 ∧ last.pending = 0 ∧ last.caches.mutationInflight = 1 ∧
      ¬ Coherent bare oneSlot moved last) ∧
    (∃ last, Reaches (Tracing.step bare oneSlot) (fun _ _ => True) (start true false) last ∧
      last.since = [true, false] ∧
      last.caches.pathValidationCacheGet oneSlot "/r/a/b".toList true = some 0 ∧
      freshValidation bare (moved true) "/r/a/b".toList true = -18 ∧
      ¬ Coherent bare oneSlot moved last) := by
  have anything : ∀ (s : Tracing Bool) event, anyTraceEvent s event = true → True := fun _ _ _ => trivial
  refine ⟨?_, ?_, ?_⟩
  · obtain ⟨last, ran⟩ : ∃ last, runAll (Tracing.step bare oneSlot) anyTraceEvent (start true false)
        [.firstStop 1, .enter 1 renameat, .leave false underWay, .prune fun _ => true] = some last :=
      ⟨_, rfl⟩
    have reaches := reaches_of_runAll anything _ .refl ran
    refine ⟨last, reaches, ?_, ?_, fun coherent => ?_⟩
    · cases ran
      decide
    · cases ran
      decide
    · have counted := coherent.inflight
      cases ran
      exact absurd counted (by decide)
  · obtain ⟨last, ran⟩ : ∃ last, runAll (Tracing.step bare oneSlot) anyTraceEvent (start true false)
        [.firstStop 1, .enter 1 renameat, .leave false underWay, .enter 1 renameat, .leave false underWay,
          .exit 1 silent true ⟨renameat, 38⟩] = some last := ⟨_, rfl⟩
    have reaches := reaches_of_runAll anything _ .refl ran
    refine ⟨last, reaches, ?_, ?_, ?_, fun coherent => ?_⟩
    · cases ran
      decide
    · cases ran
      decide
    · cases ran
      decide
    · have counted := coherent.inflight
      cases ran
      exact absurd counted (by decide)
  · obtain ⟨last, ran⟩ : ∃ last, runAll (Tracing.step bare oneSlot) anyTraceEvent (start true false)
        [.validate "/r/a".toList true (moved false), .change true,
          .validate "/r/a/b".toList true (moved true)] = some last := ⟨_, rfl⟩
    have reaches := reaches_of_runAll anything _ .refl ran
    have found : last.caches.pathValidationCacheGet oneSlot "/r/a/b".toList true = some 0 := by
      cases ran
      decide
    have times : last.since = [true, false] := by
      cases ran
      decide
    refine ⟨last, reaches, times, found, by decide, fun coherent => ?_⟩
    obtain ⟨fs, _, fresh⟩ := coherent.validation _ _ _ found
    have never : ∀ later, freshValidation bare (moved later) "/r/a/b".toList true ≠ 0 := by decide
    exact never fs fresh

end

end Tracing

end PDocker.Direct
