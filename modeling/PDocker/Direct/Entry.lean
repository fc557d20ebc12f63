import PDocker.Posix.Path
import PDocker.Direct.PathCache
import PDocker.Direct.Tracee

/-!
# Entry into a system call

`handle_syscall_entry` and what it calls: which system calls the tracer answers
itself, how it rewrites or denies their paths, and how it makes the kernel skip
a call. What the tracer learns from outside (memory of the tracee, the file
system, the answers to its own requests) is a record of its own.

A path argument is named by the number of its register. The context of a path
is the number of the system call.
-/

set_option autoImplicit false

namespace PDocker.Direct

open Data (Text)
open Posix (splitSlash dot dotdot)

def ENOSYS : Nat := 38
def ENOMEM : Nat := 12

def syscallEmulateSuccess (nr : Int) : Bool :=
  nr ∈ [99, 174, 175, 176, 177, 54, 55, 143, 144, 145, 146, 147, 148, 149, 150, 151, 152, 159, 293]

def syscallEmulateErrno (nr : Int) : Option Nat :=
  if 235 ≤ nr ∧ nr ≤ 239 ∨ nr = 450 then some ENOSYS else none

def syscallCompletedInUserland (nr : Int) : Bool :=
  nr ∈ [17, 36, 37, 48, 78, 425, 426, 427, 439] || (syscallEmulateErrno nr).isSome ||
    syscallEmulateSuccess nr

def isMemoryTraceSyscall (nr : Int) : Bool := nr ∈ [214, 215, 216, 222, 226, 233]

def pathSyscallInvalidatesCache (nr : Int) : Bool := nr ∈ [33, 35, 36, 37, 38, 276]

/-- All but unlinkat, symlinkat, mkdirat and mknodat. -/
def pathContextFollowsFinalComponent (context : Int) : Bool := context ∉ [35, 36, 34, 33]

structure Stopped where
  regs : Regs
  syscallno : Int

structure Reply where
  number : Bool
  regs : Bool

/-- `int` -/
abbrev CInt := BitVec 32

def EXDEV : CInt := 18

def CInt.negative (value : CInt) : Bool := value.slt 0

/-- `(int)value` -/
def toInt32 (value : Reg) : CInt := value.setWidth 32

/-- `-ENAMETOOLONG` -/
def nameTooLong : CInt := -36

/-- The outcome of `resolve_guest_host_path`: 0, `-ENAMETOOLONG`, or 1. -/
inductive Resolved
  | kept
  | tooLong
  | host (path : Text) (bind : Bool)

structure Env where
  /-- the word at an address is `svc #0` -/
  svcAt : Reg → Bool
  rootfsFd : CInt
  rootfdRewrite : Bool
  /-- `managed_trace_is_candidate_mmap` -/
  candidateMmap : Args → Bool
  mmapRegs : Bool
  /-- the result with which `maybe_guard_memory_syscall` denies -/
  guardMemory : Option Reg
  emulateGetcwd : Reg
  emulateProcSelfExeReadlinkat : Option Reg
  emulateLinkatCopy : Option Reg
  emulateRuntimeTmpSymlinkat : Option Reg
  emulateFaccessatPath : Reg
  readTraceeString : Reg → Option Text
  writeTraceeString : Reg → Text → Bool
  resolveGuestHostPath : Text → Resolved
  validateHostPathUnderAllowed : Text → Bool → CInt
  validateRelativeTraceePath : CInt → Text → Bool → CInt
  rewriteUnixSockaddrArg : Regs → Option Regs
  rewriteExecveArg : Regs → Option (Regs × Text)
  denying : Reply
  completing : Reply
  setRegs : Bool

def maybeAdvancePastSvc (env : Env) (regs : Regs) : Regs :=
  if env.svcAt regs.pc then { regs with pc := regs.pc + 4 } else regs

def completeEmulatedSyscall (env : Env) (reply : Reply) (regs : Regs) (tracee : Stopped)
    (result : Reg) : Bool × Regs × Stopped :=
  let regs := (regs.setX 0 result).setX 8 0xffffffffffffffff
  if !reply.number then (false, regs, tracee)
  else
    let regs := maybeAdvancePastSvc env regs
    if reply.regs then (true, regs, ⟨regs, -1⟩) else (false, regs, { tracee with syscallno := -1 })

/-! ## Paths -/

/-- `normalize_guest_path`, up to 256 components in buffers of `PATH_MAX`. -/
def normalizeGuestPath (base path : Text) : Text :=
  let base := if base = [] then ['/'] else base
  if path = [] then base.take 4095
  else
    let combined := (if path.head? = some '/' then path else base ++ '/' :: path).take 4095
    let push (parts : List Text) (part : Text) : List Text :=
      if 256 ≤ parts.length ∨ part = [] ∨ part = dot then parts
      else if part = dotdot then parts.dropLast
      else parts ++ [part]
    let parts := (splitSlash combined).foldl push []
    ('/' :: List.intercalate ['/'] parts).take 4095

def pathHasParentSegment (path : Text) : Bool := (splitSlash path).contains dotdot

/-- A step of the path rewriting: `rc` is nonzero when registers changed, 2 when the
call was denied, `denied` the result of a `deny_path_syscall` that was reached. -/
structure Rewrite where
  rc : Nat
  regs : Regs
  tracee : Stopped
  denied : Option Reg

def REWRITE_SYSCALL_COMPLETED : Nat := 2

def keepPath (regs : Regs) (tracee : Stopped) : Rewrite := ⟨0, regs, tracee, none⟩

def denyPathSyscall (env : Env) (regs : Regs) (tracee : Stopped) (err : CInt) : Rewrite :=
  let result : Reg := (if err.negative then err else EXDEV).signExtend 64
  let (done, regs, tracee) := completeEmulatedSyscall env env.denying regs tracee result
  ⟨if done then REWRITE_SYSCALL_COMPLETED else 0, regs, tracee, some result⟩

/-- `(regs->sp - offset) & ~15` -/
def scratchAddr (regs : Regs) (offset : Nat) : Reg :=
  (regs.sp - BitVec.ofNat 64 offset) &&& ~~~(15 : Reg)

def writeScratch (env : Env) (regs : Regs) (tracee : Stopped) (index offset : Nat) (path : Text) : Rewrite :=
  let scratch := scratchAddr regs offset
  if env.writeTraceeString scratch path then ⟨1, regs.setX index scratch, tracee, none⟩
  else keepPath regs tracee

def rewritePathArgScratch (env : Env) (regs : Regs) (tracee : Stopped) (argIndex offset : Nat) : Rewrite :=
  match env.readTraceeString (regs.x argIndex) with
  | none => keepPath regs tracee
  | some original =>
      match env.resolveGuestHostPath original with
      | .kept => keepPath regs tracee
      | .tooLong => keepPath regs tracee
      | .host rewritten _ =>
          let rc := env.validateHostPathUnderAllowed rewritten true
          if rc.negative then denyPathSyscall env regs tracee rc
          else writeScratch env regs tracee argIndex offset rewritten

def rewriteAtPathArg (env : Env) (regs : Regs) (tracee : Stopped) (dirfdIndex pathIndex : Nat)
    (context : Int) (offset : Nat) : Rewrite :=
  match env.readTraceeString (regs.x pathIndex) with
  | none => keepPath regs tracee
  | some [] => keepPath regs tracee
  | some (first :: rest) =>
      let original := first :: rest
      let followFinal := pathContextFollowsFinalComponent context
      if first ≠ '/' then
        let rc := env.validateRelativeTraceePath (toInt32 (regs.x dirfdIndex)) original followFinal
        if rc.negative then denyPathSyscall env regs tracee rc else keepPath regs tracee
      else
        match env.resolveGuestHostPath original with
        | .kept => keepPath regs tracee
        | .tooLong => denyPathSyscall env regs tracee nameTooLong
        | .host rewritten bind =>
            let rc := env.validateHostPathUnderAllowed rewritten followFinal
            if rc.negative then denyPathSyscall env regs tracee rc
            else if !bind && env.rootfdRewrite && !env.rootfsFd.negative &&
                rest.head? ≠ none && rest.head? ≠ some '/' && !pathHasParentSegment original then
              let regs := regs.setX dirfdIndex (env.rootfsFd.signExtend 64)
              ⟨1, regs.setX pathIndex (regs.x pathIndex + 1), tracee, none⟩
            else writeScratch env regs tracee pathIndex offset rewritten

def rewritePathArg (env : Env) (regs : Regs) (tracee : Stopped) (argIndex : Nat) : Rewrite :=
  rewritePathArgScratch env regs tracee argIndex 8192

def rewriteAtPathArgs (env : Env) (regs : Regs) (tracee : Stopped)
    (dirfdA pathA dirfdB pathB : Nat) (context : Int) : Rewrite :=
  let first := rewriteAtPathArg env regs tracee dirfdA pathA context 16384
  if first.rc = REWRITE_SYSCALL_COMPLETED then first
  else
    let second := rewriteAtPathArg env first.regs first.tracee dirfdB pathB context 8192
    { second with
      rc := if second.rc = REWRITE_SYSCALL_COMPLETED then second.rc else first.rc ||| second.rc
      denied := second.denied <|> first.denied }

def rewriteChdirArg (env : Env) (regs : Regs) (tracee : Stopped) (state : TraceeState) :
    Rewrite × TraceeState :=
  let state :=
    match env.readTraceeString (regs.x 0) with
    | none => state
    | some original =>
        { state with pendingGuestCwd := normalizeGuestPath state.guestCwd original }
  (rewritePathArg env regs tracee 0, state)

/-- The cases of `setxattr` and its like, and those of the calls on a directory
descriptor and a path. -/
def xattrCases : List Int := [5, 6, 8, 9, 11, 12, 14, 15]
def atPathCases : List Int := [33, 34, 35, 48, 53, 54, 56, 79, 88, 291, 437, 439]

def rewriteSyscallPaths (env : Env) (regs : Regs) (tracee : Stopped) (state : TraceeState) (nr : Int) :
    Rewrite × TraceeState :=
  if nr ∈ xattrCases then (rewritePathArg env regs tracee 0, state)
  else if nr ∈ atPathCases then
    (rewriteAtPathArg env regs tracee 0 1 nr 8192, state)
  else if nr = 78 then (rewritePathArg env regs tracee 1, state)
  else if nr = 36 then (rewriteAtPathArg env regs tracee 1 2 nr 8192, state)
  else if nr = 37 then (rewriteAtPathArgs env regs tracee 0 1 2 3 nr, state)
  else if nr = 38 ∨ nr = 276 then (rewriteAtPathArgs env regs tracee 0 1 2 3 nr, state)
  else if nr = 43 then (rewritePathArg env regs tracee 0, state)
  else if nr = 49 then rewriteChdirArg env regs tracee state
  else if nr = 200 ∨ nr = 203 then
    match env.rewriteUnixSockaddrArg regs with
    | none => (keepPath regs tracee, state)
    | some regs => (⟨1, regs, tracee, none⟩, state)
  else if nr = 221 then
    match env.rewriteExecveArg regs with
    | none => (keepPath regs tracee, state)
    | some (regs, guest) => (⟨1, regs, tracee, none⟩, { state with execGuestPath := guest })
  else if nr = 281 then (rewriteAtPathArg env regs tracee 0 1 nr 8192, state)
  else (keepPath regs tracee, state)

def syscallRemapNumber (nr : Int) : Int := nr

structure Scene where
  state : TraceeState
  tracee : Stopped
  caches : PathCaches

def TraceeState.entered (state : TraceeState) (regs : Regs) : TraceeState :=
  { state with lastNr := regs.nr, lastArgs := regs.args }

/-- The head of the handler: the number and the arguments are noted, and a call that
changes paths is announced to the caches. -/
def enterSyscall (scene : Scene) (regs : Regs) : Scene :=
  let state := scene.state.entered regs
  if pathSyscallInvalidatesCache state.lastNr then
    { scene with
      state := { state with pendingPathCacheInvalidation := true }
      caches := scene.caches.beginPathCacheMutation }
  else { scene with state }

def TraceeState.settle (state : TraceeState) : TraceeState :=
  { state with pendingPathCacheInvalidation := false }

def finishMutation (scene : Scene) : Scene :=
  { scene with state := scene.state.settle, caches := scene.caches.finishPathCacheMutation }

/-- The registers and the record after `maybe_prepare_managed_mmap`. -/
def maybePrepareManagedMmap (env : Env) (regs : Regs) (scene : Scene) : Regs × Scene :=
  let state := scene.state
  if state.lastNr ≠ 222 then (regs, scene)
  else if !env.candidateMmap state.lastArgs then
    (regs, { scene with state := { state with managedPendingLen := 0 } })
  else
    let regs := regs.setX 2 0
    if env.mmapRegs then
      (regs, { scene with
        state := { state with managedPendingLen := state.lastArgs 1 }
        tracee := { scene.tracee with regs } })
    else (regs, { scene with state := { state with managedPendingLen := 0 } })

def forcedEmulation (env : Env) (regs : Regs) (state : TraceeState) : Option Reg :=
  let nr := state.lastNr
  match if state.managedPendingLen = 0 ∧ isMemoryTraceSyscall nr then env.guardMemory else none with
  | some result => some result
  | none =>
      if nr = 17 then some env.emulateGetcwd
      else if nr = 78 then env.emulateProcSelfExeReadlinkat
      else if 425 ≤ nr ∧ nr ≤ 427 then some (negErrno ENOSYS)
      else if nr = 57 ∧ toInt32 (regs.x 0) = env.rootfsFd then some 0
      else if nr = 37 then env.emulateLinkatCopy
      else if nr = 36 then env.emulateRuntimeTmpSymlinkat
      else if nr = 48 ∨ nr = 439 then some env.emulateFaccessatPath
      else none

def complete (env : Env) (regs : Regs) (scene : Scene) (result : Reg) : Bool × Scene :=
  let state := { scene.state with emulatedResult := result }
  let (done, _, tracee) := completeEmulatedSyscall env env.completing regs scene.tracee result
  (done, { scene with
    state := if done then { state with emulatedNr := state.lastNr } else state
    tracee })

def serveSyscall (env : Env) (regs : Regs) (scene : Scene) : Bool × Scene × Option Reg :=
  match forcedEmulation env regs scene.state with
  | some result =>
      let (done, scene) := complete env regs scene result
      (done, scene, none)
  | none =>
      let nr := scene.state.lastNr
      let (rewrite, state) := rewriteSyscallPaths env regs scene.tracee scene.state nr
      let scene := { scene with state, tracee := rewrite.tracee }
      let remapped := syscallRemapNumber nr ≠ nr
      let regs :=
        if remapped then rewrite.regs.setX 8 (BitVec.ofInt 64 (syscallRemapNumber nr)) else rewrite.regs
      match syscallEmulateErrno nr with
      | some err =>
          let (done, scene) := complete env regs scene (negErrno err)
          (done, scene, rewrite.denied)
      | none =>
          if syscallEmulateSuccess nr then
            let prepared := prepareEmulatedResult state nr
            let (done, scene) := complete env regs { scene with state := prepared.1 } prepared.2.1
            (done, scene, rewrite.denied)
          else if (rewrite.rc ≠ 0 ∨ remapped) ∧ env.setRegs then
            (false, { scene with tracee := { scene.tracee with regs } }, rewrite.denied)
          else (false, scene, rewrite.denied)

/-- `handle_syscall_entry`: whether the call was completed in userland, the scene, and
the result of a denial that was reached. -/
def handleSyscallEntry (env : Env) (scene : Scene) : Bool × Scene × Option Reg :=
  let regs := scene.tracee.regs
  let (regs, scene) := maybePrepareManagedMmap env regs (enterSyscall scene regs)
  let (done, scene, denied) := serveSyscall env regs scene
  if pathSyscallInvalidatesCache scene.state.lastNr ∧ done then (done, finishMutation scene, denied)
  else (done, scene, denied)

/-! ## What the handler keeps -/

variable (scene : Scene) (state : TraceeState)

theorem enterSyscall_eq (regs : Regs) :
    enterSyscall scene regs =
      { tracee := scene.tracee
        state := { scene.state.entered regs with
          pendingPathCacheInvalidation :=
            pathSyscallInvalidatesCache regs.nr || scene.state.pendingPathCacheInvalidation }
        caches :=
          if pathSyscallInvalidatesCache regs.nr then scene.caches.beginPathCacheMutation
          else scene.caches } := by
  cases invalidates : pathSyscallInvalidatesCache regs.nr <;>
    simp [enterSyscall, TraceeState.entered, invalidates]

theorem enterSyscall_lastNr (regs : Regs) :
    (enterSyscall scene regs).state.lastNr = regs.nr := by
  rw [enterSyscall_eq]
  rfl

structure TraceeState.Alike (before after : TraceeState) : Prop where
  inSyscall : after.inSyscall = before.inSyscall
  lastNr : after.lastNr = before.lastNr
  emulatedNr : after.emulatedNr = before.emulatedNr
  lastEmulatedNr : after.lastEmulatedNr = before.lastEmulatedNr
  pending : after.pendingPathCacheInvalidation = before.pendingPathCacheInvalidation

theorem TraceeState.Alike.refl : state.Alike state := ⟨rfl, rfl, rfl, rfl, rfl⟩

theorem TraceeState.Alike.trans {first second third : TraceeState} (left : first.Alike second)
    (right : second.Alike third) : first.Alike third :=
  ⟨right.inSyscall.trans left.inSyscall, right.lastNr.trans left.lastNr,
    right.emulatedNr.trans left.emulatedNr, right.lastEmulatedNr.trans left.lastEmulatedNr,
    right.pending.trans left.pending⟩

theorem prepareEmulatedResult_alike (nr : Int) :
    state.Alike (prepareEmulatedResult state nr).1 := by
  unfold prepareEmulatedResult
  split <;> exact ⟨rfl, rfl, rfl, rfl, rfl⟩

theorem rewriteSyscallPaths_alike (env : Env) (regs : Regs) (tracee : Stopped) (state : TraceeState)
    (nr : Int) : state.Alike (rewriteSyscallPaths env regs tracee state nr).2 := by
  have same := TraceeState.Alike.refl state
  have either : ∀ {c : Prop} [Decidable c] {left right : Rewrite × TraceeState},
      state.Alike left.2 → state.Alike right.2 → state.Alike (if c then left else right).2 := by
    intro c _ left right first second
    split
    · exact first
    · exact second
  rw [rewriteSyscallPaths]
  refine either same (either same (either same (either same (either same (either same (either same
    (either ?_ (either ?_ (either ?_ (either same same))))))))))
  · rw [rewriteChdirArg]
    cases env.readTraceeString (regs.x 0) <;> exact ⟨rfl, rfl, rfl, rfl, rfl⟩
  · cases env.rewriteUnixSockaddrArg regs <;> exact same
  · cases env.rewriteExecveArg regs <;> exact ⟨rfl, rfl, rfl, rfl, rfl⟩

theorem maybePrepareManagedMmap_alike (env : Env) (regs : Regs) (scene : Scene) :
    scene.state.Alike (maybePrepareManagedMmap env regs scene).2.state := by
  simp only [maybePrepareManagedMmap]
  split
  · exact .refl _
  · split
    · exact ⟨rfl, rfl, rfl, rfl, rfl⟩
    · split <;> exact ⟨rfl, rfl, rfl, rfl, rfl⟩

structure Stopped.Completed (tracee : Stopped) (result : Reg) : Prop where
  result : tracee.regs.x 0 = result
  number : tracee.regs.x 8 = 0xffffffffffffffff
  skipped : tracee.syscallno = -1

variable {env : Env} {regs : Regs} {result : Reg}

theorem completeEmulatedSyscall_done {reply : Reply} {after : Regs} {tracee left : Stopped}
    (done : completeEmulatedSyscall env reply regs tracee result = (true, after, left)) :
    left.Completed result := by
  simp only [completeEmulatedSyscall] at done
  split at done
  · cases done
  split at done
  · cases done
    constructor
    · rw [maybeAdvancePastSvc]
      split <;> rfl
    · rw [maybeAdvancePastSvc]
      split <;> rfl
    · rfl
  · cases done

theorem complete_spec (env : Env) (regs : Regs) (scene : Scene) (result : Reg) :
    (complete env regs scene result).2.caches = scene.caches ∧
      ((complete env regs scene result).1 = false ∧
          (complete env regs scene result).2.state = { scene.state with emulatedResult := result } ∨
        (complete env regs scene result).1 = true ∧
          (complete env regs scene result).2.state =
            { scene.state with emulatedResult := result, emulatedNr := scene.state.lastNr } ∧
          (complete env regs scene result).2.tracee.Completed result) := by
  refine ⟨rfl, ?_⟩
  simp only [complete]
  generalize completed_def : completeEmulatedSyscall env env.completing regs scene.tracee result = completed
  obtain ⟨done, after, left⟩ := completed
  cases done with
  | false => exact .inl ⟨rfl, rfl⟩
  | true => exact .inr ⟨rfl, rfl, completeEmulatedSyscall_done completed_def⟩

theorem forcedEmulation_nonneg {state : TraceeState}
    (forced : forcedEmulation env regs state = some result) : 0 ≤ state.lastNr := by
  by_contra negative
  have free : forcedEmulation env regs state = none := by
    have noMemory : isMemoryTraceSyscall state.lastNr = false := by
      simp only [isMemoryTraceSyscall, decide_eq_false_iff_not, List.mem_cons, List.not_mem_nil, or_false]
      omega
    have others : state.lastNr ≠ 17 ∧ state.lastNr ≠ 78 ∧ ¬ (425 ≤ state.lastNr ∧ state.lastNr ≤ 427) ∧
        state.lastNr ≠ 57 ∧ state.lastNr ≠ 37 ∧ state.lastNr ≠ 36 ∧
        ¬ (state.lastNr = 48 ∨ state.lastNr = 439) := by omega
    obtain ⟨getcwd, readlinkat, ioUring, close, linkat, symlinkat, faccessat⟩ := others
    simp [forcedEmulation, noMemory, getcwd, readlinkat, ioUring, close, linkat, symlinkat, faccessat]
  rw [free] at forced
  cases forced

theorem syscallEmulateErrno_nonneg {nr : Int} {err : Nat} (errno : syscallEmulateErrno nr = some err) :
    0 ≤ nr := by
  rw [syscallEmulateErrno] at errno
  split at errno
  · omega
  · cases errno

theorem syscallEmulateSuccess_nonneg {nr : Int} (success : syscallEmulateSuccess nr = true) : 0 ≤ nr := by
  simp only [syscallEmulateSuccess, decide_eq_true_eq, List.mem_cons, List.not_mem_nil, or_false] at success
  omega

/-- A call that was served: completed with a result for its number, or left to the
kernel. -/
inductive Served (before : TraceeState) (after : Scene) : Bool → Prop
  | left (alike : before.Alike after.state) : Served before after false
  | completed {middle : TraceeState} (alike : before.Alike middle) (result : Reg)
      (state : after.state = { middle with emulatedResult := result, emulatedNr := middle.lastNr })
      (nonneg : 0 ≤ middle.lastNr) (tracee : after.tracee.Completed result) : Served before after true

theorem served_of_complete {scene : Scene} {before : TraceeState}
    (alike : before.Alike scene.state) (nonneg : 0 ≤ scene.state.lastNr) :
    Served before (complete env regs scene result).2 (complete env regs scene result).1 := by
  obtain ⟨_, ⟨failed, state⟩ | ⟨done, state, tracee⟩⟩ := complete_spec env regs scene result
  · rw [failed]
    refine .left ?_
    rw [state]
    exact ⟨alike.inSyscall, alike.lastNr, alike.emulatedNr, alike.lastEmulatedNr, alike.pending⟩
  · rw [done]
    exact .completed alike result state nonneg tracee

theorem serveSyscall_served (env : Env) (regs : Regs) (scene : Scene) :
    Served scene.state (serveSyscall env regs scene).2.1 (serveSyscall env regs scene).1 ∧
      (serveSyscall env regs scene).2.1.caches = scene.caches := by
  rw [serveSyscall]
  split
  · rename_i result forced
    exact ⟨served_of_complete (.refl _) (forcedEmulation_nonneg forced), rfl⟩
  have alike := rewriteSyscallPaths_alike env regs scene.tracee scene.state scene.state.lastNr
  simp only
  split
  · rename_i err errno
    refine ⟨served_of_complete alike ?_, rfl⟩
    have nonneg := syscallEmulateErrno_nonneg errno
    rwa [← alike.lastNr] at nonneg
  split
  · rename_i success
    have prepared := alike.trans (prepareEmulatedResult_alike
      (rewriteSyscallPaths env regs scene.tracee scene.state scene.state.lastNr).2 scene.state.lastNr)
    refine ⟨served_of_complete prepared ?_, rfl⟩
    have nonneg := syscallEmulateSuccess_nonneg success
    rwa [← prepared.lastNr] at nonneg
  · split
    · exact ⟨.left alike, rfl⟩
    · exact ⟨.left alike, rfl⟩

structure EntrySpec (scene : Scene) (done : Bool) (after : Scene) : Prop where
  inSyscall : after.state.inSyscall = scene.state.inSyscall
  lastNr : after.state.lastNr = scene.tracee.regs.nr
  lastEmulatedNr : after.state.lastEmulatedNr = scene.state.lastEmulatedNr
  left : done = false → after.state.emulatedNr = scene.state.emulatedNr
  emulated : done = true → after.state.emulatedNr = scene.tracee.regs.nr ∧ 0 ≤ scene.tracee.regs.nr
  completed : done = true → after.tracee.Completed after.state.emulatedResult
  pending : scene.state.pendingPathCacheInvalidation = false →
    after.state.pendingPathCacheInvalidation =
      (pathSyscallInvalidatesCache scene.tracee.regs.nr && !done)
  caches : after.caches =
    let entered := (enterSyscall scene scene.tracee.regs).caches
    if pathSyscallInvalidatesCache scene.tracee.regs.nr && done then entered.finishPathCacheMutation
    else entered

theorem handleSyscallEntry_spec (env : Env) (scene : Scene) :
    EntrySpec scene (handleSyscallEntry env scene).1 (handleSyscallEntry env scene).2.1 := by
  simp only [handleSyscallEntry]
  have entered := enterSyscall_eq scene scene.tracee.regs
  have alike := maybePrepareManagedMmap_alike env scene.tracee.regs (enterSyscall scene scene.tracee.regs)
  have caches : (maybePrepareManagedMmap env scene.tracee.regs
      (enterSyscall scene scene.tracee.regs)).2.caches = (enterSyscall scene scene.tracee.regs).caches := by
    simp only [maybePrepareManagedMmap]
    split
    · rfl
    · split
      · rfl
      · split <;> rfl
  generalize maybePrepareManagedMmap env scene.tracee.regs (enterSyscall scene scene.tracee.regs) =
    prepared at alike caches ⊢
  obtain ⟨regs, ready⟩ := prepared
  obtain ⟨served, kept⟩ := serveSyscall_served env regs ready
  simp only
  generalize serveSyscall env regs ready = outcome at served kept ⊢
  obtain ⟨done, after, denied⟩ := outcome
  simp only at alike caches served kept ⊢
  have last : ready.state.lastNr = scene.tracee.regs.nr := by
    rw [alike.lastNr, entered]
    rfl
  have pendingReady : ready.state.pendingPathCacheInvalidation =
      (pathSyscallInvalidatesCache scene.tracee.regs.nr || scene.state.pendingPathCacheInvalidation) := by
    rw [alike.pending, entered]
  have inside : ready.state.inSyscall = scene.state.inSyscall := by
    rw [alike.inSyscall, entered]
    rfl
  have emulatedReady : ready.state.emulatedNr = scene.state.emulatedNr := by
    rw [alike.emulatedNr, entered]
    rfl
  have lastEmulatedReady : ready.state.lastEmulatedNr = scene.state.lastEmulatedNr := by
    rw [alike.lastEmulatedNr, entered]
    rfl
  cases served with
  | left same =>
      simp only [Bool.false_eq_true, and_false, ↓reduceIte]
      refine ⟨same.inSyscall.trans inside, same.lastNr.trans last,
        same.lastEmulatedNr.trans lastEmulatedReady, fun _ => same.emulatedNr.trans emulatedReady, nofun,
        nofun, fun settled => ?_, ?_⟩
      · rw [same.pending, pendingReady, settled]
        simp
      · rw [kept, caches]
        simp
  | @completed middle same result state nonneg tracee =>
      have lastMiddle : middle.lastNr = scene.tracee.regs.nr := same.lastNr.trans last
      have lastAfter : after.state.lastNr = scene.tracee.regs.nr := by
        rw [state]
        exact lastMiddle
      rw [lastAfter]
      have fields : after.state.inSyscall = scene.state.inSyscall ∧
          after.state.lastEmulatedNr = scene.state.lastEmulatedNr ∧
          after.state.emulatedNr = scene.tracee.regs.nr ∧ after.state.emulatedResult = result ∧
          after.state.pendingPathCacheInvalidation = ready.state.pendingPathCacheInvalidation := by
        rw [state]
        exact ⟨same.inSyscall.trans inside, same.lastEmulatedNr.trans lastEmulatedReady, lastMiddle, rfl,
          same.pending⟩
      obtain ⟨insideAfter, lastEmulated, emulated, stored, pending⟩ := fields
      rw [lastMiddle] at nonneg
      cases invalidates : pathSyscallInvalidatesCache scene.tracee.regs.nr with
      | true =>
          simp only [and_self, ↓reduceIte, finishMutation, TraceeState.settle]
          refine ⟨insideAfter, lastAfter, lastEmulated, nofun, fun _ => ⟨emulated, nonneg⟩, fun _ => ?_,
            fun _ => ?_, ?_⟩
          · simpa [stored] using tracee
          · simp
          · simp [invalidates, kept, caches]
      | false =>
          simp only [Bool.false_eq_true, false_and, ↓reduceIte]
          refine ⟨insideAfter, lastAfter, lastEmulated, nofun, fun _ => ⟨emulated, nonneg⟩, fun _ => ?_,
            fun settled => ?_, ?_⟩
          · rw [stored]
            exact tracee
          · rw [pending, pendingReady, settled, invalidates]
            rfl
          · simp [invalidates, kept, caches]

end PDocker.Direct
