import PDocker.Direct.Stops

/-!
# Denied path system calls

What becomes of a path system call that `deny_path_syscall` refuses: the rest of
`handle_syscall_entry`, the kernel, and the stops up to the return of the call.
-/

set_option autoImplicit false

namespace PDocker.Direct

open Data (Text)

/-- A call that has returned: the number that the kernel performed (-1 for none), and
whether it ended in SIGSYS. -/
structure Handled where
  scene : Scene
  performed : Int
  signalled : Bool

/-- Every stop is a `PTRACE_SYSCALL` stop, and the platform's filter sees the number
that the tracer leaves. -/
def fullCall (platform : Platform) (entry trap : Env) (registers : Bool) (scene : Scene) : Handled :=
  let entered := syscallStop entry registers scene
  let (tracee, trapped) := platform.act (scene.tracee.regs.x 0) entered.tracee
  let exited := syscallStop trap registers { entered with tracee }
  if trapped then
    let (after, suppressed) := sigsysStop trap exited
    ⟨after, -1, !suppressed⟩
  else ⟨exited, entered.tracee.syscallno, false⟩

def selectiveCall (platform : Platform) (entry : Env) (traceMemory registers : Bool) (scene : Scene) :
    Handled :=
  let (entered, toExit) := seccompStop entry traceMemory scene
  let returned :=
    if entered.tracee.syscallno = -1 then entered else entered.setResult (platform.returns entered.tracee)
  let after := if toExit then syscallStop entry registers returned else returned
  ⟨after, entered.tracee.syscallno, false⟩

/-- The tracee sees the error, the kernel has done nothing, and neither counters nor
pending fields are other than before. -/
structure Handled.StaysDenied (handled : Handled) (before : Scene) (err : Reg) : Prop where
  result : handled.scene.tracee.regs.x 0 = err
  negative : err.slt 0 = true
  skipped : handled.performed = -1
  silent : handled.signalled = false
  inflight : handled.scene.caches.mutationInflight = before.caches.mutationInflight
  stores : handled.scene.caches.storeDisabled = before.caches.storeDisabled
  settled : handled.scene.state.pendingPathCacheInvalidation = false
  idle : handled.scene.state.emulatedNr < 0
  cwd : handled.scene.state.pendingGuestCwd = before.state.pendingGuestCwd

/-! ## The denial -/

theorem completeEmulatedSyscall_answers (env : Env) {reply : Reply} (number : reply.number = true)
    (set : reply.regs = true) (regs : Regs) (tracee : Stopped) (result : Reg) :
    ∃ after : Regs, completeEmulatedSyscall env reply regs tracee result = (true, after, ⟨after, -1⟩) ∧
      after.x 0 = result ∧ after.x 8 = 0xffffffffffffffff := by
  refine ⟨maybeAdvancePastSvc env ((regs.setX 0 result).setX 8 0xffffffffffffffff), ?_, ?_, ?_⟩
  · simp [completeEmulatedSyscall, number, set]
  · rw [maybeAdvancePastSvc]
    split <;> rfl
  · rw [maybeAdvancePastSvc]
    split <;> rfl

/-- A denial that was reached has made the kernel skip the call. -/
def Rewrite.Completed (rewrite : Rewrite) : Prop :=
  ∀ err, rewrite.denied = some err →
    rewrite.rc = REWRITE_SYSCALL_COMPLETED ∧ rewrite.tracee = ⟨rewrite.regs, -1⟩ ∧
      rewrite.regs.x 0 = err ∧ rewrite.regs.x 8 = 0xffffffffffffffff ∧ err.slt 0 = true

section
variable {env : Env} (regs : Regs) (tracee : Stopped)

theorem keepPath_completed : (keepPath regs tracee).Completed := by
  intro err denied
  cases denied

theorem writeScratch_denied {index offset : Nat} {path : Text} :
    (writeScratch env regs tracee index offset path).denied = none := by
  simp only [writeScratch]
  split <;> rfl

theorem slt_signExtend {err : CInt} (negative : err.negative = true) : (err.signExtend 64).slt 0 = true := by
  have small : err.toInt < 0 := by simpa [CInt.negative, BitVec.slt] using negative
  have same : (err.signExtend 64).toInt = err.toInt := BitVec.toInt_signExtend_of_le (by decide)
  simpa [BitVec.slt, same] using small

theorem denyPathSyscall_completed (answers : env.answers = true) {err : CInt}
    (negative : err.negative = true) : (denyPathSyscall env regs tracee err).Completed := by
  have replies : env.denying.number = true ∧ env.denying.regs = true := by
    simp only [Env.answers, Bool.and_eq_true] at answers
    exact ⟨answers.1.1.1.2, answers.1.1.2⟩
  intro result denied
  obtain ⟨after, done, first, number⟩ := completeEmulatedSyscall_answers env replies.1 replies.2
    regs tracee (err.signExtend 64)
  simp only [denyPathSyscall, negative, ↓reduceIte, done] at denied ⊢
  cases denied
  exact ⟨trivial, trivial, first, number, slt_signExtend negative⟩

theorem rewritePathArgScratch_completed (answers : env.answers = true) (argIndex offset : Nat) :
    (rewritePathArgScratch env regs tracee argIndex offset).Completed := by
  unfold rewritePathArgScratch
  split
  · exact keepPath_completed regs tracee
  split
  · exact keepPath_completed regs tracee
  · exact keepPath_completed regs tracee
  simp only
  split
  · rename_i negative
    exact denyPathSyscall_completed regs tracee answers negative
  · intro err denied
    rw [writeScratch_denied] at denied
    cases denied

theorem rewriteAtPathArg_completed (answers : env.answers = true) (dirfdIndex pathIndex : Nat)
    (context : Int) (offset : Nat) :
    (rewriteAtPathArg env regs tracee dirfdIndex pathIndex context offset).Completed := by
  unfold rewriteAtPathArg
  split
  · exact keepPath_completed regs tracee
  · exact keepPath_completed regs tracee
  simp only
  split
  · split
    · rename_i negative
      exact denyPathSyscall_completed regs tracee answers negative
    · exact keepPath_completed regs tracee
  split
  · exact keepPath_completed regs tracee
  · exact denyPathSyscall_completed regs tracee answers (by decide)
  split
  · rename_i negative
    exact denyPathSyscall_completed regs tracee answers negative
  split
  · intro err denied
    cases denied
  · intro err denied
    rw [writeScratch_denied] at denied
    cases denied

theorem rewriteAtPathArgs_completed (answers : env.answers = true) (dirfdA pathA dirfdB pathB : Nat)
    (context : Int) : (rewriteAtPathArgs env regs tracee dirfdA pathA dirfdB pathB context).Completed := by
  have firstCompleted : (rewriteAtPathArg env regs tracee dirfdA pathA context 16384).Completed :=
    rewriteAtPathArg_completed regs tracee answers dirfdA pathA context 16384
  simp only [rewriteAtPathArgs]
  split
  · exact firstCompleted
  rename_i proceeds
  generalize rewriteAtPathArg env regs tracee dirfdA pathA context 16384 = first at firstCompleted proceeds
  have notDenied : first.denied = none := by
    cases reached : first.denied with
    | none => rfl
    | some err => exact absurd (firstCompleted err reached).1 proceeds
  have second := rewriteAtPathArg_completed first.regs first.tracee answers dirfdB pathB context 8192
  intro err denied
  simp only [notDenied] at denied
  obtain ⟨rc, skipped⟩ := second err (by simpa using denied)
  exact ⟨if_pos rc ▸ rc, skipped⟩

end

def checkedSyscalls : List Int :=
  [5, 6, 8, 9, 11, 12, 14, 15, 33, 34, 35, 36, 37, 38, 43, 48, 49, 53, 54, 56, 78, 79, 88, 276, 281,
   291, 437, 439]

theorem checkedSyscalls_spec : ∀ nr ∈ checkedSyscalls,
    syscallEmulateErrno nr = none ∧ (syscallEmulateSuccess nr = true ↔ nr = 54) ∧
      isMemoryTraceSyscall nr = false ∧ nr ≠ 222 ∧ 0 ≤ nr := by decide

/-- The record after the rewriting of the paths of a call: `chdir` notes where it goes. -/
def TraceeState.cwdAsked (state : TraceeState) (env : Env) (regs : Regs) (nr : Int) : TraceeState :=
  if nr = 49 then
    match env.readTraceeString (regs.x 0) with
    | none => state
    | some original => { state with pendingGuestCwd := normalizeGuestPath state.guestCwd original }
  else state

def DeniesOnly (env : Env) (regs : Regs) (state : TraceeState) (nr : Int)
    (rewritten : Rewrite × TraceeState) : Prop :=
  rewritten.1.Completed ∧
    (rewritten.1.denied ≠ none → nr ∈ checkedSyscalls ∧ rewritten.2 = state.cwdAsked env regs nr)

section
variable {env : Env} {regs : Regs} {state : TraceeState} {nr : Int} {rewrite : Rewrite}

theorem deniesOnly_of_listed (completed : rewrite.Completed) (listed : nr ∈ checkedSyscalls)
    (other : nr ≠ 49) : DeniesOnly env regs state nr (rewrite, state) :=
  ⟨completed, fun _ => ⟨listed, (if_neg other).symm⟩⟩

theorem deniesOnly_of_none (silent : rewrite.denied = none) (after : TraceeState) :
    DeniesOnly env regs state nr (rewrite, after) := by
  refine ⟨fun err denied => ?_, fun denied => absurd silent denied⟩
  rw [silent] at denied
  cases denied

end

theorem xattrCases_checked : ∀ nr ∈ xattrCases, nr ∈ checkedSyscalls ∧ nr ≠ 49 := by decide

theorem atPathCases_checked : ∀ nr ∈ atPathCases, nr ∈ checkedSyscalls ∧ nr ≠ 49 := by decide

theorem rewriteSyscallPaths_denied {env : Env} (answers : env.answers = true) (regs : Regs)
    (tracee : Stopped) (state : TraceeState) (nr : Int) :
    DeniesOnly env regs state nr (rewriteSyscallPaths env regs tracee state nr) := by
  have scratch := fun index => rewritePathArgScratch_completed regs tracee answers index 8192
  have atPath := fun dirfd path => rewriteAtPathArg_completed regs tracee answers dirfd path nr 8192
  have atPaths := rewriteAtPathArgs_completed regs tracee answers 0 1 2 3 nr
  rw [rewriteSyscallPaths]
  refine iteInduction (fun listed => ?_) fun _ => ?_
  · exact deniesOnly_of_listed (scratch 0) (xattrCases_checked nr listed).1 (xattrCases_checked nr listed).2
  refine iteInduction (fun listed => ?_) fun _ => ?_
  · exact deniesOnly_of_listed (atPath 0 1) (atPathCases_checked nr listed).1
      (atPathCases_checked nr listed).2
  refine iteInduction (fun readlinkat => ?_) fun _ => ?_
  · exact deniesOnly_of_listed (scratch 1) (by rw [readlinkat]; decide) (by rw [readlinkat]; decide)
  refine iteInduction (fun symlinkat => ?_) fun _ => ?_
  · exact deniesOnly_of_listed (atPath 1 2) (by rw [symlinkat]; decide) (by rw [symlinkat]; decide)
  refine iteInduction (fun linkat => ?_) fun _ => ?_
  · exact deniesOnly_of_listed atPaths (by rw [linkat]; decide) (by rw [linkat]; decide)
  refine iteInduction (fun renameat => ?_) fun _ => ?_
  · exact deniesOnly_of_listed atPaths (by rcases renameat with rfl | rfl <;> decide)
      (by rcases renameat with rfl | rfl <;> decide)
  refine iteInduction (fun statfs => ?_) fun _ => ?_
  · exact deniesOnly_of_listed (scratch 0) (by rw [statfs]; decide) (by rw [statfs]; decide)
  refine iteInduction (fun chdir => ?_) fun _ => ?_
  · subst chdir
    exact ⟨scratch 0, fun _ => ⟨by decide, rfl⟩⟩
  refine iteInduction (fun _ => ?_) fun _ => ?_
  · cases env.rewriteUnixSockaddrArg regs with
    | none | some rewritten => exact deniesOnly_of_none rfl state
  refine iteInduction (fun _ => ?_) fun _ => ?_
  · cases env.rewriteExecveArg regs with
    | none => exact deniesOnly_of_none rfl state
    | some rewritten => exact deniesOnly_of_none rfl _
  refine iteInduction (fun execveat => ?_) fun _ => ?_
  · exact deniesOnly_of_listed (atPath 0 1) (by rw [execveat]; decide) (by rw [execveat]; decide)
  · exact deniesOnly_of_none rfl state

structure Denied (env : Env) (before after : Scene) (err : Reg) : Prop where
  result : after.tracee.regs.x 0 = err
  number : after.tracee.regs.x 8 = 0xffffffffffffffff
  skipped : after.tracee.syscallno = -1
  state : after.state = (enterSyscall before before.tracee.regs).state.cwdAsked env before.tracee.regs
    before.tracee.regs.nr
  caches : after.caches = (enterSyscall before before.tracee.regs).caches

structure Overridden (after : Scene) : Prop where
  result : after.tracee.regs.x 0 = 0
  number : after.tracee.regs.x 8 = 0xffffffffffffffff
  emulated : after.state.emulatedNr = 54
  pending : after.state.emulatedResult = 0
  last : after.state.lastNr = 54
  skipped : after.tracee.syscallno = -1

theorem serveSyscall_denied {env : Env} {regs : Regs} {scene after : Scene} {done : Bool} {err : Reg}
    (served : serveSyscall env regs scene = (done, after, some err)) :
    forcedEmulation env regs scene.state = none ∧
      (rewriteSyscallPaths env regs scene.tracee scene.state scene.state.lastNr).1.denied = some err := by
  rw [serveSyscall] at served
  split at served
  · cases served
  rename_i free
  refine ⟨free, ?_⟩
  simp only at served
  split at served
  · exact (Prod.mk.inj (Prod.mk.inj served).2).2
  split at served
  · exact (Prod.mk.inj (Prod.mk.inj served).2).2
  · split at served
    · exact (Prod.mk.inj (Prod.mk.inj served).2).2
    · exact (Prod.mk.inj (Prod.mk.inj served).2).2

theorem serveSyscall_of_denied {env : Env} (answers : env.answers = true) {regs : Regs} {scene : Scene}
    {err : Reg} (free : forcedEmulation env regs scene.state = none)
    (denied : (rewriteSyscallPaths env regs scene.tracee scene.state scene.state.lastNr).1.denied = some err) :
    scene.state.lastNr ∈ checkedSyscalls ∧ err.slt 0 = true ∧
      ∃ after : Regs, after.x 8 = 0xffffffffffffffff ∧ (scene.state.lastNr ≠ 54 ∧ after.x 0 = err ∧
            serveSyscall env regs scene =
              (false, { scene with
                state := scene.state.cwdAsked env regs scene.state.lastNr
                tracee := ⟨after, -1⟩ }, some err) ∨
          scene.state.lastNr = 54 ∧ after.x 0 = 0 ∧ serveSyscall env regs scene =
              (true, { scene with
                state := { scene.state with emulatedResult := 0, emulatedNr := 54 }
                tracee := ⟨after, -1⟩ }, some err)) := by
  obtain ⟨completed, only⟩ := rewriteSyscallPaths_denied answers regs scene.tracee scene.state scene.state.lastNr
  obtain ⟨rc, skipped, result, number, negative⟩ := completed err denied
  obtain ⟨listed, asked⟩ := only (by rw [denied]; exact Option.some_ne_none err)
  obtain ⟨noErrno, success, _, _, _⟩ := checkedSyscalls_spec _ listed
  refine ⟨listed, negative, ?_⟩
  have replies : env.setRegs = true ∧ env.completing.number = true ∧ env.completing.regs = true := by
    simp only [Env.answers, Bool.and_eq_true] at answers
    exact ⟨answers.1.1.1.1.2, answers.1.2, answers.2⟩
  by_cases fchownat : scene.state.lastNr = 54
  · have emulated : syscallEmulateSuccess scene.state.lastNr = true := success.mpr fchownat
    generalize rewritten_def : rewriteSyscallPaths env regs scene.tracee scene.state scene.state.lastNr =
      rewritten at *
    obtain ⟨rewrite, state⟩ := rewritten
    have unasked : state = scene.state := by
      rw [TraceeState.cwdAsked, if_neg (by rw [fchownat]; decide)] at asked
      exact asked
    subst unasked
    obtain ⟨after, done, first, eighth⟩ := completeEmulatedSyscall_answers env replies.2.1 replies.2.2
      rewrite.regs rewrite.tracee 0
    refine ⟨after, eighth, .inr ⟨fchownat, first, ?_⟩⟩
    have unmapped : ¬ syscallRemapNumber scene.state.lastNr ≠ scene.state.lastNr := not_not_intro rfl
    have prepared : prepareEmulatedResult scene.state scene.state.lastNr = (scene.state, 0, []) := by
      rw [fchownat]
      rfl
    simp only at denied
    simp only [serveSyscall, free, rewritten_def, noErrno, emulated, unmapped, ↓reduceIte, prepared,
      complete, done, denied]
    rw [fchownat]
  · have real : syscallEmulateSuccess scene.state.lastNr = false := by
      rw [← Bool.not_eq_true]
      exact fun emulated => fchownat (success.mp emulated)
    generalize rewritten_def : rewriteSyscallPaths env regs scene.tracee scene.state scene.state.lastNr =
      rewritten at *
    obtain ⟨rewrite, state⟩ := rewritten
    simp only at rc skipped result number asked denied
    refine ⟨rewrite.regs, number, .inl ⟨fchownat, result, ?_⟩⟩
    have unmapped : ¬ syscallRemapNumber scene.state.lastNr ≠ scene.state.lastNr := not_not_intro rfl
    have rewrote : rewrite.rc ≠ 0 := by
      rw [rc]
      decide
    simp only [serveSyscall, free, rewritten_def, noErrno, real, unmapped, replies.1, denied,
      skipped, asked]
    simp [rewrote]

theorem maybePrepareManagedMmap_of_ne {env : Env} {regs : Regs} {scene : Scene}
    (other : scene.state.lastNr ≠ 222) : maybePrepareManagedMmap env regs scene = (regs, scene) := by
  simp only [maybePrepareManagedMmap]
  rw [if_pos other]

theorem cwdAsked_lastNr (state : TraceeState) (env : Env) (regs : Regs) (nr : Int) :
    (state.cwdAsked env regs nr).lastNr = state.lastNr := by
  unfold TraceeState.cwdAsked
  split
  · split <;> rfl
  · rfl

theorem handleSyscallEntry_denied {env : Env} (answers : env.answers = true) {scene after : Scene}
    {done : Bool} {err : Reg} (handled : handleSyscallEntry env scene = (done, after, some err)) :
    scene.tracee.regs.nr ∈ checkedSyscalls ∧ err.slt 0 = true ∧
      (scene.tracee.regs.nr ≠ 54 ∧ done = false ∧ Denied env scene after err ∨
        scene.tracee.regs.nr = 54 ∧ done = true ∧ Overridden after ∧ after.caches = scene.caches) := by
  have last := enterSyscall_lastNr scene scene.tracee.regs
  rw [handleSyscallEntry] at handled
  simp only at handled
  generalize entered_def : enterSyscall scene scene.tracee.regs = entered at *
  have kept := (maybePrepareManagedMmap_alike env scene.tracee.regs entered).lastNr
  generalize prepared_def : maybePrepareManagedMmap env scene.tracee.regs entered = prepared at *
  obtain ⟨regs, ready⟩ := prepared
  generalize served_def : serveSyscall env regs ready = served at *
  obtain ⟨completed, left, denied⟩ := served
  have reached : denied = some err := by
    simp only at handled
    split at handled
    · exact (Prod.mk.inj (Prod.mk.inj handled).2).2
    · exact (Prod.mk.inj (Prod.mk.inj handled).2).2
  subst reached
  obtain ⟨free, refused⟩ := serveSyscall_denied served_def
  obtain ⟨listed, negative, regsAfter, eighth, outcome⟩ := serveSyscall_of_denied answers free refused
  -- The call is no mmap, so that nothing has been prepared.
  have untouched : maybePrepareManagedMmap env scene.tracee.regs entered = (scene.tracee.regs, entered) := by
    apply maybePrepareManagedMmap_of_ne
    rw [← kept]
    exact (checkedSyscalls_spec _ listed).2.2.2.1
  rw [untouched] at prepared_def
  cases prepared_def
  rw [last] at listed outcome
  refine ⟨listed, negative, ?_⟩
  rcases outcome with ⟨other, result, shape⟩ | ⟨fchownat, result, shape⟩
  · rw [served_def] at shape
    cases shape
    simp only [Bool.false_eq_true, and_false, ↓reduceIte] at handled
    cases handled
    refine .inl ⟨other, rfl, result, eighth, rfl, ?_, ?_⟩
    · rw [entered_def]
    · rw [entered_def]
  · rw [served_def] at shape
    cases shape
    have plain : pathSyscallInvalidatesCache entered.state.lastNr = false := by
      rw [last, fchownat]
      rfl
    simp only [plain, Bool.false_eq_true, false_and, ↓reduceIte] at handled
    cases handled
    refine .inr ⟨fchownat, rfl, ⟨result, eighth, rfl, rfl, last.trans fchownat, rfl⟩, ?_⟩
    rw [← entered_def, enterSyscall_eq, fchownat]
    rfl

/-! ## The return -/

def pathCall (selective : Bool) (platform : Platform) (entry trap : Env) (traceMemory registers : Bool)
    (scene : Scene) : Handled :=
  if selective then selectiveCall platform entry traceMemory registers scene
  else fullCall platform entry trap registers scene

/-- The call is not fchownat, and chdir, if it is that, asks for a directory that an
earlier one has left pending. -/
def StaysWhen (env : Env) (scene : Scene) : Prop :=
  scene.tracee.regs.nr ≠ 54 ∧
    (scene.tracee.regs.nr = 49 → ∀ original, env.readTraceeString (scene.tracee.regs.x 0) = some original →
      normalizeGuestPath scene.state.guestCwd original = scene.state.pendingGuestCwd)

section
variable {env : Env} {before after : Scene} {err : Reg}

theorem cwdAsked_pendingGuestCwd (state : TraceeState) (env : Env) (regs : Regs) (nr : Int) :
    (state.cwdAsked env regs nr).pendingGuestCwd = state.pendingGuestCwd ↔
      (nr = 49 → ∀ original, env.readTraceeString (regs.x 0) = some original →
        normalizeGuestPath state.guestCwd original = state.pendingGuestCwd) := by
  unfold TraceeState.cwdAsked
  split
  · rename_i chdir
    cases read : env.readTraceeString (regs.x 0) with
    | none => simp
    | some original => simp [chdir]
  · rename_i other
    simp [other]

theorem cwdAsked_others (state : TraceeState) (env : Env) (regs : Regs) (nr : Int) :
    (state.cwdAsked env regs nr).inSyscall = state.inSyscall ∧
      (state.cwdAsked env regs nr).emulatedNr = state.emulatedNr ∧
      (state.cwdAsked env regs nr).lastEmulatedNr = state.lastEmulatedNr ∧
      (state.cwdAsked env regs nr).emulatedResult = state.emulatedResult ∧
      (state.cwdAsked env regs nr).pendingPathCacheInvalidation = state.pendingPathCacheInvalidation := by
  unfold TraceeState.cwdAsked
  split
  · split <;> exact ⟨rfl, rfl, rfl, rfl, rfl⟩
  · exact ⟨rfl, rfl, rfl, rfl, rfl⟩

structure Denied.Fields (before after : Scene) : Prop where
  outside : after.state.inSyscall = false
  idle : after.state.emulatedNr < 0
  last : after.state.lastNr = before.tracee.regs.nr
  lastEmulated : after.state.lastEmulatedNr = before.state.lastEmulatedNr
  stale : after.state.emulatedResult = before.state.emulatedResult
  pending : after.state.pendingPathCacheInvalidation = pathSyscallInvalidatesCache before.tracee.regs.nr
  caches : after.caches =
    if pathSyscallInvalidatesCache before.tracee.regs.nr then before.caches.beginPathCacheMutation
    else before.caches

theorem Denied.fields (denied : Denied env before after err) (ready : before.Outside) :
    Denied.Fields before after := by
  obtain ⟨inSyscall, emulatedNr, lastEmulatedNr, emulatedResult, pending⟩ :=
    cwdAsked_others (enterSyscall before before.tracee.regs).state env before.tracee.regs
      before.tracee.regs.nr
  have last := cwdAsked_lastNr (enterSyscall before before.tracee.regs).state env before.tracee.regs
    before.tracee.regs.nr
  rw [← denied.state, enterSyscall_eq] at inSyscall emulatedNr lastEmulatedNr emulatedResult pending last
  constructor
  · rw [inSyscall]
    exact ready.inSyscall
  · rw [emulatedNr]
    exact ready.idle
  · exact last
  · exact lastEmulatedNr
  · exact emulatedResult
  · rw [pending]
    simp [ready.settled]
  · rw [denied.caches, enterSyscall_eq]

theorem Denied.cwd (denied : Denied env before after err) :
    after.state.pendingGuestCwd = before.state.pendingGuestCwd ↔
      (before.tracee.regs.nr = 49 → ∀ original,
        env.readTraceeString (before.tracee.regs.x 0) = some original →
          normalizeGuestPath before.state.guestCwd original = before.state.pendingGuestCwd) := by
  have asked := cwdAsked_pendingGuestCwd (enterSyscall before before.tracee.regs).state env
    before.tracee.regs before.tracee.regs.nr
  rw [← denied.state, enterSyscall_eq] at asked
  exact asked

theorem ne_zero_of_slt {value : Reg} (negative : value.slt 0 = true) : value ≠ 0 := by
  rintro rfl
  exact absurd negative (by decide)

theorem Denied.exits (denied : Denied env before after err) (ready : before.Outside)
    (listed : before.tracee.regs.nr ∈ checkedSyscalls) (negative : err.slt 0 = true) (trap : Env)
    (registers : Bool) :
    let exited := syscallStop trap registers (setInSyscall after true)
    exited.tracee = after.tracee ∧ exited.caches.mutationInflight = before.caches.mutationInflight ∧
      exited.caches.storeDisabled = before.caches.storeDisabled ∧
      exited.state.pendingPathCacheInvalidation = false ∧ exited.state.emulatedNr < 0 ∧
      exited.state.pendingGuestCwd = after.state.pendingGuestCwd := by
  have fields := denied.fields ready
  have passes : exitSyscall registers (setInSyscall after true) = setInSyscall after true := by
    have free : ¬ 0 ≤ (setInSyscall after true).state.emulatedNr := by
      have idle := fields.idle
      simp only [setInSyscall]
      omega
    have noCommit : ¬ ((setInSyscall after true).state.lastNr = 49 ∧
        (setInSyscall after true).tracee.regs.x 0 = 0 ∧
        (setInSyscall after true).state.pendingGuestCwd ≠ []) := by
      rintro ⟨_, zero, _⟩
      exact ne_zero_of_slt negative (denied.result.symm.trans zero)
    have noMmap : (setInSyscall after true).state.lastNr ≠ 222 := by
      simp only [setInSyscall, fields.last]
      exact (checkedSyscalls_spec _ listed).2.2.2.1
    simp only [exitSyscall]
    rw [if_neg free, if_neg noCommit, if_neg noMmap]
  have inside : (setInSyscall after true).state.inSyscall = true := rfl
  simp only [syscallStop, inside, ↓reduceIte, passes]
  cases invalidates : pathSyscallInvalidatesCache before.tracee.regs.nr with
  | true =>
      have pending : (setInSyscall after true).state.pendingPathCacheInvalidation = true := by
        simpa [setInSyscall, invalidates] using fields.pending
      have caches : after.caches = before.caches.beginPathCacheMutation := by
        simpa [invalidates] using fields.caches
      rw [if_pos pending]
      simp [setInSyscall, finishMutation, TraceeState.settle, caches, fields.idle]
  | false =>
      have pending : (setInSyscall after true).state.pendingPathCacheInvalidation = false := by
        simpa [setInSyscall, invalidates] using fields.pending
      have caches : after.caches = before.caches := by
        simpa [invalidates] using fields.caches
      rw [if_neg (by rw [pending]; exact Bool.false_ne_true)]
      have settled : after.state.pendingPathCacheInvalidation = false := pending
      simp [setInSyscall, caches, fields.idle, settled]

theorem Platform.act_skipped {platform : Platform} {first : Reg} {tracee : Stopped}
    (skipped : tracee.syscallno = -1) (lets : platform.traps (-1) = false) :
    platform.act first tracee = (tracee, false) := by
  simp [act, skipped, lets]

theorem Platform.act_trapped {platform : Platform} {first : Reg} {tracee : Stopped}
    (skipped : tracee.syscallno = -1) (traps : platform.traps (-1) = true) :
    platform.act first tracee = ({ tracee with regs := tracee.regs.setX 0 first }, true) := by
  simp [act, skipped, traps]

theorem staysDenied_iff {handled : Handled} (denied : Denied env before after err)
    (negative : err.slt 0 = true) (tracee : handled.scene.tracee = after.tracee)
    (skipped : handled.performed = -1) (silent : handled.signalled = false)
    (inflight : handled.scene.caches.mutationInflight = before.caches.mutationInflight)
    (stores : handled.scene.caches.storeDisabled = before.caches.storeDisabled)
    (settled : handled.scene.state.pendingPathCacheInvalidation = false)
    (idle : handled.scene.state.emulatedNr < 0)
    (cwd : handled.scene.state.pendingGuestCwd = after.state.pendingGuestCwd)
    (other : before.tracee.regs.nr ≠ 54) :
    handled.StaysDenied before err ↔ StaysWhen env before := by
  constructor
  · intro stays
    exact ⟨other, denied.cwd.mp (cwd.symm.trans stays.cwd)⟩
  · intro condition
    exact ⟨by rw [tracee, denied.result], negative, skipped, silent, inflight, stores, settled, idle,
      cwd.trans (denied.cwd.mpr condition.2)⟩

theorem Overridden.exits (overridden : Overridden after) {tracee : Stopped}
    (eighth : tracee.regs.x 8 = 0xffffffffffffffff) (trap : Env) (registers : Bool) :
    let exited := syscallStop trap registers { setInSyscall after true with tracee }
    exited.tracee.regs.x 0 = 0 ∧ exited.tracee.regs.x 8 = 0xffffffffffffffff ∧
      exited.state.lastNr = 54 ∧ exited.state.lastEmulatedNr = 54 ∧ exited.state.emulatedNr = -1 ∧
      exited.state.emulatedResult = 0 := by
  obtain ⟨_, _, emulated, pending, last, _⟩ := overridden
  have some54 : (0 : Int) ≤ 54 := by decide
  simp only [syscallStop, setInSyscall, ↓reduceIte, exitSyscall, emulated, some54, returnEmulated,
    Scene.setResult, pending]
  split <;> simp [finishMutation, TraceeState.settle, last, eighth, Regs.setX_other]

end

section
variable {platform : Platform} {entry trap : Env} {traceMemory registers : Bool} {scene after : Scene}
  {err : Reg}

theorem fullCall_untrapped (lets : platform.traps (-1) = false)
    (entered : syscallStop entry registers scene = setInSyscall after true)
    (skipped : after.tracee.syscallno = -1) :
    fullCall platform entry trap registers scene =
      ⟨syscallStop trap registers (setInSyscall after true), -1, false⟩ := by
  have acts : platform.act (scene.tracee.regs.x 0) (setInSyscall after true).tracee =
      ((setInSyscall after true).tracee, false) := Platform.act_skipped skipped lets
  simp only [fullCall, entered, acts, Bool.false_eq_true, ↓reduceIte]
  exact congrArg (Handled.mk _ · false) skipped

theorem fullCall_trapped (traps : platform.traps (-1) = true)
    (entered : syscallStop entry registers scene = setInSyscall after true)
    (skipped : after.tracee.syscallno = -1) :
    let tracee := { after.tracee with regs := after.tracee.regs.setX 0 (scene.tracee.regs.x 0) }
    let exited := syscallStop trap registers { setInSyscall after true with tracee }
    fullCall platform entry trap registers scene =
      ⟨(sigsysStop trap exited).1, -1, !(sigsysStop trap exited).2⟩ := by
  have acts : platform.act (scene.tracee.regs.x 0) (setInSyscall after true).tracee =
      ({ after.tracee with regs := after.tracee.regs.setX 0 (scene.tracee.regs.x 0) }, true) :=
    Platform.act_trapped skipped traps
  simp only [fullCall, entered, acts, ↓reduceIte]

theorem syscallStop_entry (registers : Bool) (ready : scene.Outside) {done : Bool} {denied : Option Reg}
    (handled : handleSyscallEntry entry scene = (done, after, denied)) :
    syscallStop entry registers scene = setInSyscall after true := by
  simp [syscallStop, ready.inSyscall, handled]

theorem fullCall_denied (ready : scene.Outside) (answers : entry.answers = true)
    (denied : (handleSyscallEntry entry scene).2.2 = some err) (lets : platform.traps (-1) = false) :
    (fullCall platform entry trap registers scene).StaysDenied scene err ↔ StaysWhen entry scene := by
  generalize handled_def : handleSyscallEntry entry scene = handled at denied
  obtain ⟨done, after, reached⟩ := handled
  simp only at denied
  subst denied
  obtain ⟨listed, negative, outcome⟩ := handleSyscallEntry_denied answers handled_def
  have entered := syscallStop_entry registers ready handled_def
  rcases outcome with ⟨other, _, refused⟩ | ⟨fchownat, _, overridden, _⟩
  · obtain ⟨tracee, inflight, stores, settled, idle, cwd⟩ :=
      refused.exits ready listed negative trap registers
    rw [fullCall_untrapped lets entered refused.skipped]
    exact staysDenied_iff refused negative tracee rfl rfl inflight stores settled idle cwd other
  rw [fullCall_untrapped lets entered overridden.skipped]
  have zero := (overridden.exits overridden.number trap registers).1
  constructor
  · intro stays
    exact absurd (stays.result.symm.trans zero) (ne_zero_of_slt negative)
  · intro condition
    exact absurd fchownat condition.1

/-- What a tracee finds in `x0` after the SIGSYS of a call that the tracer denied, when
the signal is suppressed at all. -/
def staleResult (scene : Scene) : Reg :=
  if syscallCompletedInUserland scene.tracee.regs.nr then scene.state.emulatedResult
  else scene.tracee.regs.x 0

theorem Denied.exits_trapped (denied : Denied entry scene after err) (ready : scene.Outside)
    (listed : scene.tracee.regs.nr ∈ checkedSyscalls) (trap : Env) (registers : Bool) (tracee : Stopped) :
    let exited := syscallStop trap registers { setInSyscall after true with tracee }
    exited.tracee = tracee ∧ exited.state.emulatedNr < 0 ∧ exited.state.lastNr = scene.tracee.regs.nr ∧
      exited.state.emulatedResult = scene.state.emulatedResult := by
  have fields := denied.fields ready
  have free : ¬ 0 ≤ after.state.emulatedNr := by
    have idle := fields.idle
    omega
  have noMmap : after.state.lastNr ≠ 222 := by
    rw [fields.last]
    exact (checkedSyscalls_spec _ listed).2.2.2.1
  simp only [syscallStop, setInSyscall, ↓reduceIte, exitSyscall, free, noMmap]
  split <;> split <;> simp [finishMutation, TraceeState.settle, fields.idle, fields.last, fields.stale]

theorem fullCall_denied_trapped (ready : scene.Outside) (answers : entry.answers = true)
    (denied : (handleSyscallEntry entry scene).2.2 = some err) (traps : platform.traps (-1) = true)
    (stays : (fullCall platform entry trap registers scene).StaysDenied scene err) :
    staleResult scene = err := by
  generalize handled_def : handleSyscallEntry entry scene = handled at denied
  obtain ⟨done, after, reached⟩ := handled
  simp only at denied
  subst denied
  obtain ⟨listed, negative, outcome⟩ := handleSyscallEntry_denied answers handled_def
  have entered := syscallStop_entry registers ready handled_def
  rcases outcome with ⟨other, _, refused⟩ | ⟨fchownat, _, overridden, _⟩
  · rw [fullCall_trapped traps entered refused.skipped] at stays
    generalize tracee_def : ({ after.tracee with
      regs := after.tracee.regs.setX 0 (scene.tracee.regs.x 0) } : Stopped) = tracee at stays
    have eighth : tracee.regs.x 8 = 0xffffffffffffffff := by
      rw [← tracee_def]
      exact refused.number
    have first : tracee.regs.x 0 = scene.tracee.regs.x 0 := by
      rw [← tracee_def]
      exact Regs.setX_same _ _ _
    obtain ⟨same, idle, last, stale⟩ :=
      refused.exits_trapped ready listed trap registers tracee
    generalize syscallStop trap registers { setInSyscall after true with tracee } = exited at *
    have skipped : exited.tracee.regs.nr = -1 := by
      rw [same]
      exact regs_nr_of_skipped eighth
    have result := stays.result
    have silent := stays.silent
    by_cases suppressed : suppressible exited = true
    · simp only [sigsysStop, suppressed, ↓reduceIte, suppressSigsys_result idle] at result
      have current : completedCurrent exited = syscallCompletedInUserland scene.tracee.regs.nr := by
        simp [completedCurrent, skipped, last]
      rw [current, stale, same, first] at result
      exact result
    · simp [sigsysStop, suppressed, emulateBlocked_skipped trap skipped] at silent
  · rw [fullCall_trapped traps entered overridden.skipped] at stays
    generalize tracee_def : ({ after.tracee with
      regs := after.tracee.regs.setX 0 (scene.tracee.regs.x 0) } : Stopped) = tracee at stays
    have eighth : tracee.regs.x 8 = 0xffffffffffffffff := by
      rw [← tracee_def]
      exact overridden.number
    obtain ⟨zero, eighth, last, lastEmulated, idle, pending⟩ := overridden.exits eighth trap registers
    generalize syscallStop trap registers { setInSyscall after true with tracee } = exited at *
    have suppressed : suppressible exited = true := by
      simp [suppressible, lastEmulated, syscallCompletedInUserland, syscallEmulateSuccess]
    have result := stays.result
    have negativeNr : exited.state.emulatedNr < 0 := by
      rw [idle]
      decide
    simp only [sigsysStop, suppressed, ↓reduceIte, suppressSigsys_result negativeNr, zero, pending,
      ite_self] at result
    exact absurd result.symm (ne_zero_of_slt negative)

theorem selectiveCall_denied (ready : scene.Outside) (answers : entry.answers = true)
    (denied : (handleSyscallEntry entry scene).2.2 = some err) :
    (selectiveCall platform entry traceMemory registers scene).StaysDenied scene err ↔
      StaysWhen entry scene := by
  generalize handled_def : handleSyscallEntry entry scene = handled at denied
  obtain ⟨done, after, reached⟩ := handled
  simp only at denied
  subst denied
  obtain ⟨listed, negative, outcome⟩ := handleSyscallEntry_denied answers handled_def
  rcases outcome with ⟨other, unfinished, refused⟩ | ⟨fchownat, finished, overridden, _⟩
  · subst unfinished
    have fields := refused.fields ready
    by_cases waits : (traceMemory && isMemoryTraceSyscall after.state.lastNr ||
        after.state.pendingPathCacheInvalidation ||
        decide (after.state.lastNr = 49 ∧ after.state.pendingGuestCwd ≠ [])) = true
    · have stop : seccompStop entry traceMemory scene = (setInSyscall after true, true) := by
        simp only [seccompStop, handled_def, Bool.false_eq_true, ↓reduceIte, fields.outside,
          Bool.false_and, if_pos waits]
      have skipped : (setInSyscall after true).tracee.syscallno = -1 := refused.skipped
      obtain ⟨tracee, inflight, stores, settled, idle, cwd⟩ :=
        refused.exits ready listed negative entry registers
      have returns : selectiveCall platform entry traceMemory registers scene =
          ⟨syscallStop entry registers (setInSyscall after true), -1, false⟩ := by
        simp only [selectiveCall, stop, skipped, ↓reduceIte]
      rw [returns]
      exact staysDenied_iff refused negative tracee rfl rfl inflight stores settled idle cwd other
    · have stop : seccompStop entry traceMemory scene = (after, false) := by
        simp only [seccompStop, handled_def, Bool.false_eq_true, ↓reduceIte, fields.outside,
          Bool.false_and, if_neg waits]
      have settled : after.state.pendingPathCacheInvalidation = false := by
        simp only [Bool.or_eq_true, not_or, Bool.not_eq_true] at waits
        exact waits.1.2
      have caches : after.caches = scene.caches := by
        rw [fields.caches, ← fields.pending, settled]
        rfl
      have returns : selectiveCall platform entry traceMemory registers scene = ⟨after, -1, false⟩ := by
        simp [selectiveCall, stop, refused.skipped]
      rw [returns]
      exact staysDenied_iff refused negative rfl rfl rfl (by rw [caches]) (by rw [caches]) settled
        fields.idle rfl other
  · subst finished
    have some54 : (0 : Int) ≤ 54 := by decide
    have stop : seccompStop entry traceMemory scene = (setInSyscall after true, true) := by
      simp [seccompStop, handled_def, setInSyscall, overridden.emulated, some54]
    have zero := (overridden.exits overridden.number entry registers).1
    have skipped : (setInSyscall after true).tracee.syscallno = -1 := overridden.skipped
    have returns : selectiveCall platform entry traceMemory registers scene =
        ⟨syscallStop entry registers (setInSyscall after true), -1, false⟩ := by
      simp only [selectiveCall, stop, skipped, ↓reduceIte]
    rw [returns]
    constructor
    · intro stays
      exact absurd (stays.result.symm.trans zero) (ne_zero_of_slt negative)
    · intro condition
      exact absurd fchownat condition.1

/-- Where the skipped call is not blocked, a denied call stays denied exactly when it
is not fchownat and asks chdir for nothing new; where it is, only a result that
happened to be the error is left. -/
theorem denied_stays {selective : Bool} (ready : scene.Outside) (answers : entry.answers = true)
    (denied : (handleSyscallEntry entry scene).2.2 = some err) :
    let handled := pathCall selective platform entry trap traceMemory registers scene
    (selective = true ∨ platform.traps (-1) = false →
        (handled.StaysDenied scene err ↔ StaysWhen entry scene)) ∧
      (selective = false ∧ platform.traps (-1) = true →
        handled.StaysDenied scene err → staleResult scene = err) := by
  cases selective with
  | true => exact ⟨fun _ => selectiveCall_denied ready answers denied, fun full => nomatch full.1⟩
  | false =>
      refine ⟨fun lets => ?_, fun traps => ?_⟩
      · exact fullCall_denied ready answers denied (lets.resolve_left Bool.false_ne_true)
      · exact fullCall_denied_trapped ready answers denied traps.2

end

section

private def refusing : Env where
  svcAt := fun _ => false
  rootfsFd := 3
  rootfdRewrite := false
  candidateMmap := fun _ => false
  mmapRegs := true
  guardMemory := none
  emulateGetcwd := 0
  emulateProcSelfExeReadlinkat := none
  emulateLinkatCopy := none
  emulateRuntimeTmpSymlinkat := none
  emulateFaccessatPath := 0
  readTraceeString := fun _ => some "../../etc".toList
  writeTraceeString := fun _ _ => true
  resolveGuestHostPath := fun path => .host ("/rootfs/".toList ++ path) false
  validateHostPathUnderAllowed := fun _ _ => -18
  validateRelativeTraceePath := fun _ _ _ => -18
  rewriteUnixSockaddrArg := fun _ => none
  rewriteExecveArg := fun _ => none
  denying := ⟨true, true⟩
  completing := ⟨true, true⟩
  setRegs := true

private def calling (nr : Nat) : Scene where
  state := freshTracee
  tracee := ⟨⟨fun index => if index = 0 then -100 else if index = 8 then BitVec.ofNat 64 nr else 4096,
    8192, 4096⟩, nr⟩
  caches := .initial true

private theorem calling_outside (nr : Nat) : (calling nr).Outside :=
  ⟨rfl, show (-1 : Int) < 0 by decide, rfl⟩

theorem denied_stays_openat :
    (pathCall true ⟨fun _ => false, fun _ => 7⟩ refusing refusing false true (calling 56)).StaysDenied
      (calling 56) (-18) := by
  have denied : (handleSyscallEntry refusing (calling 56)).2.2 = some (-18) := by decide
  refine ((denied_stays (calling_outside 56) rfl denied).1 (.inl rfl)).mpr ⟨by decide, fun chdir => ?_⟩
  exact absurd chdir (by decide)

/-- A denied fchownat succeeds, a denied chdir leaves the directory pending, and a denied
openat ends in SIGSYS where the platform's filter blocks the skipped call. -/
theorem denied_overridden : (handleSyscallEntry refusing (calling 54)).2.2 = some (-18) ∧
      ¬ (pathCall true ⟨fun _ => false, fun _ => 7⟩ refusing refusing false true (calling 54)).StaysDenied
        (calling 54) (-18) ∧
      (handleSyscallEntry refusing (calling 49)).2.2 = some (-18) ∧
      ¬ (pathCall true ⟨fun _ => false, fun _ => 7⟩ refusing refusing false true (calling 49)).StaysDenied
        (calling 49) (-18) ∧
      (handleSyscallEntry refusing (calling 56)).2.2 = some (-18) ∧
      ¬ (pathCall false ⟨fun nr => nr = -1, fun _ => 7⟩ refusing refusing false true (calling 56)).StaysDenied
        (calling 56) (-18) := by
  refine ⟨by decide, fun stays => ?_, by decide, fun stays => ?_, by decide, fun stays => ?_⟩
  · exact absurd stays.result (by decide)
  · exact absurd stays.cwd (by decide)
  · exact absurd stays.silent (by decide)

end

end PDocker.Direct
