import PDocker.Direct.Entry

/-!
# Ptrace stops

The loop of `trace_and_exec` at the stops that concern system calls: entry and
exit stops, the stop of the selective filter, and the SIGSYS of a call that the
platform's filter blocks; and what the kernel does between them. A call is
blocked by its first registers again in place (`syscall_rollback`). A tracee
that has been killed answers no request and makes no further call.
-/

set_option autoImplicit false

namespace PDocker.Direct

def syscallFailedResult (result : Reg) : Bool := negErrno 4095 ≤ result

/-- Register the mapping that was made for the pager, or refuse it. -/
def maybeFinishManagedMmap (registers : Bool) (scene : Scene) : Scene :=
  let state := { scene.state with managedPendingLen := 0 }
  let result := scene.tracee.regs.x 0
  if scene.state.managedPendingLen = 0 then scene
  else if syscallFailedResult result || result = 0 || registers then { scene with state }
  else { scene with state, tracee := { scene.tracee with regs := scene.tracee.regs.setX 0 (negErrno ENOMEM) } }

def Scene.setResult (scene : Scene) (result : Reg) : Scene :=
  { scene with tracee := { scene.tracee with regs := scene.tracee.regs.setX 0 result } }

/-- The emulated call has returned: its result goes into `x0` once more. -/
def returnEmulated (scene : Scene) : Scene :=
  let scene := scene.setResult scene.state.emulatedResult
  { scene with state := { scene.state with lastEmulatedNr := scene.state.emulatedNr, emulatedNr := -1 } }

/-- The exit stop, but for `in_syscall` and the caches. -/
def exitSyscall (registers : Bool) (scene : Scene) : Scene :=
  let state := scene.state
  if 0 ≤ state.emulatedNr then returnEmulated scene
  else if state.lastNr = 49 ∧ scene.tracee.regs.x 0 = 0 ∧ state.pendingGuestCwd ≠ [] then
    { scene with state := { state with guestCwd := state.pendingGuestCwd, pendingGuestCwd := [] } }
  else if state.lastNr = 222 then maybeFinishManagedMmap registers scene
  else scene

def setInSyscall (scene : Scene) (inSyscall : Bool) : Scene :=
  { scene with state := { scene.state with inSyscall } }

/-- The stop of `PTRACE_SYSCALL`; `registers` is what becomes of a managed mapping. -/
def syscallStop (env : Env) (registers : Bool) (scene : Scene) : Scene :=
  if scene.state.inSyscall then
    let after := exitSyscall registers scene
    setInSyscall (if after.state.pendingPathCacheInvalidation then finishMutation after else after) false
  else setInSyscall (handleSyscallEntry env scene).2.1 true

/-- The result of a blocked call that is emulated at its SIGSYS stop, and the record
with the effect of a credential call. -/
def directEmulation (env : Env) (regs : Regs) (state : TraceeState) : Option (TraceeState × Reg) :=
  let nr := regs.nr
  if nr = 17 then some (state, env.emulateGetcwd)
  else if nr = 48 ∨ nr = 439 then some (state, env.emulateFaccessatPath)
  else
    match if nr = 78 then env.emulateProcSelfExeReadlinkat else none with
    | some result => some (state, result)
    | none =>
        match syscallEmulateErrno nr with
        | some err => some (state, negErrno err)
        | none =>
            if syscallEmulateSuccess nr then
              let prepared := prepareEmulatedResult { state with lastNr := nr, lastArgs := regs.args } nr
              some (prepared.1, prepared.2.1)
            else if 425 ≤ nr ∧ nr ≤ 427 then some (state, negErrno ENOSYS)
            else if nr = 57 ∧ toInt32 (regs.x 0) = env.rootfsFd then some (state, 0)
            else none

def completedCurrent (scene : Scene) : Bool :=
  scene.tracee.regs.nr = -1 && syscallCompletedInUserland scene.state.lastNr

def suppressible (scene : Scene) : Bool :=
  decide (0 ≤ scene.state.emulatedNr) ||
    (decide (0 ≤ scene.state.lastEmulatedNr) && syscallCompletedInUserland scene.state.lastEmulatedNr) ||
    completedCurrent scene

def emulateBlocked (env : Env) (scene : Scene) : Scene × Bool :=
  let regs := scene.tracee.regs
  match directEmulation env regs scene.state with
  | none => (scene, false)
  | some (state, result) =>
      let state := { state with lastNr := regs.nr, lastArgs := regs.args, emulatedResult := result }
      let (done, _, tracee) := completeEmulatedSyscall env env.completing regs scene.tracee result
      if done then
        ({ scene with
          tracee
          state := { state with lastEmulatedNr := regs.nr, emulatedNr := -1, inSyscall := false } }, true)
      else ({ scene with state, tracee }, false)

def suppressSigsys (scene : Scene) (completed : Bool) : Scene :=
  let after :=
    if 0 ≤ scene.state.emulatedNr then setInSyscall (returnEmulated scene) false
    else if completed then setInSyscall (scene.setResult scene.state.emulatedResult) false
    else scene
  { after with state := { after.state with lastEmulatedNr := -1 } }

def sigsysStop (env : Env) (scene : Scene) : Scene × Bool :=
  let completed := completedCurrent scene
  if suppressible scene then (suppressSigsys scene completed, true)
  else
    let (after, done) := emulateBlocked env scene
    if done then (suppressSigsys after completed, true) else (after, false)

/-- The stop of the selective filter: the scene, and whether the tracer waits for the
exit stop. -/
def seccompStop (env : Env) (traceMemory : Bool) (scene : Scene) : Scene × Bool :=
  let (done, after, _) := handleSyscallEntry env scene
  let after := if done then setInSyscall after true else after
  let state := after.state
  if state.inSyscall && decide (0 ≤ state.emulatedNr) then (after, true)
  else if traceMemory && isMemoryTraceSyscall state.lastNr ||
      state.pendingPathCacheInvalidation || decide (state.lastNr = 49 ∧ state.pendingGuestCwd ≠ []) then
    (setInSyscall after true, true)
  else (after, false)

def Env.answers (env : Env) : Bool :=
  env.mmapRegs && env.setRegs && env.denying.number && env.denying.regs &&
    env.completing.number && env.completing.regs

/-- The platform's filter, and what the kernel returns for a call that it makes. -/
structure Platform where
  traps : Int → Bool
  returns : Stopped → Reg

/-- After the entry stop of a call whose first argument was `first`: the call is
blocked, skipped or made. -/
def Platform.act (platform : Platform) (first : Reg) (tracee : Stopped) : Stopped × Bool :=
  if platform.traps tracee.syscallno then ({ tracee with regs := tracee.regs.setX 0 first }, true)
  else if tracee.syscallno = -1 then (tracee, false)
  else ({ tracee with regs := tracee.regs.setX 0 (platform.returns tracee) }, false)

structure Scene.Outside (scene : Scene) : Prop where
  inSyscall : scene.state.inSyscall = false
  idle : scene.state.emulatedNr < 0
  settled : scene.state.pendingPathCacheInvalidation = false

structure ExitSpec (scene after : Scene) : Prop where
  outside : after.Outside
  result : 0 ≤ scene.state.emulatedNr → after.tracee.regs.x 0 = scene.state.emulatedResult
  stored : 0 ≤ scene.state.emulatedNr → after.state.emulatedResult = scene.state.emulatedResult
  number : 0 ≤ scene.state.emulatedNr → after.tracee.regs.x 8 = scene.tracee.regs.x 8

theorem exitSyscall_state (registers : Bool) (scene : Scene) :
    (exitSyscall registers scene).state.emulatedNr < 0 := by
  simp only [exitSyscall]
  split
  · simp [returnEmulated]
  rename_i idle
  have negative : scene.state.emulatedNr < 0 := by omega
  split
  · exact negative
  split
  · simp only [maybeFinishManagedMmap]
    split
    · exact negative
    · split <;> exact negative
  · exact negative

variable {env : Env} {scene : Scene} {regs : Regs}

theorem syscallStop_exit {registers : Bool}
    (inside : scene.state.inSyscall = true) : ExitSpec scene (syscallStop env registers scene) := by
  have idle := exitSyscall_state registers scene
  have emulated : 0 ≤ scene.state.emulatedNr → exitSyscall registers scene = returnEmulated scene :=
    fun done => if_pos done
  simp only [syscallStop, inside, ↓reduceIte]
  generalize exitSyscall registers scene = after at idle emulated
  constructor
  · split
    · exact ⟨rfl, idle, rfl⟩
    · rename_i settled
      exact ⟨rfl, idle, Bool.not_eq_true _ ▸ settled⟩
  · intro done
    rw [emulated done]
    split <;> simp [setInSyscall, finishMutation, returnEmulated, Scene.setResult]
  · intro done
    rw [emulated done]
    split <;> rfl
  · intro done
    rw [emulated done]
    split <;> rfl

theorem directEmulation_alike {state after : TraceeState} {result : Reg}
    (emulated : directEmulation env regs state = some (after, result)) :
    after.inSyscall = state.inSyscall ∧ after.emulatedNr = state.emulatedNr ∧
      after.pendingPathCacheInvalidation = state.pendingPathCacheInvalidation := by
  have same : ∀ {value : Reg}, (state, value) = (after, result) →
      after.inSyscall = state.inSyscall ∧ after.emulatedNr = state.emulatedNr ∧
        after.pendingPathCacheInvalidation = state.pendingPathCacheInvalidation := by
    rintro value equal
    cases equal
    exact ⟨rfl, rfl, rfl⟩
  simp only [directEmulation] at emulated
  split at emulated
  · exact same (Option.some.inj emulated)
  split at emulated
  · exact same (Option.some.inj emulated)
  split at emulated
  · exact same (Option.some.inj emulated)
  split at emulated
  · exact same (Option.some.inj emulated)
  split at emulated
  · cases emulated
    have alike := prepareEmulatedResult_alike { state with lastNr := regs.nr, lastArgs := regs.args } regs.nr
    exact ⟨alike.inSyscall, alike.emulatedNr, alike.pending⟩
  split at emulated
  · exact same (Option.some.inj emulated)
  split at emulated
  · exact same (Option.some.inj emulated)
  · cases emulated

theorem emulateBlocked_spec {env : Env} {scene : Scene} (outside : scene.Outside) :
    (emulateBlocked env scene).1.Outside ∧ ((emulateBlocked env scene).2 = true →
        (emulateBlocked env scene).1.tracee.Completed (emulateBlocked env scene).1.state.emulatedResult) := by
  rw [emulateBlocked]
  simp only
  split
  · exact ⟨outside, nofun⟩
  rename_i state result emulated
  obtain ⟨inSyscall, emulatedNr, pending⟩ := directEmulation_alike emulated
  generalize completed_def : completeEmulatedSyscall env env.completing scene.tracee.regs scene.tracee
    result = completed
  obtain ⟨done, regs, tracee⟩ := completed
  cases done with
  | true =>
      refine ⟨⟨rfl, show (-1 : Int) < 0 by decide, ?_⟩, fun _ => completeEmulatedSyscall_done completed_def⟩
      exact pending.trans outside.settled
  | false =>
      refine ⟨⟨?_, ?_, ?_⟩, nofun⟩
      · exact inSyscall.trans outside.inSyscall
      · exact emulatedNr.trans_lt outside.idle
      · exact pending.trans outside.settled

theorem suppressSigsys_outside (outside : scene.Outside) (completed : Bool) :
    (suppressSigsys scene completed).Outside := by
  have idle : ¬ 0 ≤ scene.state.emulatedNr := by
    have negative := outside.idle
    omega
  simp only [suppressSigsys, idle, ↓reduceIte]
  split
  · exact ⟨rfl, outside.idle, outside.settled⟩
  · exact ⟨outside.inSyscall, outside.idle, outside.settled⟩

theorem suppressSigsys_result (idle : scene.state.emulatedNr < 0) (completed : Bool) :
    (suppressSigsys scene completed).tracee.regs.x 0 =
      if completed then scene.state.emulatedResult else scene.tracee.regs.x 0 := by
  have free : ¬ 0 ≤ scene.state.emulatedNr := by omega
  simp only [suppressSigsys, free, ↓reduceIte]
  split <;> simp [setInSyscall, Scene.setResult]

theorem regs_nr_of_skipped (eighth : regs.x 8 = 0xffffffffffffffff) : regs.nr = -1 := by
  rw [Regs.nr, eighth]
  decide

theorem emulateBlocked_skipped (env : Env) (skipped : scene.tracee.regs.nr = -1) :
    emulateBlocked env scene = (scene, false) := by
  have none : directEmulation env scene.tracee.regs scene.state = none := by
    simp [directEmulation, skipped, syscallEmulateErrno, syscallEmulateSuccess]
  simp [emulateBlocked, none]

end PDocker.Direct
