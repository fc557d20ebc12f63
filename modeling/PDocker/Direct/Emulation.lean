import PDocker.Data.Transition
import PDocker.Direct.Stops

/-!
# Results of emulated calls

One tracee from stop to stop. In full mode each call stops at its entry and its
exit, and the platform's filter sees the number that the tracer leaves at the
entry; a blocked call has its SIGSYS stop after the exit stop. In selective mode
the platform's filter comes first: a blocked call has its SIGSYS stop only, one
that the executor's filter traces stops once before it is made, and at its exit
when the tracer asks for it.
-/

set_option autoImplicit false

namespace PDocker.Direct

open Data (Reaches runAll reaches_of_runAll)

/-- A call under way: its first argument, the result that the tracer has emulated for
it, and the emulated results that have been written into `x0` since it began. -/
structure Call where
  first : Reg
  own : Option Reg
  writes : List Reg

structure Return where
  call : Call
  suppressed : Bool
  x0 : Reg

inductive Phase
  | user
  | called (call : Call)
  | entered (call : Call)
  | exiting (call : Call) (blocked : Bool)
  | trapped (call : Call)
  | passing (call : Call)

structure Watch where
  scene : Scene
  phase : Phase
  returns : List Return

inductive StopEvent
  /-- the tracee runs on and makes a call with these registers -/
  | issue (regs : Regs)
  /-- another signal while the tracee runs -/
  | signal
  /-- the entry stop in full mode -/
  | entry (env : Env)
  /-- the stop of the executor's filter -/
  | seccomp (env : Env) (traceMemory : Bool)
  /-- the platform's filter blocks the call before any stop -/
  | blocked
  /-- the kernel makes, skips or blocks the call before its exit stop -/
  | act (blocks : Bool) (result : Reg)
  | exit (env : Env) (registers : Bool)
  /-- the kernel makes or skips the call, which has no exit stop -/
  | pass (result : Reg)
  | sigsys (env : Env)

namespace Watch

def perform (scene : Scene) (result : Reg) : Scene :=
  if scene.tracee.syscallno = -1 then scene else scene.setResult result

def returned (w : Watch) (scene : Scene) (call : Call) (suppressed : Bool) : Watch where
  scene
  phase := .user
  returns := ⟨call, suppressed, scene.tracee.regs.x 0⟩ :: w.returns

def Call.emulated (call : Call) (done : Bool) (result : Reg) : Call :=
  if done then { call with own := some result, writes := result :: call.writes } else call

def Call.exited (call : Call) (state : TraceeState) : Call :=
  if state.inSyscall && decide (0 ≤ state.emulatedNr) then
    { call with writes := state.emulatedResult :: call.writes }
  else call

def Call.signalled (call : Call) (env : Env) (scene : Scene) : Call :=
  if suppressible scene then
    if 0 ≤ scene.state.emulatedNr ∨ completedCurrent scene = true then
      { call with writes := scene.state.emulatedResult :: call.writes }
    else call
  else
    let (after, done) := emulateBlocked env scene
    Call.emulated call done after.state.emulatedResult

def step (selective : Bool) (w : Watch) : StopEvent → Option Watch
  | .issue regs =>
      match w.phase with
      | .user =>
          some { w with
            scene := { w.scene with tracee := ⟨regs, regs.nr⟩ }
            phase := .called ⟨regs.x 0, none, []⟩ }
      | _ => none
  | .signal =>
      match w.phase with
      | .user => some w
      | _ => none
  | .entry env =>
      match w.phase with
      | .called call =>
          if selective then none
          else
            let done := (handleSyscallEntry env w.scene).1
            let scene := syscallStop env false w.scene
            some { w with scene, phase := .entered (Call.emulated call done scene.state.emulatedResult) }
      | _ => none
  | .seccomp env traceMemory =>
      match w.phase with
      | .called call =>
          if selective then
            let done := (handleSyscallEntry env w.scene).1
            let (scene, toExit) := seccompStop env traceMemory w.scene
            let call := Call.emulated call done scene.state.emulatedResult
            some { w with scene, phase := if toExit then .entered call else .passing call }
          else none
      | _ => none
  | .blocked =>
      match w.phase with
      | .called call => if selective then some { w with phase := .trapped call } else none
      | _ => none
  | .act blocks result =>
      match w.phase with
      | .entered call =>
          if blocks then
            if selective then none
            else some { w with scene := w.scene.setResult call.first, phase := .exiting call true }
          else some { w with scene := perform w.scene result, phase := .exiting call false }
      | _ => none
  | .exit env registers =>
      match w.phase with
      | .exiting call blocked =>
          let call := Call.exited call w.scene.state
          let scene := syscallStop env registers w.scene
          some (if blocked then { w with scene, phase := .trapped call } else w.returned scene call false)
      | _ => none
  | .pass result =>
      match w.phase with
      | .called call => if selective then some (w.returned (perform w.scene result) call false) else none
      | .passing call => some (w.returned (perform w.scene result) call false)
      | _ => none
  | .sigsys env =>
      match w.phase with
      | .trapped call =>
          let (scene, suppressed) := sigsysStop env w.scene
          some (w.returned scene (Call.signalled call env w.scene) suppressed)
      | _ => none

/-- An emulated result ends up in `x0` of its own call and of no other, and only a call
with a result has its SIGSYS suppressed. -/
structure Right (r : Return) : Prop where
  reaches : ∀ result, r.call.own = some result → r.x0 = result
  mine : ∀ result ∈ r.call.writes, r.call.own = some result
  suppressed : r.suppressed = true → r.call.own.isSome = true

/-- At the SIGSYS stop of a call that has not been emulated, the record of the last
emulated call is empty or of one that is not completed in userland, and the trap is
not on number -1 after one that is. -/
def Settled (w : Watch) : StopEvent → Prop
  | .sigsys _ => ∀ call, w.phase = .trapped call → call.own = none → suppressible w.scene = false
  | _ => True

/-! ## The invariant -/

def Call.Own (call : Call) : Prop := ∀ result ∈ call.writes, call.own = some result

structure Carries (scene : Scene) (call : Call) : Prop where
  inSyscall : scene.state.inSyscall = true
  own : Call.Own call
  bare : call.own = none → scene.state.emulatedNr < 0
  emulated : ∀ result, call.own = some result →
    0 ≤ scene.state.emulatedNr ∧ scene.state.emulatedResult = result ∧
      scene.tracee.regs.x 8 = 0xffffffffffffffff

structure Blocked (scene : Scene) (call : Call) : Prop where
  outside : scene.Outside
  own : Call.Own call
  emulated : ∀ result, call.own = some result →
    scene.tracee.regs.x 0 = result ∧ scene.state.emulatedResult = result ∧
      scene.tracee.regs.x 8 = 0xffffffffffffffff

structure Plain (scene : Scene) (call : Call) : Prop where
  outside : scene.Outside
  own : call.own = none
  writes : call.writes = []

def PhaseOk (scene : Scene) : Phase → Prop
  | .user => scene.Outside
  | .called call => Plain scene call
  | .entered call => Carries scene call
  | .exiting call _ => Carries scene call
  | .trapped call => Blocked scene call
  | .passing call => Plain scene call

variable {call : Call} {scene : Scene} {event : StopEvent} {next : Watch} {selective : Bool}

theorem Plain.right (plain : Plain scene call) (x0 : Reg) : Right ⟨call, false, x0⟩ := by
  refine ⟨fun result own => ?_, fun result written => ?_, nofun⟩
  · rw [plain.own] at own
    cases own
  · rw [plain.writes] at written
    cases written

theorem Blocked.right (blocked : Blocked scene call) : Right ⟨call, false, scene.tracee.regs.x 0⟩ :=
  ⟨fun value owned => (blocked.emulated value owned).1, blocked.own, nofun⟩

theorem outside_perform (outside : scene.Outside) (result : Reg) : (perform scene result).Outside := by
  rw [perform]
  split
  · exact outside
  · exact ⟨outside.inSyscall, outside.idle, outside.settled⟩

theorem Carries.setResult (carries : Carries scene call) (result : Reg) :
    Carries (scene.setResult result) call :=
  ⟨carries.inSyscall, carries.own, carries.bare, carries.emulated⟩

theorem Carries.perform (carries : Carries scene call) (result : Reg) :
    Carries (perform scene result) call := by
  rw [Watch.perform]
  split
  · exact carries
  · exact carries.setResult result

theorem Plain.entered (plain : Plain scene call) (env : Env) :
    let done := (handleSyscallEntry env scene).1
    let after := setInSyscall (handleSyscallEntry env scene).2.1 true
    Carries after (Call.emulated call done after.state.emulatedResult) := by
  have spec := handleSyscallEntry_spec env scene
  generalize handleSyscallEntry env scene = handled at spec
  obtain ⟨done, after, denied⟩ := handled
  simp only at spec ⊢
  cases done with
  | true =>
      obtain ⟨emulatedNr, nonneg⟩ := spec.emulated rfl
      refine ⟨rfl, fun result written => ?_, nofun, fun result own => ?_⟩
      · simp only [Call.emulated, ↓reduceIte, plain.writes, List.mem_singleton] at written
        rw [written]
        rfl
      · cases own
        refine ⟨?_, rfl, (spec.completed rfl).number⟩
        simp only [setInSyscall, emulatedNr]
        exact nonneg
  | false =>
      refine ⟨rfl, fun result written => ?_, fun _ => ?_, fun result own => ?_⟩
      · simp [Call.emulated, plain.writes] at written
      · simp only [setInSyscall, spec.left rfl]
        exact plain.outside.idle
      · simp [Call.emulated, plain.own] at own

theorem Plain.filtered (plain : Plain scene call) (env : Env) (traceMemory : Bool) :
    let done := (handleSyscallEntry env scene).1
    let stopped := seccompStop env traceMemory scene
    let call' := Call.emulated call done stopped.1.state.emulatedResult
    (stopped.2 = true → Carries stopped.1 call') ∧ (stopped.2 = false → Plain stopped.1 call') := by
  have entered := plain.entered env
  have spec := handleSyscallEntry_spec env scene
  simp only [seccompStop]
  generalize handleSyscallEntry env scene = handled at spec entered
  obtain ⟨done, after, denied⟩ := handled
  simp only at spec entered ⊢
  cases done with
  | true =>
      obtain ⟨emulatedNr, nonneg⟩ := spec.emulated rfl
      have waits : (setInSyscall after true).state.inSyscall &&
          decide (0 ≤ (setInSyscall after true).state.emulatedNr) := by
        simp [setInSyscall, emulatedNr, nonneg]
      simp only [↓reduceIte, if_pos waits]
      exact ⟨fun _ => entered, fun same => by cases same⟩
  | false =>
      have outside : after.state.inSyscall = false := spec.inSyscall.trans plain.outside.inSyscall
      simp only [Bool.false_eq_true, ↓reduceIte, outside, Bool.false_and]
      split
      · exact ⟨fun _ => entered, fun same => by cases same⟩
      rename_i passes
      refine ⟨(fun same => by cases same), fun _ => ⟨⟨outside, ?_, ?_⟩, plain.own, plain.writes⟩⟩
      · rw [spec.left rfl]
        exact plain.outside.idle
      · simp only [Bool.or_eq_true, not_or, Bool.not_eq_true] at passes
        exact passes.1.2

theorem Carries.exited (carries : Carries scene call) (env : Env)
    (registers : Bool) : Blocked (syscallStop env registers scene) (Call.exited call scene.state) := by
  obtain ⟨inside, own, bare, emulated⟩ := carries
  have spec : ExitSpec scene (syscallStop env registers scene) := syscallStop_exit inside
  refine ⟨spec.outside, ?_, fun value owned => ?_⟩
  · rw [Call.exited]
    split
    · rename_i writes
      have nonneg : 0 ≤ scene.state.emulatedNr := by simpa [inside] using writes
      intro value written
      cases owned : call.own with
      | none =>
          have idle := bare owned
          omega
      | some value' =>
          obtain ⟨_, stored, _⟩ := emulated value' owned
          rcases List.mem_cons.mp written with rfl | earlier
          · rw [stored]
          · exact owned.symm.trans (own value earlier)
    · exact own
  · have before : call.own = some value := by
      rw [Call.exited] at owned
      split at owned
      · exact owned
      · exact owned
    obtain ⟨nonneg, stored, number⟩ := emulated value before
    exact ⟨(spec.result nonneg).trans stored, (spec.stored nonneg).trans stored,
      (spec.number nonneg).trans number⟩

theorem sigsysStop_outside (outside : scene.Outside) (env : Env) :
    (sigsysStop env scene).1.Outside := by
  have direct := @emulateBlocked_spec env _ outside
  simp only [sigsysStop]
  split
  · exact suppressSigsys_outside outside _
  · split
    · exact suppressSigsys_outside direct.1 _
    · exact direct.1

theorem Blocked.signalled (blocked : Blocked scene call) (env : Env)
    (settled : call.own = none → suppressible scene = false) :
    Right ⟨Call.signalled call env scene, (sigsysStop env scene).2,
      (sigsysStop env scene).1.tracee.regs.x 0⟩ := by
  obtain ⟨outside, own, emulated⟩ := blocked
  by_cases suppresses : suppressible scene = true
  · -- Only a call with a result of its own gets here.
    obtain ⟨value, owned⟩ : ∃ value, call.own = some value := by
      cases owned : call.own with
      | none =>
          rw [settled owned] at suppresses
          cases suppresses
      | some value => exact ⟨value, rfl⟩
    obtain ⟨first, stored, _⟩ := emulated value owned
    have stop : sigsysStop env scene = (suppressSigsys scene (completedCurrent scene), true) := by
      simp [sigsysStop, suppresses]
    have left : (suppressSigsys scene (completedCurrent scene)).tracee.regs.x 0 = value := by
      rw [suppressSigsys_result outside.idle]
      split
      · exact stored
      · exact first
    have after : (Call.signalled call env scene).own = some value := by
      rw [Call.signalled, if_pos suppresses]
      split <;> exact owned
    rw [stop]
    refine ⟨fun value' owned' => ?_, fun value' written => ?_, fun _ => ?_⟩
    · exact left.trans (Option.some.inj (after.symm.trans owned'))
    · simp only at written
      rw [after]
      rw [Call.signalled, if_pos suppresses] at written
      split at written
      · rcases List.mem_cons.mp written with rfl | earlier
        · rw [stored]
        · exact owned.symm.trans (own value' earlier)
      · exact owned.symm.trans (own value' written)
    · simp only [after, Option.isSome_some]
  · have direct := @emulateBlocked_spec env _ outside
    have current : completedCurrent scene = false := by
      simp only [suppressible, Bool.or_eq_true, not_or, Bool.not_eq_true] at suppresses
      exact suppresses.2
    simp only [sigsysStop, Call.signalled, suppresses, Bool.false_eq_true, ↓reduceIte, current]
    generalize blocked_def : emulateBlocked env scene = stopped at direct
    obtain ⟨after, done⟩ := stopped
    simp only at direct ⊢
    have skipped : ∀ value, call.own = some value → (after, done) = (scene, false) := by
      intro value owned
      rw [← blocked_def]
      exact emulateBlocked_skipped env (regs_nr_of_skipped (emulated value owned).2.2)
    cases done with
    | true =>
        have bare : call.own = none := by
          cases owned : call.own with
          | none => rfl
          | some value => cases skipped value owned
        have writes : call.writes = [] := by
          cases written : call.writes with
          | nil => rfl
          | cons value rest =>
              have owned := own value (by rw [written]; exact List.mem_cons_self)
              rw [bare] at owned
              cases owned
        simp only [↓reduceIte, Call.emulated, writes]
        refine ⟨fun value owned => ?_, fun value written => ?_, fun _ => rfl⟩
        · cases owned
          rw [suppressSigsys_result direct.1.idle]
          exact (direct.2 rfl).result
        · rw [List.mem_singleton] at written
          rw [written]
    | false =>
        simp only [Bool.false_eq_true, ↓reduceIte, Call.emulated]
        refine ⟨fun value owned => ?_, own, nofun⟩
        cases skipped value owned
        exact (emulated value owned).1

theorem phaseOk_step {w : Watch} (phase : PhaseOk w.scene w.phase) (result : w.step selective event = some next) :
    PhaseOk next.scene next.phase := by
  cases event with
  | issue regs =>
      simp only [Watch.step] at result
      split at result
      · rename_i user
        rw [user] at phase
        cases result
        exact ⟨⟨phase.inSyscall, phase.idle, phase.settled⟩, rfl, rfl⟩
      · cases result
  | signal =>
      simp only [Watch.step] at result
      split at result
      · cases result
        exact phase
      · cases result
  | entry env =>
      simp only [Watch.step] at result
      split at result
      · rename_i call called
        rw [called] at phase
        split at result
        · cases result
        cases result
        have stop : syscallStop env false w.scene =
            setInSyscall (handleSyscallEntry env w.scene).2.1 true := by
          simp [syscallStop, phase.outside.inSyscall]
        simp only [stop]
        exact phase.entered env
      · cases result
  | seccomp env traceMemory =>
      simp only [Watch.step] at result
      split at result
      · rename_i call called
        rw [called] at phase
        split at result
        · cases result
          obtain ⟨waits, passes⟩ := phase.filtered env traceMemory
          cases stopped : (seccompStop env traceMemory w.scene).2 with
          | true => exact waits stopped
          | false => exact passes stopped
        · cases result
      · cases result
  | blocked =>
      simp only [Watch.step] at result
      split at result
      · rename_i call called
        rw [called] at phase
        split at result
        · cases result
          refine ⟨phase.outside, fun value written => ?_, fun value owned => ?_⟩
          · rw [phase.writes] at written
            cases written
          · rw [phase.own] at owned
            cases owned
        · cases result
      · cases result
  | act blocks value =>
      simp only [Watch.step] at result
      split at result
      · rename_i call entered
        rw [entered] at phase
        split at result
        · split at result
          · cases result
          · cases result
            exact phase.setResult call.first
        · cases result
          exact phase.perform value
      · cases result
  | exit env registers =>
      simp only [Watch.step] at result
      split at result
      · rename_i call blocked exiting
        rw [exiting] at phase
        have exited := phase.exited env registers
        cases blocked with
        | true =>
            cases result
            exact exited
        | false =>
            cases result
            exact exited.outside
      · cases result
  | pass value =>
      simp only [Watch.step] at result
      split at result
      · rename_i call called
        rw [called] at phase
        split at result
        · cases result
          exact outside_perform phase.outside value
        · cases result
      · rename_i call passing
        rw [passing] at phase
        cases result
        exact outside_perform phase.outside value
      · cases result
  | sigsys env =>
      simp only [Watch.step] at result
      split at result
      · rename_i call trapped
        rw [trapped] at phase
        cases result
        exact sigsysStop_outside phase.outside env
      · cases result

theorem right_step {w : Watch} (phase : PhaseOk w.scene w.phase) (settled : w.Settled event)
    (result : w.step selective event = some next) : ∀ r ∈ next.returns, r ∈ w.returns ∨ Right r := by
  cases event with
  | exit env registers =>
      simp only [Watch.step] at result
      split at result
      · rename_i call blocked exiting
        rw [exiting] at phase
        have exited := phase.exited env registers
        cases blocked with
        | true =>
            cases result
            exact fun r member => .inl member
        | false =>
            cases result
            intro r member
            rcases List.mem_cons.mp member with rfl | earlier
            · exact .inr exited.right
            · exact .inl earlier
      · cases result
  | pass value =>
      simp only [Watch.step] at result
      split at result
      · rename_i call called
        rw [called] at phase
        split at result
        · cases result
          intro r member
          rcases List.mem_cons.mp member with rfl | earlier
          · exact .inr (phase.right _)
          · exact .inl earlier
        · cases result
      · rename_i call passing
        rw [passing] at phase
        cases result
        intro r member
        rcases List.mem_cons.mp member with rfl | earlier
        · exact .inr (phase.right _)
        · exact .inl earlier
      · cases result
  | sigsys env =>
      simp only [Watch.step] at result
      split at result
      · rename_i call trapped
        rw [trapped] at phase
        cases result
        intro r member
        rcases List.mem_cons.mp member with rfl | earlier
        · exact .inr (phase.signalled env fun bare => settled call trapped bare)
        · exact .inl earlier
      · cases result
  | issue _ | signal | entry _ | seccomp _ _ | blocked | act _ _ =>
      -- The call does not return at these events.
      simp only [Watch.step] at result
      repeat' split at result
      all_goals cases result
      all_goals exact fun r member => .inl member

def Idle (w : Watch) : Prop := w.scene.Outside ∧ w.phase = .user ∧ w.returns = []

/-- Every emulated result reaches its own call, in a run without a SIGSYS stop that
finds a stale record. -/
theorem results_reach_own {selective : Bool} {first last : Watch} (idle : first.Idle)
    (reaches : Reaches (step selective) Settled first last) : ∀ r ∈ last.returns, Right r := by
  obtain ⟨outside, user, none⟩ := idle
  refine (reaches.invariant (fun w => PhaseOk w.scene w.phase ∧ ∀ r ∈ w.returns, Right r) ?_ ?_).2
  · rw [user, none]
    exact ⟨outside, nofun⟩
  intro w event next ⟨phase, rights⟩ settled result
  refine ⟨phaseOk_step phase result, fun r member => ?_⟩
  rcases right_step phase settled result r member with earlier | right
  · exact rights r earlier
  · exact right

section

private def pathless : Env where
  svcAt := fun _ => false
  rootfsFd := 3
  rootfdRewrite := false
  candidateMmap := fun _ => false
  mmapRegs := true
  guardMemory := none
  emulateGetcwd := 0
  emulateProcSelfExeReadlinkat := none
  emulateLinkatCopy := none
  emulateRuntimeTmpSymlinkat := none
  emulateFaccessatPath := 0
  readTraceeString := fun _ => none
  writeTraceeString := fun _ _ => false
  resolveGuestHostPath := fun _ => .kept
  validateHostPathUnderAllowed := fun _ _ => 0
  validateRelativeTraceePath := fun _ _ _ => 0
  rewriteUnixSockaddrArg := fun _ => none
  rewriteExecveArg := fun _ => none
  denying := ⟨true, true⟩
  completing := ⟨true, true⟩
  setRegs := true

private def numbered (nr first : Reg) : Regs :=
  ⟨fun index => if index = 0 then first else if index = 8 then nr else 0, 8192, 4096⟩

private def quiet : Watch where
  scene := ⟨freshTracee, ⟨numbered 0 0, -1⟩, .initial true⟩
  phase := .user
  returns := []

private theorem quiet_idle : quiet.Idle := ⟨⟨rfl, by decide, rfl⟩, rfl, rfl⟩

private def finds : Watch → StopEvent → Bool
  | w, .sigsys _ =>
      match w.phase with
      | .trapped call => call.own.isSome || !suppressible w.scene
      | _ => true
  | _, _ => true

private theorem settled_of_finds (w : Watch) (event : StopEvent) (found : finds w event = true) :
    w.Settled event := by
  cases event with
  | sigsys env =>
      intro call trapped bare
      simpa [finds, trapped, bare] using found
  | _ => trivial

/-- A blocked set_robust_list and then a getuid that the filter stops. -/
theorem results_reach_own_twice : ∃ last, Reaches (step true) Settled quiet last ∧
      last.returns.map (fun r => (r.call.own, r.suppressed, r.x0)) =
        [(some 0, false, 0), (some 0, true, 0)] ∧
      ∀ r ∈ last.returns, Right r := by
  obtain ⟨last, moved⟩ : ∃ last, runAll (step true) finds quiet
      [.issue (numbered 99 4096), .blocked, .sigsys pathless,
        .issue (numbered 174 7), .seccomp pathless false, .act false 9, .exit pathless true] =
          some last := ⟨_, rfl⟩
  have reaches := reaches_of_runAll settled_of_finds _ .refl moved
  refine ⟨last, reaches, ?_, results_reach_own quiet_idle reaches⟩
  cases moved
  decide

/-- After a getuid that the filter stopped, a blocked set_robust_list returns with its
first argument; a call with number -1 of the tracee's own gets the result of the last
emulated call. -/
theorem results_astray : (∃ last, Reaches (step true) (fun _ _ => True) quiet last ∧
      last.returns.map (fun r => (r.call.own, r.suppressed, r.x0)) =
        [(none, true, 4096), (some 0, false, 0)] ∧ ¬ ∀ r ∈ last.returns, Right r) ∧
    (∃ last, Reaches (step true) (fun _ _ => True) quiet last ∧
      last.returns.map (fun r => (r.call.own, r.call.writes, r.x0)) =
        [(none, [0], 0), (some 0, [0], 0)] ∧ ¬ ∀ r ∈ last.returns, Right r) := by
  constructor
  · obtain ⟨last, moved⟩ : ∃ last, runAll (step true) (fun _ _ => true) quiet
        [.issue (numbered 174 7), .seccomp pathless false, .act false 9, .exit pathless true,
          .issue (numbered 99 4096), .blocked, .sigsys pathless] = some last := ⟨_, rfl⟩
    have reaches : Reaches (step true) (fun _ _ => True) quiet last :=
      reaches_of_runAll (fun _ _ _ => trivial) _ .refl moved
    refine ⟨last, reaches, ?_, fun rights => ?_⟩
    · cases moved
      decide
    · cases moved
      exact absurd ((rights _ List.mem_cons_self).suppressed rfl) (by decide)
  · obtain ⟨last, moved⟩ : ∃ last, runAll (step true) (fun _ _ => true) quiet
        [.issue (numbered 99 4096), .blocked, .sigsys pathless,
          .issue (numbered (-1) 4096), .blocked, .sigsys pathless] = some last := ⟨_, rfl⟩
    have reaches : Reaches (step true) (fun _ _ => True) quiet last :=
      reaches_of_runAll (fun _ _ _ => trivial) _ .refl moved
    refine ⟨last, reaches, ?_, fun rights => ?_⟩
    · cases moved
      decide
    · cases moved
      exact absurd ((rights _ List.mem_cons_self).mine 0 List.mem_cons_self) (by decide)

end

end Watch

end PDocker.Direct
