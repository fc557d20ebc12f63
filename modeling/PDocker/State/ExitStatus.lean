import PDocker.State.Interleaving

/-!
# The exit status after a stop

The exit watcher records the return code of the process. Stop writes 143 where
it finds a zero exit code in its copy, and in a copy loaded before the watcher
has saved there always is one. The record keeps the return code if nobody holds
such a copy when the watcher saves.
-/

set_option autoImplicit false

namespace PDocker.State

open Data

structure Recorded (returncode : Int) (state : ContainerState) : Prop where
  exitCode : state.exitCode = dockerExitCode returncode
  rawReturnCode : state.rawReturnCode = returncode
  signal : state.signal = if returncode < 0 then returncode.natAbs else 0

structure Ended (returncode : Int) (state : ContainerState) : Prop where
  quiet : Quiet state
  recorded : Recorded returncode state

section
variable {returncode : Int} {state : ContainerState} {world : World}

theorem dockerExitCode_range (fits : returncode ≤ 255) :
    0 ≤ dockerExitCode returncode ∧ dockerExitCode returncode ≤ 255 := by
  unfold dockerExitCode
  split
  · omega
  · omega

variable (recorded : Recorded returncode state)

include recorded

theorem Recorded.normalizeExitState
    (fits : returncode ≤ 255) : Recorded returncode (normalizeExitState state) := by
  obtain ⟨low, high⟩ := dockerExitCode_range fits
  have notNegative : ¬ state.exitCode < 0 := by rw [recorded.exitCode]; omega
  have notLarge : ¬ 255 < state.exitCode := by rw [recorded.exitCode]; omega
  simp only [State.normalizeExitState, notNegative, notLarge, ↓reduceIte]
  split
  · exact recorded
  · exact ⟨recorded.exitCode, recorded.rawReturnCode, recorded.signal⟩

theorem Recorded.markHealthNotRunning (now : Nat)
    (output : Name) : Recorded returncode (markHealthNotRunning now output state) := by
  unfold State.markHealthNotRunning
  split
  · exact recorded
  · split
    · exact recorded
    · exact ⟨recorded.exitCode, recorded.rawReturnCode, recorded.signal⟩

theorem Recorded.recordProcesses (roots : List Nat) :
    Recorded returncode (recordProcesses world roots state) := by
  unfold State.recordProcesses
  dsimp only
  split
  · exact ⟨recorded.exitCode, recorded.rawReturnCode, recorded.signal⟩
  · exact ⟨recorded.exitCode, recorded.rawReturnCode, recorded.signal⟩
  · exact ⟨recorded.exitCode, recorded.rawReturnCode, recorded.signal⟩

theorem Recorded.stopComplete (world : World) (roots : List Nat) :
    Recorded returncode (stopComplete world false (recordTeardown world roots [] state)) := by
  apply Recorded.markHealthNotRunning
  simp only [Bool.false_eq_true, false_and, ↓reduceIte]
  exact ⟨recorded.exitCode, recorded.rawReturnCode, recorded.signal⟩

omit recorded

theorem lasting_ended (fits : returncode ≤ 255) : Lasting (Ended returncode) where
  quiet ended := ended.quiet
  processes roots ended idle :=
    ⟨ended.quiet.recordProcesses idle roots, ended.recorded.recordProcesses roots⟩
  normalized ended :=
    ⟨quiet_normalizeExitState ended.quiet.stopped, ended.recorded.normalizeExitState fits⟩
  unhealthy now output ended :=
    ⟨ended.quiet.markHealthNotRunning now output, ended.recorded.markHealthNotRunning now output⟩
  networks networks ended :=
    ⟨ended.quiet.withNetworks networks,
      ended.recorded.exitCode, ended.recorded.rawReturnCode, ended.recorded.signal⟩
  stopped world roots ended := ⟨quiet_stopComplete _ _ _, ended.recorded.stopComplete world roots⟩

theorem Idle.containerLivePid_eq_zero (idle : Idle world) (state : ContainerState) :
    containerLivePid world state = 0 := by
  have nobody : liveEntries world state = [] := by
    rw [liveEntries, List.filter_eq_nil_iff]
    intro entry _
    simp [processIdentityAlive, idle.processIdentity_eq_none]
  simp [containerLivePid, nobody, preferredPid]

theorem ended_of_finishWatch (fits : returncode ≤ 255) (idle : Idle world)
    (state : ContainerState) : ∃ next saved, finishWatch returncode state = .look id next ∧
      next world = .save saved (.ret true) ∧ Ended returncode saved := by
  refine ⟨_, normalizeExitState
    { recordReturnCode returncode { state with running := false, status := .exited } with
      pid := 0, pidStartTime := none, finishedAt := world.now }, rfl, ?_, ?_⟩
  · simp only [idle.containerLivePid_eq_zero state, ne_eq, not_true_eq_false, ↓reduceIte]
  · refine ⟨quiet_normalizeExitState rfl, Recorded.normalizeExitState ?_ fits⟩
    exact ⟨rfl, rfl, rfl⟩

end

def Operation.isWatcher : Operation → Bool
  | .watcher _ _ => true
  | _ => false

def MayMove (watcher index : Nat) (op : Operation) : Prop :=
  op.isStart = false ∧ (op.isWatcher = true → index = watcher)

/-- At the last look of the watcher no process lives, and when it saves the
exit, no other thread holds a copy that it is going to save. -/
structure ExitObserved (returncode : Int) (watcher : Nat) (system : Engine)
    (event : Event Operation Change) : Prop where
  moves : OnlyMoves (MayMove watcher) system event
  gone : ∀ thread state, event = .advance watcher → system.threads[watcher]? = some thread →
    thread.prog = finishWatch returncode state → Idle system.world
  alone : ∀ thread saved, event = .advance watcher → system.threads[watcher]? = some thread →
    thread.prog = .save saved (.ret true) → ∀ other held, system.threads[other]? = some held →
      other ≠ watcher → MayMove watcher other held.op → Unloaded held.prog

inductive Watching (root : Nat) (returncode : Int) : StateProg → Prop where
  | started : Watching root returncode (watchExit root returncode)
  | loaded : Watching root returncode (refreshProcessSnapshot [root] (.load (finishWatch returncode)))
  | refreshing (state : ContainerState) : Watching root returncode
      (saveProcesses [root] (.load (finishWatch returncode)) state)
  | refreshed (saved : ContainerState) : Watching root returncode
      (.save saved (.load (finishWatch returncode)))
  | reloading : Watching root returncode (.load (finishWatch returncode))
  | looking (state : ContainerState) : Watching root returncode (finishWatch returncode state)

/-- How far the watcher is, and what the engine is like then. -/
inductive Watched (root : Nat) (returncode : Int) (watcher : Nat) (system : Engine)
    (prog : StateProg) : Prop where
  | watching (before : Watching root returncode prog)
  | saving (idle : Idle system.world) (saved : ContainerState) (ended : Ended returncode saved)
      (saves : prog = .save saved (.ret true))
  | done (returned : prog = .ret true) (still : Still (Ended returncode) Idle (MayMove watcher) system)

section
variable {root watcher : Nat} {returncode : Int} {system next : Engine}
  {event : Event Operation Change} {thread after : Thread Operation ContainerState World}

def Operation.setsExit (op : Operation) : Bool := op.isStart || op.isWatcher

theorem tame_of_not_setsExit (fits : returncode ≤ 255) (op : Operation)
    (other : op.setsExit = false) : Tame (Ended returncode) Idle op.program := by
  have both := Bool.or_eq_false_iff.mp other
  apply (lasting_ended fits).tame op both.1
  rintro root code rfl
  cases both.2

theorem MayMove.not_setsExit {index : Nat} {op : Operation} (may : MayMove watcher index op)
    (other : index ≠ watcher) : op.setsExit = false := by
  apply Bool.or_eq_false_iff.mpr
  refine ⟨may.1, ?_⟩
  cases isWatcher : op.isWatcher with
  | false => rfl
  | true => exact absurd (may.2 isWatcher) other

private theorem watched_move (fits : returncode ≤ 255)
    (tame : TameThreads (Ended returncode) Idle Operation.setsExit system)
    (found : system.threads[watcher]? = some thread)
    (watched : Watched root returncode watcher system thread.prog)
    (observed : ExitObserved returncode watcher system (.advance watcher))
    (result : system.step Operation.program Change.apply (.advance watcher) = some next) :
    ∃ after, next.threads[watcher]? = some after ∧ Watched root returncode watcher next after.prog := by
  have within := (List.getElem?_eq_some_iff.mp found).1
  cases watched with
  | watching before =>
      cases shape : thread.prog with
      | ret ok | reload rest | peek rest => rw [shape] at before; cases before
      | load rest =>
          simp only [System.step, found, Thread.step, shape] at result
          obtain rfl := Option.some.inj result
          refine ⟨_, List.getElem?_set_self within, .watching ?_⟩
          rw [shape] at before
          cases before with
          | started => exact .loaded
          | loaded => exact .refreshing _
          | reloading => exact .looking _
      | save saved rest =>
          simp only [System.step, found, Thread.step, shape] at result
          obtain rfl := Option.some.inj result
          refine ⟨_, List.getElem?_set_self within, .watching ?_⟩
          rw [shape] at before
          cases before
          exact .reloading
      | look act rest =>
          simp only [System.step, found, Thread.step, shape] at result
          obtain rfl := Option.some.inj result
          refine ⟨_, List.getElem?_set_self within, ?_⟩
          rw [shape] at before
          generalize same : Prog.look act rest = prog at before
          cases before with
          | started | loaded | refreshed saved | reloading => cases same
          | refreshing state =>
              cases same
              exact .watching (.refreshed _)
          | looking state =>
              have idle := observed.gone thread state rfl found (shape.trans same)
              obtain ⟨next, saved, program, saves, ended⟩ := ended_of_finishWatch fits idle state
              cases same.trans program
              exact .saving idle saved ended saves
  | saving idle saved ended saves =>
      have still : Still (Ended returncode) Idle (MayMove watcher) next :=
        still_of_save found saves ended idle trivial (fun other held foundOther elsewhere may =>
          ⟨tame held (List.mem_of_getElem? foundOther) (may.not_setsExit elsewhere),
            observed.alone thread saved rfl found saves other held foundOther elsewhere may⟩) result
      simp only [System.step, found, Thread.step, saves] at result
      obtain rfl := Option.some.inj result
      exact ⟨_, List.getElem?_set_self within, .done rfl still⟩
  | done returned still =>
      simp only [System.step, found, Thread.step, returned] at result
      cases result

private theorem watched_aside (fits : returncode ≤ 255)
    (tame : TameThreads (Ended returncode) Idle Operation.setsExit system)
    (found : system.threads[watcher]? = some thread)
    (watched : Watched root returncode watcher system thread.prog)
    (observed : ExitObserved returncode watcher system event) (aside : event ≠ .advance watcher)
    (result : system.step Operation.program Change.apply event = some next) :
    next.threads[watcher]? = some thread ∧ Watched root returncode watcher next thread.prog := by
  have within := (List.getElem?_eq_some_iff.mp found).1
  have stays : next.threads[watcher]? = some thread ∧ (Idle system.world → Idle next.world) := by
    obtain ⟨op, -, rfl⟩ | ⟨outside, -, rfl⟩ | ⟨other, mover, after, doc, version, world, rfl,
      foundOther, moved, rfl⟩ := step_cases result
    · exact ⟨by rw [List.getElem?_append_left within]; exact found, id⟩
    · exact ⟨found, idle_apply outside _⟩
    have elsewhere : other ≠ watcher := fun same => aside (congrArg _ same)
    have may := (observed.moves other mover rfl foundOther).not_setsExit elsewhere
    have tameMover := tame mover (List.mem_of_getElem? foundOther) may
    exact ⟨by rw [List.getElem?_set_ne elsewhere]; exact found, tame_idle tameMover moved⟩
  refine ⟨stays.1, ?_⟩
  cases watched with
  | watching before => exact .watching before
  | saving idle saved ended saves => exact .saving (stays.2 idle) saved ended saves
  | done returned still =>
      refine .done returned (still_step (fun op may => ?_) idle_apply still observed.moves result)
      -- what is spawned now has loaded nothing yet
      have other := may.not_setsExit (Nat.ne_of_gt within)
      have tameOp := tame_of_not_setsExit fits op other
      apply calm_of_unloaded _ tameOp
      cases op with
      | health retries entry => exact fun _ => trivial
      | stop | start proc entryOf fault | watcher root code | tracker root | reconcile attached
      | connect network entry | disconnect network => trivial

end

def atRest : StateProg → Bool
  | .ret _ => true
  | .load _ => true
  | _ => false

theorem unloaded_of_atRest (prog : StateProg) (rests : atRest prog = true) : Unloaded prog := by
  cases prog with
  | ret ok => trivial
  | load next => trivial
  | reload next | peek next | look act next | save saved next => cases rests

def exitObserved (watcher : Nat) (system : Engine) : Event Operation Change → Bool
  | .advance index =>
      (system.threads[index]?).all fun thread =>
        !thread.op.isStart && (!thread.op.isWatcher || index = watcher) && (match thread.prog with
          | .look _ _ => index ≠ watcher || system.world.procs.isEmpty
          | .save _ (.ret true) =>
              index ≠ watcher || (system.threads.eraseIdx watcher).all fun held => atRest held.prog
          | _ => true)
  | _ => true

theorem exitObserved_sound (returncode : Int) {watcher : Nat} (system : Engine)
    (event : Event Operation Change) (checked : exitObserved watcher system event = true) :
    ExitObserved returncode watcher system event := by
  constructor
  · intro index thread advanced found
    subst advanced
    simp only [exitObserved, found, Option.all_some, Bool.and_eq_true, Bool.not_eq_true',
      Bool.or_eq_true, decide_eq_true_eq] at checked
    refine ⟨checked.1.1, fun isWatcher => ?_⟩
    exact checked.1.2.resolve_left (by rw [isWatcher]; exact Bool.noConfusion)
  · intro thread state advanced found looks
    subst advanced
    simp only [exitObserved, found, Option.all_some, Bool.and_eq_true, looks, finishWatch] at checked
    exact List.isEmpty_iff.mp (by simpa using checked.2)
  intro thread saved advanced found saves other held foundOther elsewhere _
  subst advanced
  simp only [exitObserved, found, Option.all_some, Bool.and_eq_true, saves] at checked
  have rests : ∀ held ∈ system.threads.eraseIdx watcher, atRest held.prog = true := by
    simpa using checked.2
  apply unloaded_of_atRest
  exact rests held (List.mem_eraseIdx_iff_getElem?.mpr ⟨other, elsewhere, foundOther⟩)

def watcherReturned (returncode : Int) (system : Engine) (index : Nat) : Bool :=
  match system.threads[index]? with
  | some ⟨.watcher 7 code, .ret true, _⟩ => code = returncode
  | _ => false

theorem watcherReturned_sound {returncode : Int} {system : Engine} {index : Nat}
    (checked : watcherReturned returncode system index = true) :
    ∃ base, system.threads[index]? = some ⟨.watcher 7 returncode, .ret true, base⟩ := by
  unfold watcherReturned at checked
  split at checked
  · rename_i code base found
    rw [← of_decide_eq_true checked]
    exact ⟨base, found⟩
  · cases checked

def stopSignals : List (Event Operation Change) :=
  .spawn .stop :: List.replicate 6 (.advance 0) ++ [.change (.exit 7)]

end PDocker.State
