import PDocker.State.Container

/-!
# Stopped containers stay stopped

A container without a process and without a process on record is quiet. Every
operation but start saves a quiet record if it has loaded one, and stop returns
true only after it has saved one.
-/

set_option autoImplicit false

namespace PDocker.State

open Data

structure Quiet (state : ContainerState) : Prop where
  stopped : state.running = false
  pid : state.pid = 0
  start : state.pidStartTime = none
  launcher : state.launcherPid = none
  known : state.knownPids = []

def Idle (world : World) : Prop := world.procs = []

section
variable {state : ContainerState} {world : World}

theorem Quiet.liveEntries_eq_nil (quiet : Quiet state) (world : World) :
    liveEntries world state = [] := by
  have noEntries : containerProcessEntries state = [] := by
    simp only [containerProcessEntries, quiet.start, quiet.launcher, quiet.known]
    rfl
  rw [liveEntries, noEntries, List.filter_nil]

theorem Quiet.containerLivePid_eq_zero (quiet : Quiet state) (world : World) :
    containerLivePid world state = 0 := by
  simp [containerLivePid, quiet.liveEntries_eq_nil world, preferredPid]

theorem Idle.processIdentity_eq_none (idle : Idle world) (pid : Nat) :
    processIdentity world pid = none := by
  simp [processIdentity, show world.procs = [] from idle]

theorem Quiet.recordProcesses (quiet : Quiet state) (idle : Idle world) (roots : List Nat) :
    Quiet (recordProcesses world roots state) := by
  have none_ : ∀ pids : List Nat, pids.filterMap (processIdentity world) = [] := by
    intro pids
    rw [List.filterMap_eq_nil_iff]
    exact fun pid _ => idle.processIdentity_eq_none pid
  simp only [State.recordProcesses, none_]
  exact ⟨quiet.stopped, quiet.pid, quiet.start, quiet.launcher, rfl⟩

theorem quiet_normalizeExitState (stopped : state.running = false) :
    Quiet (normalizeExitState state) := by
  simp only [normalizeExitState, stopped, Bool.false_eq_true, ↓reduceIte]
  split
  · exact ⟨rfl, rfl, rfl, rfl, rfl⟩
  · split
    · exact ⟨rfl, rfl, rfl, rfl, rfl⟩
    · exact ⟨rfl, rfl, rfl, rfl, rfl⟩

theorem Quiet.markHealthNotRunning (quiet : Quiet state) (now : Nat) (output : Name) :
    Quiet (markHealthNotRunning now output state) := by
  unfold State.markHealthNotRunning
  split
  · exact quiet
  · split
    · exact quiet
    · exact ⟨quiet.stopped, quiet.pid, quiet.start, quiet.launcher, quiet.known⟩

theorem quiet_stopComplete (world : World) (stopped : Bool) (state : ContainerState) :
    Quiet (stopComplete world stopped state) := by
  apply Quiet.markHealthNotRunning
  by_cases coded : stopped = true ∧ state.exitCode = 0
  · rw [if_pos coded]
    exact ⟨rfl, rfl, rfl, rfl, rfl⟩
  · rw [if_neg coded]
    exact ⟨rfl, rfl, rfl, rfl, rfl⟩

theorem Quiet.withNetworks (quiet : Quiet state) (networks : Table Name NetworkEntry) :
    Quiet { state with networks } :=
  ⟨quiet.stopped, quiet.pid, quiet.start, quiet.launcher, quiet.known⟩

end

/-! ## Every operation but start is tame -/

/-- What holds of quiet records, and what the edits made in an idle world keep. -/
structure Lasting (P : ContainerState → Prop) : Prop where
  quiet : ∀ {state}, P state → Quiet state
  processes : ∀ {state world} (roots : List Nat), P state → Idle world →
    P (recordProcesses world roots state)
  normalized : ∀ {state}, P state → P (normalizeExitState state)
  unhealthy : ∀ {state} (now : Nat) (output : Name), P state → P (markHealthNotRunning now output state)
  networks : ∀ {state} (networks : Table Name NetworkEntry), P state → P { state with networks }
  stopped : ∀ {state} (world : World) (roots : List Nat), P state →
    P (stopComplete world false (recordTeardown world roots [] state))

theorem lasting_quiet : Lasting Quiet where
  quiet quiet := quiet
  processes roots quiet idle := quiet.recordProcesses idle roots
  normalized quiet := quiet_normalizeExitState quiet.stopped
  unhealthy now output quiet := quiet.markHealthNotRunning now output
  networks networks quiet := quiet.withNetworks networks
  stopped _ _ _ := quiet_stopComplete _ _ _

section
variable {P : ContainerState → Prop}

theorem calm_refreshProcessSnapshot (lasting : Lasting P) {roots : List Nat} {next : StateProg}
    (calm : Calm P Idle next) : Calm P Idle (refreshProcessSnapshot roots next) := by
  intro state holds world idle
  exact ⟨idle, lasting.processes roots holds idle, calm⟩

theorem tame_refreshProcessSnapshot (lasting : Lasting P) {roots : List Nat} {next : StateProg}
    (calm : Calm P Idle next) (tame : Tame P Idle next) :
    Tame P Idle (refreshProcessSnapshot roots next) := by
  constructor
  · exact calm_refreshProcessSnapshot lasting calm
  · intro state
    exact ⟨fun _ idle => idle, fun _ => tame⟩

theorem tame_trackProcesses (lasting : Lasting P) (root : Nat) : Tame P Idle (trackProcesses root) :=
  tame_refreshProcessSnapshot lasting (fun _ _ => trivial) fun _ => trivial

private theorem calm_peek_ret (ok : Bool) :
    Calm P Idle (.peek fun _ => .ret ok : StateProg) := fun _ _ => trivial

private theorem tame_peek_ret (ok : Bool) :
    Tame P Idle (.peek fun _ => .ret ok : StateProg) := fun _ => trivial

theorem tame_finishWatch (returncode : Int) : Tame Quiet Idle (.load (finishWatch returncode)) := by
  constructor
  · intro state quiet world idle
    refine ⟨idle, ?_⟩
    simp only [quiet.containerLivePid_eq_zero world, ne_eq, not_true_eq_false, ↓reduceIte]
    exact ⟨quiet_normalizeExitState rfl, trivial⟩
  intro state
  refine ⟨fun _ idle => idle, fun world => ?_⟩
  dsimp only
  split
  · trivial
  · trivial

theorem tame_watchExit (root : Nat) (returncode : Int) :
    Tame Quiet Idle (watchExit root returncode) := by
  have tail := tame_finishWatch returncode
  constructor
  · intro state quiet
    exact calm_refreshProcessSnapshot lasting_quiet tail.1
  · intro state
    exact tame_refreshProcessSnapshot lasting_quiet tail.1 tail

theorem tame_setHealth (lasting : Lasting P) (status : HealthStatus) (entry : HealthEntry) :
    Tame P Idle (setHealth status entry) := by
  constructor
  · intro state holds
    simp only [(lasting.quiet holds).stopped, Bool.false_eq_true, ↓reduceIte]
    exact fun world idle => ⟨idle, lasting.unhealthy _ _ holds, trivial⟩
  intro state
  dsimp only
  split
  · trivial
  · exact ⟨fun _ idle => idle, fun _ => trivial⟩

theorem tame_reportProbe (lasting : Lasting P) (retries : Nat) (entry : HealthEntry) :
    Tame P Idle (reportProbe retries entry) :=
  fun _ => tame_setHealth lasting _ _

theorem tame_reconcile (lasting : Lasting P) (attached : Bool) : Tame P Idle (reconcile attached) := by
  constructor
  · intro state holds world idle
    have quiet := lasting.quiet holds
    simp only [quiet.stopped, quiet.containerLivePid_eq_zero world, Bool.false_eq_true,
      ↓reduceIte, ne_eq, not_true_eq_false]
    exact ⟨idle, lasting.unhealthy _ _ (lasting.normalized holds), trivial⟩
  intro state
  refine ⟨fun _ idle => idle, fun world => ?_⟩
  dsimp only
  split
  · split
    · exact tame_peek_ret true
    · split
      · exact tame_refreshProcessSnapshot lasting (calm_peek_ret true) (tame_peek_ret true)
      · trivial
  · split
    · exact fun latest => ⟨fun _ idle => idle, fun _ => fun latest =>
        ⟨fun _ idle => idle, fun _ => fun _ => trivial⟩⟩
    · trivial

private theorem tame_edit {edit : ContainerState → ContainerState}
    (keeps : ∀ state, P state → P (edit state)) :
    Tame P Idle (.load fun state => .save (edit state) (.ret true) : StateProg) :=
  ⟨fun state holds => ⟨keeps state holds, trivial⟩, fun _ => trivial⟩

theorem tame_connectNetwork (lasting : Lasting P) (network : Name) (entry : NetworkEntry) :
    Tame P Idle (connectNetwork network entry) :=
  tame_edit fun _ => lasting.networks _

theorem tame_disconnectNetwork (lasting : Lasting P) (network : Name) :
    Tame P Idle (disconnectNetwork network) :=
  tame_edit fun _ => lasting.networks _

theorem tame_stopContainer (lasting : Lasting P) : Tame P Idle stopContainer := by
  have calmFinal : ∀ state : ContainerState, P state → Calm P Idle (finishStop state) := by
    intro state holds signalled idleSignalled
    refine ⟨idleSignalled, fun world idle => ⟨idle, ?_⟩⟩
    simp only [show world.procs = [] from idle, show signalled.procs = [] from idleSignalled,
      List.map_nil]
    exact ⟨lasting.stopped _ _ holds, trivial⟩
  have tameFinal : ∀ state : ContainerState, Tame P Idle (finishStop state) := by
    intro state
    refine ⟨fun _ idle => idle, fun signalled => ⟨fun _ idle => idle, fun world => ?_⟩⟩
    dsimp only
    split
    · trivial
    · trivial
  constructor
  · intro before holds
    exact calm_refreshProcessSnapshot lasting calmFinal
  · intro before
    exact tame_refreshProcessSnapshot lasting calmFinal ⟨calmFinal, tameFinal⟩

theorem Lasting.tame (lasting : Lasting P) (op : Operation) (notStart : op.isStart = false)
    (notWatcher : ∀ root returncode, op ≠ .watcher root returncode) : Tame P Idle op.program := by
  cases op with
  | stop => exact tame_stopContainer lasting
  | start proc entryOf fault => cases notStart
  | watcher root returncode => exact absurd rfl (notWatcher root returncode)
  | tracker root => exact tame_trackProcesses lasting root
  | health retries entry => exact tame_reportProbe lasting retries entry
  | reconcile attached => exact tame_reconcile lasting attached
  | connect network entry => exact tame_connectNetwork lasting network entry
  | disconnect network => exact tame_disconnectNetwork lasting network

end

theorem tame_of_not_start (op : Operation) (other : op.isStart = false) :
    Tame Quiet Idle op.program := by
  cases op with
  | watcher root returncode => exact tame_watchExit root returncode
  | start proc entryOf fault => cases other
  | stop | tracker root | health retries entry | reconcile attached | connect network entry
  | disconnect network => exact lasting_quiet.tame _ rfl fun _ _ => Operation.noConfusion

theorem idle_apply (change : Change) (world : World) (idle : Idle world) :
    Idle (change.apply world) := by
  have none_ : world.procs = [] := idle
  cases change with
  | exit pid | fork parent child startTime => simp [Idle, Change.apply, none_]
  | tick => exact idle

theorem promises_stopContainer : Promises Quiet Idle stopContainer := by
  intro before loaded refreshed
  refine .inl fun state => ?_
  intro signalled
  refine .inl fun world => ?_
  dsimp only
  split
  · rename_i nobody
    have idle : Idle world := List.map_eq_nil_iff.mp nobody
    exact .inr ⟨idle, idle, _, quiet_stopComplete _ _ _, rfl⟩
  · exact .inl rfl

end PDocker.State
