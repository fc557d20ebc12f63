import Mathlib.Data.List.Sort
import PDocker.Data.Table
import PDocker.Data.SharedRecord

/-!
# The persisted state of a container

`state.json` and the operations that load, edit and save it: stop, the exit
watcher, the process tracker, the health monitor, reconcile, network connect
and disconnect, start. Ports, memory evidence, logs and events are left out.
The world is the process table, of which only the container's own processes
are kept, and a clock.
-/

set_option autoImplicit false

namespace PDocker.State

open Data

abbrev Name := List Char

/-- An entry of `/proc`. -/
structure Process where
  pid : Nat
  startTime : Nat
  parent : Nat
  deriving DecidableEq

structure ProcessEntry where
  pid : Nat
  startTime : Nat
  deriving DecidableEq

structure World where
  procs : List Process
  now : Nat

def processIdentity (world : World) (pid : Nat) : Option ProcessEntry :=
  if pid = 0 then none
  else (world.procs.find? (·.pid = pid)).map fun proc => ⟨proc.pid, proc.startTime⟩

def processIdentityAlive (world : World) (entry : ProcessEntry) : Bool :=
  processIdentity world entry.pid = some entry

/-- The walk of `_descendant_pids`; the fuel bounds the number of pops. -/
def collectDescendants (procs : List Process) : Nat → List Nat → List Nat → List Nat
  | 0, _, seen => seen
  | _, [], seen => seen
  | fuel + 1, pid :: stack, seen =>
      if pid ∈ seen then collectDescendants procs fuel stack seen
      else collectDescendants procs fuel
        ((procs.filter (·.parent = pid)).map Process.pid ++ stack) (pid :: seen)

def descendantPids (world : World) (root : Nat) : List Nat :=
  collectDescendants world.procs (2 * world.procs.length + 1)
    ((world.procs.filter (·.parent = root)).map Process.pid) []

inductive Status where
  | created | running | exited
  deriving DecidableEq

inductive HealthStatus where
  | starting | healthy | unhealthy
  deriving DecidableEq

structure HealthEntry where
  started : Nat
  ended : Nat
  exitCode : Int
  output : Name
  deriving DecidableEq

structure Health where
  status : HealthStatus
  failingStreak : Nat
  log : List HealthEntry
  pdockerStopped : Bool
  deriving DecidableEq

structure Teardown where
  attemptedAt : Nat
  rootPids : List Nat
  survivors : List ProcessEntry
  noOrphanProcesses : Bool
  deriving DecidableEq

structure NetworkEntry where
  endpointId : Name
  aliases : List Name
  deriving DecidableEq

/-- The `State` object, the healthcheck and the network memberships. -/
structure ContainerState where
  running : Bool
  status : Status
  pid : Nat
  pidStartTime : Option Nat
  launcherPid : Option Nat
  launcherStartTime : Option Nat
  processGroupId : Option Nat
  knownPids : List ProcessEntry
  lastPid : Option Nat
  lastKnownPids : List ProcessEntry
  lastLauncherPid : Option Nat
  lastProcessGroupId : Option Nat
  exitCode : Int
  rawReturnCode : Int
  signal : Nat
  error : Name
  startedAt : Nat
  finishedAt : Nat
  teardown : Option Teardown
  health : Option Health
  hasHealthcheck : Bool
  networks : Table Name NetworkEntry

def containerProcessEntries (state : ContainerState) : List ProcessEntry :=
  let main := (state.pidStartTime.map fun start => (⟨state.pid, start⟩ : ProcessEntry)).toList
  let launcher := (state.launcherPid.bind fun pid =>
    state.launcherStartTime.map fun start => (⟨pid, start⟩ : ProcessEntry)).toList
  ((main ++ launcher ++ state.knownPids).filter (·.pid ≠ 0)).eraseDups

def liveEntries (world : World) (state : ContainerState) : List ProcessEntry :=
  (containerProcessEntries state).filter (processIdentityAlive world)

def preferredPid (current : Nat) (launcher : Option Nat) (live : List Nat) : Option Nat :=
  (current :: (live.filter fun pid => launcher ≠ some pid) ++ live).find? fun pid => pid ∈ live

def containerLivePid (world : World) (state : ContainerState) : Nat :=
  (preferredPid state.pid state.launcherPid
    ((liveEntries world state).map ProcessEntry.pid)).getD 0

/-- What `_refresh_container_process_snapshot` records. -/
def recordProcesses (world : World) (roots : List Nat) (state : ContainerState) : ContainerState :=
  let named := (liveEntries world state).map ProcessEntry.pid ++
    (roots.filter (· ≠ 0)).flatMap fun pid => pid :: descendantPids world pid
  let candidates := (named ++ named.flatMap (descendantPids world)).eraseDups.insertionSort (· ≤ ·)
  let entries := candidates.filterMap (processIdentity world)
  match entries, preferredPid state.pid state.launcherPid (entries.map ProcessEntry.pid) with
  | [], _ => { state with knownPids := [] }
  | _, none => { state with knownPids := entries }
  | _, some pid =>
      { state with
        knownPids := entries
        pid
        pidStartTime := ((processIdentity world pid).map ProcessEntry.startTime).or
          state.pidStartTime }

def dockerExitCode (returncode : Int) : Int :=
  if returncode < 0 then min 255 (128 + returncode.natAbs) else returncode

def recordReturnCode (returncode : Int) (state : ContainerState) : ContainerState :=
  { state with
    rawReturnCode := returncode
    signal := if returncode < 0 then returncode.natAbs else 0
    exitCode := dockerExitCode returncode }

def normalizeExitState (state : ContainerState) : ContainerState :=
  if state.running then state
  else
    let cleared : ContainerState :=
      { state with
        lastPid := if state.pid ≠ 0 then some state.pid else state.lastPid
        pid := 0
        pidStartTime := none
        lastKnownPids := if state.knownPids ≠ [] then state.knownPids else state.lastKnownPids
        knownPids := []
        lastLauncherPid := state.launcherPid.or state.lastLauncherPid
        lastProcessGroupId := state.processGroupId.or state.lastProcessGroupId
        launcherPid := none
        launcherStartTime := none
        processGroupId := none }
    if cleared.exitCode < 0 then recordReturnCode cleared.exitCode cleared
    else if 255 < cleared.exitCode then { cleared with exitCode := 255 }
    else cleared

def keepFive (log : List HealthEntry) : List HealthEntry := log.drop (log.length - 5)

def markHealthNotRunning (now : Nat) (output : Name) (state : ContainerState) : ContainerState :=
  match state.health with
  | none => state
  | some health =>
      if health.status = .unhealthy ∧ health.pdockerStopped = true then state
      else
        { state with
          health := some
            { status := .unhealthy
              failingStreak := max 1 health.failingStreak
              log := keepFive (health.log ++ [⟨now, now, 1, output⟩])
              pdockerStopped := true } }

def notRunningOutput : Name := "container is not running".toList

/-- The edit of `_set_health` on a running container. -/
def recordHealth (status : HealthStatus) (entry : HealthEntry) (state : ContainerState) :
    ContainerState :=
  let health := state.health.getD ⟨.starting, 0, [], false⟩
  { state with
    health := some
      { status
        failingStreak := if entry.exitCode = 0 then 0 else health.failingStreak + 1
        log := keepFive (health.log ++ [entry])
        pdockerStopped := false } }

def markLive (world : World) (pid : Nat) (state : ContainerState) : ContainerState :=
  { state with
    running := true
    status := .running
    pid
    exitCode := 0
    rawReturnCode := 0
    signal := 0
    error := []
    finishedAt := 0
    pidStartTime := ((processIdentity world pid).map ProcessEntry.startTime).or
      state.pidStartTime }

/-! ## Operations -/

abbrev StateProg := Prog ContainerState World

/-- `_refresh_container_process_snapshot` after its load. -/
def saveProcesses (roots : List Nat) (next : StateProg) (state : ContainerState) : StateProg :=
  .look id fun world => .save (recordProcesses world roots state) next

def refreshProcessSnapshot (roots : List Nat) (next : StateProg) : StateProg :=
  .load (saveProcesses roots next)

/-- One round of the process tracker; its own load afterwards decides only
whether there is a next round. -/
def trackProcesses (root : Nat) : StateProg :=
  refreshProcessSnapshot [root] (.peek fun _ => .ret true)

def finishWatch (returncode : Int) (state : ContainerState) : StateProg :=
  .look id fun world =>
    if containerLivePid world state ≠ 0 then
      .save (markLive world (containerLivePid world state) state) (.ret true)
    else
      .save (normalizeExitState
        { recordReturnCode returncode { state with running := false, status := .exited } with
          pid := 0, pidStartTime := none, finishedAt := world.now }) (.ret true)

/-- The exit watcher of `start_container`, after `proc.wait()` has returned. -/
def watchExit (root : Nat) (returncode : Int) : StateProg :=
  .load fun _ => refreshProcessSnapshot [root] (.load (finishWatch returncode))

def setHealth (status : HealthStatus) (entry : HealthEntry) : StateProg :=
  .load fun state =>
    if state.running then .save (recordHealth status entry state) (.ret true)
    else .look id fun world =>
      .save (markHealthNotRunning world.now notRunningOutput state) (.ret true)

def reportProbe (retries : Nat) (entry : HealthEntry) : StateProg :=
  .peek fun latest =>
    let failing := (latest.health.map Health.failingStreak).getD 0
    let status :=
      if entry.exitCode = 0 then .healthy
      else if retries ≤ failing + 1 then .unhealthy
      else .starting
    setHealth status entry

def revive (world : World) (pid : Nat) (state : ContainerState) : ContainerState :=
  { state with
    running := true
    status := .running
    pid
    pidStartTime := ((processIdentity world pid).map ProcessEntry.startTime).or
      state.pidStartTime }

def markDead (world : World) (state : ContainerState) : ContainerState :=
  let exited : ContainerState :=
    { state with running := false, status := .exited, pid := 0, pidStartTime := none }
  let recorded := if exited.exitCode ≠ 0 then normalizeExitState exited
    else recordReturnCode 255 exited
  let marked := markHealthNotRunning world.now notRunningOutput (normalizeExitState recorded)
  { marked with
    error := if marked.error = [] then
      "container process is not alive; state reconciled by pdockerd".toList else marked.error
    finishedAt := world.now }

/-- `reconcile_container_state` with the load of its caller. `attached` tells
whether the engine still holds a process handle that has not exited. That a
stopped container is running after all is decided on the first load; the later
loads only bring the copy up to date. -/
def reconcile (attached : Bool) : StateProg :=
  .load fun state => .look id fun world =>
    if state.running then
      if attached then .peek fun _ => .ret true
      else if containerLivePid world state ≠ 0 then
        refreshProcessSnapshot [containerLivePid world state] (.peek fun _ => .ret true)
      else .save (markDead world state) (.ret true)
    else if containerLivePid world state ≠ 0 then
      .reload (saveProcesses [containerLivePid world state] (.reload fun latest =>
        .look id fun later => .peek fun _ =>
          .save (revive later (containerLivePid world state) latest) (.ret true)))
    else
      .save (markHealthNotRunning world.now notRunningOutput (normalizeExitState state)) (.ret true)

/-- `_connect_network_metadata` with the load of its caller. -/
def connectNetwork (network : Name) (entry : NetworkEntry) : StateProg :=
  .load fun state => .save { state with networks := state.networks.insert network entry } (.ret true)

/-- `_disconnect_network_metadata` with the load of its caller. -/
def disconnectNetwork (network : Name) : StateProg :=
  .load fun state => .save { state with networks := state.networks.erase network } (.ret true)

def recordTeardown (world : World) (roots : List Nat) (survivors : List ProcessEntry)
    (state : ContainerState) : ContainerState :=
  { state with teardown := some ⟨world.now, roots, survivors, survivors.isEmpty⟩ }

/-- The edit of `stop_container` when processes survive. -/
def stopIncomplete (first : ProcessEntry) (survivors : List ProcessEntry) (state : ContainerState) :
    ContainerState :=
  { state with
    running := true
    status := .running
    pid := first.pid
    pidStartTime := some first.startTime
    knownPids := first :: survivors
    error := "container teardown incomplete; live pdocker runtime processes remain".toList }

/-- The edit of `stop_container` when nothing survives. -/
def stopComplete (world : World) (stopped : Bool) (state : ContainerState) : ContainerState :=
  let exited : ContainerState :=
    { state with
      running := false
      status := .exited
      lastKnownPids := if state.knownPids ≠ [] then state.knownPids else state.lastKnownPids
      lastLauncherPid := state.launcherPid.or state.lastLauncherPid
      lastProcessGroupId := state.processGroupId.or state.lastProcessGroupId
      knownPids := []
      pid := 0
      pidStartTime := none
      launcherPid := none
      launcherStartTime := none
      processGroupId := none
      finishedAt := world.now }
  let coded : ContainerState :=
    if stopped ∧ exited.exitCode = 0 then
      { exited with exitCode := 143, rawReturnCode := 143, signal := 15 }
    else exited
  markHealthNotRunning world.now notRunningOutput coded

/-- `stop_container` after its last load. The scan for survivors goes over all
of `/proc`, so it finds every process of the container. -/
def finishStop (state : ContainerState) : StateProg :=
  .look id fun signalled => .look id fun world =>
    let roots := signalled.procs.map Process.pid
    let teardown := fun survivors => recordTeardown world roots survivors state
    match world.procs.map fun proc => (⟨proc.pid, proc.startTime⟩ : ProcessEntry) with
    | [] => .save (stopComplete world (!signalled.procs.isEmpty) (teardown [])) (.ret true)
    | first :: rest => .save (stopIncomplete first rest (teardown (first :: rest))) (.ret false)

def stopContainer : StateProg :=
  .load fun before => refreshProcessSnapshot [before.pid] (.load finishStop)

/-- The saves of `start_container` for the networks the container is on. -/
def connectConfigured (entries : List (Name × NetworkEntry)) (next : ContainerState → StateProg)
    (state : ContainerState) : StateProg :=
  match entries with
  | [] => next state
  | (network, entry) :: rest =>
      let connected := { state with networks := state.networks.insert network entry }
      .save connected (connectConfigured rest next connected)

/-- The edit of `start_container` when its preflight fails. -/
def startFailed (world : World) (fault : Name) (state : ContainerState) : ContainerState :=
  markHealthNotRunning world.now fault
    { state with
      running := false
      status := .exited
      pid := 0
      pidStartTime := none
      exitCode := 126
      finishedAt := world.now }

/-- The edit of `start_container` for its new process. -/
def markStarted (world : World) (proc : ProcessEntry) (state : ContainerState) : ContainerState :=
  { state with
    running := true
    status := .running
    pid := proc.pid
    exitCode := 0
    rawReturnCode := 0
    signal := 0
    error := []
    finishedAt := 0
    pidStartTime := some proc.startTime
    launcherPid := some proc.pid
    launcherStartTime := some proc.startTime
    processGroupId := some proc.pid
    knownPids := [proc]
    startedAt := world.now
    health := if state.hasHealthcheck then some ⟨.starting, 0, [], false⟩ else state.health }

def bridge : Name := "bridge".toList

/-- `start_container`. `proc` is the process that `Popen` returns, `entryOf`
builds the entry of a network, `fault` is the preflight error. -/
def startContainer (proc : ProcessEntry) (entryOf : Name → NetworkEntry) (fault : Option Name) :
    StateProg :=
  .load fun state => .look id fun world =>
    if containerLivePid world state ≠ 0 then
      .save (markLive world (containerLivePid world state) state) (.peek fun _ => .ret true)
    else
      connectConfigured ((state.networks.keys.filter (· ≠ bridge)).map fun network =>
          (network, entryOf network)) (fun connected =>
        match fault with
        | some message => .look id fun later => .save (startFailed later message connected) (.ret false)
        | none =>
            .look (fun later => { later with procs := ⟨proc.pid, proc.startTime, 0⟩ :: later.procs })
              fun later => .save (markStarted later proc connected) (.peek fun _ => .ret true)) state

inductive Operation where
  | stop
  | start (proc : ProcessEntry) (entryOf : Name → NetworkEntry) (fault : Option Name)
  | watcher (root : Nat) (returncode : Int)
  | tracker (root : Nat)
  | health (retries : Nat) (entry : HealthEntry)
  | reconcile (attached : Bool)
  | connect (network : Name) (entry : NetworkEntry)
  | disconnect (network : Name)

def Operation.program : Operation → StateProg
  | .stop => stopContainer
  | .start proc entryOf fault => startContainer proc entryOf fault
  | .watcher root returncode => watchExit root returncode
  | .tracker root => trackProcesses root
  | .health retries entry => reportProbe retries entry
  | .reconcile attached => State.reconcile attached
  | .connect network entry => connectNetwork network entry
  | .disconnect network => disconnectNetwork network

def Operation.isStart : Operation → Bool
  | .start _ _ _ => true
  | _ => false

inductive Change where
  | exit (pid : Nat)
  | fork (parent child startTime : Nat)
  | tick

def Change.apply : Change → World → World
  | .exit pid, world =>
      -- its children go to init
      { world with
        procs := (world.procs.filter (·.pid ≠ pid)).map fun proc =>
          if proc.parent = pid then { proc with parent := 1 } else proc }
  | .fork parent child startTime, world =>
      if world.procs.any (·.pid = parent) then
        { world with procs := ⟨child, startTime, parent⟩ :: world.procs }
      else world
  | .tick, world => { world with now := world.now + 1 }

abbrev Engine := System Operation ContainerState World

def Engine.initial (state : ContainerState) (world : World) : Engine :=
  ⟨state, 0, world, []⟩

end PDocker.State
