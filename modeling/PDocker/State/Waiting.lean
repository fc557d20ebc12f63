import PDocker.State.ExitStatus
import PDocker.State.Removal

/-!
# Waiting for a container

The wait request takes the status of a run from one of three places: from the
process while the engine holds it, from the saved state when it does not, and
from a constant when the container is gone. The three agree only in part.
-/

set_option autoImplicit false

namespace PDocker.State

open Data

inductive WaitProgress where
  | arrived
  /-- in the loop until the container is gone -/
  | spinning
  /-- in the loop that looks for the process -/
  | polling (left : Nat)
  /-- in `proc.wait()` -/
  | blocked (run : Nat)
  | reading
  | answered (statusCode : Int)
  | notFound
  deriving DecidableEq

/-- `since` counts the runs that had been started when the request came. -/
structure WaitRequest where
  condition : Name
  since : Nat
  progress : WaitProgress

def removedCondition : Name := "removed".toList

def startPolls : Nat := 150

/-- The record and the operations on it, `running_containers[cid]`, and the
return codes of the processes that have been started so far. -/
structure WaitServer where
  engine : RemovalEngine
  running : Option Nat
  runs : List (Option Int)
  requests : List WaitRequest

/-- The next step of the handler of `/containers/{id}/wait`. -/
def WaitServer.advance (server : WaitServer) (request : WaitRequest) : Option WaitProgress :=
  match request.progress with
  | .arrived =>
      match server.engine.doc with
      | none => some .notFound
      | some state =>
          if request.condition = removedCondition then
            if state.status = .created then some (.answered 0) else some .spinning
          else some (.polling startPolls)
  | .spinning =>
      match server.engine.doc with
      | some _ => some .spinning
      | none => some (.answered 0)
  | .polling 0 => some .reading
  | .polling (left + 1) =>
      match server.running with
      | some run => some (.blocked run)
      | none => some (.polling left)
  | .blocked run =>
      match server.runs[run]? with
      | some (some returncode) => some (.answered returncode)
      | _ => none
  | .reading =>
      match server.engine.doc with
      | some state => some (.answered state.exitCode)
      | none => some (.answered 0)
  | .answered _ => none
  | .notFound => none

/-- `popen` is that of `start_container`, which enters the process at once;
`pop` is done by the watcher and by stop. In which order a thread works on the
record and on the table is left open. -/
inductive WaitEvent where
  | record (event : Event RemovalOp Change)
  | popen
  | exit (run : Nat) (returncode : Int)
  | pop
  | request (condition : Name)
  | advance (index : Nat)

def WaitServer.step (server : WaitServer) : WaitEvent → Option WaitServer
  | .record event =>
      (server.engine.step RemovalOp.program Change.apply event).map fun engine => { server with engine }
  | .popen => some { server with running := some server.runs.length, runs := server.runs ++ [none] }
  | .exit run returncode =>
      if server.runs[run]? = some none then
        some { server with runs := server.runs.set run (some returncode) }
      else none
  | .pop => some { server with running := none }
  | .request condition =>
      some { server with requests := server.requests ++ [⟨condition, server.runs.length, .arrived⟩] }
  | .advance index =>
      match server.requests[index]? with
      | none => none
      | some request =>
          (server.advance request).map fun progress =>
            { server with requests := server.requests.set index { request with progress } }

def WaitServer.initial (record : Option ContainerState) (world : World) : WaitServer :=
  ⟨⟨record, 0, world, []⟩, none, [], []⟩

/-- A run that the request waits for has ended, and with this status, which is
also what inspect shows where the end of the run is recorded. -/
def WaitServer.Ended (server : WaitServer) (since : Nat) (statusCode : Int) : Prop :=
  ∃ run returncode, since ≤ run + 1 ∧ server.runs[run]? = some (some returncode) ∧
    statusCode = dockerExitCode returncode ∧
    ∀ state, Recorded returncode state → state.exitCode = statusCode

/-- Every answer is the exit status of a run that has ended, and not of one
before the run that the request found. -/
def WaitServer.Truthful (server : WaitServer) : Prop :=
  ∀ request ∈ server.requests, ∀ statusCode, request.progress = .answered statusCode →
    server.Ended request.since statusCode

structure WaitServer.Sound (server : WaitServer) (request : WaitRequest) : Prop where
  /-- a container that is waited for until it is gone has been started -/
  started : request.progress = .arrived → request.condition = removedCondition →
    ∀ state, server.engine.doc = some state → state.status ≠ .created
  /-- once it is gone, its run had ended with 0 -/
  gone : request.progress = .spinning → server.engine.doc = none → server.Ended request.since 0
  /-- the process was not killed -/
  exited : ∀ run returncode, request.progress = .blocked run →
    server.runs[run]? = some (some returncode) → 0 ≤ returncode
  /-- where no process was found, the last run has ended, and the state that was
  recorded for it is still there -/
  recorded : request.progress = .reading → ∃ state returncode, server.engine.doc = some state ∧
    server.runs.getLast? = some (some returncode) ∧ Recorded returncode state

def WaitServer.Allowed (server : WaitServer) (event : WaitEvent) : Prop :=
  ∀ index request, event = .advance index → server.requests[index]? = some request →
    server.Sound request

section
variable {server next : WaitServer} {event : WaitEvent}

theorem dockerExitCode_of_nonneg {returncode : Int} (exited : 0 ≤ returncode) :
    dockerExitCode returncode = returncode :=
  if_neg (by omega)

/-- A run is over for good, and the table holds the last run or none. -/
structure WaitServer.Orderly (server : WaitServer) : Prop where
  running : ∀ run, server.running = some run → run + 1 = server.runs.length
  since : ∀ request ∈ server.requests, request.since ≤ server.runs.length
  blocked : ∀ request ∈ server.requests, ∀ run, request.progress = .blocked run →
    request.since ≤ run + 1
  truthful : server.Truthful

theorem WaitServer.ended_of_run {since run : Nat} {returncode : Int} (recent : since ≤ run + 1)
    (closed : server.runs[run]? = some (some returncode)) :
    server.Ended since (dockerExitCode returncode) :=
  ⟨run, returncode, recent, closed, rfl, fun _ recorded => recorded.exitCode⟩

theorem WaitServer.Ended.mono {since : Nat} {statusCode : Int} (ended : server.Ended since statusCode)
    (kept : ∀ (run : Nat) (returncode : Int), server.runs[run]? = some (some returncode) →
      next.runs[run]? = some (some returncode)) : next.Ended since statusCode := by
  obtain ⟨run, returncode, recent, closed, same⟩ := ended
  exact ⟨run, returncode, recent, kept run returncode closed, same⟩

theorem WaitServer.Orderly.of_requests (orderly : server.Orderly)
    (requests : next.requests = server.requests) (longer : server.runs.length ≤ next.runs.length)
    (running : ∀ run, next.running = some run → run + 1 = next.runs.length)
    (kept : ∀ (run : Nat) (returncode : Int), server.runs[run]? = some (some returncode) →
      next.runs[run]? = some (some returncode)) : next.Orderly where
  running := running
  since request member := (orderly.since request (requests ▸ member)).trans longer
  blocked request member := orderly.blocked request (requests ▸ member)
  truthful request member statusCode answered :=
    (orderly.truthful request (requests ▸ member) statusCode answered).mono kept

theorem WaitServer.Orderly.advance (orderly : server.Orderly) {request : WaitRequest}
    (member : request ∈ server.requests) (sound : server.Sound request) {progress : WaitProgress}
    (moved : server.advance request = some progress) :
    (∀ run, progress = .blocked run → request.since ≤ run + 1) ∧
      ∀ statusCode, progress = .answered statusCode → server.Ended request.since statusCode := by
  have recent := orderly.since request member
  unfold WaitServer.advance at moved
  cases here : request.progress with
  | arrived =>
      rw [here] at moved
      dsimp only at moved
      cases found : server.engine.doc with
      | none =>
          rw [found] at moved
          cases moved
          exact ⟨nofun, nofun⟩
      | some state =>
          rw [found] at moved
          dsimp only at moved
          split at moved
          · rename_i asked
            rw [if_neg (sound.started here asked state found)] at moved
            cases moved
            exact ⟨nofun, nofun⟩
          · cases moved
            exact ⟨nofun, nofun⟩
  | spinning =>
      rw [here] at moved
      dsimp only at moved
      cases found : server.engine.doc with
      | some state =>
          rw [found] at moved
          cases moved
          exact ⟨nofun, nofun⟩
      | none =>
          rw [found] at moved
          cases moved
          refine ⟨nofun, fun statusCode same => ?_⟩
          cases same
          exact sound.gone here found
  | polling left =>
      rw [here] at moved
      cases left with
      | zero =>
          cases moved
          exact ⟨nofun, nofun⟩
      | succ left =>
          dsimp only at moved
          cases found : server.running with
          | none =>
              rw [found] at moved
              cases moved
              exact ⟨nofun, nofun⟩
          | some run =>
              rw [found] at moved
              cases moved
              refine ⟨fun other same => ?_, nofun⟩
              cases same
              rw [orderly.running run found]
              exact recent
  | blocked run =>
      rw [here] at moved
      dsimp only at moved
      split at moved
      · rename_i returncode closed
        cases moved
        refine ⟨nofun, fun statusCode same => ?_⟩
        cases same
        have ended := WaitServer.ended_of_run (orderly.blocked request member run here) closed
        rw [dockerExitCode_of_nonneg (sound.exited run _ here closed)] at ended
        exact ended
      · cases moved
  | reading =>
      rw [here] at moved
      dsimp only at moved
      obtain ⟨state, returncode, found, closed, recorded⟩ := sound.recorded here
      rw [found] at moved
      cases moved
      refine ⟨nofun, fun statusCode same => ?_⟩
      cases same
      have within : server.runs ≠ [] := by
        intro none
        rw [none] at closed
        cases closed
      have positive := List.length_pos_iff.mpr within
      rw [List.getLast?_eq_getElem?] at closed
      rw [recorded.exitCode]
      exact WaitServer.ended_of_run (by omega) closed
  | answered statusCode | notFound => rw [here] at moved; cases moved

theorem WaitServer.Orderly.step (orderly : server.Orderly) (allowed : server.Allowed event)
    (result : server.step event = some next) : next.Orderly := by
  cases event with
  | record event =>
      obtain ⟨engine, _, rfl⟩ := Option.map_eq_some_iff.mp result
      exact orderly.of_requests rfl le_rfl orderly.running fun _ _ closed => closed
  | popen =>
      obtain rfl := Option.some.inj result
      refine orderly.of_requests rfl (by simp) (fun run held => ?_) fun run returncode closed => ?_
      · cases held
        simp
      · exact (List.getElem?_append_left (List.getElem?_eq_some_iff.mp closed).1).trans closed
  | exit run returncode =>
      rw [WaitServer.step] at result
      split at result
      case isFalse => cases result
      case isTrue alive =>
          obtain rfl := Option.some.inj result
          refine orderly.of_requests rfl (by simp) (fun other held => ?_) fun other code closed => ?_
          · simpa using orderly.running other held
          have apart : run ≠ other := by
            rintro rfl
            rw [alive] at closed
            cases closed
          exact (List.getElem?_set_ne apart).trans closed
  | pop =>
      obtain rfl := Option.some.inj result
      exact orderly.of_requests rfl le_rfl (fun _ held => by cases held) fun _ _ closed => closed
  | request condition =>
      obtain rfl := Option.some.inj result
      constructor
      · exact orderly.running
      · intro request member
        obtain old | new := List.mem_append.mp member
        · exact orderly.since request old
        · rw [List.mem_singleton.mp new]
      · intro request member run here
        obtain old | new := List.mem_append.mp member
        · exact orderly.blocked request old run here
        · rw [List.mem_singleton.mp new] at here
          cases here
      · intro request member statusCode here
        obtain old | new := List.mem_append.mp member
        · exact orderly.truthful request old statusCode here
        · rw [List.mem_singleton.mp new] at here
          cases here
  | advance index =>
      rw [WaitServer.step] at result
      cases found : server.requests[index]? with
      | none => rw [found] at result; cases result
      | some request =>
          rw [found] at result
          obtain ⟨progress, moved, rfl⟩ := Option.map_eq_some_iff.mp result
          have member := List.mem_of_getElem? found
          obtain ⟨recent, truthful⟩ := orderly.advance member (allowed index request rfl found) moved
          constructor
          · exact orderly.running
          · intro other inSet
            obtain old | rfl := List.mem_or_eq_of_mem_set inSet
            · exact orderly.since other old
            · exact orderly.since request member
          · intro other inSet run here
            obtain old | rfl := List.mem_or_eq_of_mem_set inSet
            · exact orderly.blocked other old run here
            · exact recent run here
          · intro other inSet statusCode here
            obtain old | rfl := List.mem_or_eq_of_mem_set inSet
            · exact orderly.truthful other old statusCode here
            · exact truthful statusCode here

theorem WaitServer.orderly_initial (record : Option ContainerState) (world : World) :
    (WaitServer.initial record world).Orderly where
  running _ held := by cases held
  since _ member := by cases member
  blocked _ member := by cases member
  truthful _ member := by cases member

end

def waitedState : ContainerState :=
  { servingState with
    running := false
    status := .created
    pid := 0
    pidStartTime := none
    launcherPid := none
    launcherStartTime := none
    processGroupId := none
    knownPids := [] }

def waitedRun (returncode : Int) : List WaitEvent :=
  [.request "next-exit".toList, .advance 0, .advance 0,
    .record (.spawn (.start ⟨7, 1⟩ (fun _ => ⟨[], []⟩) none)), .record (.advance 0),
    .record (.advance 0), .record (.advance 0), .popen, .record (.advance 0), .advance 0,
    .record (.change (.exit 7)), .exit 0 returncode, .advance 0]

/-- `WaitServer.Sound` for a request that finds the process. -/
def WaitServer.findsProcess (server : WaitServer) (request : WaitRequest) : Bool :=
  match request.progress with
  | .arrived => request.condition ≠ removedCondition
  | .spinning => false
  | .blocked run => (server.runs[run]?.join).all fun returncode => 0 ≤ returncode
  | .reading => false
  | _ => true

theorem WaitServer.sound_of_findsProcess {server : WaitServer} {request : WaitRequest}
    (checked : server.findsProcess request = true) : server.Sound request := by
  unfold WaitServer.findsProcess at checked
  constructor
  · intro here removed
    rw [here] at checked
    exact absurd removed (of_decide_eq_true checked)
  · intro here
    rw [here] at checked
    cases checked
  · intro run returncode here closed
    rw [here] at checked
    simp only [closed, Option.join_some, Option.all_some, decide_eq_true_eq] at checked
    exact checked
  · intro here
    rw [here] at checked
    cases checked

def WaitServer.allows (server : WaitServer) : WaitEvent → Bool
  | .advance index => (server.requests[index]?).all server.findsProcess
  | _ => true

theorem WaitServer.allowed_of_allows (server : WaitServer) (event : WaitEvent)
    (checked : server.allows event = true) : server.Allowed event := by
  rintro index request rfl found
  simp only [WaitServer.allows, found, Option.all_some] at checked
  exact WaitServer.sound_of_findsProcess checked

end PDocker.State
