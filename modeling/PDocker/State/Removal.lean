import PDocker.State.Interleaving

/-!
# Removed containers

The operations of a container whose `state.json` may be gone. A load that finds
nothing ends most of them, but `load_container_state(cid) or state` goes on with
the copy that was there before, and a save creates the directory again.
-/

set_option autoImplicit false

namespace PDocker.State

open Data

/-- The record is `none` when there is no `state.json`. -/
abbrev RemovalProg := Prog (Option ContainerState) World

def whenPresent (finish : Bool → RemovalProg) : StateProg → RemovalProg
  | .ret ok => finish ok
  | .load next => .load fun record =>
      record.elim (finish false) fun state => whenPresent finish (next state)
  | .reload next => .reload fun record =>
      record.elim (finish false) fun state => whenPresent finish (next state)
  | .peek next => .peek fun record =>
      record.elim (finish false) fun state => whenPresent finish (next state)
  | .look act next => .look act fun world => whenPresent finish (next world)
  | .save state next => .save (some state) (whenPresent finish next)

/-- `_refresh_container_process_snapshot` after its load. -/
def refreshLoaded (roots : List Nat) (next : RemovalProg) : Option ContainerState → RemovalProg
  | none => next
  | some state => .look id fun world => .save (some (recordProcesses world roots state)) next

def trackProcessesOf (root : Nat) : RemovalProg :=
  .load (refreshLoaded [root] (.peek fun _ => .ret true))

/-- `stop_container`. Without a state there is nothing to save. -/
def stopContainerThen (finish : Bool → RemovalProg) : RemovalProg :=
  .load fun
    | none => finish true
    | some before =>
        .reload (refreshLoaded [before.pid] (.reload fun latest =>
          whenPresent finish (finishStop (latest.getD before))))

/-- `reconcile_container_state` on a state that its caller has loaded. -/
def reconcileThen (attached : Bool) (state : ContainerState)
    (finish : ContainerState → RemovalProg) : RemovalProg :=
  .look id fun world =>
    if state.running then
      if attached then .peek fun _ => finish state
      else if containerLivePid world state ≠ 0 then
        .reload (refreshLoaded [containerLivePid world state] (.peek fun _ => finish state))
      else .save (some (markDead world state)) (finish (markDead world state))
    else if containerLivePid world state ≠ 0 then
      .reload (refreshLoaded [containerLivePid world state] (.reload fun latest =>
        .look id fun later => .peek fun _ =>
          let revived := revive later (containerLivePid world state) (latest.getD state)
          .save (some revived) (finish revived)))
    else
      let marked := markHealthNotRunning world.now notRunningOutput (normalizeExitState state)
      .save (some marked) (finish marked)

def removeDirectory : RemovalProg := .save none (.ret true)

def removeContainer (force attached : Bool) : RemovalProg :=
  .load fun
    | none => .ret false
    | some loaded => reconcileThen attached loaded fun state => .look id fun world =>
        if state.running = true ∨ liveEntries world state ≠ [] then
          if force then
            stopContainerThen fun stopped => if stopped then removeDirectory else .ret false
          else .ret false
        else removeDirectory

/-- The exit watcher. With `AutoRemove` it ends as a remove does. -/
def watchExitOf (root : Nat) (returncode : Int) (autoRemove : Bool) : RemovalProg :=
  .load fun
    | none => .ret false
    | some before =>
        .reload (refreshLoaded [root] (.reload fun latest => .look id fun world =>
          let state := latest.getD before
          if containerLivePid world state ≠ 0 then
            .save (some (markLive world (containerLivePid world state) state)) (.ret false)
          else
            .save (some (normalizeExitState
              { recordReturnCode returncode { state with running := false, status := .exited } with
                pid := 0, pidStartTime := none, finishedAt := world.now }))
              (if autoRemove then removeContainer true false else .ret false)))

def reportProbeOf (retries : Nat) (entry : HealthEntry) : RemovalProg :=
  .peek fun latest =>
    let failing := ((latest.bind ContainerState.health).map Health.failingStreak).getD 0
    let status :=
      if entry.exitCode = 0 then .healthy
      else if retries ≤ failing + 1 then .unhealthy
      else .starting
    whenPresent (fun _ => .ret true) (setHealth status entry)

inductive RemovalOp where
  | remove (force attached : Bool)
  | stop
  | start (proc : ProcessEntry) (entryOf : Name → NetworkEntry) (fault : Option Name)
  | watcher (root : Nat) (returncode : Int) (autoRemove : Bool)
  | tracker (root : Nat)
  | health (retries : Nat) (entry : HealthEntry)
  | reconcile (attached : Bool)
  | connect (network : Name) (entry : NetworkEntry)
  | disconnect (network : Name)

def RemovalOp.program : RemovalOp → RemovalProg
  | .remove force attached => removeContainer force attached
  | .stop => stopContainerThen .ret
  | .start proc entryOf fault => whenPresent .ret (startContainer proc entryOf fault)
  | .watcher root returncode autoRemove => watchExitOf root returncode autoRemove
  | .tracker root => trackProcessesOf root
  | .health retries entry => reportProbeOf retries entry
  | .reconcile attached => .load fun
      | none => .ret false
      | some state => reconcileThen attached state fun _ => .ret true
  | .connect network entry => whenPresent .ret (connectNetwork network entry)
  | .disconnect network => whenPresent .ret (disconnectNetwork network)

/-- The operation returns what `remove_container` has returned in it. -/
def RemovalOp.removes : RemovalOp → Bool
  | .remove _ _ => true
  | .watcher _ _ autoRemove => autoRemove
  | _ => false

abbrev RemovalEngine := System RemovalOp (Option ContainerState) World

def RemovalEngine.initial (state : ContainerState) (world : World) : RemovalEngine :=
  ⟨some state, 0, world, []⟩

/-! ## What a missing record does to a program -/

def Missing (record : Option ContainerState) : Prop := record = none

def AnyWorld (_ : World) : Prop := True

def Deletes : RemovalProg → Prop
  | .ret ok => ok = false
  | .load next => ∀ record, Deletes (next record)
  | .reload next => ∀ record, Deletes (next record)
  | .peek next => ∀ record, Deletes (next record)
  | .look _ next => ∀ world, Deletes (next world)
  | .save record next => (record = none ∧ next = .ret true) ∨ Deletes next

section
variable {finish : Bool → RemovalProg}

theorem tame_whenPresent (calm : ∀ ok, Calm Missing AnyWorld (finish ok))
    (tame : ∀ ok, Tame Missing AnyWorld (finish ok)) (prog : StateProg) :
    Tame Missing AnyWorld (whenPresent finish prog) := by
  induction prog with
  | ret ok => exact tame ok
  | load next ih =>
      constructor
      · rintro record missing
        obtain rfl : record = none := missing
        exact calm false
      · intro record
        cases record with
        | none => exact tame false
        | some state => exact ih state
  | reload next ih | peek next ih =>
      intro record
      cases record with
      | none => exact tame false
      | some state => exact ih state
  | look act next ih => exact ⟨fun _ _ => trivial, ih⟩
  | save state next ih => exact ih

theorem deletes_whenPresent (deletes : ∀ ok, Deletes (finish ok)) (prog : StateProg) :
    Deletes (whenPresent finish prog) := by
  induction prog with
  | ret ok => exact deletes ok
  | load next ih | reload next ih | peek next ih =>
      intro record
      cases record with
      | none => exact deletes false
      | some state => exact ih state
  | look act next ih => exact ih
  | save state next ih => exact .inr ih

theorem tame_refreshLoaded {roots : List Nat} {next : RemovalProg}
    (tame : Tame Missing AnyWorld next) (record : Option ContainerState) :
    Tame Missing AnyWorld (refreshLoaded roots next record) := by
  cases record with
  | none => exact tame
  | some state => exact ⟨fun _ _ => trivial, fun _ => tame⟩

theorem deletes_refreshLoaded {roots : List Nat} {next : RemovalProg} (deletes : Deletes next)
    (record : Option ContainerState) : Deletes (refreshLoaded roots next record) := by
  cases record with
  | none => exact deletes
  | some state => exact fun _ => .inr deletes

theorem tame_stopContainerThen (calm : ∀ ok, Calm Missing AnyWorld (finish ok))
    (tame : ∀ ok, Tame Missing AnyWorld (finish ok)) :
    Tame Missing AnyWorld (stopContainerThen finish) := by
  constructor
  · intro record missing
    obtain rfl : record = none := missing
    exact calm true
  intro record
  cases record with
  | none => exact tame true
  | some before =>
      exact tame_refreshLoaded fun latest => tame_whenPresent calm tame _

theorem deletes_stopContainerThen (deletes : ∀ ok, Deletes (finish ok)) :
    Deletes (stopContainerThen finish) := by
  intro record
  cases record with
  | none => exact deletes true
  | some before => exact deletes_refreshLoaded fun latest => deletes_whenPresent deletes _

end

section
variable {finish : ContainerState → RemovalProg} {attached : Bool} {state : ContainerState}

theorem tame_reconcileThen (tame : ∀ state, Tame Missing AnyWorld (finish state)) :
    Tame Missing AnyWorld (reconcileThen attached state finish) := by
  refine ⟨fun _ _ => trivial, fun world => ?_⟩
  dsimp only
  split
  · split
    · exact fun _ => tame state
    · split
      · exact tame_refreshLoaded fun _ => tame state
      · exact tame _
  · split
    · exact tame_refreshLoaded fun latest => ⟨fun _ _ => trivial, fun later _ => tame _⟩
    · exact tame _

theorem deletes_reconcileThen (deletes : ∀ state, Deletes (finish state)) :
    Deletes (reconcileThen attached state finish) := by
  intro world
  dsimp only
  split
  · split
    · exact fun _ => deletes state
    · split
      · exact deletes_refreshLoaded fun _ => deletes state
      · exact .inr (deletes _)
  · split
    · exact deletes_refreshLoaded fun latest later _ => .inr (deletes _)
    · exact .inr (deletes _)

end

private theorem afterStop (stopped : Bool) :
    let rest : RemovalProg := if stopped then removeDirectory else .ret false
    Calm Missing AnyWorld rest ∧ Tame Missing AnyWorld rest ∧ Deletes rest := by
  cases stopped with
  | false => exact ⟨trivial, trivial, rfl⟩
  | true => exact ⟨⟨rfl, trivial⟩, trivial, .inl ⟨rfl, rfl⟩⟩

theorem tame_removeContainer (force attached : Bool) :
    Tame Missing AnyWorld (removeContainer force attached) := by
  constructor
  · intro record missing
    obtain rfl : record = none := missing
    trivial
  intro record
  cases record with
  | none => trivial
  | some loaded =>
      refine tame_reconcileThen fun state => ⟨fun _ _ => trivial, fun world => ?_⟩
      dsimp only
      split
      · split
        · exact tame_stopContainerThen (fun ok => (afterStop ok).1) fun ok => (afterStop ok).2.1
        · trivial
      · trivial

theorem deletes_removeContainer (force attached : Bool) : Deletes (removeContainer force attached) := by
  intro record
  cases record with
  | none => rfl
  | some loaded =>
      refine deletes_reconcileThen fun state world => ?_
      dsimp only
      split
      · split
        · exact deletes_stopContainerThen fun ok => (afterStop ok).2.2
        · rfl
      · exact .inl ⟨rfl, rfl⟩

theorem tame_watchExitOf (root : Nat) (returncode : Int) (autoRemove : Bool) :
    Tame Missing AnyWorld (watchExitOf root returncode autoRemove) := by
  constructor
  · intro record missing
    obtain rfl : record = none := missing
    trivial
  intro record
  cases record with
  | none => trivial
  | some before =>
      refine tame_refreshLoaded fun latest => ⟨fun _ _ => trivial, fun world => ?_⟩
      dsimp only
      split
      · trivial
      · cases autoRemove with
        | false => trivial
        | true => exact tame_removeContainer true false

theorem deletes_watchExitOf (root : Nat) (returncode : Int) (autoRemove : Bool) :
    Deletes (watchExitOf root returncode autoRemove) := by
  intro record
  cases record with
  | none => rfl
  | some before =>
      refine deletes_refreshLoaded fun latest world => ?_
      dsimp only
      split
      · exact .inr rfl
      · cases autoRemove with
        | false => exact .inr rfl
        | true => exact .inr (deletes_removeContainer true false)

theorem tame_removalOp (op : RemovalOp) : Tame Missing AnyWorld op.program := by
  have returns : ∀ ok, Calm Missing AnyWorld (.ret ok : RemovalProg) := fun _ => trivial
  have returned : ∀ ok, Tame Missing AnyWorld (.ret ok : RemovalProg) := fun _ => trivial
  cases op with
  | remove force attached => exact tame_removeContainer force attached
  | stop => exact tame_stopContainerThen returns returned
  | start proc entryOf fault | connect network entry | disconnect network => exact tame_whenPresent returns returned _
  | watcher root returncode autoRemove => exact tame_watchExitOf root returncode autoRemove
  | tracker root =>
      constructor
      · intro record missing
        obtain rfl : record = none := missing
        exact fun _ _ => trivial
      · exact tame_refreshLoaded fun _ => trivial
  | health retries entry =>
      exact fun _ => tame_whenPresent (fun _ => returns true) (fun _ => returned true) _
  | reconcile attached =>
      constructor
      · intro record missing
        obtain rfl : record = none := missing
        trivial
      · intro record
        cases record with
        | none => trivial
        | some state => exact tame_reconcileThen fun _ => trivial

theorem deletes_removalOp (op : RemovalOp) (removes : op.removes = true) : Deletes op.program := by
  cases op with
  | remove force attached => exact deletes_removeContainer force attached
  | watcher root returncode autoRemove => exact deletes_watchExitOf root returncode autoRemove
  | stop | start proc entryOf fault | tracker root | health retries entry | reconcile attached
  | connect network entry | disconnect network => cases removes

theorem unloaded_removalOp (op : RemovalOp) : Unloaded op.program := by
  cases op with
  | health retries entry => exact fun _ => trivial
  | remove force attached | stop | start proc entryOf fault | watcher root returncode autoRemove
  | tracker root | reconcile attached | connect network entry | disconnect network => trivial

/-- When a directory is removed, no other thread holds a state that it may save. -/
def RemovedAlone (system : RemovalEngine) (event : Event RemovalOp Change) : Prop :=
  ∀ index thread rest, event = .advance index → system.threads[index]? = some thread →
    thread.prog = .save none rest → ∀ other held, system.threads[other]? = some held →
      other ≠ index → Unloaded held.prog

def Gone (system : RemovalEngine) : Prop := Still Missing AnyWorld (fun _ _ => True) system

section
variable {system next : RemovalEngine} {event : Event RemovalOp Change}

theorem gone_step (gone : Gone system)
    (result : system.step RemovalOp.program Change.apply event = some next) : Gone next :=
  still_step (fun op _ => calm_of_unloaded _ (tame_removalOp op) (unloaded_removalOp op))
    (fun _ _ _ => trivial) gone (fun _ _ _ _ => trivial) result

def Pending (system : RemovalEngine) : Prop :=
  ∀ thread ∈ system.threads, thread.op.removes = true → Deletes thread.prog

theorem pending_step (tame : TameThreads Missing AnyWorld (fun _ : RemovalOp => false) system)
    (pending : Pending system) (alone : RemovedAlone system event)
    (result : system.step RemovalOp.program Change.apply event = some next) :
    Gone next ∨ Pending next := by
  obtain ⟨op, -, rfl⟩ | ⟨outside, -, rfl⟩ | ⟨index, thread, after, record, version, world, rfl,
    found, moved, rfl⟩ := step_cases result
  · refine .inr fun thread member removes => ?_
    cases List.mem_append.mp member with
    | inl old => exact pending thread old removes
    | inr new =>
        rw [List.mem_singleton.mp new] at removes ⊢
        exact deletes_removalOp op removes
  · exact .inr pending
  have here := pending thread (List.mem_of_getElem? found)
  simp only [Thread.step] at moved
  cases shape : thread.prog with
  | ret ok => rw [shape] at moved; cases moved
  | load rest | reload rest | peek rest | look act rest =>
      rw [shape] at moved here
      cases moved
      exact .inr (forall_threads_set pending fun removes => here removes _)
  | save saved rest =>
      rw [shape] at moved here
      by_cases deletion : saved = none ∧ rest = .ret true
      · obtain ⟨rfl, rfl⟩ := deletion
        refine .inl (still_of_save found shape rfl trivial trivial ?_ result)
        intro other held foundOther elsewhere _
        exact ⟨tame held (List.mem_of_getElem? foundOther) rfl,
          alone index thread _ rfl found shape other held foundOther elsewhere⟩
      · cases moved
        refine .inr (forall_threads_set pending fun removes => ?_)
        exact (here removes).resolve_left deletion

end

def removedAlone (system : RemovalEngine) : Event RemovalOp Change → Bool
  | .advance index =>
      (system.threads[index]?).all fun thread =>
        match thread.prog with
        | .save none _ => (system.threads.eraseIdx index).all fun held =>
            match held.prog with
            | .ret _ => true
            | .load _ => true
            | _ => false
        | _ => true
  | _ => true

theorem removedAlone_sound (system : RemovalEngine) (event : Event RemovalOp Change)
    (checked : removedAlone system event = true) : RemovedAlone system event := by
  intro index thread rest advanced found saves other held foundOther elsewhere
  subst advanced
  simp only [removedAlone, found, Option.all_some, saves, List.all_eq_true] at checked
  have member := List.mem_eraseIdx_iff_getElem?.mpr ⟨other, elsewhere, foundOther⟩
  have rests := checked held member
  cases shape : held.prog with
  | ret ok => trivial
  | load next => trivial
  | reload next | peek next | look act next | save record next => rw [shape] at rests; cases rests

def removeReturned (system : RemovalEngine) (index : Nat) : Bool :=
  match system.threads[index]? with
  | some ⟨.remove _ _, .ret true, _⟩ => true
  | _ => false

theorem removeReturned_sound {system : RemovalEngine} {index : Nat}
    (checked : removeReturned system index = true) :
    ∃ thread, system.threads[index]? = some thread ∧ thread.op.removes = true ∧
      thread.prog = .ret true := by
  unfold removeReturned at checked
  split at checked
  · exact ⟨_, by assumption, rfl, rfl⟩
  · cases checked

/-- All of a forced remove in thread `index`; the process exits when signalled. -/
def removeEvents (index : Nat) : List (Event RemovalOp Change) :=
  .spawn (.remove true true) :: List.replicate 10 (.advance index) ++
    [.change (.exit 7), .advance index, .advance index, .advance index]

end PDocker.State
