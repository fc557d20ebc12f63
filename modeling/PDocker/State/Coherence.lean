import PDocker.Data.Sequential
import PDocker.State.Interleaving

/-!
# A coherent record

A record that is not running names no process, one that is running has the
status and a pid to it, and the exit code is one that Docker knows. With one
operation at a time every save keeps this, but for a start whose preflight
fails on a record that still runs.
-/

set_option autoImplicit false

namespace PDocker.State

open Data

structure Coherent (state : ContainerState) : Prop where
  stopped : state.running = false → state.pid = 0 ∧ state.pidStartTime = none ∧
    state.knownPids = [] ∧ state.launcherPid = none ∧ state.processGroupId = none
  live : state.running = true → state.status = .running ∧ 0 < state.pid
  exitCode : 0 ≤ state.exitCode ∧ state.exitCode ≤ 255

/-- The `State` object that `create_container` saves. -/
def recordCreated (hasHealthcheck : Bool) (networks : Table Name NetworkEntry) : ContainerState where
  running := false
  status := .created
  pid := 0
  pidStartTime := none
  launcherPid := none
  launcherStartTime := none
  processGroupId := none
  knownPids := []
  lastPid := none
  lastKnownPids := []
  lastLauncherPid := none
  lastProcessGroupId := none
  exitCode := 0
  rawReturnCode := 0
  signal := 0
  error := []
  startedAt := 0
  finishedAt := 0
  teardown := none
  health := none
  hasHealthcheck
  networks

def Alive (world : World) (pid : Nat) : Prop := ∃ proc ∈ world.procs, proc.pid = pid

structure Launches (state : ContainerState) (world : World) (root : Nat) : Prop where
  pid : state.launcherPid = some root
  start : ∃ startTime, state.launcherStartTime = some startTime ∧
    ∀ proc ∈ world.procs, proc.pid = root → proc.startTime = startTime

def launched (ops : List Operation) : List Nat :=
  ops.filterMap fun op =>
    match op with
    | .start proc _ _ => some proc.pid
    | _ => none

/-- A process table without orphans: whose parent has exited belongs to init. -/
structure Kempt (world : World) : Prop where
  pids : ∀ proc ∈ world.procs, proc.pid ≠ 0
  parents : ∀ proc ∈ world.procs, proc.parent = 0 ∨ proc.parent = 1 ∨ Alive world proc.parent

/-- What every step keeps: of the launched processes none but the one on record
is still alive. -/
structure Good (ops : List Operation) (state : ContainerState) (world : World) : Prop where
  coherent : Coherent state
  kempt : Kempt world
  plain : ∀ root ∈ launched ops, root ≠ 0 ∧ root ≠ 1
  roots : ∀ root ∈ launched ops, ¬ Alive world root ∨ Launches state world root

structure Later (ops : List Operation) (world now : World) : Prop where
  kempt : Kempt world → Kempt now
  dead : ∀ root ∈ launched ops, ¬ Alive world root → ¬ Alive now root
  sameStart : ∀ root ∈ launched ops, ∀ startTime,
    (∀ proc ∈ world.procs, proc.pid = root → proc.startTime = startTime) →
      ∀ proc ∈ now.procs, proc.pid = root → proc.startTime = startTime

theorem Later.refl (ops : List Operation) (world : World) : Later ops world world :=
  ⟨id, fun _ _ => id, fun _ _ _ => id⟩

theorem Later.trans {ops : List Operation} {one two three : World} (first : Later ops one two)
    (second : Later ops two three) : Later ops one three where
  kempt kempt := second.kempt (first.kempt kempt)
  dead root member gone := second.dead root member (first.dead root member gone)
  sameStart root member startTime same :=
    second.sameStart root member startTime (first.sameStart root member startTime same)

section
variable {ops : List Operation} {state saved : ContainerState} {world now : World} {root : Nat}

theorem Good.later (good : Good ops state world) (later : Later ops world now) :
    Good ops state now := by
  refine ⟨good.coherent, later.kempt good.kempt, good.plain, fun root member => ?_⟩
  refine (good.roots root member).imp (later.dead root member) fun launches => ?_
  obtain ⟨startTime, recorded, same⟩ := launches.start
  exact ⟨launches.pid, startTime, recorded, later.sameStart root member startTime same⟩

theorem Good.save (good : Good ops state world) (coherent : Coherent saved)
    (pid : saved.launcherPid = state.launcherPid)
    (start : saved.launcherStartTime = state.launcherStartTime) : Good ops saved world := by
  refine ⟨coherent, good.kempt, good.plain, fun root member => ?_⟩
  refine (good.roots root member).imp_right fun launches => ?_
  exact ⟨pid.trans launches.pid, by rw [start]; exact launches.start⟩

theorem Good.saveGone (good : Good ops state world) (coherent : Coherent saved)
    (gone : ∀ root ∈ launched ops, ¬ Alive world root) : Good ops saved world :=
  ⟨coherent, good.kempt, good.plain, fun root member => .inl (gone root member)⟩

theorem processIdentity_eq_none (dead : ¬ Alive world root) : processIdentity world root = none := by
  unfold processIdentity
  split
  · rfl
  · rw [Option.map_eq_none_iff, List.find?_eq_none]
    intro proc member same
    exact dead ⟨proc, member, of_decide_eq_true same⟩

variable {pid : Nat} {entry : ProcessEntry}

theorem preferredPid_mem {current : Nat} {launcher : Option Nat} {live : List Nat}
    (preferred : preferredPid current launcher live = some pid) : pid ∈ live := by
  have chosen := List.find?_some preferred
  exact of_decide_eq_true chosen

theorem preferredPid_isSome {current : Nat} {launcher : Option Nat} {live : List Nat}
    (some_ : live ≠ []) : (preferredPid current launcher live).isSome = true := by
  obtain ⟨first, rest, rfl⟩ := List.exists_cons_of_ne_nil some_
  rw [preferredPid, List.find?_isSome]
  refine ⟨first, ?_, by simp⟩
  simp

theorem pid_ne_zero_of_mem_liveEntries (member : entry ∈ liveEntries world state) : entry.pid ≠ 0 := by
  have listed := (List.mem_filter.mp member).1
  rw [containerProcessEntries, List.mem_eraseDups] at listed
  exact of_decide_eq_true (List.mem_filter.mp listed).2

theorem containerLivePid_pos_of_mem
    (member : entry ∈ liveEntries world state) : containerLivePid world state ≠ 0 := by
  have some_ : (liveEntries world state).map ProcessEntry.pid ≠ [] :=
    List.ne_nil_of_mem (List.mem_map_of_mem member)
  obtain ⟨pid, preferred⟩ := Option.isSome_iff_exists.mp
    (@preferredPid_isSome state.pid state.launcherPid _ some_)
  obtain ⟨live, listed, same⟩ := List.mem_map.mp (preferredPid_mem preferred)
  rw [containerLivePid, preferred, Option.getD_some, ← same]
  exact pid_ne_zero_of_mem_liveEntries listed

theorem Launches.dead (launches : Launches state world root) (notZero : root ≠ 0)
    (noLivePid : containerLivePid world state = 0) : ¬ Alive world root := by
  rintro ⟨proc, member, rfl⟩
  obtain ⟨startTime, recorded, same⟩ := launches.start
  have listed : (⟨proc.pid, startTime⟩ : ProcessEntry) ∈ liveEntries world state := by
    rw [liveEntries, List.mem_filter, containerProcessEntries, List.mem_eraseDups, List.mem_filter]
    refine ⟨⟨?_, by simpa using notZero⟩, ?_⟩
    · simp [launches.pid, recorded]
    simp only [processIdentityAlive, processIdentity, if_neg notZero, decide_eq_true_eq]
    cases found : world.procs.find? (·.pid = proc.pid) with
    | none => exact absurd (List.find?_eq_none.mp found proc member) (by simp)
    | some other =>
        have samePid : other.pid = proc.pid := by simpa using List.find?_some found
        rw [Option.map_some, samePid, same other (List.mem_of_find?_eq_some found) samePid]
  exact containerLivePid_pos_of_mem listed noLivePid

theorem Good.gone (good : Good ops state world) (noLivePid : containerLivePid world state = 0) :
    ∀ root ∈ launched ops, ¬ Alive world root := by
  intro root member
  cases good.roots root member with
  | inl dead => exact dead
  | inr launches => exact launches.dead (good.plain root member).1 noLivePid

theorem Coherent.quiet (coherent : Coherent state) (stopped : state.running = false) : Quiet state := by
  obtain ⟨pid, start, known, launcher, _⟩ := coherent.stopped stopped
  exact ⟨stopped, pid, start, launcher, known⟩

theorem descendantPids_eq_nil (kempt : Kempt world) (dead : ¬ Alive world root)
    (plain : root ≠ 0 ∧ root ≠ 1) : descendantPids world root = [] := by
  have childless : world.procs.filter (·.parent = root) = [] := by
    rw [List.filter_eq_nil_iff]
    intro proc member same
    have parent : proc.parent = root := of_decide_eq_true same
    rcases kempt.parents proc member with zero | one | alive
    · exact plain.1 (parent ▸ zero)
    · exact plain.2 (parent ▸ one)
    · exact dead (parent ▸ alive)
  simp [descendantPids, childless, collectDescendants]

theorem coherent_normalizeExitState (stopped : state.running = false) :
    Coherent (normalizeExitState state) := by
  have exit : ∀ code : Int, code < 0 → 0 ≤ dockerExitCode code ∧ dockerExitCode code ≤ 255 := by
    intro code negative
    rw [dockerExitCode, if_pos negative]
    omega
  simp only [normalizeExitState, stopped, Bool.false_eq_true, ↓reduceIte]
  split
  · rename_i negative
    exact ⟨fun _ => ⟨rfl, rfl, rfl, rfl, rfl⟩, fun running => (by cases running), exit _ negative⟩
  split
  · exact ⟨fun _ => ⟨rfl, rfl, rfl, rfl, rfl⟩, fun running => (by cases running),
      (show (0 : Int) ≤ 255 ∧ (255 : Int) ≤ 255 by decide)⟩
  · rename_i notNegative notLarge
    exact ⟨fun _ => ⟨rfl, rfl, rfl, rfl, rfl⟩, fun running => (by cases running),
      Int.not_lt.mp notNegative, Int.not_lt.mp notLarge⟩

theorem Coherent.markHealthNotRunning (coherent : Coherent state) (now : Nat) (output : Name) :
    Coherent (markHealthNotRunning now output state) := by
  unfold State.markHealthNotRunning
  split
  · exact coherent
  · split
    · exact coherent
    · exact ⟨coherent.stopped, coherent.live, coherent.exitCode⟩

theorem launcher_markHealthNotRunning (now : Nat) (output : Name) (state : ContainerState) :
    (markHealthNotRunning now output state).launcherPid = state.launcherPid ∧
      (markHealthNotRunning now output state).launcherStartTime = state.launcherStartTime := by
  unfold markHealthNotRunning
  split
  · exact ⟨rfl, rfl⟩
  · split
    · exact ⟨rfl, rfl⟩
    · exact ⟨rfl, rfl⟩

theorem coherent_markLive (live : pid ≠ 0) : Coherent (markLive world pid state) :=
  ⟨fun stopped => (by cases stopped), fun _ => ⟨rfl, Nat.pos_of_ne_zero live⟩,
    (show (0 : Int) ≤ 0 ∧ (0 : Int) ≤ 255 by decide)⟩

theorem launcher_recordProcesses (roots : List Nat) :
    (recordProcesses world roots state).launcherPid = state.launcherPid ∧
      (recordProcesses world roots state).launcherStartTime = state.launcherStartTime := by
  unfold recordProcesses
  dsimp only
  split
  · exact ⟨rfl, rfl⟩
  · exact ⟨rfl, rfl⟩
  · exact ⟨rfl, rfl⟩

theorem coherent_recordProcesses_running (coherent : Coherent state) (running : state.running = true)
    (roots : List Nat) : Coherent (recordProcesses world roots state) := by
  have live := coherent.live running
  have stops : ∀ {P : Prop}, state.running = false → P := by
    intro P stopped
    rw [running] at stopped
    cases stopped
  unfold recordProcesses
  dsimp only
  split
  · exact ⟨stops, coherent.live, coherent.exitCode⟩
  · exact ⟨stops, coherent.live, coherent.exitCode⟩
  rename_i pid preferred _
  refine ⟨stops, fun _ => ⟨live.1, Nat.pos_of_ne_zero ?_⟩, coherent.exitCode⟩
  obtain ⟨entry, listed, rfl⟩ := List.mem_map.mp (preferredPid_mem preferred)
  obtain ⟨candidate, -, identity⟩ := List.mem_filterMap.mp listed
  unfold processIdentity at identity
  split at identity
  · cases identity
  rename_i notZero
  obtain ⟨proc, found, rfl⟩ := Option.map_eq_some_iff.mp identity
  have same : proc.pid = candidate := by simpa using List.find?_some found
  exact same ▸ notZero

theorem coherent_recordProcesses_stopped (coherent : Coherent state)
    (stopped : state.running = false) (kempt : Kempt world) {roots : List Nat}
    (gone : ∀ root ∈ roots, root ≠ 0 → ¬ Alive world root ∧ root ≠ 1) :
    Coherent (recordProcesses world roots state) := by
  obtain ⟨pid, start, _, launcher, group⟩ := coherent.stopped stopped
  have named : (roots.filter (· ≠ 0)).flatMap (fun pid => pid :: descendantPids world pid) =
      roots.filter (· ≠ 0) := by
    rw [← List.flatMap_singleton' (roots.filter (· ≠ 0)), List.flatMap_assoc]
    apply List.flatMap_congr
    intro root member
    have notZero : root ≠ 0 := by simpa using (List.mem_filter.mp member).2
    have dead := gone root (List.mem_filter.mp member).1 notZero
    rw [List.flatMap_singleton, descendantPids_eq_nil kempt dead.1 ⟨notZero, dead.2⟩]
  have childless : (roots.filter (· ≠ 0)).flatMap (descendantPids world) = [] := by
    rw [List.flatMap_eq_nil_iff]
    intro root member
    have notZero : root ≠ 0 := by simpa using (List.mem_filter.mp member).2
    have dead := gone root (List.mem_filter.mp member).1 notZero
    exact descendantPids_eq_nil kempt dead.1 ⟨notZero, dead.2⟩
  have nothing : ((roots.filter (· ≠ 0)).eraseDups.insertionSort (· ≤ ·)).filterMap
      (processIdentity world) = [] := by
    rw [List.filterMap_eq_nil_iff]
    intro root member
    rw [List.mem_insertionSort, List.mem_eraseDups] at member
    have notZero : root ≠ 0 := by simpa using (List.mem_filter.mp member).2
    exact processIdentity_eq_none (gone root (List.mem_filter.mp member).1 notZero).1
  simp only [recordProcesses, (coherent.quiet stopped).liveEntries_eq_nil world, List.map_nil,
    List.nil_append, named, childless, List.append_nil, nothing]
  exact ⟨fun _ => ⟨pid, start, rfl, launcher, group⟩, coherent.live, coherent.exitCode⟩

theorem coherent_markDead : Coherent (markDead world state) := by
  have marked : ∀ recorded : ContainerState, recorded.running = false → Coherent
      (markHealthNotRunning world.now notRunningOutput (normalizeExitState recorded)) :=
    fun _ stopped => (coherent_normalizeExitState stopped).markHealthNotRunning _ _
  have stopped : ∀ exited : ContainerState, exited.running = false →
      (if exited.exitCode ≠ 0 then normalizeExitState exited
        else recordReturnCode 255 exited).running = false := by
    intro exited stopped
    split
    · exact (quiet_normalizeExitState stopped).stopped
    · exact stopped
  have here := marked _ (stopped
    { state with running := false, status := .exited, pid := 0, pidStartTime := none } rfl)
  exact ⟨here.stopped, here.live, here.exitCode⟩

theorem coherent_stopComplete (coherent : Coherent state) (stopped : Bool) :
    Coherent (stopComplete world stopped state) := by
  apply Coherent.markHealthNotRunning
  by_cases coded : stopped = true ∧ state.exitCode = 0
  · rw [if_pos coded]
    exact ⟨fun _ => ⟨rfl, rfl, rfl, rfl, rfl⟩, fun running => (by cases running),
      (show (0 : Int) ≤ 143 ∧ (143 : Int) ≤ 255 by decide)⟩
  · rw [if_neg coded]
    exact ⟨fun _ => ⟨rfl, rfl, rfl, rfl, rfl⟩, fun running => (by cases running), coherent.exitCode⟩

end

/-! ## Every operation saves coherent records -/

/-- Where a start whose preflight fails looks, the record is not running, or
one of its processes lives and the start returns early. -/
def Operation.expects : Operation → ContainerState → World → Prop
  | .start _ _ (some _), state, world => state.running = false ∨ containerLivePid world state ≠ 0
  | _, _, _ => True

abbrev KeepsCoherent (ops : List Operation) (expects : ContainerState → World → Prop) :=
  Upholds Coherent (Good ops) (Later ops) expects

section
variable {ops : List Operation} {expects : ContainerState → World → Prop} {state : ContainerState}
  {world : World}

variable {roots : List Nat} {next : StateProg} {proc : ProcessEntry}

theorem Good.recordProcesses (good : Good ops state world)
    (known : state.running = false → ∀ root ∈ roots, root ≠ 0 → root ∈ launched ops) :
    Coherent (recordProcesses world roots state) := by
  cases running : state.running with
  | true => exact coherent_recordProcesses_running good.coherent running roots
  | false =>
      apply coherent_recordProcesses_stopped good.coherent running good.kempt
      intro root member notZero
      have started := known running root member notZero
      refine ⟨(good.roots root started).resolve_right fun launches => ?_, (good.plain root started).2⟩
      have none_ := (good.coherent.stopped running).2.2.2.1
      rw [launches.pid] at none_
      cases none_

theorem keeps_saveProcesses (good : Good ops state world)
    (known : state.running = false → ∀ root ∈ roots, root ≠ 0 → root ∈ launched ops)
    (rest : ∀ saved now, Good ops saved now → KeepsCoherent ops expects next saved now) :
    KeepsCoherent ops expects (saveProcesses roots next state) state world := by
  intro seen after _
  have goodSeen := good.later after
  have coherent := goodSeen.recordProcesses known
  refine ⟨coherent, fun now more => rest _ _ ?_⟩
  have launcher := @launcher_recordProcesses state seen roots
  exact (goodSeen.later more).save coherent launcher.1 launcher.2

theorem keeps_refreshProcessSnapshot (good : Good ops state world)
    (known : state.running = false → ∀ root ∈ roots, root ≠ 0 → root ∈ launched ops)
    (rest : ∀ saved now, Good ops saved now → KeepsCoherent ops expects next saved now) :
    KeepsCoherent ops expects (refreshProcessSnapshot roots next) state world :=
  fun _ after => keeps_saveProcesses (good.later after) known rest

private theorem keeps_peek_ret (ok : Bool) (good : Good ops state world) :
    KeepsCoherent ops expects (.peek fun _ => .ret ok) state world :=
  fun _ after => good.later after

private theorem keeps_save {saved : ContainerState} (good : Good ops state world)
    (coherent : Coherent saved) (pid : saved.launcherPid = state.launcherPid)
    (start : saved.launcherStartTime = state.launcherStartTime)
    (rest : ∀ now, Good ops saved now → KeepsCoherent ops expects next saved now) :
    KeepsCoherent ops expects (.save saved next) state world :=
  ⟨coherent, fun now after => rest now ((good.later after).save coherent pid start)⟩

private theorem keeps_saveGone {saved : ContainerState} (good : Good ops state world) (coherent : Coherent saved)
    (gone : ∀ root ∈ launched ops, ¬ Alive world root)
    (rest : ∀ now, Good ops saved now → KeepsCoherent ops expects next saved now) :
    KeepsCoherent ops expects (.save saved next) state world :=
  ⟨coherent, fun now after => rest now ((good.later after).saveGone coherent
    fun root member => after.dead root member (gone root member))⟩

theorem keeps_trackProcesses (good : Good ops state world) {root : Nat}
    (started : root ∈ launched ops) : KeepsCoherent ops expects (trackProcesses root) state world := by
  refine keeps_refreshProcessSnapshot good (fun _ other member _ => ?_) fun saved now goodSaved =>
    keeps_peek_ret true goodSaved
  rw [List.mem_singleton.mp member]
  exact started

theorem keeps_finishWatch (good : Good ops state world) (returncode : Int) :
    KeepsCoherent ops expects (finishWatch returncode state) state world := by
  intro seen after _
  have goodSeen := good.later after
  dsimp only
  split
  · rename_i live
    exact keeps_save goodSeen (coherent_markLive live) rfl rfl fun _ done => done
  · rename_i dead
    exact keeps_saveGone goodSeen (coherent_normalizeExitState rfl)
      (goodSeen.gone (Decidable.not_not.mp dead)) fun _ done => done

theorem keeps_watchExit (good : Good ops state world) {root : Nat} (started : root ∈ launched ops)
    (returncode : Int) : KeepsCoherent ops expects (watchExit root returncode) state world := by
  intro loaded after
  refine keeps_refreshProcessSnapshot (good.later after) (fun _ other member _ => ?_)
    fun saved now goodSaved => ?_
  · rw [List.mem_singleton.mp member]
    exact started
  · exact fun later more => keeps_finishWatch (goodSaved.later more) returncode

theorem keeps_setHealth (good : Good ops state world) (status : HealthStatus) (entry : HealthEntry) :
    KeepsCoherent ops expects (setHealth status entry) state world := by
  intro loaded after
  have goodLoaded := good.later after
  dsimp only
  split
  · have coherent : Coherent (recordHealth status entry state) :=
      ⟨good.coherent.stopped, good.coherent.live, good.coherent.exitCode⟩
    exact keeps_save goodLoaded coherent rfl rfl fun _ done => done
  · intro seen more _
    have launcher := launcher_markHealthNotRunning seen.now notRunningOutput state
    exact keeps_save (goodLoaded.later more) (good.coherent.markHealthNotRunning _ _) launcher.1
      launcher.2 fun _ done => done

theorem keeps_edit (good : Good ops state world) {edit : ContainerState → ContainerState}
    (coherent : Coherent (edit state)) (pid : (edit state).launcherPid = state.launcherPid)
    (start : (edit state).launcherStartTime = state.launcherStartTime) :
    KeepsCoherent ops expects (.load fun state => .save (edit state) (.ret true)) state world :=
  fun _ after => keeps_save (good.later after) coherent pid start fun _ done => done

theorem Coherent.withNetworks (coherent : Coherent state) (networks : Table Name NetworkEntry) :
    Coherent { state with networks } :=
  ⟨coherent.stopped, coherent.live, coherent.exitCode⟩

theorem keeps_reconcile (good : Good ops state world) (attached : Bool) :
    KeepsCoherent ops expects (reconcile attached) state world := by
  intro loaded after seen more _
  have goodSeen := (good.later after).later more
  dsimp only
  split
  · rename_i running
    split
    · exact keeps_peek_ret true goodSeen
    split
    · refine keeps_refreshProcessSnapshot goodSeen (fun stopped => ?_) fun _ _ goodSaved =>
        keeps_peek_ret true goodSaved
      rw [running] at stopped
      cases stopped
    · rename_i dead
      exact keeps_saveGone goodSeen coherent_markDead (goodSeen.gone (Decidable.not_not.mp dead))
        fun _ done => done
  · rename_i notRunning
    have stopped := Bool.eq_false_iff.mpr notRunning
    have quiet := goodSeen.coherent.quiet stopped
    simp only [quiet.containerLivePid_eq_zero seen, ne_eq, not_true_eq_false, ↓reduceIte]
    have coherent := (coherent_normalizeExitState stopped).markHealthNotRunning seen.now
      notRunningOutput
    exact keeps_saveGone goodSeen coherent (goodSeen.gone (quiet.containerLivePid_eq_zero seen))
      fun _ done => done

theorem keeps_finishStop (good : Good ops state world) :
    KeepsCoherent ops expects (finishStop state) state world := by
  intro signalled after _ seen more _
  have goodSeen := (good.later after).later more
  have torn : ∀ survivors, Coherent
      (recordTeardown seen (signalled.procs.map Process.pid) survivors state) := fun _ =>
    ⟨good.coherent.stopped, good.coherent.live, good.coherent.exitCode⟩
  dsimp only
  split
  · rename_i nobody
    have empty : seen.procs = [] := List.map_eq_nil_iff.mp nobody
    refine keeps_saveGone goodSeen (coherent_stopComplete (torn []) _) (fun root _ alive => ?_)
      fun _ done => done
    obtain ⟨proc, member, _⟩ := alive
    rw [id_eq, empty] at member
    cases member
  · rename_i first rest survivors
    have listed : first ∈ seen.procs.map fun proc => (⟨proc.pid, proc.startTime⟩ : ProcessEntry) := by
      rw [survivors]
      exact List.mem_cons_self
    obtain ⟨proc, member, rfl⟩ := List.mem_map.mp listed
    have notZero := goodSeen.kempt.pids proc member
    refine keeps_save goodSeen ⟨fun stopped => (by cases stopped),
      fun _ => ⟨rfl, Nat.pos_of_ne_zero notZero⟩, good.coherent.exitCode⟩ rfl rfl fun _ done => done

theorem keeps_stopContainer (good : Good ops state world) :
    KeepsCoherent ops expects stopContainer state world := by
  intro loaded after
  refine keeps_refreshProcessSnapshot (good.later after) (fun stopped root member notZero => ?_)
    fun saved now goodSaved => ?_
  · rw [List.mem_singleton.mp member] at notZero
    exact absurd (good.coherent.stopped stopped).1 notZero
  · exact fun later more => keeps_finishStop (goodSaved.later more)

theorem keeps_connectConfigured (entries : List (Name × NetworkEntry))
    (next : ContainerState → StateProg)
    (rest : ∀ connected now, connected.running = state.running → Good ops connected now →
      (∀ root ∈ launched ops, ¬ Alive now root) →
      KeepsCoherent ops expects (next connected) connected now) :
    ∀ (current : ContainerState) (world : World), current.running = state.running →
      Good ops current world → (∀ root ∈ launched ops, ¬ Alive world root) →
      KeepsCoherent ops expects (connectConfigured entries next current) current world := by
  induction entries with
  | nil => exact rest
  | cons entry entries ih =>
      intro current world same good gone
      refine ⟨good.coherent.withNetworks _, fun now after => ih _ now same ?_ fun root member =>
        after.dead root member (gone root member)⟩
      exact (good.later after).save (good.coherent.withNetworks _) rfl rfl

theorem coherent_startFailed (coherent : Coherent state) (stopped : state.running = false)
    (fault : Name) : Coherent (startFailed world fault state) := by
  obtain ⟨_, _, known, launcher, group⟩ := coherent.stopped stopped
  apply Coherent.markHealthNotRunning
  exact ⟨fun _ => ⟨rfl, rfl, known, launcher, group⟩, fun running => (by cases running),
    (show (0 : Int) ≤ 126 ∧ (126 : Int) ≤ 255 by decide)⟩

theorem good_markStarted (good : Good ops state world)
    (gone : ∀ root ∈ launched ops, ¬ Alive world root) (started : proc.pid ∈ launched ops) :
    Good ops (markStarted world proc state)
      { world with procs := ⟨proc.pid, proc.startTime, 0⟩ :: world.procs } := by
  have plain := good.plain proc.pid started
  constructor
  · exact ⟨fun stopped => (by cases stopped), fun _ => ⟨rfl, Nat.pos_of_ne_zero plain.1⟩,
      (show (0 : Int) ≤ 0 ∧ (0 : Int) ≤ 255 by decide)⟩
  · constructor
    · intro other member
      cases List.mem_cons.mp member with
      | inl new => rw [new]; exact plain.1
      | inr old => exact good.kempt.pids other old
    intro other member
    cases List.mem_cons.mp member with
    | inl new => rw [new]; exact .inl rfl
    | inr old =>
        refine (good.kempt.parents other old).imp_right fun rest => rest.imp_right fun alive => ?_
        obtain ⟨parent, listed, same⟩ := alive
        exact ⟨parent, List.mem_cons_of_mem _ listed, same⟩
  · exact good.plain
  intro root member
  by_cases same : root = proc.pid
  · subst same
    refine .inr ⟨rfl, proc.startTime, rfl, fun other listed samePid => ?_⟩
    cases List.mem_cons.mp listed with
    | inl new => rw [new]
    | inr old => exact absurd ⟨other, old, samePid⟩ (gone proc.pid member)
  · refine .inl fun alive => ?_
    obtain ⟨other, listed, samePid⟩ := alive
    cases List.mem_cons.mp listed with
    | inl new => rw [new] at samePid; exact same samePid.symm
    | inr old => exact gone root member ⟨other, old, samePid⟩

theorem keeps_startContainer (good : Good ops state world)
    (started : proc.pid ∈ launched ops) (entryOf : Name → NetworkEntry) (fault : Option Name) :
    KeepsCoherent ops (Operation.start proc entryOf fault).expects
      (startContainer proc entryOf fault) state world := by
  intro loaded after seen more expected
  have goodSeen := (good.later after).later more
  dsimp only
  split
  · rename_i live
    exact keeps_save goodSeen (coherent_markLive live) rfl rfl fun now done =>
      keeps_peek_ret true done
  rename_i dead
  have noLivePid := Decidable.not_not.mp dead
  refine keeps_connectConfigured _ _ (fun connected now same goodNow gone => ?_) state seen rfl
    goodSeen (goodSeen.gone noLivePid)
  cases fault with
  | some message =>
      intro later afterwards _
      have stopped : state.running = false := expected.resolve_right dead
      have launcher := launcher_markHealthNotRunning later.now message
        { connected with
          running := false
          status := .exited
          pid := 0
          pidStartTime := none
          exitCode := 126
          finishedAt := later.now }
      exact keeps_save (goodNow.later afterwards)
        (coherent_startFailed goodNow.coherent (same.trans stopped) message) launcher.1 launcher.2
        fun _ done => done
  | none =>
      intro later afterwards _
      have goodStarted := good_markStarted (goodNow.later afterwards)
        (fun root member => afterwards.dead root member (gone root member)) started
      exact ⟨goodStarted.coherent, fun last final => keeps_peek_ret true (goodStarted.later final)⟩

end

/-- The pids that launchers get are new, and tracker and watcher are those of a
process that start has launched. -/
def Operation.ready (system : Engine) : Operation → Prop
  | .start proc _ _ => proc.pid ≠ 0 ∧ proc.pid ≠ 1 ∧ ¬ Alive system.world proc.pid ∧
      proc.pid ∉ launched system.ops
  | .watcher root _ => root ∈ launched system.ops
  | .tracker root => root ∈ launched system.ops
  | _ => True

/-- A new process does not get the pid of a launcher. -/
def Change.plain (ops : List Operation) : Change → Prop
  | .fork _ child _ => child ≠ 0 ∧ child ∉ launched ops
  | _ => True

theorem launched_append (ops : List Operation) (op : Operation) :
    launched (ops ++ [op]) = launched ops ++ launched [op] := by
  simp [launched]

theorem later_apply (ops : List Operation) (change : Change) (plain : change.plain ops)
    (world : World) : Later ops world (change.apply world) := by
  cases change with
  | tick => exact ⟨fun kempt => ⟨kempt.pids, kempt.parents⟩, fun _ _ => id, fun _ _ _ => id⟩
  | exit pid =>
      have stays : ∀ proc, proc ∈ (Change.apply (.exit pid) world).procs → ∃ old ∈ world.procs,
          old.pid ≠ pid ∧ proc.pid = old.pid ∧ proc.startTime = old.startTime ∧
            (old.parent = pid ∧ proc.parent = 1 ∨ old.parent ≠ pid ∧ proc.parent = old.parent) := by
        intro proc member
        obtain ⟨old, listed, rfl⟩ := List.mem_map.mp member
        have survives := List.mem_filter.mp listed
        refine ⟨old, survives.1, by simpa using survives.2, ?_⟩
        split
        · rename_i orphan
          exact ⟨rfl, rfl, .inl ⟨orphan, rfl⟩⟩
        · rename_i other
          exact ⟨rfl, rfl, .inr ⟨other, rfl⟩⟩
      have survives : ∀ pid', pid' ≠ pid → Alive world pid' → Alive (Change.apply (.exit pid) world) pid' := by
        rintro _ other ⟨proc, member, rfl⟩
        refine ⟨_, List.mem_map_of_mem (List.mem_filter.mpr ⟨member, by simpa using other⟩), ?_⟩
        split
        · rfl
        · rfl
      refine ⟨fun kempt => ⟨fun proc member => ?_, fun proc member => ?_⟩,
        fun root _ dead alive => ?_, fun root _ startTime same proc member samePid => ?_⟩
      · obtain ⟨old, listed, _, pids, _⟩ := stays proc member
        exact pids ▸ kempt.pids old listed
      · obtain ⟨old, listed, _, _, _, orphan | other⟩ := stays proc member
        · exact .inr (.inl orphan.2)
        · rw [other.2]
          exact (kempt.parents old listed).imp_right fun rest =>
            rest.imp_right (survives old.parent other.1)
      · obtain ⟨proc, member, rfl⟩ := alive
        obtain ⟨old, listed, _, pids, _⟩ := stays proc member
        exact dead ⟨old, listed, pids.symm⟩
      · obtain ⟨old, listed, _, pids, starts, _⟩ := stays proc member
        exact starts.trans (same old listed (pids.symm.trans samePid))
  | fork parent child startTime =>
      simp only [Change.apply]
      split
      · rename_i living
        obtain ⟨father, listedFather, isFather⟩ := List.any_eq_true.mp living
        have fathered : father.pid = parent := of_decide_eq_true isFather
        refine ⟨fun kempt => ⟨fun proc member => ?_, fun proc member => ?_⟩,
          fun root member dead alive => ?_, fun root member start same proc listed samePid => ?_⟩
        · cases List.mem_cons.mp member with
          | inl new => rw [new]; exact plain.1
          | inr old => exact kempt.pids proc old
        · cases List.mem_cons.mp member with
          | inl new =>
              rw [new]
              exact .inr (.inr ⟨father, List.mem_cons_of_mem _ listedFather, fathered⟩)
          | inr old =>
              refine (kempt.parents proc old).imp_right fun rest => rest.imp_right fun alive => ?_
              obtain ⟨other, listed, same⟩ := alive
              exact ⟨other, List.mem_cons_of_mem _ listed, same⟩
        · obtain ⟨proc, listed, rfl⟩ := alive
          cases List.mem_cons.mp listed with
          | inl new => rw [new] at member; exact plain.2 member
          | inr old => exact dead ⟨proc, old, rfl⟩
        cases List.mem_cons.mp listed with
        | inl new =>
            rw [new] at samePid
            subst samePid
            exact absurd member plain.2
        | inr old => exact same proc old samePid
      · exact .refl ops world

structure OneAtATime (system : Engine) (event : Event Operation Change) : Prop where
  alone : ∀ op, event = .spawn op → ∀ thread ∈ system.threads, thread.Returned
  ready : ∀ op, event = .spawn op → op.ready system
  plain : ∀ change, event = .change change → change.plain system.ops
  preflight : ∀ index thread act next, event = .advance index →
    system.threads[index]? = some thread → thread.prog = .look act next →
    thread.op.expects system.doc system.world

theorem Good.start {ops : List Operation} {state : ContainerState} {world : World}
    (good : Good ops state world) (op : Operation)
    (fresh : ∀ root ∈ launched [op], root ≠ 0 ∧ root ≠ 1 ∧ ¬ Alive world root) :
    Good (ops ++ [op]) state world := by
  refine ⟨good.coherent, good.kempt, fun root member => ?_, fun root member => ?_⟩
  · rw [launched_append] at member
    cases List.mem_append.mp member with
    | inl old => exact good.plain root old
    | inr new => exact ⟨(fresh root new).1, (fresh root new).2.1⟩
  · rw [launched_append] at member
    cases List.mem_append.mp member with
    | inl old => exact good.roots root old
    | inr new => exact .inl (fresh root new).2.2

theorem keeps_program (system : Engine) (op : Operation) (ready : op.ready system)
    (good : Good system.ops system.doc system.world) :
    KeepsCoherent (system.ops ++ [op]) op.expects op.program system.doc system.world := by
  have known : ∀ root, root ∈ launched system.ops → root ∈ launched (system.ops ++ [op]) := by
    intro root member
    rw [launched_append]
    exact List.mem_append_left _ member
  cases op with
  | start proc entryOf fault =>
      refine keeps_startContainer (good.start _ fun root member => ?_) ?_ entryOf fault
      · obtain rfl : root = proc.pid := by simpa [launched] using member
        exact ⟨ready.1, ready.2.1, ready.2.2.1⟩
      · rw [launched_append]
        exact List.mem_append_right _ (by simp [launched])
  | stop => exact keeps_stopContainer (good.start _ fun _ member => by cases member)
  | watcher root returncode =>
      exact keeps_watchExit (good.start _ fun _ member => by cases member) (known root ready) returncode
  | tracker root =>
      exact keeps_trackProcesses (good.start _ fun _ member => by cases member) (known root ready)
  | health retries entry =>
      have started := good.start (.health retries entry) fun _ member => by cases member
      exact fun _ after => keeps_setHealth (started.later after) _ _
  | reconcile attached =>
      exact keeps_reconcile (good.start _ fun _ member => by cases member) attached
  | connect network entry | disconnect network =>
      exact keeps_edit (good.start _ fun _ member => by cases member)
        (good.coherent.withNetworks _) rfl rfl

/-- From the record that create saves on, whatever is done with the container
one operation at a time: the record is coherent after every save. -/
theorem record_coherent (hasHealthcheck : Bool) (networks : Table Name NetworkEntry) (now : Nat)
    {last : Engine}
    (runs : Runs Operation.program Change.apply OneAtATime
      (Engine.initial (recordCreated hasHealthcheck networks) ⟨[], now⟩) last) :
    Coherent last.doc := by
  have created : Coherent (recordCreated hasHealthcheck networks) :=
    ⟨fun _ => ⟨rfl, rfl, rfl, rfl, rfl⟩, fun running => (by cases running),
      (show (0 : Int) ≤ 0 ∧ (0 : Int) ≤ 255 by decide)⟩
  have sequential := runs.mono (fun system event (once : OneAtATime system event) =>
    (⟨once.alone, once.ready, fun outside same =>
      later_apply system.ops outside (once.plain outside same) system.world, once.preflight⟩ :
      Sequential Later Operation.expects (fun system op => op.ready system) Change.apply system event))
  have goodLater : ∀ ops state world now, Good ops state world → Later ops world now →
      Good ops state now := fun _ _ _ _ => Good.later
  refine Runs.safe Later.refl (fun _ _ _ _ => Later.trans) goodLater keeps_program created
    ⟨created, ⟨?_, ?_⟩, ?_, ?_⟩ rfl sequential
  · exact fun _ member => by cases member
  · exact fun _ member => by cases member
  · exact fun _ member => by cases member
  · exact fun _ member => by cases member

def aliveIn (world : World) (pid : Nat) : Bool := world.procs.any (·.pid = pid)

theorem aliveIn_iff (world : World) (pid : Nat) : aliveIn world pid = true ↔ Alive world pid := by
  simp [aliveIn, Alive]

def Operation.isReady (system : Engine) : Operation → Bool
  | .start proc _ _ => proc.pid ≠ 0 && proc.pid ≠ 1 && !aliveIn system.world proc.pid &&
      proc.pid ∉ launched system.ops
  | .watcher root _ => root ∈ launched system.ops
  | .tracker root => root ∈ launched system.ops
  | _ => true

theorem Operation.isReady_sound (system : Engine) (op : Operation)
    (checked : op.isReady system = true) : op.ready system := by
  cases op with
  | start proc entryOf fault =>
      simp only [isReady, Bool.and_eq_true, decide_eq_true_eq, Bool.not_eq_true'] at checked
      obtain ⟨⟨⟨notZero, notOne⟩, dead⟩, new⟩ := checked
      refine ⟨notZero, notOne, fun alive => ?_, new⟩
      rw [(aliveIn_iff system.world proc.pid).mpr alive] at dead
      cases dead
  | watcher root returncode | tracker root =>
      have started : root ∈ launched system.ops := of_decide_eq_true checked
      exact started
  | stop | health retries entry | reconcile attached | connect network entry | disconnect network => trivial

def allReturned (system : Engine) : Bool :=
  system.threads.all fun thread =>
    match thread.prog with
    | .ret _ => true
    | _ => false

/-- `OneAtATime`, computed. The preflight is looked at only if asked for. -/
def inTurn (preflight : Bool) (system : Engine) : Event Operation Change → Bool
  | .spawn op => allReturned system && op.isReady system
  | .change (.fork _ child _) => child ≠ 0 && child ∉ launched system.ops
  | .change _ => true
  | .advance index =>
      (system.threads[index]?).all fun thread =>
        match thread.op, thread.prog with
        | .start _ _ (some _), .look _ _ => !preflight || !system.doc.running
        | _, _ => true

variable {preflight : Bool} {system : Engine}

theorem inTurn_alone {op : Operation} (checked : inTurn preflight system (.spawn op) = true) :
    (∀ thread ∈ system.threads, thread.Returned) ∧ op.ready system := by
  obtain ⟨returned, ready⟩ := Bool.and_eq_true_iff.mp checked
  refine ⟨fun thread member => ?_, op.isReady_sound system ready⟩
  have here := List.all_eq_true.mp returned thread member
  cases shape : thread.prog with
  | ret ok => exact ⟨ok, shape⟩
  | load next | reload next | peek next | look act next | save saved next => rw [shape] at here; cases here

theorem inTurn_plain {change : Change}
    (checked : inTurn preflight system (.change change) = true) : change.plain system.ops := by
  cases change with
  | fork parent child startTime =>
      obtain ⟨notZero, new⟩ := Bool.and_eq_true_iff.mp checked
      exact ⟨of_decide_eq_true notZero, of_decide_eq_true new⟩
  | exit pid => trivial
  | tick => trivial

theorem inTurn_sound (system : Engine) (event : Event Operation Change)
    (checked : inTurn true system event = true) : OneAtATime system event := by
  constructor
  · rintro op rfl
    exact (inTurn_alone checked).1
  · rintro op rfl
    exact (inTurn_alone checked).2
  · rintro change rfl
    exact inTurn_plain checked
  rintro index thread act next rfl found looks
  unfold Operation.expects
  split
  · rename_i same
    simp only [inTurn, found, Option.all_some, same, looks, Bool.not_true, Bool.false_or,
      Bool.not_eq_true'] at checked
    exact .inl checked
  · trivial

def startAs (fault : Option Name) (pid : Nat) : Event Operation Change :=
  .spawn (.start ⟨pid, 1⟩ (fun _ => ⟨[], []⟩) fault)

/-- Start, a round of the tracker, the exit that the watcher handles, a start
that fails, and a stop. -/
theorem record_coherent_served : ∃ last : Engine, Runs Operation.program Change.apply OneAtATime
      (Engine.initial (recordCreated true ∅) ⟨[], 0⟩) last ∧
    last.threads.length = 5 ∧ Coherent last.doc := by
  have ran : ((Engine.initial (recordCreated true ∅) ⟨[], 0⟩).run Operation.program Change.apply
      (inTurn true) (startAs none 7 :: List.replicate 5 (.advance 0) ++
        .spawn (.tracker 7) :: List.replicate 4 (.advance 1) ++ [.change (.exit 7)] ++
        .spawn (.watcher 7 3) :: List.replicate 7 (.advance 2) ++
        startAs (some "no loader".toList) 8 :: List.replicate 4 (.advance 3) ++
        .spawn .stop :: List.replicate 8 (.advance 4))).any
      (fun last => last.threads.length = 5) = true := by decide +kernel
  obtain ⟨last, result, length⟩ := (Option.any_eq_true _ _).mp ran
  have runs := runs_of_run inTurn_sound _ _ result
  exact ⟨last, runs, of_decide_eq_true length, record_coherent true ∅ 0 runs⟩

/-- The launcher exits and leaves a service behind, which the watcher finds and
which exits later. Then a start fails its preflight: the record is stopped and
still names launcher and service. -/
theorem record_incoherent : ∃ last : Engine, Runs Operation.program Change.apply
      (Sequential Later (fun _ _ _ => True) (fun system op => op.ready system) Change.apply)
      (Engine.initial (recordCreated false ∅) ⟨[], 0⟩) last ∧
    ¬ Coherent last.doc := by
  have ran : ((Engine.initial (recordCreated false ∅) ⟨[], 0⟩).run Operation.program Change.apply
      (inTurn false) (startAs none 7 :: List.replicate 5 (.advance 0) ++
        [.change (.fork 7 9 2)] ++ .spawn (.tracker 7) :: List.replicate 4 (.advance 1) ++
        [.change (.exit 7)] ++ .spawn (.watcher 7 0) :: List.replicate 7 (.advance 2) ++
        [.change (.exit 9)] ++
        startAs (some "no loader".toList) 8 :: List.replicate 4 (.advance 3))).any
      (fun last => !last.doc.running && last.doc.launcherPid = some 7) = true := by decide +kernel
  obtain ⟨last, result, checked⟩ := (Option.any_eq_true _ _).mp ran
  simp only [Bool.and_eq_true, Bool.not_eq_true', decide_eq_true_eq] at checked
  have sequential : ∀ (system : Engine) event, inTurn false system event = true →
      Sequential Later (fun _ _ _ => True) (fun system op => op.ready system) Change.apply system
        event := by
    intro system event checked
    constructor
    · rintro op rfl
      exact (inTurn_alone checked).1
    · rintro op rfl
      exact (inTurn_alone checked).2
    · rintro outside rfl
      exact later_apply system.ops outside (inTurn_plain checked) system.world
    · exact fun _ _ _ _ _ _ _ => trivial
  refine ⟨last, runs_of_run sequential _ _ result, fun coherent => ?_⟩
  have none_ := (coherent.stopped checked.1).2.2.2.1
  rw [checked.2] at none_
  cases none_

end PDocker.State
