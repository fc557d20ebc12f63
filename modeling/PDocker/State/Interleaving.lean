import PDocker.State.Stopped

/-!
# Interleaved operations on one container

Every operation edits its own parts of the record. So nothing is lost as long
as no other save comes between the load that an edit rests on and its save.
Nothing in the engine ensures that, and a stale save revives a stopped container.
-/

set_option autoImplicit false

namespace PDocker.State

open Data

inductive Field where
  | exitCode
  | teardown
  | health
  | network (name : Name)
  deriving DecidableEq

def Field.Kept : Field → ContainerState → ContainerState → Prop
  | .exitCode, old, new =>
      new.exitCode = old.exitCode ∧ new.rawReturnCode = old.rawReturnCode ∧ new.signal = old.signal
  | .teardown, old, new => new.teardown = old.teardown
  | .health, old, new => new.health = old.health
  | .network name, old, new => new.networks.lookup name = old.networks.lookup name

theorem Field.Kept.refl (field : Field) (state : ContainerState) : field.Kept state state := by
  cases field with
  | exitCode => exact ⟨rfl, rfl, rfl⟩
  | teardown => rfl
  | health => rfl
  | network name => rfl

theorem Field.Kept.trans {field : Field} {one two three : ContainerState}
    (first : field.Kept one two) (second : field.Kept two three) : field.Kept one three := by
  cases field with
  | exitCode =>
      exact ⟨second.1.trans first.1, second.2.1.trans first.2.1, second.2.2.trans first.2.2⟩
  | teardown | health | network name => exact Eq.trans second first

def Operation.Edits : Operation → Field → Prop
  | .stop, field => field = .exitCode ∨ field = .teardown ∨ field = .health
  | .start _ _ _, field => field ≠ .teardown
  | .watcher _ _, field => field = .exitCode
  | .tracker _, _ => False
  | .health _ _, field => field = .health
  | .reconcile _, field => field = .exitCode ∨ field = .health
  | .connect name _, field => field = .network name
  | .disconnect name, field => field = .network name

/-- Every part outside of `edits` is kept. -/
def KeepsOutside (edits : Field → Prop) (old new : ContainerState) : Prop :=
  ∀ field, ¬ edits field → field.Kept old new

section
variable {edits : Field → Prop} {state : ContainerState} {world : World}

theorem KeepsOutside.trans {one two three : ContainerState} (first : KeepsOutside edits one two)
    (second : KeepsOutside edits two three) : KeepsOutside edits one three :=
  fun field outside => (first field outside).trans (second field outside)

theorem keepsOutside_of {new : ContainerState}
    (exitCode : edits .exitCode ∨ Field.exitCode.Kept state new)
    (teardown : edits .teardown ∨ new.teardown = state.teardown)
    (health : edits .health ∨ new.health = state.health)
    (networks : ∀ name, edits (.network name) ∨
      new.networks.lookup name = state.networks.lookup name) : KeepsOutside edits state new := by
  intro field outside
  cases field with
  | exitCode => exact exitCode.resolve_left outside
  | teardown => exact teardown.resolve_left outside
  | health => exact health.resolve_left outside
  | network name => exact (networks name).resolve_left outside

theorem keepsOutside_recordProcesses (roots : List Nat) :
    KeepsOutside edits state (recordProcesses world roots state) := by
  unfold recordProcesses
  dsimp only
  split
  · exact keepsOutside_of (.inr ⟨rfl, rfl, rfl⟩) (.inr rfl) (.inr rfl) fun _ => .inr rfl
  · exact keepsOutside_of (.inr ⟨rfl, rfl, rfl⟩) (.inr rfl) (.inr rfl) fun _ => .inr rfl
  · exact keepsOutside_of (.inr ⟨rfl, rfl, rfl⟩) (.inr rfl) (.inr rfl) fun _ => .inr rfl

theorem keepsOutside_normalizeExitState (own : edits .exitCode) :
    KeepsOutside edits state (normalizeExitState state) := by
  unfold normalizeExitState
  dsimp only
  split
  · exact fun field _ => .refl field state
  split
  · exact keepsOutside_of (.inl own) (.inr rfl) (.inr rfl) fun _ => .inr rfl
  · split
    · exact keepsOutside_of (.inl own) (.inr rfl) (.inr rfl) fun _ => .inr rfl
    · exact keepsOutside_of (.inl own) (.inr rfl) (.inr rfl) fun _ => .inr rfl

theorem keepsOutside_markHealthNotRunning (own : edits .health) (now : Nat) (output : Name) :
    KeepsOutside edits state (markHealthNotRunning now output state) := by
  unfold markHealthNotRunning
  split
  · exact fun field _ => .refl field state
  · split
    · exact fun field _ => .refl field state
    · exact keepsOutside_of (.inr ⟨rfl, rfl, rfl⟩) (.inr rfl) (.inl own) fun _ => .inr rfl

theorem keepsOutside_markLive (own : edits .exitCode) (pid : Nat) :
    KeepsOutside edits state (markLive world pid state) :=
  keepsOutside_of (.inl own) (.inr rfl) (.inr rfl) fun _ => .inr rfl

theorem keepsOutside_markDead (exit : edits .exitCode) (health : edits .health) :
    KeepsOutside edits state (markDead world state) := by
  have described : ∀ (marked : ContainerState) (error : Name) (finishedAt : Nat),
      KeepsOutside edits marked { marked with error, finishedAt } := fun _ _ _ =>
    keepsOutside_of (.inl exit) (.inr rfl) (.inl health) fun _ => .inr rfl
  refine KeepsOutside.trans ?_ (described _ _ _)
  refine KeepsOutside.trans ?_ (keepsOutside_markHealthNotRunning health _ _)
  refine KeepsOutside.trans ?_ (keepsOutside_normalizeExitState exit)
  split
  · refine KeepsOutside.trans ?_ (keepsOutside_normalizeExitState exit)
    exact keepsOutside_of (.inl exit) (.inr rfl) (.inr rfl) fun _ => .inr rfl
  · exact keepsOutside_of (.inl exit) (.inr rfl) (.inr rfl) fun _ => .inr rfl

theorem keepsOutside_stopComplete (exit : edits .exitCode) (health : edits .health)
    (stopped : Bool) : KeepsOutside edits state (stopComplete world stopped state) := by
  unfold stopComplete
  dsimp only
  refine KeepsOutside.trans ?_ (keepsOutside_markHealthNotRunning health _ _)
  split
  · exact keepsOutside_of (.inl exit) (.inr rfl) (.inr rfl) fun _ => .inr rfl
  · exact keepsOutside_of (.inl exit) (.inr rfl) (.inr rfl) fun _ => .inr rfl

end

private abbrev Keeps (edits : Field → Prop) (base : Option ContainerState) (prog : StateProg) :
    Prop :=
  Leaves (KeepsOutside edits) base prog

section
variable {edits : Field → Prop}

theorem leaves_saveProcesses {roots : List Nat} {next : StateProg} {state : ContainerState}
    (rest : ∀ saved, Keeps edits (some saved) next) :
    Keeps edits (some state) (saveProcesses roots next state) :=
  fun _ => ⟨⟨state, rfl, keepsOutside_recordProcesses roots⟩, rest _⟩

theorem leaves_setHealth (own : edits .health) (base : Option ContainerState)
    (status : HealthStatus) (entry : HealthEntry) : Keeps edits base (setHealth status entry) := by
  intro state
  dsimp only
  split
  · refine ⟨⟨state, rfl, ?_⟩, trivial⟩
    exact keepsOutside_of (.inr ⟨rfl, rfl, rfl⟩) (.inr rfl) (.inl own) fun _ => .inr rfl
  · exact fun world => ⟨⟨state, rfl, keepsOutside_markHealthNotRunning own _ _⟩, trivial⟩

theorem leaves_watchExit (own : edits .exitCode) (root : Nat) (returncode : Int) :
    Keeps edits none (watchExit root returncode) := by
  intro _ _
  refine leaves_saveProcesses fun _ state world => ?_
  dsimp only
  split
  · exact ⟨⟨state, rfl, keepsOutside_markLive own _⟩, trivial⟩
  · refine ⟨⟨state, rfl, ?_⟩, trivial⟩
    refine KeepsOutside.trans ?_ (keepsOutside_normalizeExitState own)
    exact keepsOutside_of (.inl own) (.inr rfl) (.inr rfl) fun _ => .inr rfl

theorem leaves_reconcile (exit : edits .exitCode) (health : edits .health) (attached : Bool) :
    Keeps edits none (reconcile attached) := by
  intro state world
  dsimp only
  split
  · split
    · exact fun _ => trivial
    · split
      · exact fun _ => leaves_saveProcesses fun _ _ => trivial
      · exact ⟨⟨state, rfl, keepsOutside_markDead exit health⟩, trivial⟩
  · split
    · intro _
      refine leaves_saveProcesses fun _ latest later _ => ⟨⟨latest, rfl, ?_⟩, trivial⟩
      exact keepsOutside_of (.inr ⟨rfl, rfl, rfl⟩) (.inr rfl) (.inr rfl) fun _ => .inr rfl
    · refine ⟨⟨state, rfl, ?_⟩, trivial⟩
      exact (keepsOutside_normalizeExitState exit).trans (keepsOutside_markHealthNotRunning health _ _)

theorem leaves_stopContainer (exit : edits .exitCode) (teardown : edits .teardown)
    (health : edits .health) : Keeps edits none stopContainer := by
  intro before latest
  refine leaves_saveProcesses fun _ state signalled world => ?_
  dsimp only
  have torn : ∀ survivors, KeepsOutside edits state
      (recordTeardown world (signalled.procs.map Process.pid) survivors state) := fun _ =>
    keepsOutside_of (.inr ⟨rfl, rfl, rfl⟩) (.inl teardown) (.inr rfl) fun _ => .inr rfl
  split
  · exact ⟨⟨state, rfl, (torn []).trans (keepsOutside_stopComplete exit health _)⟩, trivial⟩
  · rename_i first rest _
    refine ⟨⟨state, rfl, (torn (first :: rest)).trans ?_⟩, trivial⟩
    exact keepsOutside_of (.inr ⟨rfl, rfl, rfl⟩) (.inr rfl) (.inr rfl) fun _ => .inr rfl

theorem leaves_connectConfigured (networks : ∀ name, edits (.network name))
    (entries : List (Name × NetworkEntry)) (next : ContainerState → StateProg)
    (rest : ∀ state, Keeps edits (some state) (next state)) :
    ∀ state, Keeps edits (some state) (connectConfigured entries next state) := by
  induction entries with
  | nil => exact rest
  | cons entry entries ih =>
      intro state
      refine ⟨⟨state, rfl, ?_⟩, ih _⟩
      exact keepsOutside_of (.inr ⟨rfl, rfl, rfl⟩) (.inr rfl) (.inr rfl)
        fun name => .inl (networks name)

theorem leaves_startContainer (exit : edits .exitCode) (health : edits .health)
    (networks : ∀ name, edits (.network name)) (proc : ProcessEntry)
    (entryOf : Name → NetworkEntry) (fault : Option Name) :
    Keeps edits none (startContainer proc entryOf fault) := by
  intro state world
  dsimp only
  split
  · exact ⟨⟨state, rfl, keepsOutside_markLive exit _⟩, fun _ => trivial⟩
  refine leaves_connectConfigured networks _ _ (fun connected => ?_) state
  cases fault with
  | some message =>
      refine fun later => ⟨⟨connected, rfl, ?_⟩, trivial⟩
      refine KeepsOutside.trans ?_ (keepsOutside_markHealthNotRunning health _ _)
      exact keepsOutside_of (.inl exit) (.inr rfl) (.inr rfl) fun _ => .inr rfl
  | none =>
      refine fun later => ⟨⟨connected, rfl, ?_⟩, fun _ => trivial⟩
      exact keepsOutside_of (.inl exit) (.inr rfl) (.inl health) fun _ => .inr rfl

theorem leaves_program (op : Operation) : Keeps op.Edits none op.program := by
  cases op with
  | stop => exact leaves_stopContainer (.inl rfl) (.inr (.inl rfl)) (.inr (.inr rfl))
  | start proc entryOf fault =>
      exact leaves_startContainer Field.noConfusion Field.noConfusion (fun _ => Field.noConfusion)
        proc entryOf fault
  | watcher root returncode =>
      have own : (Operation.watcher root returncode).Edits .exitCode := rfl
      exact leaves_watchExit own root returncode
  | tracker root => exact fun _ => leaves_saveProcesses fun _ _ => trivial
  | health retries entry =>
      have own : (Operation.health retries entry).Edits .health := rfl
      exact fun _ => leaves_setHealth own _ _ _
  | reconcile attached => exact leaves_reconcile (.inl rfl) (.inr rfl) attached
  | connect network entry =>
      refine fun state => ⟨⟨state, rfl, keepsOutside_of (.inr ⟨rfl, rfl, rfl⟩) (.inr rfl) (.inr rfl)
        fun name => ?_⟩, trivial⟩
      by_cases same : name = network
      · exact .inl (congrArg Field.network same)
      · exact .inr (AList.lookup_insert_ne same)
  | disconnect network =>
      refine fun state => ⟨⟨state, rfl, keepsOutside_of (.inr ⟨rfl, rfl, rfl⟩) (.inr rfl) (.inr rfl)
        fun name => ?_⟩, trivial⟩
      by_cases same : name = network
      · exact .inl (congrArg Field.network same)
      · exact .inr (AList.lookup_erase_ne same)

end

theorem Engine.orderly_initial (state : ContainerState) (world : World) :
    Orderly (fun op : Operation => KeepsOutside op.Edits) (Engine.initial state world) :=
  ⟨fun _ member => by (cases member), fun _ member => by (cases member)⟩

theorem Engine.tame_of_runs {allowed : Engine → Event Operation Change → Prop}
    {state : ContainerState} {world : World} {last : Engine}
    (runs : Runs Operation.program Change.apply allowed (Engine.initial state world) last) :
    TameThreads Quiet Idle Operation.isStart last :=
  runs.invariant _ (fun _ member => by cases member)
    fun _ _ _ tame _ result => tameThreads_step tame_of_not_start tame result

def NoEdit (field : Field) (system : Engine) (event : Event Operation Change) : Prop :=
  ∀ index thread saved rest, event = .advance index → system.threads[index]? = some thread →
    thread.prog = .save saved rest → ¬ thread.op.Edits field

theorem field_kept {first last : Engine} (field : Field)
    (orderly : Orderly (fun op : Operation => KeepsOutside op.Edits) first)
    (runs : Runs Operation.program Change.apply
      (fun system event => Undisturbed system event ∧ NoEdit field system event) first last) :
    field.Kept first.doc last.doc := by
  apply Runs.doc_related field.Kept leaves_program (Field.Kept.refl field)
    (fun _ _ _ => Field.Kept.trans) orderly
  apply runs.mono
  intro system event permitted
  refine ⟨permitted.1, fun index thread saved rest advanced found saves old new kept => ?_⟩
  exact kept field (permitted.2 index thread saved rest advanced found saves)

theorem stopped_of_returned {first second last : Engine} {thread : Thread Operation ContainerState World}
    (orderly : Orderly (fun op : Operation => KeepsOutside op.Edits) first)
    (tame : TameThreads Quiet Idle Operation.isStart first)
    (spawned : first.step Operation.program Change.apply (.spawn .stop) = some second)
    (runs : Runs Operation.program Change.apply (fun system event =>
      Undisturbed system event ∧ NoStart Operation.isStart system event) second last)
    (found : last.threads[first.threads.length]? = some thread) (returned : thread.prog = .ret true) :
    Quiet last.doc := by
  refine quiet_of_returned tame_of_not_start idle_apply (copiesCurrent_step orderly.current spawned)
    (tameThreads_step tame_of_not_start tame spawned) ?_ runs found returned
  obtain rfl := Option.some.inj spawned
  exact ⟨_, List.getElem?_concat_length, promises_stopContainer⟩

def servingState : ContainerState where
  running := true
  status := .running
  pid := 7
  pidStartTime := some 1
  launcherPid := some 7
  launcherStartTime := some 1
  processGroupId := some 7
  knownPids := [⟨7, 1⟩]
  lastPid := none
  lastKnownPids := []
  lastLauncherPid := none
  lastProcessGroupId := none
  exitCode := 0
  rawReturnCode := 0
  signal := 0
  error := []
  startedAt := 2
  finishedAt := 0
  teardown := none
  health := none
  hasHealthcheck := false
  networks := ∅

def oneProcess : World := ⟨[⟨7, 1, 0⟩], 9⟩

def stopReturned (system : Engine) (index : Nat) : Bool :=
  match system.threads[index]? with
  | some ⟨.stop, .ret true, _⟩ => true
  | _ => false

theorem stopReturned_sound {system : Engine} {index : Nat} (checked : stopReturned system index = true) :
    ∃ base, system.threads[index]? = some ⟨.stop, .ret true, base⟩ := by
  unfold stopReturned at checked
  split at checked
  · exact ⟨_, by assumption⟩
  · cases checked

/-- All of stop in thread `index`; its process exits before the last look. -/
def stopEvents (index : Nat) : List (Event Operation Change) :=
  List.replicate 6 (.advance index) ++ [.change (.exit 7), .advance index, .advance index]

def calmly (system : Engine) (event : Event Operation Change) : Bool :=
  undisturbed system event && noStart Operation.isStart system event

theorem calmly_sound (system : Engine) (event : Event Operation Change)
    (checked : calmly system event = true) :
    Undisturbed system event ∧ NoStart Operation.isStart system event := by
  obtain ⟨left, right⟩ := Bool.and_eq_true_iff.mp checked
  exact ⟨undisturbed_sound left, noStart_sound right⟩

end PDocker.State
