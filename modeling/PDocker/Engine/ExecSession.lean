import PDocker.State.Container

/-!
# Exec sessions

The record of an exec session is a dictionary that the handlers of start,
resize and inspect read and write without a lock. The steps of a handler are
its single accesses, so they may be interleaved in any way.
-/

set_option autoImplicit false

namespace PDocker.Engine

open Data State

/-! ## The session and its handlers -/

/-- The value of `exec_sessions[exec_id]`. -/
structure ExecSession where
  tty : Bool
  running : Bool
  exitCode : Option Int
  proc : Option Nat
  rows : Option Nat
  cols : Option Nat

/-- What `spawn_in_container` returns. Only a process on a terminal of its own
can be resized. -/
structure ExecProcess where
  returncode : Option Int
  resizable : Bool
  size : Option (Nat × Nat)

/-- How `spawn_in_container` is going to end: with an error or without a
process, or with one that has a terminal or has only pipes. -/
inductive SpawnResult where
  | failed
  | process (terminal : Bool)

inductive StartProgress where
  | arrived
  | marked
  | failed
  | spawned (proc : Nat)
  | published (proc : Nat)
  | checked (proc : Nat)
  | rowsRead (proc rows : Nat)
  | sizing (proc rows cols : Nat)
  | crashed
  /-- the answer is sent, and the output is streamed unless it is detached -/
  | started (proc : Nat)
  | coded
  | detached
  | stopped
  | finished
  deriving DecidableEq

structure StartRequest where
  detach : Bool
  tty : Bool
  result : SpawnResult
  progress : StartProgress

inductive ResizeProgress where
  | arrived
  | rowsStored
  | colsStored
  | sizing (proc : Nat)
  | crashed
  | answered
  deriving DecidableEq

structure ResizeRequest where
  rows : Nat
  cols : Nat
  progress : ResizeProgress

structure ExecReport where
  running : Bool
  exitCode : Int
  procs : List ExecProcess

structure ExecServer where
  session : ExecSession
  procs : List ExecProcess
  starts : List StartRequest
  resizes : List ResizeRequest
  reports : List ExecReport

def ExecServer.initial (tty : Bool) : ExecServer :=
  ⟨⟨tty, false, none, none, none, none⟩, [], [], [], []⟩

/-- What `struct.pack` takes as a window size. -/
def windowFits (rows cols : Nat) : Bool := rows < 2 ^ 16 && cols < 2 ^ 16

def ExecServer.resizable (server : ExecServer) (proc : Nat) : Bool :=
  server.procs[proc]?.any ExecProcess.resizable

def ExecServer.resizeTerminal (server : ExecServer) (proc rows cols : Nat) : ExecServer :=
  { server with procs := server.procs.modify proc fun old => { old with size := some (rows, cols) } }

def ExecServer.advanceStart (server : ExecServer) (request : StartRequest) :
    Option (ExecServer × StartProgress) :=
  match request.progress with
  | .arrived => some ({ server with session := { server.session with running := true } }, .marked)
  | .marked =>
      match request.result with
      | .failed => some (server, .failed)
      | .process terminal =>
          some ({ server with procs := server.procs ++ [⟨none, request.tty && terminal, none⟩] },
            .spawned server.procs.length)
  | .spawned proc =>
      some ({ server with session := { server.session with proc := some proc } }, .published proc)
  | .published proc =>
      if request.tty && server.session.rows.isSome && server.session.cols.isSome &&
          server.resizable proc then some (server, .checked proc)
      else some (server, .started proc)
  | .checked proc => server.session.rows.map fun rows => (server, .rowsRead proc rows)
  | .rowsRead proc rows => server.session.cols.map fun cols => (server, .sizing proc rows cols)
  | .sizing proc rows cols =>
      if windowFits rows cols then some (server.resizeTerminal proc rows cols, .started proc)
      else some (server, .crashed)
  | .started proc =>
      if request.detach then
        some ({ server with session := { server.session with running := false } }, .detached)
      else
        match server.procs[proc]? with
        | some ⟨some returncode, _, _⟩ =>
            some ({ server with session := { server.session with exitCode := some returncode } }, .coded)
        | _ => none
  | .detached =>
      some ({ server with session := { server.session with exitCode := some 0 } }, .stopped)
  | .coded =>
      some ({ server with session := { server.session with running := false } }, .stopped)
  | .stopped =>
      some ({ server with session := { server.session with proc := none } }, .finished)
  | .failed => none
  | .crashed => none
  | .finished => none

def ExecServer.advanceResize (server : ExecServer) (request : ResizeRequest) :
    Option (ExecServer × ResizeProgress) :=
  match request.progress with
  | .arrived =>
      some ({ server with session := { server.session with rows := some request.rows } }, .rowsStored)
  | .rowsStored =>
      some ({ server with session := { server.session with cols := some request.cols } }, .colsStored)
  | .colsStored =>
      match server.session.proc with
      | none => some (server, .answered)
      | some proc =>
          if server.resizable proc then some (server, .sizing proc) else some (server, .answered)
  | .sizing proc =>
      if windowFits request.rows request.cols then
        some (server.resizeTerminal proc request.rows request.cols, .answered)
      else some (server, .crashed)
  | .crashed => none
  | .answered => none

def ExecServer.inspect (server : ExecServer) : ExecReport :=
  ⟨server.session.running, server.session.exitCode.getD 0, server.procs⟩

inductive ExecEvent where
  | start (detach tty : Bool) (result : SpawnResult)
  | advanceStart (index : Nat)
  | resize (rows cols : Nat)
  | advanceResize (index : Nat)
  | inspect
  | exit (proc : Nat) (returncode : Int)

def ExecServer.step (server : ExecServer) : ExecEvent → Option ExecServer
  | .start detach tty result =>
      some { server with
        starts := server.starts ++ [⟨detach, tty || server.session.tty, result, .arrived⟩] }
  | .advanceStart index =>
      server.starts[index]?.bind fun request =>
        (server.advanceStart request).map fun (after, progress) =>
          { after with starts := server.starts.set index { request with progress } }
  | .resize rows cols =>
      if rows = 0 ∨ cols = 0 then some server
      else some { server with resizes := server.resizes ++ [⟨rows, cols, .arrived⟩] }
  | .advanceResize index =>
      server.resizes[index]?.bind fun request =>
        (server.advanceResize request).map fun (after, progress) =>
          { after with resizes := server.resizes.set index { request with progress } }
  | .inspect => some { server with reports := server.reports ++ [server.inspect] }
  | .exit proc returncode =>
      match server.procs[proc]? with
      | some ⟨none, _, _⟩ =>
          some { server with
            procs := server.procs.modify proc fun old => { old with returncode := some returncode } }
      | _ => none

structure ExecReport.Truthful (report : ExecReport) : Prop where
  running : report.running = true ↔ ∃ process ∈ report.procs, process.returncode = none
  exitCode : ∀ process ∈ report.procs, ∀ returncode, process.returncode = some returncode →
    report.exitCode = dockerExitCode returncode

/-- The command is started at most once, every report is true, and once the
last resize is answered the terminal of a started command has its size. -/
structure ExecServer.Truthful (server : ExecServer) : Prop where
  once : server.procs.length ≤ 1
  reports : ∀ report ∈ server.reports, report.Truthful
  size : ∀ last, server.resizes.getLast? = some last →
    (∀ request ∈ server.resizes, request.progress = .answered) →
      ∀ request ∈ server.starts, ∀ proc process, request.progress = .started proc →
        server.procs[proc]? = some process → process.resizable = true →
          process.size = some (last.rows, last.cols)

def ExecServer.upToDate (server : ExecServer) (progress : StartProgress) : Bool :=
  match progress with
  | .arrived => server.starts.all fun other => other.progress ≠ .failed
  | .spawned proc | .published proc | .checked proc | .rowsRead proc _ | .sizing proc _ _
  | .started proc => server.procs[proc]?.any fun process => process.returncode = none
  | .stopped | .finished => true
  | .marked | .failed | .crashed | .coded | .detached => false

structure ExecServer.Allowed (server : ExecServer) (event : ExecEvent) : Prop where
  /-- a start is not detached, and comes after failed ones only -/
  start : ∀ detach tty result, event = .start detach tty result →
    detach = false ∧ ∀ other ∈ server.starts, other.progress = .failed
  /-- the process is not killed -/
  exit : ∀ proc returncode, event = .exit proc returncode → 0 ≤ returncode
  inspect : event = .inspect →
    ∀ request, server.starts.getLast? = some request → server.upToDate request.progress = true
  /-- resizes are handled in the order in which they come -/
  order : ∀ index, event = .advanceResize index → ∀ later request, index < later →
    server.resizes[later]? = some request → request.progress = .arrived
  /-- the size that start has read is the current one, and it is one -/
  current : ∀ index request proc rows cols, event = .advanceStart index →
    server.starts[index]? = some request → request.progress = .sizing proc rows cols →
      server.session.rows = some rows ∧ server.session.cols = some cols ∧ windowFits rows cols = true

/-! ## The start -/

/-- The one process, which has a terminal only if the start asks for one. -/
def ExecServer.Single (server : ExecServer) (tty : Bool) : Prop :=
  ∃ process, server.procs = [process] ∧ (process.resizable = true → tty = true)

def ExecServer.Over (server : ExecServer) : Prop :=
  ∃ process returncode, server.procs = [process] ∧ process.returncode = some returncode ∧
    server.session.exitCode = some returncode

structure ExecServer.Bare (server : ExecServer) : Prop where
  procs : server.procs = []
  proc : server.session.proc = none

/-- What the record is like at each point of a start; `first` tells that no
start has failed before it. -/
def ExecServer.Stage (server : ExecServer) (first : Bool) (request : StartRequest) : Prop :=
  match request.progress with
  | .arrived => server.Bare ∧ (first = true → server.session.running = false)
  | .marked => server.Bare ∧ server.session.running = true
  | .failed => server.Bare
  | .spawned proc => proc = 0 ∧ server.session.proc = none ∧ server.session.running = true ∧
      server.Single request.tty
  | .published proc | .checked proc | .rowsRead proc _ | .sizing proc _ _ | .started proc =>
      proc = 0 ∧ server.session.proc = some 0 ∧ server.session.running = true ∧
        server.Single request.tty
  | .coded => (∀ proc, server.session.proc = some proc → proc = 0) ∧ server.Over
  | .stopped | .finished => (∀ proc, server.session.proc = some proc → proc = 0) ∧ server.Over ∧
      server.session.running = false
  | .crashed | .detached => False

inductive ExecServer.Started (server : ExecServer) : Prop where
  | nobody (starts : server.starts = []) (bare : server.Bare) (idle : server.session.running = false)
  | latest (earlier : List StartRequest) (request : StartRequest)
      (starts : server.starts = earlier ++ [request])
      (failed : ∀ other ∈ earlier, other.progress = .failed) (attached : request.detach = false)
      (stage : server.Stage earlier.isEmpty request)

section
variable {server next : ExecServer}

theorem ExecServer.Started.proc (started : server.Started) {proc : Nat}
    (held : server.session.proc = some proc) : proc = 0 := by
  cases started with
  | nobody _ bare => rw [bare.proc] at held; cases held
  | latest earlier request _ _ _ stage =>
      unfold ExecServer.Stage at stage
      have bare : ∀ {rest : Prop}, server.Bare ∧ rest → proc = 0 := by
        intro rest both
        rw [both.1.proc] at held
        cases held
      have published : ∀ {rest : Prop}, server.session.proc = some 0 ∧ rest → proc = 0 := by
        intro rest both
        rw [both.1] at held
        exact (Option.some.inj held).symm
      split at stage
      · exact bare stage
      · exact bare stage
      · exact bare ⟨stage, trivial⟩
      · rw [stage.2.1] at held; cases held
      · exact published stage.2
      · exact published stage.2
      · exact published stage.2
      · exact published stage.2
      · exact published stage.2
      · exact stage.1 proc held
      · exact stage.1 proc held
      · exact stage.1 proc held
      · exact stage.elim
      · exact stage.elim

variable {index cols rows : Nat} {request : StartRequest} {process : ExecProcess} {progress : StartProgress}
  {first : Bool}

theorem ExecServer.advanceStart_latest {earlier : List StartRequest} {moved : StartRequest}
    (failed : ∀ other ∈ earlier, other.progress = .failed)
    (found : (earlier ++ [request])[index]? = some moved) (moves : moved.progress ≠ .failed) :
    index = earlier.length ∧ moved = request := by
  obtain old | new := getElem?_concat_cases found
  · exact absurd (failed moved (List.mem_of_getElem? old)) moves
  · exact new

theorem set_concat {Item : Type} (items : List Item) (old new : Item) :
    (items ++ [old]).set items.length new = items ++ [new] := by
  rw [List.set_append_right _ _ le_rfl, Nat.sub_self, List.set_cons_zero]

structure ExecServer.SameRequests (server next : ExecServer) : Prop where
  starts : next.starts = server.starts
  resizes : next.resizes = server.resizes
  reports : next.reports = server.reports
  rows : next.session.rows = server.session.rows
  cols : next.session.cols = server.session.cols
  codes : ∀ process ∈ next.procs, ∀ returncode, process.returncode = some returncode →
    ∃ old ∈ server.procs, old.returncode = some returncode

theorem ExecServer.mem_resizeTerminal {proc : Nat} (member : process ∈ (server.resizeTerminal proc rows cols).procs) :
    ∃ old ∈ server.procs, old.returncode = process.returncode := by
  obtain ⟨index, found⟩ := List.mem_iff_getElem?.mp member
  rw [ExecServer.resizeTerminal, List.getElem?_modify] at found
  obtain ⟨old, held, rfl⟩ := Option.map_eq_some_iff.mp found
  refine ⟨old, List.mem_of_getElem? held, ?_⟩
  split
  · rfl
  · rfl

theorem ExecServer.advanceStart_same
    (moved : server.advanceStart request = some (next, progress)) : server.SameRequests next := by
  have same : ∀ session : ExecSession, session.rows = server.session.rows →
      session.cols = server.session.cols → server.SameRequests { server with session } :=
    fun session rows cols => ⟨rfl, rfl, rfl, rows, cols, fun process member _ ended =>
      ⟨process, member, ended⟩⟩
  unfold ExecServer.advanceStart at moved
  cases here : request.progress with
  | arrived | spawned proc | detached | coded | stopped => rw [here] at moved; cases moved; exact same _ rfl rfl
  | marked =>
      rw [here] at moved
      cases result : request.result with
      | failed => rw [result] at moved; cases moved; exact same _ rfl rfl
      | process terminal =>
          rw [result] at moved
          cases moved
          refine ⟨rfl, rfl, rfl, rfl, rfl, fun process member returncode ended => ?_⟩
          obtain old | new := List.mem_append.mp member
          · exact ⟨process, old, ended⟩
          · rw [List.mem_singleton.mp new] at ended
            cases ended
  | published proc =>
      rw [here] at moved
      dsimp only at moved
      split at moved
      · cases moved; exact same _ rfl rfl
      · cases moved; exact same _ rfl rfl
  | checked proc =>
      rw [here] at moved
      obtain ⟨rows, _, equal⟩ := Option.map_eq_some_iff.mp moved
      cases equal
      exact same _ rfl rfl
  | rowsRead proc rows =>
      rw [here] at moved
      obtain ⟨cols, _, equal⟩ := Option.map_eq_some_iff.mp moved
      cases equal
      exact same _ rfl rfl
  | sizing proc rows cols =>
      rw [here] at moved
      dsimp only at moved
      split at moved
      · cases moved
        refine ⟨rfl, rfl, rfl, rfl, rfl, fun process member returncode ended => ?_⟩
        obtain ⟨old, inProcs, code⟩ := ExecServer.mem_resizeTerminal member
        exact ⟨old, inProcs, code.trans ended⟩
      · cases moved; exact same _ rfl rfl
  | started proc =>
      rw [here] at moved
      dsimp only at moved
      split at moved
      · cases moved; exact same _ rfl rfl
      · split at moved
        · cases moved; exact same _ rfl rfl
        · cases moved
  | failed | crashed | finished => rw [here] at moved; cases moved

theorem ExecServer.Single.resizeTerminal {tty : Bool} (single : server.Single tty)
    (proc rows cols : Nat) : (server.resizeTerminal proc rows cols).Single tty := by
  obtain ⟨process, procs, terminal⟩ := single
  rw [ExecServer.Single, ExecServer.resizeTerminal, procs]
  cases proc with
  | zero => exact ⟨_, rfl, terminal⟩
  | succ proc => exact ⟨process, by simp, terminal⟩

theorem ExecServer.Stage.advance (stage : server.Stage first request) (attached : request.detach = false)
    (current : ∀ proc rows cols, request.progress = .sizing proc rows cols →
      windowFits rows cols = true)
    (moved : server.advanceStart request = some (next, progress)) :
    next.Stage first { request with progress } := by
  unfold ExecServer.advanceStart at moved
  unfold ExecServer.Stage at stage
  cases here : request.progress with
  | arrived =>
      rw [here] at moved stage
      cases moved
      exact ⟨⟨stage.1.procs, stage.1.proc⟩, rfl⟩
  | marked =>
      rw [here] at moved stage
      cases result : request.result with
      | failed => rw [result] at moved; cases moved; exact stage.1
      | process terminal =>
          rw [result] at moved
          cases moved
          refine ⟨by rw [stage.1.procs]; rfl, stage.1.proc, stage.2, ⟨none, request.tty && terminal, none⟩,
            by rw [stage.1.procs]; rfl, fun resizable => ?_⟩
          exact (Bool.and_eq_true_iff.mp resizable).1
  | spawned proc =>
      rw [here] at moved stage
      cases moved
      exact ⟨stage.1, by rw [stage.1], stage.2.2.1, stage.2.2.2⟩
  | published proc =>
      rw [here] at moved stage
      dsimp only at moved
      split at moved
      · cases moved; exact stage
      · cases moved; exact stage
  | checked proc =>
      rw [here] at moved stage
      obtain ⟨rows, _, same⟩ := Option.map_eq_some_iff.mp moved
      cases same
      exact stage
  | rowsRead proc rows =>
      rw [here] at moved stage
      obtain ⟨cols, _, same⟩ := Option.map_eq_some_iff.mp moved
      cases same
      exact stage
  | sizing proc rows cols =>
      rw [here] at moved stage
      dsimp only at moved
      rw [if_pos (current proc rows cols here)] at moved
      cases moved
      exact ⟨stage.1, stage.2.1, stage.2.2.1, stage.2.2.2.resizeTerminal proc rows cols⟩
  | started proc =>
      rw [here] at moved stage
      simp only [attached, Bool.false_eq_true, ↓reduceIte] at moved
      split at moved
      · rename_i returncode terminal size found
        cases moved
        obtain ⟨rfl, held, _, process, procs, _⟩ := stage
        rw [procs] at found
        refine ⟨fun proc other => ?_, process, returncode, procs, ?_, rfl⟩
        · rw [held] at other
          exact (Option.some.inj other).symm
        · rw [Option.some.inj found]
      · cases moved
  | coded =>
      rw [here] at moved stage
      cases moved
      exact ⟨stage.1, stage.2, rfl⟩
  | stopped =>
      rw [here] at moved stage
      cases moved
      exact ⟨(fun _ same => by cases same), stage.2.1, stage.2.2⟩
  | detached => rw [here] at stage; exact stage.elim
  | failed | crashed | finished => rw [here] at moved; cases moved

theorem ExecServer.Stage.sized {proc : Nat} (stage : server.Stage first request)
    (current : ∀ proc rows cols, request.progress = .sizing proc rows cols →
      server.session.rows = some rows ∧ server.session.cols = some cols)
    (moved : server.advanceStart request = some (next, .started proc))
    (found : next.procs[proc]? = some process) (resizable : process.resizable = true)
    (storedRows : server.session.rows = some rows) (storedCols : server.session.cols = some cols) :
    process.size = some (rows, cols) := by
  unfold ExecServer.advanceStart at moved
  unfold ExecServer.Stage at stage
  cases here : request.progress with
  | arrived | spawned proc | detached | coded | stopped | failed | crashed | finished => rw [here] at moved; cases moved
  | marked =>
      rw [here] at moved
      cases result : request.result with
      | failed | process terminal => rw [result] at moved; cases moved
  | published other =>
      -- a stored size is not passed closed
      rw [here] at moved stage
      dsimp only at moved
      split at moved
      · cases moved
      case isFalse skipped =>
          cases moved
          obtain ⟨rfl, _, _, single, procs, terminal⟩ := stage
          have same : single = process := by simpa [procs] using found
          subst same
          simp [storedRows, storedCols, ExecServer.resizable, procs, resizable, terminal resizable]
            at skipped
  | checked other =>
      rw [here] at moved
      obtain ⟨rows, _, same⟩ := Option.map_eq_some_iff.mp moved
      cases same
  | rowsRead other rows =>
      rw [here] at moved
      obtain ⟨cols, _, same⟩ := Option.map_eq_some_iff.mp moved
      cases same
  | sizing other readRows readCols =>
      rw [here] at moved stage
      dsimp only at moved
      split at moved
      · cases moved
        obtain ⟨sameRows, sameCols⟩ := current _ _ _ here
        rw [storedRows] at sameRows
        rw [storedCols] at sameCols
        cases sameRows
        cases sameCols
        rw [ExecServer.resizeTerminal, List.getElem?_modify_eq] at found
        obtain ⟨old, _, rfl⟩ := Option.map_eq_some_iff.mp found
        rfl
      · cases moved
  | started other =>
      rw [here] at moved
      dsimp only at moved
      split at moved
      · cases moved
      · split at moved
        · cases moved
        · cases moved

structure ExecServer.SameRecord (server next : ExecServer) : Prop where
  running : next.session.running = server.session.running
  exitCode : next.session.exitCode = server.session.exitCode
  proc : next.session.proc = server.session.proc
  bare : server.procs = [] → next.procs = []
  single : ∀ tty, server.Single tty → next.Single tty
  closed : server.Over → next.Over

theorem ExecServer.Stage.of_same (stage : server.Stage first request) (same : server.SameRecord next) :
    next.Stage first request := by
  have bare : server.Bare → next.Bare := fun bare => ⟨same.bare bare.procs, same.proc.trans bare.proc⟩
  unfold ExecServer.Stage at stage ⊢
  rw [same.running, same.proc]
  cases here : request.progress with
  | arrived | marked => rw [here] at stage; exact ⟨bare stage.1, stage.2⟩
  | failed => rw [here] at stage; exact bare stage
  | spawned proc | published proc | checked proc | rowsRead proc rows | sizing proc rows cols | started proc =>
      rw [here] at stage
      exact ⟨stage.1, stage.2.1, stage.2.2.1, same.single _ stage.2.2.2⟩
  | coded => rw [here] at stage; exact ⟨stage.1, same.closed stage.2⟩
  | stopped | finished => rw [here] at stage; exact ⟨stage.1, same.closed stage.2.1, stage.2.2⟩
  | crashed | detached => rw [here] at stage; exact stage.elim

theorem ExecServer.Started.of_same (started : server.Started) (keeps : next.starts = server.starts)
    (same : server.SameRecord next) : next.Started := by
  cases started with
  | nobody starts bare idle =>
      exact .nobody (keeps.trans starts) ⟨same.bare bare.procs, same.proc.trans bare.proc⟩
        (same.running.trans idle)
  | latest earlier request starts failed attached stage =>
      exact .latest earlier request (keeps.trans starts) failed attached (stage.of_same same)

structure ExecServer.Latest (server : ExecServer) (index : Nat) (request : ResizeRequest) : Prop where
  found : server.resizes[index]? = some request
  later : ∀ later other, index < later → server.resizes[later]? = some other → other.progress = .arrived

def ResizeRequest.Stored (request : ResizeRequest) (session : ExecSession) : Prop :=
  match request.progress with
  | .arrived => True
  | .rowsStored => session.rows = some request.rows
  | .colsStored | .sizing _ | .crashed | .answered =>
      session.rows = some request.rows ∧ session.cols = some request.cols

def ExecServer.Shows (server : ExecServer) (rows cols : Nat) : Prop :=
  ∀ request ∈ server.starts, ∀ proc process, request.progress = .started proc →
    server.procs[proc]? = some process → process.resizable = true → process.size = some (rows, cols)

structure ExecServer.Sized (server : ExecServer) : Prop where
  sizing : ∀ request ∈ server.resizes, ∀ proc, request.progress = .sizing proc → proc = 0
  stored : ∀ index request, server.Latest index request → request.Stored server.session
  shown : ∀ index request, server.Latest index request → request.progress = .answered →
    server.Shows request.rows request.cols

theorem ExecServer.Sized.stored_of_answered (sized : server.Sized)
    {request : ResizeRequest} (latest : server.Latest index request)
    (answered : request.progress = .answered) :
    server.session.rows = some request.rows ∧ server.session.cols = some request.cols := by
  have stored := sized.stored index request latest
  rw [ResizeRequest.Stored, answered] at stored
  exact stored

theorem ExecServer.Sized.of_same (sized : server.Sized) (resizes : next.resizes = server.resizes)
    (rows : next.session.rows = server.session.rows) (cols : next.session.cols = server.session.cols)
    (shows : ∀ index request, server.Latest index request → request.progress = .answered →
      next.Shows request.rows request.cols) : next.Sized := by
  have latest : ∀ {index request}, next.Latest index request → server.Latest index request :=
    fun latest => ⟨resizes ▸ latest.found, fun later other after found =>
      latest.later later other after (resizes.symm ▸ found)⟩
  refine ⟨fun request member => sized.sizing request (resizes ▸ member), fun index request last => ?_,
    fun index request last => shows index request (latest last)⟩
  have stored := sized.stored index request (latest last)
  unfold ResizeRequest.Stored at stored ⊢
  rw [rows, cols]
  exact stored

theorem ExecServer.advanceResize_same {request : ResizeRequest} {progress : ResizeProgress}
    (moved : server.advanceResize request = some (next, progress)) :
    next.starts = server.starts ∧ next.resizes = server.resizes ∧ next.reports = server.reports ∧
      server.SameRecord next ∧ progress ≠ .arrived ∧
      (next.procs = server.procs ∨ ∃ proc, request.progress = .sizing proc ∧
        next = server.resizeTerminal proc request.rows request.cols) := by
  have unchanged : server.SameRecord server :=
    ⟨rfl, rfl, rfl, id, fun _ => id, id⟩
  unfold ExecServer.advanceResize at moved
  cases here : request.progress with
  | arrived | rowsStored =>
      rw [here] at moved
      cases moved
      exact ⟨rfl, rfl, rfl, ⟨rfl, rfl, rfl, id, fun _ => id, id⟩, (fun same => by cases same), .inl rfl⟩
  | colsStored =>
      rw [here] at moved
      dsimp only at moved
      split at moved
      · cases moved
        exact ⟨rfl, rfl, rfl, unchanged, (fun same => by cases same), .inl rfl⟩
      split at moved
      · cases moved
        exact ⟨rfl, rfl, rfl, unchanged, (fun same => by cases same), .inl rfl⟩
      · cases moved
        exact ⟨rfl, rfl, rfl, unchanged, (fun same => by cases same), .inl rfl⟩
  | sizing proc =>
      rw [here] at moved
      dsimp only at moved
      split at moved
      · cases moved
        refine ⟨rfl, rfl, rfl, ⟨rfl, rfl, rfl, fun bare => ?_,
          fun tty single => single.resizeTerminal proc _ _, fun closed => ?_⟩, (fun same => by cases same), .inr ⟨proc, rfl, rfl⟩⟩
        · rw [ExecServer.resizeTerminal, bare]
          simp
        obtain ⟨process, returncode, procs, ended, code⟩ := closed
        cases proc with
        | zero =>
            exact ⟨{ process with size := some (request.rows, request.cols) }, returncode,
              by rw [ExecServer.resizeTerminal, procs]; rfl, ended, code⟩
        | succ proc =>
            exact ⟨process, returncode, by rw [ExecServer.resizeTerminal, procs]; simp, ended, code⟩
      · cases moved
        exact ⟨rfl, rfl, rfl, unchanged, (fun same => by cases same), .inl rfl⟩
  | crashed | answered => rw [here] at moved; cases moved

theorem ExecServer.Started.of_started (started : server.Started)
    (member : request ∈ server.starts) {proc : Nat} (here : request.progress = .started proc) :
    proc = 0 ∧ server.session.proc = some 0 ∧ server.Single request.tty := by
  cases started with
  | nobody starts => rw [starts] at member; cases member
  | latest earlier latest starts failed _ stage =>
      rw [starts] at member
      obtain old | new := List.mem_append.mp member
      · rw [failed request old] at here
        cases here
      · obtain rfl := List.mem_singleton.mp new
        rw [ExecServer.Stage, here] at stage
        exact ⟨stage.1, stage.2.1, stage.2.2.2⟩

theorem ExecServer.Sized.advance (sized : server.Sized) (started : server.Started)
    {request : ResizeRequest} {progress : ResizeProgress} (latest : server.Latest index request)
    (moved : server.advanceResize request = some (next, progress)) :
    ({ next with resizes := server.resizes.set index { request with progress } } :
      ExecServer).Sized := by
  obtain ⟨starts, _, _, same, begun, procs⟩ := ExecServer.advanceResize_same moved
  have within := (List.getElem?_eq_some_iff.mp latest.found).1
  have stored := sized.stored index request latest
  have member := List.mem_of_getElem? latest.found
  -- only the request that moves can be the last one begun
  have last : ∀ {position other}, ({ next with resizes := server.resizes.set index { request with progress } } :
      ExecServer).Latest position other → other.progress ≠ .arrived →
        other = { request with progress } := by
    intro position other isLast moving
    obtain ⟨_, rfl⟩ | ⟨apart, found⟩ := getElem?_set_cases isLast.found
    · rfl
    · obtain before | after := Nat.lt_or_gt_of_ne apart
      · exact absurd (isLast.later index _ before (List.getElem?_set_self within)) begun
      · exact absurd (latest.later position other after found) moving
  constructor
  · intro other inSet proc here
    obtain old | rfl := List.mem_or_eq_of_mem_set inSet
    · exact sized.sizing other old proc here
    obtain rfl : progress = .sizing proc := here
    unfold ExecServer.advanceResize at moved
    split at moved
    · cases moved
    · cases moved
    · split at moved
      · cases moved
      rename_i held
      split at moved
      · cases moved
        exact started.proc held
      · cases moved
    · split at moved
      · cases moved
      · cases moved
    · cases moved
    · cases moved
  · intro position other isLast
    by_cases moving : other.progress = .arrived
    · rw [ResizeRequest.Stored, moving]
      trivial
    rw [last isLast moving]
    unfold ExecServer.advanceResize at moved
    unfold ResizeRequest.Stored at stored ⊢
    cases here : request.progress with
    | arrived => rw [here] at moved; cases moved; rfl
    | rowsStored => rw [here] at moved stored; cases moved; exact ⟨stored, rfl⟩
    | colsStored =>
        rw [here] at moved stored
        dsimp only at moved
        split at moved
        · cases moved; exact stored
        · split at moved
          · cases moved; exact stored
          · cases moved; exact stored
    | sizing proc =>
        rw [here] at moved stored
        dsimp only at moved
        split at moved
        · cases moved; exact stored
        · cases moved; exact stored
    | crashed | answered => rw [here] at moved; cases moved
  · intro position other isLast answered
    obtain rfl := last isLast (by rw [answered]; exact fun same => by cases same)
    obtain rfl : progress = .answered := answered
    intro start inStarts proc process here found resizable
    have inServer : start ∈ server.starts := starts ▸ inStarts
    obtain ⟨rfl, held, _, single, _⟩ := started.of_started inServer here
    obtain kept | ⟨target, atSizing, rfl⟩ := procs
    · -- it has not seen the process
      have foundBefore : server.procs[0]? = some process := kept ▸ found
      unfold ExecServer.advanceResize at moved
      split at moved
      · cases moved
      · cases moved
      · rw [held] at moved
        simp only [ExecServer.resizable, foundBefore, Option.any_some, resizable, ↓reduceIte] at moved
        cases moved
      · rename_i target atSizing
        obtain rfl := sized.sizing request member target atSizing
        split at moved
        · cases moved
          rw [ExecServer.resizeTerminal, List.getElem?_modify_eq] at found
          obtain ⟨old, _, rfl⟩ := Option.map_eq_some_iff.mp found
          rfl
        · cases moved
      · cases moved
      · cases moved
    · obtain rfl := sized.sizing request member target atSizing
      rw [ExecServer.resizeTerminal, List.getElem?_modify_eq] at found
      obtain ⟨old, _, rfl⟩ := Option.map_eq_some_iff.mp found
      rfl

theorem ExecServer.Started.inspect (started : server.Started)
    (codes : ∀ process ∈ server.procs, ∀ returncode, process.returncode = some returncode →
      0 ≤ returncode)
    (upToDate : ∀ request, server.starts.getLast? = some request →
      server.upToDate request.progress = true) : server.inspect.Truthful := by
  cases started with
  | nobody _ bare idle =>
      refine ⟨?_, fun process member => ?_⟩
      · simp [ExecServer.inspect, bare.procs, idle]
      · rw [ExecServer.inspect, bare.procs] at member
        cases member
  | latest earlier request starts failed attached stage =>
      have ready := upToDate request (by rw [starts, List.getLast?_concat])
      have alive : ∀ proc, proc = 0 → server.session.running = true → server.Single request.tty →
          (server.procs[proc]?.any fun process => process.returncode = none) = true →
            server.inspect.Truthful := by
        rintro proc rfl running ⟨process, procs, _⟩ lives
        simp only [procs, List.getElem?_cons_zero, Option.any_some, decide_eq_true_eq] at lives
        refine ⟨?_, fun other member returncode ended => ?_⟩
        · simp [ExecServer.inspect, procs, running, lives]
        · rw [ExecServer.inspect, procs] at member
          rw [List.mem_singleton.mp member, lives] at ended
          cases ended
      have closed : server.Over → server.session.running = false → server.inspect.Truthful := by
        rintro ⟨process, returncode, procs, ended, code⟩ stopped
        refine ⟨?_, fun other member otherCode otherEnded => ?_⟩
        · simp [ExecServer.inspect, procs, stopped, ended]
        have nonneg := codes process (by rw [procs]; exact List.mem_singleton_self _) returncode ended
        rw [ExecServer.inspect, procs] at member
        rw [List.mem_singleton.mp member, ended] at otherEnded
        obtain rfl := Option.some.inj otherEnded
        rw [ExecServer.inspect, code, dockerExitCode, if_neg (by omega)]
        rfl
      unfold ExecServer.upToDate at ready
      unfold ExecServer.Stage at stage
      cases here : request.progress with
      | arrived =>
          rw [here] at ready stage
          have first : earlier = [] := by
            cases earlier with
            | nil => rfl
            | cons other rest =>
                rw [starts, List.all_eq_true] at ready
                have moving := ready other (by simp)
                rw [failed other List.mem_cons_self] at moving
                cases moving
          refine ⟨?_, fun process member => ?_⟩
          · simp [ExecServer.inspect, stage.1.procs, stage.2 (by simp [first])]
          · rw [ExecServer.inspect, stage.1.procs] at member
            cases member
      | spawned proc | published proc | checked proc | started proc => rw [here] at ready stage; exact alive proc stage.1 stage.2.2.1 stage.2.2.2 ready
      | rowsRead proc rows | sizing proc rows cols =>
          rw [here] at ready stage
          exact alive proc stage.1 stage.2.2.1 stage.2.2.2 ready
      | stopped | finished => rw [here] at stage; exact closed stage.2.1 stage.2.2
      | marked | failed | crashed | coded | detached => rw [here] at ready; cases ready

structure ExecServer.Kept (server : ExecServer) : Prop where
  started : server.Started
  sized : server.Sized
  codes : ∀ process ∈ server.procs, ∀ returncode, process.returncode = some returncode → 0 ≤ returncode
  reports : ∀ report ∈ server.reports, report.Truthful

theorem ExecServer.Started.start (started : server.Started)
    (failed : ∀ other ∈ server.starts, other.progress = .failed) (attached : request.detach = false)
    (arrived : request.progress = .arrived) :
    ({ server with starts := server.starts ++ [request] } : ExecServer).Started := by
  refine .latest server.starts request rfl failed attached ?_
  unfold ExecServer.Stage
  rw [arrived]
  cases started with
  | nobody _ bare idle => exact ⟨⟨bare.procs, bare.proc⟩, fun _ => idle⟩
  | latest earlier latest starts _ _ stage =>
      rw [ExecServer.Stage, failed latest (by rw [starts]; simp)] at stage
      refine ⟨⟨stage.procs, stage.proc⟩, fun first => ?_⟩
      rw [starts] at first
      simp at first

theorem ExecServer.Kept.advanceStart (kept : server.Kept) (found : server.starts[index]? = some request)
    (current : ∀ proc rows cols, request.progress = .sizing proc rows cols →
      server.session.rows = some rows ∧ server.session.cols = some cols ∧ windowFits rows cols = true)
    (moved : server.advanceStart request = some (next, progress)) :
    ({ next with starts := server.starts.set index { request with progress } } : ExecServer).Kept := by
  have same := ExecServer.advanceStart_same moved
  cases kept.started with
  | nobody starts => rw [starts] at found; cases found
  | latest earlier latest starts failed attached stage =>
      have moves : request.progress ≠ .failed := by
        intro here
        rw [ExecServer.advanceStart, here] at moved
        cases moved
      rw [starts] at found
      obtain ⟨rfl, rfl⟩ := ExecServer.advanceStart_latest failed found moves
      have after := stage.advance attached (fun proc rows cols here => (current proc rows cols here).2.2)
        moved
      have shape : server.starts.set earlier.length { request with progress } =
          earlier ++ [{ request with progress }] := by
        rw [starts, set_concat]
      rw [shape]
      constructor
      · exact .latest earlier { request with progress } rfl failed attached
          (after.of_same ⟨rfl, rfl, rfl, id, fun _ => id, id⟩)
      · refine kept.sized.of_same same.resizes same.rows same.cols fun position resize last answered => ?_
        obtain ⟨rows, cols⟩ := kept.sized.stored_of_answered last answered
        intro start member proc process here found resizable
        obtain old | new := List.mem_append.mp member
        · rw [failed start old] at here
          cases here
        rw [List.mem_singleton.mp new] at here
        obtain rfl : progress = .started proc := here
        exact stage.sized (fun proc rows cols here => ⟨(current proc rows cols here).1,
          (current proc rows cols here).2.1⟩) moved found resizable rows cols
      · intro process member returncode ended
        obtain ⟨old, inProcs, code⟩ := same.codes process member returncode ended
        exact kept.codes old inProcs returncode code
      · intro report member
        exact kept.reports report (same.reports ▸ member)

theorem ExecServer.Kept.exit (kept : server.Kept) {proc : Nat} {returncode : Int}
    (nonneg : 0 ≤ returncode) (result : server.step (.exit proc returncode) = some next) :
    next.Kept := by
  rw [ExecServer.step] at result
  split at result
  case h_2 => cases result
  case h_1 resizable size alive =>
      obtain rfl := Option.some.inj result
      have zero : ∀ process, server.procs = [process] → proc = 0 := by
        intro process procs
        have within := (List.getElem?_eq_some_iff.mp alive).1
        rw [procs, List.length_singleton] at within
        omega
      constructor
      · refine kept.started.of_same rfl ⟨rfl, rfl, rfl, fun bare => ?_, fun tty single => ?_, fun closed => ?_⟩
        · rw [bare] at alive
          cases alive
        · obtain ⟨process, procs, terminal⟩ := single
          obtain rfl := zero process procs
          exact ⟨{ process with returncode := some returncode }, by
            simp only [procs]
            rfl, terminal⟩
        · obtain ⟨process, code, procs, ended, _⟩ := closed
          obtain rfl := zero process procs
          rw [procs] at alive
          rw [Option.some.inj alive] at ended
          cases ended
      · refine kept.sized.of_same rfl rfl rfl fun position resize last answered => ?_
        intro start member target process here found terminal
        rw [List.getElem?_modify] at found
        obtain ⟨old, held, rfl⟩ := Option.map_eq_some_iff.mp found
        have shown := kept.sized.shown position resize last answered start member target old here held
        by_cases same : proc = target
        · rw [if_pos same] at terminal ⊢
          exact shown terminal
        · rw [if_neg same] at terminal ⊢
          exact shown terminal
      · intro process member code ended
        obtain ⟨index, found⟩ := List.mem_iff_getElem?.mp member
        rw [List.getElem?_modify] at found
        obtain ⟨old, held, rfl⟩ := Option.map_eq_some_iff.mp found
        split at ended
        · cases ended
          exact nonneg
        · exact kept.codes old (List.mem_of_getElem? held) code ended
      · exact kept.reports

theorem ExecServer.Kept.step {event : ExecEvent} (kept : server.Kept) (allowed : server.Allowed event)
    (result : server.step event = some next) : next.Kept := by
  cases event with
  | start detach tty spawn =>
      obtain ⟨attached, failed⟩ := allowed.start detach tty spawn rfl
      obtain rfl := Option.some.inj result
      refine ⟨kept.started.start failed attached rfl, ?_, kept.codes, kept.reports⟩
      refine kept.sized.of_same rfl rfl rfl fun position resize last answered => ?_
      intro start member proc process here found resizable
      obtain old | new := List.mem_append.mp member
      · exact kept.sized.shown position resize last answered start old proc process here found resizable
      · rw [List.mem_singleton.mp new] at here
        cases here
  | advanceStart index =>
      obtain ⟨request, found, moves⟩ := Option.bind_eq_some_iff.mp result
      obtain ⟨⟨after, progress⟩, moved, rfl⟩ := Option.map_eq_some_iff.mp moves
      exact kept.advanceStart found (allowed.current index request · · · rfl found) moved
  | resize rows cols =>
      rw [ExecServer.step] at result
      split at result
      · obtain rfl := Option.some.inj result
        exact kept
      obtain rfl := Option.some.inj result
      refine ⟨kept.started.of_same rfl ⟨rfl, rfl, rfl, id, fun _ => id, id⟩, ?_, kept.codes, kept.reports⟩
      have last : ∀ {position request}, ExecServer.Latest { server with
          resizes := server.resizes ++ [⟨rows, cols, .arrived⟩] } position request →
          request.progress ≠ .arrived → server.Latest position request := by
        intro position request isLast moving
        obtain old | ⟨_, rfl⟩ := getElem?_concat_cases isLast.found
        · refine ⟨old, fun later other after found => isLast.later later other after ?_⟩
          exact (List.getElem?_append_left (List.getElem?_eq_some_iff.mp found).1).trans found
        · exact absurd rfl moving
      constructor
      · intro request member proc here
        obtain old | new := List.mem_append.mp member
        · exact kept.sized.sizing request old proc here
        · rw [List.mem_singleton.mp new] at here
          cases here
      · intro position request isLast
        by_cases moving : request.progress = .arrived
        · rw [ResizeRequest.Stored, moving]
          trivial
        · exact kept.sized.stored position request (last isLast moving)
      · intro position request isLast answered
        exact kept.sized.shown position request (last isLast (by rw [answered]; nofun)) answered
  | advanceResize index =>
      obtain ⟨request, found, moves⟩ := Option.bind_eq_some_iff.mp result
      obtain ⟨⟨after, progress⟩, moved, rfl⟩ := Option.map_eq_some_iff.mp moves
      have latest : server.Latest index request :=
        ⟨found, fun later other after there => allowed.order index rfl later other after there⟩
      obtain ⟨starts, _, reports, same, _, procs⟩ := ExecServer.advanceResize_same moved
      refine ⟨?_, kept.sized.advance kept.started latest moved, ?_, fun report member =>
        kept.reports report (reports ▸ member)⟩
      · exact kept.started.of_same starts ⟨same.running, same.exitCode, same.proc, same.bare,
          same.single, same.closed⟩
      intro process member returncode ended
      obtain unchanged | ⟨proc, _, rfl⟩ := procs
      · exact kept.codes process (unchanged ▸ member) returncode ended
      · obtain ⟨old, inProcs, code⟩ := ExecServer.mem_resizeTerminal member
        exact kept.codes old inProcs returncode (code.trans ended)
  | inspect =>
      obtain rfl := Option.some.inj result
      refine ⟨kept.started.of_same rfl ⟨rfl, rfl, rfl, id, fun _ => id, id⟩,
        kept.sized.of_same rfl rfl rfl kept.sized.shown, kept.codes, fun report member => ?_⟩
      obtain old | new := List.mem_append.mp member
      · exact kept.reports report old
      · rw [List.mem_singleton.mp new]
        exact kept.started.inspect kept.codes (allowed.inspect rfl)
  | exit proc returncode => exact kept.exit (allowed.exit proc returncode rfl) result

theorem ExecServer.kept_initial (tty : Bool) : (ExecServer.initial tty).Kept where
  started := .nobody rfl ⟨rfl, rfl⟩ rfl
  sized := ⟨nofun, fun _ _ last => (nomatch last.found), fun _ _ last => (nomatch last.found)⟩
  codes _ member := by cases member
  reports _ member := by cases member

theorem ExecServer.Kept.truthful (kept : server.Kept) : server.Truthful where
  once := by
    have single : ∀ {tty}, server.Single tty → server.procs.length ≤ 1 := by
      rintro tty ⟨process, procs, _⟩
      rw [procs, List.length_singleton]
    have closed : server.Over → server.procs.length ≤ 1 := by
      rintro ⟨process, returncode, procs, _⟩
      rw [procs, List.length_singleton]
    have bare : server.Bare → server.procs.length ≤ 1 := by
      intro bare
      rw [bare.procs]
      exact Nat.zero_le 1
    cases kept.started with
    | nobody _ isBare => exact bare isBare
    | latest earlier request _ _ _ stage =>
        unfold ExecServer.Stage at stage
        split at stage
        · exact bare stage.1
        · exact bare stage.1
        · exact bare stage
        · exact single stage.2.2.2
        · exact single stage.2.2.2
        · exact single stage.2.2.2
        · exact single stage.2.2.2
        · exact single stage.2.2.2
        · exact single stage.2.2.2
        · exact closed stage.2
        · exact closed stage.2.1
        · exact closed stage.2.1
        · exact stage.elim
        · exact stage.elim
  reports := kept.reports
  size last isLast answered request member proc process here found resizable := by
    rw [List.getLast?_eq_getElem?] at isLast
    have latest : server.Latest (server.resizes.length - 1) last := by
      refine ⟨isLast, fun later other after there => ?_⟩
      have within := (List.getElem?_eq_some_iff.mp there).1
      omega
    exact kept.sized.shown _ last latest (answered last (List.mem_of_getElem? isLast)) request member
      proc process here found resizable

end

theorem exec_truthful (tty : Bool) {server : ExecServer}
    (reached : Reaches ExecServer.step ExecServer.Allowed (.initial tty) server) : server.Truthful :=
  (reached.invariant ExecServer.Kept (ExecServer.kept_initial tty)
    fun _ _ _ kept allowed result => kept.step allowed result).truthful

def ExecServer.allows (server : ExecServer) : ExecEvent → Bool
  | .start detach _ _ => !detach && server.starts.all fun other => other.progress = .failed
  | .exit _ returncode => 0 ≤ returncode
  | .inspect => server.starts.getLast?.all fun request => server.upToDate request.progress
  | .advanceResize index =>
      (server.resizes.drop (index + 1)).all fun request => request.progress = .arrived
  | .advanceStart index =>
      server.starts[index]?.all fun request =>
        match request.progress with
        | .sizing _ rows cols => server.session.rows = some rows && server.session.cols = some cols &&
            windowFits rows cols
        | _ => true
  | .resize _ _ => true

theorem ExecServer.allowed_of_allows (server : ExecServer) (event : ExecEvent)
    (checked : server.allows event = true) : server.Allowed event := by
  constructor
  · rintro detach tty result rfl
    simp only [ExecServer.allows, Bool.and_eq_true, Bool.not_eq_true', List.all_eq_true,
      decide_eq_true_eq] at checked
    exact checked
  · rintro proc returncode rfl
    exact of_decide_eq_true checked
  · rintro rfl request last
    simp only [ExecServer.allows, last, Option.all_some] at checked
    exact checked
  · rintro index rfl later request after found
    simp only [ExecServer.allows, List.all_eq_true, decide_eq_true_eq] at checked
    refine checked request (List.mem_iff_getElem?.mpr ⟨later - (index + 1), ?_⟩)
    rw [List.getElem?_drop, ← found]
    congr 1
    omega
  · rintro index request proc rows cols rfl found here
    simp only [ExecServer.allows, found, Option.all_some, here, Bool.and_eq_true,
      decide_eq_true_eq] at checked
    exact ⟨checked.1.1, checked.1.2, checked.2⟩

def terminalSession : List ExecEvent :=
  [.inspect, .resize 24 80] ++ List.replicate 3 (.advanceResize 0) ++
    [.start false true (.process true)] ++ List.replicate 7 (.advanceStart 0) ++
    [.inspect, .resize 50 132] ++ List.replicate 4 (.advanceResize 1) ++
    [.exit 0 3] ++ List.replicate 3 (.advanceStart 0) ++ [.inspect]

theorem exec_truthful_terminal : ∃ server, Reaches ExecServer.step ExecServer.Allowed (.initial true)
    server ∧ (server.reports.map fun report => (report.running, report.exitCode)) =
      [(false, 0), (true, 0), (false, 3)] ∧
      server.procs.map ExecProcess.size = [some (50, 132)] ∧ server.Truthful := by
  have ran : (runAll ExecServer.step ExecServer.allows (.initial true) terminalSession).any
      (fun server => (server.reports.map fun report => (report.running, report.exitCode)) =
        [(false, 0), (true, 0), (false, 3)] && server.procs.map ExecProcess.size = [some (50, 132)]) =
      true := by decide +kernel
  obtain ⟨server, result, checked⟩ := (Option.any_eq_true _ _).mp ran
  simp only [Bool.and_eq_true, decide_eq_true_eq] at checked
  have reached := reaches_of_runAll ExecServer.allowed_of_allows _ .refl result
  exact ⟨server, reached, checked.1, checked.2, exec_truthful true reached⟩

/-- The start fails, and the session is reported as running. -/
theorem exec_failed_running : ¬ ∀ (tty : Bool) (server : ExecServer),
    Reaches ExecServer.step (fun _ _ => True) (.initial tty) server → server.Truthful := by
  intro truthful
  have ran : (runAll ExecServer.step (fun _ _ => true) (.initial false)
      [.start false false .failed, .advanceStart 0, .advanceStart 0, .inspect]).any
        (fun server => server.reports.any fun report => report.running && report.procs.isEmpty) = true := by
    decide +kernel
  obtain ⟨server, result, checked⟩ := (Option.any_eq_true _ _).mp ran
  have reached : Reaches ExecServer.step (fun _ _ => True) (.initial false) server :=
    reaches_of_runAll (fun _ _ _ => trivial) _ .refl result
  obtain ⟨report, member, wrong⟩ := List.any_eq_true.mp checked
  rw [Bool.and_eq_true, List.isEmpty_iff] at wrong
  obtain ⟨process, inProcs, _⟩ := ((truthful false server reached).reports report member).running.mp wrong.1
  rw [wrong.2] at inProcs
  cases inProcs

end PDocker.Engine
