import PDocker.Direct.ExecFiles

/-!
# Redirections that cannot be completed

What the callers of the rewriting functions do with their result: whether the kernel
then runs the call with the guest's own string. A function that gives up returns 0,
and so does a call that needs no rewriting.
-/

set_option autoImplicit false

namespace PDocker.Direct

open Data (Text)
open Posix

/-! ## After the rewriting -/

def settle (env : Env) (r : Rewrite) : Stopped :=
  if r.rc ≠ 0 ∧ env.setRegs = true then { r.tracee with regs := r.regs } else r.tracee

namespace Route

variable (route : Route) (v : Visit) (offset : Nat)

def skips : Bool :=
  match route with
  | .denied _ => v.delivers
  | _ => false

def redirected : Bool :=
  match route with
  | .scratch path => v.writes offset path
  | .rootfd => true
  | _ => false

def failsOpen : Bool := !route.skips v && !(route.redirected v offset && v.env.setRegs)

end Route

variable {env : Env} {regs : Regs}

theorem denyPathSyscall_congr {other : Env} {tracee : Stopped} {err : CInt}
    (svcAt : env.svcAt = other.svcAt) (denying : env.denying = other.denying) :
    denyPathSyscall env regs tracee err = denyPathSyscall other regs tracee err := by
  have completes (result : Reg) : completeEmulatedSyscall env env.denying regs tracee result =
      completeEmulatedSyscall other other.denying regs tracee result := by
    rw [completeEmulatedSyscall, completeEmulatedSyscall, denying, maybeAdvancePastSvc, maybeAdvancePastSvc, svcAt]
  simp only [denyPathSyscall, completes]

theorem maybeAdvancePastSvc_x (env : Env) (regs : Regs) : (maybeAdvancePastSvc env regs).x = regs.x := by
  rw [maybeAdvancePastSvc]
  split <;> rfl

theorem maybeAdvancePastSvc_sp (env : Env) (regs : Regs) : (maybeAdvancePastSvc env regs).sp = regs.sp := by
  rw [maybeAdvancePastSvc]
  split <;> rfl

theorem denyPathSyscall_sp (env : Env) (regs : Regs) (tracee : Stopped) (err : CInt) :
    (denyPathSyscall env regs tracee err).regs.sp = regs.sp := by
  simp only [denyPathSyscall, completeEmulatedSyscall]
  cases env.denying.number with
  | false => rfl
  | true => cases env.denying.regs <;> exact maybeAdvancePastSvc_sp _ _

theorem denyPathSyscall_x (env : Env) (regs : Regs) (tracee : Stopped) (err : CInt) {i : Nat}
    (notResult : i ≠ 0) (notNumber : i ≠ 8) :
    (denyPathSyscall env regs tracee err).regs.x i = regs.x i := by
  simp only [denyPathSyscall, completeEmulatedSyscall]
  cases env.denying.number with
  | false => exact (Regs.setX_other _ _ notNumber).trans (Regs.setX_other _ _ notResult)
  | true =>
      cases env.denying.regs <;> exact (congrFun (maybeAdvancePastSvc_x _ _) i).trans
          ((Regs.setX_other _ _ notNumber).trans (Regs.setX_other _ _ notResult))

def ShouldRedirect (host : Host) (text : Text) : Prop :=
  text.length < PATH_MAX ∧ text.head? = some '/' ∧
    (shouldRewritePath host.room.rootfs text = true ∨ (resolveBindPath host.room.binds text).isSome = true)

namespace Route

def register (v : Visit) (path offset : Nat) : Route → Reg
  | .scratch _ => scratchAddr v.regs offset
  | .rootfd => v.regs.x path + 1
  | _ => v.regs.x path

section

variable (route : Route) (v : Visit) (dirfd path offset : Nat)

theorem apply_tracee : if route.skips v then (route.apply v dirfd path offset).tracee.syscallno = -1
    else (route.apply v dirfd path offset).tracee = v.tracee := by
  cases route with
  | denied err =>
      have same : v.env.denying = v.requests.denying := rfl
      simp only [skips, apply, denyPathSyscall, completeEmulatedSyscall, Visit.delivers, same]
      cases v.requests.denying.number with
      | false => rfl
      | true => cases v.requests.denying.regs <;> rfl
  | kept => rfl
  | scratch text =>
      simp only [skips, apply, writeScratch, Bool.false_eq_true, ↓reduceIte]
      split <;> rfl
  | rootfd => rfl

theorem apply_rc : (route.redirected v offset = true → (route.apply v dirfd path offset).rc = 1) ∧
      ((route.apply v dirfd path offset).rc = 2 → route.skips v = true) ∧
      (route.skips v = false → route.redirected v offset = false → (route.apply v dirfd path offset).rc = 0) := by
  cases route with
  | denied err =>
      have same : v.env.denying = v.requests.denying := rfl
      simp only [skips, redirected, apply, denyPathSyscall, completeEmulatedSyscall, Visit.delivers, same]
      cases v.requests.denying.number <;> cases v.requests.denying.regs <;>
        simp [REWRITE_SYSCALL_COMPLETED]
  | kept => simp [skips, redirected, apply, keepPath]
  | scratch text =>
      have writes : v.env.writeTraceeString (scratchAddr v.regs offset) text = v.writes offset text := rfl
      simp only [skips, redirected, apply, writeScratch, writes]
      cases v.writes offset text <;> simp [keepPath]
  | rootfd => simp [skips, redirected, apply]

theorem apply_sp : (route.apply v dirfd path offset).regs.sp = v.regs.sp := by
  cases route with
  | denied err => exact denyPathSyscall_sp v.env v.regs v.tracee err
  | kept => rfl
  | scratch text =>
      simp only [apply, writeScratch]
      split <;> rfl
  | rootfd => rfl

theorem apply_others {i : Nat} (notResult : i ≠ 0) (notNumber : i ≠ 8) (notDirfd : i ≠ dirfd)
    (notPath : i ≠ path) : (route.apply v dirfd path offset).regs.x i = v.regs.x i := by
  cases route with
  | denied err => exact denyPathSyscall_x v.env v.regs v.tracee err notResult notNumber
  | kept => rfl
  | scratch text =>
      simp only [apply, writeScratch]
      split
      · exact Regs.setX_other _ _ notPath
      · rfl
  | rootfd => exact (Regs.setX_other _ _ notPath).trans (Regs.setX_other _ _ notDirfd)

theorem apply_register (apart : route = .rootfd → path ≠ dirfd) (redirected : route.redirected v offset = true) :
    (route.apply v dirfd path offset).regs.x path = route.register v path offset := by
  cases route with
  | denied err | kept => cases redirected
  | scratch text =>
      have writes : v.env.writeTraceeString (scratchAddr v.regs offset) text = true := redirected
      simp only [apply, writeScratch, writes, register, ↓reduceIte, Regs.setX_same]
  | rootfd =>
      simp only [apply, register, Regs.setX_same]
      rw [Regs.setX_other _ _ (apart rfl)]

theorem apply_path (notResult : path ≠ 0) (notNumber : path ≠ 8) (same : route.redirected v offset = false) :
    (route.apply v dirfd path offset).regs.x path = v.regs.x path := by
  cases route with
  | denied err => exact denyPathSyscall_x v.env v.regs v.tracee err notResult notNumber
  | kept => rfl
  | scratch text =>
      have writes : v.env.writeTraceeString (scratchAddr v.regs offset) text = false := same
      simp only [apply, writeScratch, writes, Bool.false_eq_true, ↓reduceIte, keepPath]
  | rootfd => cases same

end

end Route

/-- What a call finds behind one of its registers: it is skipped, the register has the
path of the guest, or it has another one. -/
structure Settled (v : Visit) (path : Nat) (register : Reg) (skips opens : Bool) (after : Stopped) : Prop where
  skipped : skips = true → after.syscallno = -1
  opened : opens = true → after.syscallno = v.tracee.syscallno ∧ after.regs.x path = v.regs.x path
  redirected : skips = false → opens = false →
    after.syscallno = v.tracee.syscallno ∧ after.regs.x path = register

theorem settled_of {v : Visit} (fresh : v.tracee.regs = v.regs)
    (sets : env.setRegs = v.env.setRegs) {r : Rewrite} {path : Nat} {register : Reg} {skips redirected : Bool}
    (skipped : skips = true → r.tracee.syscallno = -1) (kept : skips = false → r.tracee = v.tracee)
    (leads : skips = false → redirected = true → r.rc ≠ 0 ∧ r.regs.x path = register)
    (stays : skips = false → redirected = false → r.rc = 0 ∨ r.regs.x path = v.regs.x path) :
    Settled v path register skips (!skips && !(redirected && v.env.setRegs)) (settle env r) := by
  have number : (settle env r).syscallno = r.tracee.syscallno := by
    rw [settle]
    split <;> rfl
  have regs : (settle env r).regs = if r.rc ≠ 0 ∧ v.env.setRegs = true then r.regs else r.tracee.regs := by
    rw [settle, sets]
    split <;> rfl
  cases skips with
  | true => exact ⟨fun _ => number.trans (skipped rfl), nofun, nofun⟩
  | false =>
      have same : r.tracee = v.tracee := kept rfl
      rw [same] at number regs
      rw [fresh] at regs
      refine ⟨nofun, fun opens => ⟨number, ?_⟩, fun _ closed => ⟨number, ?_⟩⟩
      · cases set : v.env.setRegs with
        | false => rw [regs, if_neg (by simp [set])]
        | true =>
            have direct : redirected = false := by simpa [set] using opens
            rcases stays rfl direct with unchanged | unchanged
            · rw [regs, if_neg (by simp [unchanged])]
            rw [regs]
            split
            · exact unchanged
            · rfl
      · obtain ⟨redirects, set⟩ : redirected = true ∧ v.env.setRegs = true := by simpa using closed
        obtain ⟨changed, led⟩ := leads rfl redirects
        rw [regs, if_pos ⟨changed, set⟩, led]

theorem Route.settled {v : Visit} (fresh : v.tracee.regs = v.regs) (route : Route) {dirfd path : Nat}
    (offset : Nat) (apart : route = .rootfd → path ≠ dirfd) :
    Settled v path (route.register v path offset) (route.skips v) (route.failsOpen v offset)
      (settle v.env (route.apply v dirfd path offset)) := by
  have tracee := route.apply_tracee v dirfd path offset
  have rc := route.apply_rc v dirfd path offset
  apply settled_of fresh rfl
  · intro skips
    rwa [if_pos skips] at tracee
  · intro runs
    rwa [if_neg (by simp [runs])] at tracee
  · intro _ redirected
    exact ⟨by rw [rc.1 redirected]; decide, route.apply_register v dirfd path offset apart redirected⟩
  · intro runs direct
    exact .inl (rc.2.2 runs direct)

/-- The route when the tracer's own read of the string may fail. -/
def readRoute (readable : Bool) (route : Route) : Route := if readable then route else .kept

def Completes (v : Visit) (follow handed : Bool) (rewritten : Text) : Prop :=
  if (v.host.validate rewritten follow).negative then v.delivers = true
  else handed = true ∧ v.env.setRegs = true

/-- Each exit of `rewrite_path_arg_scratch` is passed. -/
def ScratchCloses (v : Visit) (readable : Bool) (offset : Nat) (text : Text) : Prop :=
  readable = true ∧ ∃ rewritten bind,
    resolveGuestHostPath v.host.room v.host.present text = .host rewritten bind ∧
      Completes v true (v.writes offset rewritten) rewritten

/-- The same for `rewrite_at_path_arg`, which denies a path that is too long. -/
def AtPathCloses (v : Visit) (readable follow : Bool) (offset : Nat) (text : Text) : Prop :=
  readable = true ∧
    (resolveGuestHostPath v.host.room v.host.present text = .tooLong ∧ v.delivers = true ∨
      ∃ rewritten bind, resolveGuestHostPath v.host.room v.host.present text = .host rewritten bind ∧
        Completes v follow (redirects v.env text bind || v.writes offset rewritten) rewritten)

section

variable {v : Visit} {readable : Bool} {offset : Nat} {text : Text}

theorem take_of_redirect (should : ShouldRedirect v.host text) :
    text.take (PATH_MAX - 1) = text ∧ text ≠ [] := by
  obtain ⟨short, absolute, _⟩ := should
  refine ⟨List.take_of_length_le (by omega), fun empty => ?_⟩
  rw [empty] at absolute
  cases absolute

theorem scratchRoute_closes (should : ShouldRedirect v.host text) :
    (readRoute readable (scratchRoute v text)).failsOpen v offset = false ↔
      ScratchCloses v readable offset text := by
  have whole := (take_of_redirect should).1
  cases readable with
  | false => simp [readRoute, Route.failsOpen, Route.skips, Route.redirected, ScratchCloses]
  | true =>
      simp only [readRoute, ↓reduceIte, scratchRoute, whole, ScratchCloses, true_and]
      cases resolved : resolveGuestHostPath v.host.room v.host.present text with
      | kept | tooLong => simp [Route.failsOpen, Route.skips, Route.redirected]
      | host rewritten bind =>
          simp only [Resolved.host.injEq, Completes]
          by_cases denied : (v.host.validate rewritten true).negative = true
          · simp [denied, Route.failsOpen, Route.skips, Route.redirected]
          · simp [denied, Route.failsOpen, Route.skips, Route.redirected]

theorem atPathRoute_closes {follow : Bool} (should : ShouldRedirect v.host text) :
    (readRoute readable (atPathRoute v follow text)).failsOpen v offset = false ↔
      AtPathCloses v readable follow offset text := by
  obtain ⟨whole, filled⟩ := take_of_redirect should
  cases readable with
  | false => simp [readRoute, Route.failsOpen, Route.skips, Route.redirected, AtPathCloses]
  | true =>
      simp only [readRoute, ↓reduceIte, atPathRoute, whole, filled, should.2.1, ne_eq, not_true_eq_false,
        AtPathCloses, true_and]
      cases resolved : resolveGuestHostPath v.host.room v.host.present text with
      | kept | tooLong => simp [Route.failsOpen, Route.skips, Route.redirected]
      | host rewritten bind =>
          simp only [reduceCtorEq, false_and, false_or, Resolved.host.injEq, Completes]
          by_cases denied : (v.host.validate rewritten follow).negative = true
          · simp [denied, Route.failsOpen, Route.skips, Route.redirected]
          · by_cases redirect : redirects v.env text bind = true
            · simp [denied, redirect, Route.failsOpen, Route.skips, Route.redirected]
            · simp [denied, redirect, Route.failsOpen, Route.skips, Route.redirected]

end

theorem atPathCloses_host {v : Visit} {follow : Bool} {offset : Nat} {text rewritten : Text} {bind : Bool}
    (resolved : resolveGuestHostPath v.host.room v.host.present text = .host rewritten bind)
    (allowed : (v.host.validate rewritten follow).negative = false) (written : v.writes offset rewritten = true)
    (sets : v.env.setRegs = true) : AtPathCloses v true follow offset text := by
  refine ⟨rfl, .inr ⟨rewritten, bind, resolved, ?_⟩⟩
  simp [Completes, allowed, written, sets]

def AF_UNIX : Nat := 1
def sunPathSize : Nat := 108

structure SockaddrCall where
  addr : Reg
  len : Nat
  /-- the first bytes, up to the size of a `sockaddr_un`, if all of them can be read -/
  bytes : Option (List UInt8)
  /-- what is in the buffer for the guest path before it is filled -/
  buffer : Text
  /-- the new address can be written -/
  writes : Bool

def cString (text : Text) : Text := text.takeWhile (· ≠ Char.ofNat 0)

/-- The bytes of `sun_path` that were read. -/
def sunPath (bytes : List UInt8) : Text := charsOf (bytes.drop 2)

/-- The loop that copies the path stops at a zero or at the last byte that was read;
behind that the buffer has its old contents. -/
def guestOf (c : SockaddrCall) (bytes : List UInt8) : Text :=
  let copied := (sunPath bytes).take (sunPathSize - 1)
  if copied.contains (Char.ofNat 0) then cString copied
  else cString (copied ++ (c.buffer.take (sunPathSize - 1)).drop copied.length)

def shouldSkipUnixSocketRewrite (guest : Text) : Bool :=
  guest = "/var/run/nscd/socket".toList || guest = "/run/nscd/socket".toList

def sockaddrPath (host : Host) (c : SockaddrCall) : Option Text :=
  if c.addr = 0 ∨ c.len < 3 then none
  else
    match c.bytes with
    | none => none
    | some bytes =>
        if littleEndian (bytes.take 2) ≠ AF_UNIX ∨ (sunPath bytes).head? ≠ some '/' then none
        else if shouldSkipUnixSocketRewrite (guestOf c bytes) then none
        else
          match resolveGuestHostPath host.room host.present (guestOf c bytes) with
          | .kept => none
          | .tooLong => none
          | .host rewritten _ => if sunPathSize ≤ rewritten.length then none else some rewritten

def rewriteUnixSockaddrArg (host : Host) (c : SockaddrCall) (regs : Regs) (tracee : Stopped) : Rewrite :=
  match sockaddrPath host c with
  | none => keepPath regs tracee
  | some rewritten =>
      if c.writes then
        ⟨1, (regs.setX 1 (scratchAddr regs 24576)).setX 2 (BitVec.ofNat 64 (2 + rewritten.length + 1)), tracee,
          none⟩
      else keepPath regs tracee

def sockaddrFailsOpen (host : Host) (c : SockaddrCall) (setRegs : Bool) : Bool :=
  !((sockaddrPath host c).isSome && c.writes && setRegs)

theorem sockaddr_settles (v : Visit) (c : SockaddrCall) :
    let after := settle v.env (rewriteUnixSockaddrArg v.host c v.regs v.tracee)
    if sockaddrFailsOpen v.host c v.env.setRegs then after = v.tracee
    else after.regs.x 1 = scratchAddr v.regs 24576 := by
  cases path : sockaddrPath v.host c with
  | none => simp [sockaddrFailsOpen, rewriteUnixSockaddrArg, path, keepPath, settle]
  | some rewritten =>
      cases written : c.writes <;> cases set : v.env.setRegs <;>
        simp [sockaddrFailsOpen, rewriteUnixSockaddrArg, path, written, set, keepPath, settle, Regs.setX]

/-- A call for an absolute path, with the bytes `given` at its address. -/
def ShouldRedirectSocket (host : Host) (c : SockaddrCall) (given : List UInt8) : Prop :=
  c.addr ≠ 0 ∧ 3 ≤ c.len ∧ littleEndian (given.take 2) = AF_UNIX ∧ ShouldRedirect host (cString (sunPath given))

/-- Each exit of `rewrite_unix_sockaddr_arg` is passed. -/
def SockaddrCloses (host : Host) (c : SockaddrCall) (given : List UInt8) (readable setRegs : Bool) : Prop :=
  readable = true ∧ c.writes = true ∧ setRegs = true ∧ shouldSkipUnixSocketRewrite (guestOf c given) = false ∧
    ∃ rewritten bind, resolveGuestHostPath host.room host.present (guestOf c given) = .host rewritten bind ∧
      rewritten.length < sunPathSize

theorem sockaddr_closes {host : Host} {c : SockaddrCall} {given : List UInt8} {readable : Bool} (setRegs : Bool)
    (reads : c.bytes = if readable then some given else none) (should : ShouldRedirectSocket host c given) :
    sockaddrFailsOpen host c setRegs = false ↔ SockaddrCloses host c given readable setRegs := by
  obtain ⟨address, long, family, _, absolute, _⟩ := should
  have absolute : (sunPath given).head? = some '/' := by
    cases path : sunPath given with
    | nil => simp [path, cString] at absolute
    | cons first rest =>
        by_cases ends : first = Char.ofNat 0
        · simp [path, cString, ends] at absolute
        · simpa [path, cString, ends] using absolute
  have path_iff : (sockaddrPath host c).isSome = true ↔ readable = true ∧
      shouldSkipUnixSocketRewrite (guestOf c given) = false ∧
        ∃ rewritten bind, resolveGuestHostPath host.room host.present (guestOf c given) = .host rewritten bind ∧
          rewritten.length < sunPathSize := by
    rw [sockaddrPath, if_neg (by rw [not_or, not_lt]; exact ⟨address, long⟩), reads]
    cases readable with
    | false => simp
    | true =>
        simp only [↓reduceIte, family, absolute, ne_eq, not_true_eq_false, or_self, true_and]
        cases shouldSkipUnixSocketRewrite (guestOf c given) with
        | true => simp
        | false =>
            cases resolveGuestHostPath host.room host.present (guestOf c given) with
            | kept | tooLong => simp
            | host rewritten bind =>
                by_cases long : sunPathSize ≤ rewritten.length
                · simp [long]
                · simp [long, not_le.mp long]
  rw [sockaddrFailsOpen, SockaddrCloses]
  simp only [Bool.not_eq_false', Bool.and_eq_true, path_iff]
  constructor
  · rintro ⟨⟨⟨readable, resolves⟩, writes⟩, sets⟩
    exact ⟨readable, writes, sets, resolves⟩
  · rintro ⟨readable, writes, sets, resolves⟩
    exact ⟨⟨⟨readable, resolves⟩, writes⟩, sets⟩

/-! ## Programs -/

def EXEC_REWRITE_MAX_ARGC : Nat := 511
def EXEC_REWRITE_STACK_SAFETY : Nat := 16384
def EXEC_REWRITE_MAX_SCRATCH : Nat := 2 * 1024 * 1024
def EXEC_REWRITE_MAX_ARG_BYTES : Nat := EXEC_REWRITE_MAX_SCRATCH - EXEC_REWRITE_STACK_SAFETY

/-- What an `execve` has to work with in the tracee and in the tracer. -/
structure ExecSpace where
  sp : Nat
  /-- the arguments up to the first null pointer or pointer that cannot be read; `none`
  where the string cannot be read -/
  argv : List (Option Text)
  /-- The arena grows to this size. -/
  grows : Nat → Bool
  /-- The string or the table at this place among those that are written. -/
  writes : Nat → Bool

namespace ExecSpace

variable (space : ExecSpace)

def args : List Text := space.argv.map (·.getD [])

/-- The strings one after the other behind `len` bytes of the arena. -/
def copies : Nat → List (Option Text) → Bool
  | _, [] => true
  | _, none :: _ => false
  | len, some text :: rest =>
      let next := len + text.length + 1
      decide (next < EXEC_REWRITE_MAX_ARG_BYTES) && space.grows next && copies next rest

def roundUp (bytes : Nat) : Nat := (bytes + 15) / 16 * 16

def stringBytes (argv : List Text) : Nat := (argv.map (·.length + 1)).sum

def scratchSpan (argv : List Text) : Nat :=
  roundUp (roundUp (stringBytes argv) + 8 * (argv.length + 1) + EXEC_REWRITE_STACK_SAFETY)

def below (span : Nat) : Bool := decide (span ≤ EXEC_REWRITE_MAX_SCRATCH) && decide (span < space.sp)

def holdsPath (target : Text) : Bool :=
  space.below (roundUp (target.length + 1 + EXEC_REWRITE_STACK_SAFETY)) && space.writes 0

def holdsArgv (argv : List Text) : Bool :=
  decide (space.argv.length < EXEC_REWRITE_MAX_ARGC) && space.copies 0 (space.argv.drop 1) &&
    space.below (scratchSpan argv) && (List.range (argv.length + 1)).all space.writes

end ExecSpace

section

variable (t : Tracer) (call : ExecCall) (space : ExecSpace)

def runsStatic (target : Text) : Bool := !isScript t target && decide (elfHasInterp (contentAt t target) = 0)

/-- `rewrite_execve_arg` within the limits of the call. -/
def execWithin : Option Handed :=
  match rewriteExecveArg t { call with args := space.args, fits := true }, execTarget t call with
  | some handed, some named =>
      let holds :=
        if runsStatic t (execLooked t call named) then space.holdsPath handed.executed
        else space.holdsArgv handed.argv
      if holds then some handed else none
  | _, _ => none

def execRuns (readable setRegs : Bool) : Text :=
  match if readable && setRegs then execWithin t call space else none with
  | some handed => handed.executed
  | none => call.original

def execArgv (target : Text) : Option (List Text) :=
  let call := { call with args := space.args, fits := true }
  let guest := guestExecPath t.host.room.rootfs call.original
  if isScript t target then
    (execInterpreter t call target).map fun (program, argv0, arg) =>
      loaderArgv call argv0 program ((if arg = [] then [] else [arg]) ++ [guest])
  else
    let argv0 := space.args.headD []
    some (loaderArgv call (if argv0 = [] then guest else argv0) (execProgram t call target) [])

def ExecCloses (readable setRegs : Bool) : Prop :=
  readable = true ∧ setRegs = true ∧ ∃ named, execTarget t call = some named ∧ t.host.present named = true ∧
    if runsStatic t (execLooked t call named) then
      space.holdsPath (execLooked t call named) = true ∧ execLooked t call named ≠ call.original
    else ∃ argv, execArgv t call space (execLooked t call named) = some argv ∧ space.holdsArgv argv = true

variable {t call}

variable {named : Text}

theorem execTarget_loader (target : execTarget t call = some named) : call.loader ≠ call.original := by
  intro same
  simp only [execTarget, same, ↓reduceIte] at target
  cases target

theorem execWithin_static (target : execTarget t call = some named)
    (present : t.host.present named = true) (static : runsStatic t (execLooked t call named) = true) :
    execWithin t call space = if space.holdsPath (execLooked t call named) then
        some ⟨execLooked t call named, space.args, execLooked t call named, none,
          guestExecPath t.host.room.rootfs call.original⟩
      else none := by
  have looked : execLooked t { call with args := space.args, fits := true } named = execLooked t call named := rfl
  have same : execTarget t { call with args := space.args, fits := true } = some named := target
  have parts := static
  simp only [runsStatic, Bool.and_eq_true, Bool.not_eq_true', decide_eq_true_eq] at parts
  simp [execWithin, rewriteExecveArg, same, target, looked, present, static, parts]

private theorem map_if (holds : Prop) [Decidable holds] (handed : Handed) (executed : Text)
    (same : handed.executed = executed) :
    (if holds then some handed else none).map (fun handed => (handed.executed, handed.argv)) =
      (if holds then some handed.argv else none).map (executed, ·) := by
  subst same
  split <;> rfl

theorem execWithin_loaded (target : execTarget t call = some named)
    (present : t.host.present named = true) (loaded : runsStatic t (execLooked t call named) = false) :
    (execWithin t call space).map (fun handed => (handed.executed, handed.argv)) =
      ((execArgv t call space (execLooked t call named)).filter space.holdsArgv).map (call.loader, ·) := by
  have looked : execLooked t { call with args := space.args, fits := true } named = execLooked t call named := rfl
  have same : execTarget t { call with args := space.args, fits := true } = some named := target
  have parts := loaded
  simp only [runsStatic, Bool.and_eq_false_iff, Bool.not_eq_false', decide_eq_false_iff_not] at parts
  cases script : isScript t (execLooked t call named) with
  | true =>
      cases interpreter : execInterpreter t { call with args := space.args, fits := true }
          (execLooked t call named) with
      | none => simp [execWithin, rewriteExecveArg, execArgv, same, looked, present, script, interpreter]
      | some found =>
          obtain ⟨program, argv0, arg⟩ := found
          simp only [execWithin, rewriteExecveArg, execArgv, same, target, looked, present, script, interpreter,
            loaded, Bool.not_true, Bool.false_eq_true, ↓reduceIte, Option.map_some, Option.filter_some]
          exact map_if _ _ _ rfl
  | false =>
      have dynamic : elfHasInterp (contentAt t (execLooked t call named)) ≠ 0 := by simpa [script] using parts
      simp only [execWithin, rewriteExecveArg, execArgv, same, target, looked, present, script, dynamic, loaded,
        Bool.not_true, Bool.false_eq_true, ↓reduceIte, Option.filter_some, execProgram, trueOr]
      exact map_if _ _ _ rfl

theorem execWithin_target (handed : Handed) (within : execWithin t call space = some handed) :
    ∃ named, execTarget t call = some named ∧ t.host.present named = true := by
  cases target : execTarget t call with
  | none => simp [execWithin, target] at within
  | some named =>
      have same : execTarget t { call with args := space.args, fits := true } = some named := target
      cases present : t.host.present named with
      | true => exact ⟨named, rfl, present⟩
      | false => simp [execWithin, rewriteExecveArg, same, present] at within

theorem exec_closes (readable setRegs : Bool) :
    execRuns t call space readable setRegs ≠ call.original ↔ ExecCloses t call space readable setRegs := by
  cases asked : readable && setRegs with
  | false =>
      have either : ¬ (readable = true ∧ setRegs = true) := by simpa using asked
      simp only [execRuns, asked, ExecCloses]
      exact ⟨fun differ => absurd rfl differ, fun closes => absurd ⟨closes.1, closes.2.1⟩ either⟩
  | true =>
      obtain ⟨rfl, rfl⟩ : readable = true ∧ setRegs = true := by simpa using asked
      simp only [execRuns, Bool.and_self, ↓reduceIte, ExecCloses, true_and]
      constructor
      · intro other
        cases within : execWithin t call space with
        | none => simp [within] at other
        | some handed =>
            obtain ⟨named, target, present⟩ := execWithin_target space handed within
            refine ⟨named, target, present, ?_⟩
            simp only [within] at other
            split
            · rename_i static
              rw [execWithin_static space target present static] at within
              split at within
              · rename_i holds
                cases within
                exact ⟨holds, other⟩
              · cases within
            · rename_i loaded
              have runs := execWithin_loaded space target present (by simpa using loaded)
              rw [within] at runs
              cases built : execArgv t call space (execLooked t call named) with
              | none => simp [built] at runs
              | some argv =>
                  refine ⟨argv, rfl, ?_⟩
                  rw [built, Option.filter_some] at runs
                  split at runs
                  · assumption
                  · cases runs
      · rintro ⟨named, target, present, closes⟩
        split at closes
        · rename_i static
          rw [execWithin_static space target present static, if_pos closes.1]
          exact closes.2
        rename_i loaded
        obtain ⟨argv, built, holds⟩ := closes
        have runs := execWithin_loaded space target present (by simpa using loaded)
        rw [built, Option.filter_some, if_pos holds] at runs
        obtain ⟨handed, within, same⟩ := Option.map_eq_some_iff.mp runs
        rw [Prod.mk.injEq] at same
        simp only [within, same.1]
        exact execTarget_loader target

end

/-! ## Two paths -/

structure Base (host : Host) where
  path : Path
  directory : host.fs.isDirAt path = true
  inside : Inside host.room path

namespace Visit

variable (v : Visit) (bases : CInt → Base v.host)

def toward (regs : Regs) (tracee : Stopped) (dirfd : Nat) : Visit :=
  { v with
    base := (bases (toInt32 (regs.x dirfd))).path
    directory := (bases (toInt32 (regs.x dirfd))).directory
    inside := (bases (toInt32 (regs.x dirfd))).inside
    regs, tracee }

def pairEnv : Env :=
  { v.env with validateRelativeTraceePath := fun fd => v.host.validateRelativeTraceePath (bases fd).path }

theorem pairEnv_rewrites (regs : Regs) (tracee : Stopped) (dirfd path : Nat) (context : Int) (offset : Nat) :
    rewriteAtPathArg (v.pairEnv bases) regs tracee dirfd path context offset =
      rewriteAtPathArg (v.toward bases regs tracee dirfd).env regs tracee dirfd path context offset := by
  have reads : (v.pairEnv bases).readTraceeString = (v.toward bases regs tracee dirfd).env.readTraceeString := rfl
  have resolves : (v.pairEnv bases).resolveGuestHostPath =
      (v.toward bases regs tracee dirfd).env.resolveGuestHostPath := rfl
  have validates : (v.pairEnv bases).validateHostPathUnderAllowed =
      (v.toward bases regs tracee dirfd).env.validateHostPathUnderAllowed := rfl
  have relative : (v.pairEnv bases).validateRelativeTraceePath (toInt32 (regs.x dirfd)) =
      (v.toward bases regs tracee dirfd).env.validateRelativeTraceePath (toInt32 (regs.x dirfd)) := rfl
  have rootfd : (v.pairEnv bases).rootfdRewrite = (v.toward bases regs tracee dirfd).env.rootfdRewrite := rfl
  have fd : (v.pairEnv bases).rootfsFd = (v.toward bases regs tracee dirfd).env.rootfsFd := rfl
  have writes : (v.pairEnv bases).writeTraceeString = (v.toward bases regs tracee dirfd).env.writeTraceeString := rfl
  have denies (err : CInt) : denyPathSyscall (v.pairEnv bases) regs tracee err =
      denyPathSyscall (v.toward bases regs tracee dirfd).env regs tracee err := denyPathSyscall_congr rfl rfl
  simp only [rewriteAtPathArg, writeScratch, reads, resolves, validates, relative, rootfd, fd, writes, denies]

theorem toward_route {regs : Regs} (tracee : Stopped) {dirfd : Nat} (follow : Bool) (text : Text)
    (same : regs.x dirfd = v.regs.x dirfd) :
    atPathRoute (v.toward bases regs tracee dirfd) follow text =
      atPathRoute (v.toward bases v.regs v.tracee dirfd) follow text := by
  simp only [atPathRoute, toward, same]
  rfl

end Visit

def pairFailsOpen (v : Visit) (own other : Route) (offset : Nat) : Bool :=
  !own.skips v && !other.skips v && !(own.redirected v offset && v.env.setRegs)

theorem rewritePathArgScratch_read (v : Visit) {path : Nat} {text : Text} {readable : Bool} (offset : Nat)
    (reads : v.string (v.regs.x path) = if readable then some text else none) :
    rewritePathArgScratch v.env v.regs v.tracee path offset =
      (readRoute readable (scratchRoute v text)).apply v 0 path offset := by
  cases readable with
  | true => exact rewritePathArgScratch_route v offset reads
  | false =>
      have unread : v.env.readTraceeString (v.regs.x path) = none := by simp [Visit.env, reads]
      simp only [rewritePathArgScratch, unread]
      rfl

theorem rewriteAtPathArg_read (v : Visit) {path : Nat} {text : Text} {readable : Bool} (dirfd : Nat)
    (context : Int) (offset : Nat) (reads : v.string (v.regs.x path) = if readable then some text else none) :
    rewriteAtPathArg v.env v.regs v.tracee dirfd path context offset =
      (readRoute readable (atPathRoute v (pathContextFollowsFinalComponent context) text)).apply v dirfd path
        offset := by
  cases readable with
  | true => exact rewriteAtPathArg_route v dirfd context offset reads
  | false =>
      have unread : v.env.readTraceeString (v.regs.x path) = none := by simp [Visit.env, reads]
      simp only [rewriteAtPathArg, unread]
      rfl

theorem Route.apply_toward {v : Visit} (bases : CInt → Base v.host) (tracee : Stopped)
    (dirfd path offset : Nat) (route : Route) :
    route.apply (v.toward bases regs tracee dirfd) dirfd path offset =
      route.apply { v with regs, tracee } dirfd path offset := by
  cases route with
  | denied err => exact denyPathSyscall_congr rfl rfl
  | kept => rfl
  | scratch text => rfl
  | rootfd => rfl

def pairRoute (v : Visit) (bases : CInt → Base v.host) (dirfd : Nat) (context : Int) (readable : Bool)
    (text : Text) : Route :=
  readRoute readable
    (atPathRoute (v.toward bases v.regs v.tracee dirfd) (pathContextFollowsFinalComponent context) text)

theorem rewriteAtPathArg_pair {v : Visit} (bases : CInt → Base v.host) (tracee : Stopped)
    {dirfd path : Nat} {readable : Bool} {text : Text} (context : Int) (offset : Nat)
    (fd : regs.x dirfd = v.regs.x dirfd) (same : regs.x path = v.regs.x path)
    (reads : v.string (v.regs.x path) = if readable then some text else none) :
    rewriteAtPathArg (v.pairEnv bases) regs tracee dirfd path context offset =
      (pairRoute v bases dirfd context readable text).apply { v with regs, tracee } dirfd path offset := by
  have read : (v.toward bases regs tracee dirfd).string ((v.toward bases regs tracee dirfd).regs.x path) =
      if readable then some text else none := by
    simpa only [Visit.toward, same] using reads
  have taken := rewriteAtPathArg_read (v.toward bases regs tracee dirfd) dirfd context offset read
  rw [v.toward_route bases tracee _ text fd] at taken
  rw [Visit.pairEnv_rewrites]
  refine Eq.trans taken (Eq.trans ?_ (Route.apply_toward bases tracee dirfd path offset _))
  rfl

def Visit.second (v : Visit) (a : Route) : Visit :=
  { v with regs := (a.apply v 0 1 16384).regs, tracee := (a.apply v 0 1 16384).tracee }

def applyPair (v : Visit) (a b : Route) : Rewrite :=
  let first := a.apply v 0 1 16384
  if first.rc = REWRITE_SYSCALL_COMPLETED then first
  else
    let second := b.apply (v.second a) 2 3 8192
    { second with
      rc := if second.rc = REWRITE_SYSCALL_COMPLETED then second.rc else first.rc ||| second.rc
      denied := second.denied <|> first.denied }

theorem rewriteAtPathArgs_routes {v : Visit} (bases : CInt → Base v.host) {readableA readableB : Bool}
    {textA textB : Text} (context : Int)
    (readsA : v.string (v.regs.x 1) = if readableA then some textA else none)
    (readsB : v.string (v.regs.x 3) = if readableB then some textB else none) :
    rewriteAtPathArgs (v.pairEnv bases) v.regs v.tracee 0 1 2 3 context =
      applyPair v (pairRoute v bases 0 context readableA textA) (pairRoute v bases 2 context readableB textB) := by
  have first : rewriteAtPathArg (v.pairEnv bases) v.regs v.tracee 0 1 context 16384 =
      (pairRoute v bases 0 context readableA textA).apply v 0 1 16384 :=
    rewriteAtPathArg_pair bases v.tracee context 16384 rfl rfl readsA
  have others {i : Nat} (notResult : i ≠ 0) (notNumber : i ≠ 8) (notPath : i ≠ 1) :=
    (pairRoute v bases 0 context readableA textA).apply_others v 0 1 16384 notResult notNumber notResult notPath
  have second := rewriteAtPathArg_pair bases ((pairRoute v bases 0 context readableA textA).apply v 0 1 16384).tracee
    context 8192 (others (i := 2) (by decide) (by decide) (by decide))
    (others (i := 3) (by decide) (by decide) (by decide)) readsB
  simp only [rewriteAtPathArgs, applyPair, first, second]
  rfl

section

variable (v : Visit) (a b : Route)

theorem applyPair_tracee :
    if (a.skips v || b.skips v) = true then (applyPair v a b).tracee.syscallno = -1
    else (applyPair v a b).tracee = v.tracee := by
  have first := a.apply_tracee v 0 1 16384
  have completed := (a.apply_rc v 0 1 16384).2.1
  have second := b.apply_tracee (v.second a) 2 3 8192
  have same : b.skips (v.second a) = b.skips v := by cases b <;> rfl
  rw [same] at second
  rw [applyPair]
  simp only
  cases skipsA : a.skips v with
  | true =>
      rw [skipsA, if_pos rfl] at first
      rw [Bool.true_or, if_pos rfl]
      split
      · exact first
      cases skipsB : b.skips v with
      | true => rwa [skipsB, if_pos rfl] at second
      | false =>
          rw [skipsB, if_neg (by decide)] at second
          exact (congrArg Stopped.syscallno second).trans first
  | false =>
      rw [skipsA, if_neg (by decide)] at first
      have runs : (a.apply v 0 1 16384).rc ≠ REWRITE_SYSCALL_COMPLETED := fun done => by
        cases (completed done).symm.trans skipsA
      simp only [Bool.false_or, if_neg runs]
      cases skipsB : b.skips v with
      | true => rwa [skipsB, if_pos rfl] at second
      | false =>
          rw [skipsB, if_neg (by decide)] at second
          rw [if_neg (by decide)]
          exact second.trans first

variable {v a b}

theorem applyPair_runs (runsA : a.skips v = false) (runsB : b.skips v = false) : applyPair v a b =
      { b.apply (v.second a) 2 3 8192 with
        rc := (a.apply v 0 1 16384).rc ||| (b.apply (v.second a) 2 3 8192).rc
        denied := (b.apply (v.second a) 2 3 8192).denied <|> (a.apply v 0 1 16384).denied } := by
  have same : b.skips (v.second a) = b.skips v := by cases b <;> rfl
  have firstRuns : (a.apply v 0 1 16384).rc ≠ REWRITE_SYSCALL_COMPLETED := fun done => by
    cases ((a.apply_rc v 0 1 16384).2.1 done).symm.trans runsA
  have secondRuns : (b.apply (v.second a) 2 3 8192).rc ≠ REWRITE_SYSCALL_COMPLETED := fun done => by
    cases ((b.apply_rc (v.second a) 2 3 8192).2.1 done).symm.trans (same.trans runsB)
  rw [applyPair]
  simp only [if_neg firstRuns]
  exact congrArg (fun rc => Rewrite.mk rc _ _ _) (if_neg secondRuns)

theorem applyPair_first (runsA : a.skips v = false) (runsB : b.skips v = false) :
    (a.redirected v 16384 = true →
        (applyPair v a b).rc ≠ 0 ∧ (applyPair v a b).regs.x 1 = a.register v 1 16384) ∧
      (a.redirected v 16384 = false → (applyPair v a b).regs.x 1 = v.regs.x 1) := by
  rw [applyPair_runs runsA runsB]
  have later : (b.apply (v.second a) 2 3 8192).regs.x 1 = (a.apply v 0 1 16384).regs.x 1 :=
    b.apply_others (v.second a) 2 3 8192 (by decide) (by decide) (by decide) (by decide)
  constructor
  · intro redirected
    refine ⟨?_, later.trans (a.apply_register v 0 1 16384 (fun _ => by decide) redirected)⟩
    rw [(a.apply_rc v 0 1 16384).1 redirected]
    simp
  · intro direct
    exact later.trans (a.apply_path v 0 1 16384 (by decide) (by decide) direct)

theorem applyPair_second (runsA : a.skips v = false) (runsB : b.skips v = false) :
    (b.redirected v 8192 = true →
        (applyPair v a b).rc ≠ 0 ∧ (applyPair v a b).regs.x 3 = b.register v 3 8192) ∧
      (b.redirected v 8192 = false → (applyPair v a b).regs.x 3 = v.regs.x 3) := by
  rw [applyPair_runs runsA runsB]
  have others {i : Nat} (notResult : i ≠ 0) (notNumber : i ≠ 8) (notPath : i ≠ 1) :=
    a.apply_others v 0 1 16384 notResult notNumber notResult notPath
  have sp := a.apply_sp v 0 1 16384
  have led : b.redirected (v.second a) 8192 = b.redirected v 8192 := by
    cases b with
    | scratch text => simp only [Route.redirected, Visit.writes, Visit.second, scratchAddr, sp]
    | _ => rfl
  have register : b.register (v.second a) 3 8192 = b.register v 3 8192 := by
    have path : (v.second a).regs.x 3 = v.regs.x 3 := others (by decide) (by decide) (by decide)
    cases b with
    | scratch text => simp only [Route.register, Visit.second, scratchAddr, sp]
    | rootfd => exact congrArg (· + 1) path
    | _ => exact path
  constructor
  · intro redirected
    refine ⟨?_, (b.apply_register (v.second a) 2 3 8192 (fun _ => by decide) (led.trans redirected)).trans register⟩
    rw [(b.apply_rc (v.second a) 2 3 8192).1 (led.trans redirected)]
    simp
  · intro direct
    exact (b.apply_path (v.second a) 2 3 8192 (by decide) (by decide) (led.trans direct)).trans
      (others (by decide) (by decide) (by decide))

end

theorem applyPair_settled {v : Visit} {env : Env} (fresh : v.tracee.regs = v.regs)
    (sets : env.setRegs = v.env.setRegs) (a b : Route) :
    Settled v 1 (a.register v 1 16384) (a.skips v || b.skips v) (pairFailsOpen v a b 16384)
        (settle env (applyPair v a b)) ∧
      Settled v 3 (b.register v 3 8192) (a.skips v || b.skips v) (pairFailsOpen v b a 8192)
        (settle env (applyPair v a b)) := by
  have tracee := applyPair_tracee v a b
  have skipped : (a.skips v || b.skips v) = true → (applyPair v a b).tracee.syscallno = -1 := by
    intro skips
    rwa [if_pos skips] at tracee
  have kept : (a.skips v || b.skips v) = false → (applyPair v a b).tracee = v.tracee := by
    intro runs
    rwa [if_neg (by simp [runs])] at tracee
  have first := @applyPair_first v a b
  have second := @applyPair_second v a b
  have opensA : pairFailsOpen v a b 16384 =
      (!(a.skips v || b.skips v) && !(a.redirected v 16384 && v.env.setRegs)) := by
    rw [pairFailsOpen, Bool.not_or]
  have opensB : pairFailsOpen v b a 8192 =
      (!(a.skips v || b.skips v) && !(b.redirected v 8192 && v.env.setRegs)) := by
    rw [pairFailsOpen, Bool.not_or, Bool.and_comm (!b.skips v)]
  simp only [Bool.or_eq_false_iff] at kept
  rw [opensA, opensB]
  constructor
  · apply settled_of fresh sets skipped <;> simp only [Bool.or_eq_false_iff]
    · exact kept
    · exact fun runs => (first runs.1 runs.2).1
    · exact fun runs direct => .inr ((first runs.1 runs.2).2 direct)
  · apply settled_of fresh sets skipped <;> simp only [Bool.or_eq_false_iff]
    · exact kept
    · exact fun runs => (second runs.1 runs.2).1
    · exact fun runs direct => .inr ((second runs.1 runs.2).2 direct)

theorem pair_closes (v : Visit) (own other : Route) (offset : Nat) :
    pairFailsOpen v own other offset = false ↔
      own.failsOpen v offset = false ∨ other.skips v = true := by
  simp only [pairFailsOpen, Route.failsOpen]
  cases own.skips v <;> cases other.skips v <;> simp

theorem pairRoute_closes {v : Visit} {bases : CInt → Base v.host} {dirfd : Nat} {context : Int} {readable : Bool}
    {text : Text} {offset : Nat} (should : ShouldRedirect v.host text) :
    (pairRoute v bases dirfd context readable text).failsOpen v offset = false ↔
      AtPathCloses v readable (pathContextFollowsFinalComponent context) offset text :=
  @atPathRoute_closes (v.toward bases v.regs v.tracee dirfd) readable offset text
    (pathContextFollowsFinalComponent context) should

theorem scratchRoute_rootfd (v : Visit) (readable : Bool) (text : Text) :
    readRoute readable (scratchRoute v text) ≠ .rootfd := by
  cases readable with
  | false => exact fun same => by cases same
  | true =>
      simp only [readRoute, ↓reduceIte, scratchRoute]
      split
      · exact fun same => by cases same
      · exact fun same => by cases same
      · split <;> exact fun same => by cases same

section

private def hostBin : FS :=
  .populate [.dir (pathOf "data/rootfs"), .dir (pathOf "bin"), .file (pathOf "bin/sh") [],
    .file (pathOf "data/rootfs/in") []]

private def binHost : Host where
  fs := hostBin
  errno := fun _ => .noEntry
  rootfs := pathOf "data/rootfs"
  rootfsDir := by decide +kernel
  binds := []
  tty := false

private def obliging : Env where
  svcAt := fun _ => false
  rootfsFd := -1
  rootfdRewrite := false
  candidateMmap := fun _ => false
  mmapRegs := true
  guardMemory := none
  emulateGetcwd := 0
  emulateProcSelfExeReadlinkat := none
  emulateLinkatCopy := none
  emulateRuntimeTmpSymlinkat := none
  emulateFaccessatPath := 0
  readTraceeString := fun _ => none
  writeTraceeString := fun _ _ => true
  resolveGuestHostPath := fun _ => .kept
  validateHostPathUnderAllowed := fun _ _ => 0
  validateRelativeTraceePath := fun _ _ _ => 0
  rewriteUnixSockaddrArg := fun _ => none
  rewriteExecveArg := fun _ => none
  denying := ⟨true, true⟩
  completing := ⟨true, true⟩
  setRegs := true

private def binVisit (text : Text) : Visit where
  host := binHost
  base := pathOf "data/rootfs"
  directory := by decide +kernel
  inside := .inl (.inr (by decide))
  string := fun _ => some text
  regs := ⟨fun _ => 0, 0, 0⟩
  tracee := ⟨⟨fun _ => 0, 0, 0⟩, 56⟩
  requests := obliging

private def binTracer : Tracer where
  host := binHost
  cwd := []
  link := fun _ => none
  string := fun _ => none

private def shCall : ExecCall where
  loader := "/data/rootfs/lib/ld.so".toList
  libpath := []
  original := "/bin/sh".toList
  args := []
  executable := fun _ => true
  ldconfigReal := false
  groupadd := false
  fits := true

private def roomy : ExecSpace where
  sp := 2 ^ 40
  argv := []
  grows := fun _ => true
  writes := fun _ => true

private def deepPath : Text := '/' :: List.replicate 4090 'a'

private def deepSocket : List UInt8 := [1, 0, 47] ++ List.replicate 99 97

private def deepCall : SockaddrCall where
  addr := 1
  len := 103
  bytes := some (deepSocket ++ [0])
  buffer := []
  writes := true

private theorem resolves_in (present : Text → Bool) :
    resolveGuestHostPath (binVisit "/in".toList).host.room present "/in".toList =
      .host "/data/rootfs/in".toList false := rfl

end

end PDocker.Direct
