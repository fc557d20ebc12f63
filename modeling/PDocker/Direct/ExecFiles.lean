import PDocker.Direct.HostFiles

/-!
# Program files of a rewritten `execve`

`rewrite_execve_arg` runs a program of the rootfs through the loader of the rootfs,
a script through its interpreter, and a static program as it is.
-/

set_option autoImplicit false

namespace PDocker.Direct

open Data (Text lastPart)
open Posix

def charsOf (bytes : List UInt8) : Text := bytes.map fun byte => Char.ofNat byte.toNat

def littleEndian (bytes : List UInt8) : Nat := bytes.foldr (fun byte more => byte.toNat + 256 * more) 0

/-- The bytes of a field, `none` where the file ends before it. -/
def fieldAt (bytes : List UInt8) (offset size : Nat) : Option Nat :=
  if bytes.length < offset + size then none else some (littleEndian ((bytes.drop offset).take size))

def PT_INTERP : Nat := 3

/-- The loop over `count` program headers. -/
def programHeaders (bytes : List UInt8) : Nat → Nat → Int
  | _, 0 => 0
  | offset, count + 1 =>
      if bytes.length < offset + 56 then -1
      else if fieldAt bytes offset 4 = some PT_INTERP then 1
      else programHeaders bytes (offset + 56) count

def elfHasInterp (content : Option (List UInt8)) : Int :=
  match content with
  | none => -1
  | some bytes =>
      match fieldAt bytes 32 8, fieldAt bytes 54 2, fieldAt bytes 56 2 with
      | some phoff, some phentsize, some phnum =>
          if bytes.length < 64 ∨ bytes.take 4 ≠ [0x7f, 0x45, 0x4c, 0x46] ∨ fieldAt bytes 4 1 ≠ some 2 ∨
              phoff = 0 ∨ phentsize ≠ 56 then -1
          else if 2 ^ 63 ≤ phoff then -1
          else programHeaders bytes phoff phnum
      | _, _, _ => -1

def fileStartsWith (content : Option (List UInt8)) (magic : Text) : Bool :=
  match content with
  | none => false
  | some bytes => magic.isPrefixOf (charsOf (bytes.take 4))

/-- `fgets`: up to the end of the line, as the C string in the buffer. -/
def firstLine (bytes : List UInt8) : Text :=
  let text := (charsOf bytes).take (PATH_MAX - 1)
  let line := text.takeWhile (· ≠ '\n')
  (if line.length < text.length then line ++ ['\n'] else line).takeWhile (· ≠ Char.ofNat 0)

def isBlank (char : Char) : Bool := char = ' ' || char = '\t'
def isBreak (char : Char) : Bool := isBlank char || char = '\r' || char = '\n'

def parseShebang (content : Option (List UInt8)) : Option (Text × Text) :=
  match content with
  | none => none
  | some bytes =>
      if bytes = [] ∨ !("#!".toList.isPrefixOf (firstLine bytes)) then none
      else
        let line := ((firstLine bytes).drop 2).dropWhile isBlank
        let prog := line.takeWhile fun char => !isBreak char
        let rest := (line.drop (prog.length + 1)).dropWhile isBlank
        let firstArg := rest.takeWhile fun char => !isBreak char
        let parsed := if prog = "/usr/bin/env".toList ∧ firstArg ≠ [] then (firstArg, []) else (prog, firstArg)
        if parsed.1 = [] then none else some parsed

/-! ## The call -/

structure ExecCall where
  loader : Text
  libpath : Text
  /-- the string in the first register -/
  original : Text
  args : List Text
  /-- `access(path, X_OK) == 0` -/
  executable : Text → Bool
  ldconfigReal : Bool
  /-- `emulate_groupadd_from_argv` finds a name to add -/
  groupadd : Bool
  /-- The strings can be read and written, below the limits of the scratch space. -/
  fits : Bool

structure Handed where
  executed : Text
  argv : List Text
  program : Text
  script : Option Text
  execGuestPath : Text
deriving DecidableEq

def Handed.files (handed : Handed) : List Text := handed.program :: handed.script.toList

def programDirs : List Text :=
  ["usr/local/sbin", "usr/local/bin", "usr/sbin", "usr/bin", "sbin", "bin"].map String.toList

def resolveGuestProgram (rootfs : Text) (executable : Text → Bool) (program : Text) : Option Text :=
  if program = [] then none
  else if program.head? = some '/' then
    if PATH_MAX ≤ (rootfs ++ program).length then none
    else if executable (rootfs ++ program) then some (rootfs ++ program) else none
  else
    (programDirs.map fun dir => rootfs ++ '/' :: dir ++ '/' :: program).find? fun out =>
      decide (out.length < PATH_MAX) && executable out

def guestExecPath (rootfs path : Text) : Text :=
  if startsAt rootfs path then
    if path.drop rootfs.length = [] then ['/'] else path.drop rootfs.length
  else path

def shouldSkipLdconfig (call : ExecCall) (path : Text) : Bool :=
  !call.ldconfigReal &&
    (lastPart '/' path = "ldconfig".toList || lastPart '/' path = "ldconfig.real".toList)

section

variable (t : Tracer) (call : ExecCall)

def contentAt (path : Text) : Option (List UInt8) := (kernelWalk t.cwd path).bind t.host.fs.readFile

/-- `true` of the rootfs, or the program itself where there is none. -/
def trueOr (target : Text) : Text :=
  (resolveGuestProgram t.host.room.rootfs call.executable "true".toList).getD target

/-- The host path of the program. The first comparison ends with the rootfs string. -/
def execTarget : Option Text :=
  let rootfs := t.host.room.rootfs
  if call.original = call.loader then none
  else if rootfs.isPrefixOf call.original then some call.original
  else if shouldRewritePath rootfs call.original then
    if PATH_MAX ≤ (rootfs ++ call.original).length then none else some (rootfs ++ call.original)
  else none

def execLooked (target : Text) : Text := if shouldSkipLdconfig call target then trueOr t call target else target

def execShell : Option (Text × Text) :=
  let bash := t.host.room.rootfs ++ "/bin/bash".toList
  let sh := t.host.room.rootfs ++ "/bin/sh".toList
  if bash.length < PATH_MAX ∧ call.executable bash = true then some (bash, "/bin/bash".toList)
  else if PATH_MAX ≤ sh.length then none
  else some (sh, "/bin/sh".toList)

def execInterpreter (target : Text) : Option (Text × Text × Text) :=
  match parseShebang (contentAt t target) with
  | none => (execShell t call).map fun shell => (shell.1, shell.2, [])
  | some (interp, arg) =>
      match resolveGuestProgram t.host.room.rootfs call.executable interp with
      | some program => some (program, interp, arg)
      | none => (execShell t call).map fun shell => (shell.1, shell.2, [])

def execProgram (target : Text) : Text :=
  if lastPart '/' target = "groupadd".toList ∧ call.groupadd = true then trueOr t call target else target

def isScript (target : Text) : Bool := fileStartsWith (contentAt t target) "#!".toList

def loaderArgv (argv0 program : Text) (extra : List Text) : List Text :=
  [call.loader, "--library-path".toList, call.libpath, "--argv0".toList, argv0, program] ++ extra ++
    call.args.drop 1

/-- `none` where the call is left as it is. -/
def rewriteExecveArg : Option Handed :=
  let guest := guestExecPath t.host.room.rootfs call.original
  match execTarget t call with
  | none => none
  | some named =>
      if !t.host.present named then none
      else
        let target := execLooked t call named
        if isScript t target then
          match execInterpreter t call target with
          | none => none
          | some (program, argv0, arg) =>
              if !call.fits then none
              else
                some ⟨call.loader,
                  loaderArgv call argv0 program ((if arg = [] then [] else [arg]) ++ [guest]), program,
                  some target, guest⟩
        else if elfHasInterp (contentAt t target) = 0 then
          if !call.fits then none else some ⟨target, call.args, target, none, guest⟩
        else if !call.fits then none
        else
          let argv0 := call.args.headD []
          let program := execProgram t call target
          some ⟨call.loader, loaderArgv call (if argv0 = [] then guest else argv0) program [], program, none,
            guest⟩

def execAsks : List Ask :=
  match execTarget t call with
  | none => []
  | some named =>
      let target := execLooked t call named
      if isScript t target then
        match execInterpreter t call target with
        | none => []
        | some (program, _) => [⟨.follow, program⟩, ⟨.follow, target⟩]
      else if elfHasInterp (contentAt t target) = 0 then [⟨.follow, target⟩]
      else [⟨.follow, execProgram t call target⟩]

theorem rewriteExecveArg_files {handed : Handed} (rewrites : rewriteExecveArg t call = some handed) :
    handed.files.map (Ask.mk .follow) = execAsks t call := by
  simp only [rewriteExecveArg] at rewrites
  simp only [execAsks]
  split at rewrites
  · cases rewrites
  split at rewrites
  · cases rewrites
  split at rewrites
  · rename_i script
    rw [if_pos script]
    split at rewrites
    · cases rewrites
    rename_i program argv0 arg found
    rw [found]
    split at rewrites
    · cases rewrites
    · cases rewrites
      rfl
  · rename_i binary
    rw [if_neg binary]
    split at rewrites
    · rename_i static
      rw [if_pos static]
      split at rewrites
      · cases rewrites
      · cases rewrites
        rfl
    · rename_i dynamic
      rw [if_neg dynamic]
      split at rewrites
      · cases rewrites
      · cases rewrites
        rfl

theorem rewriteExecveArg_stays {handed : Handed} (rewrites : rewriteExecveArg t call = some handed) :
    (∀ file ∈ handed.files, (t.at ⟨.follow, file⟩).Stays t) ↔
      ∀ ask ∈ execAsks t call, (t.at ask).Stays t := by
  rw [← rewriteExecveArg_files t call rewrites, List.forall_mem_map]

end

section

private def evilTree : FS :=
  .populate [.dir (pathOf "data/rootfs/var/cache/apt/archives"), .dir (pathOf "data/rootfs-evil"),
    .dir (pathOf "etc"), .dir (pathOf "dev"), .file (pathOf "etc/shadow") [],
    .file (pathOf "data/rootfs/in") [], .file (pathOf "data/rootfs-evil/run") [],
    .symlink (pathOf "data/rootfs/up") ⟨true, pathOf "etc"⟩]

private def evilHost : Host where
  fs := evilTree
  errno := fun _ => .noEntry
  rootfs := pathOf "data/rootfs"
  rootfsDir := by decide +kernel
  binds := []
  tty := false

private def evilTracer (first second : Text) : Tracer where
  host := evilHost
  cwd := []
  link := fun _ => none
  string := fun addr => if addr = 1 then some first else if addr = 2 then some second else none

/-- `linkat(0, first, 0, second, 0)`, and `symlinkat(first, 0, second)`. -/
private def linkRegs : Regs := ⟨fun index => if index = 1 then 1 else if index = 3 then 2 else 0, 0, 0⟩
private def symlinkRegs : Regs := ⟨fun index => if index = 0 then 1 else if index = 2 then 2 else 0, 0, 0⟩

private def noFaults : CopyFaults := ⟨none, none, none, none⟩

private def evilCall (original : Text) : ExecCall where
  loader := "/data/rootfs/lib/ld.so".toList
  libpath := []
  original := original
  args := []
  executable := fun _ => true
  ldconfigReal := false
  groupadd := false
  fits := true

private theorem not_stays {t : Tracer} {touch : Touch} {object : Path}
    (located : touch.ask.object t touch.fs = some object)
    (outside : t.host.room.rootfs ≠ ['/'] ∧ ¬ splitSlash t.host.room.rootfs <+: [] :: object ∧
      t.host.room.binds = []) : ¬ touch.Stays t := by
  intro stays
  obtain ⟨notRoot, notBelow, noBinds⟩ := outside
  rcases stays object located with (root | below) | ⟨m, member, _⟩
  · exact notRoot root
  · exact notBelow below
  · rw [noBinds] at member
    cases member

private def inHanded : Handed :=
  ⟨"/data/rootfs/lib/ld.so".toList, loaderArgv (evilCall "/in".toList) "/in".toList "/data/rootfs/in".toList [],
    "/data/rootfs/in".toList, none, "/in".toList⟩

private def Strays (t : Tracer) (touches : List Touch) : Prop := ∃ touch ∈ touches, ¬ touch.Stays t

private theorem strays_of {t : Tracer} {touches : List Touch} (index : Nat) (object : Path)
    (located : (touches[index]?.bind fun touch => touch.ask.object t touch.fs) = some object)
    (outside : t.host.room.rootfs ≠ ['/'] ∧ ¬ splitSlash t.host.room.rootfs <+: [] :: object ∧
      t.host.room.binds = []) : Strays t touches := by
  obtain ⟨touch, there, found⟩ := Option.bind_eq_some_iff.mp located
  exact ⟨touch, List.mem_of_getElem? there, not_stays found outside⟩

private def upTracer : Tracer := evilTracer "/../../etc/shadow".toList "/copy".toList
private def throughTracer : Tracer := evilTracer "/in".toList "/up/new".toList
private def cacheTracer : Tracer :=
  evilTracer "/var/cache/apt/archives/../../../../../../etc/shadow".toList "/x".toList
private def devTracer : Tracer := evilTracer "/dev/../etc/shadow".toList []

end

end PDocker.Direct
