import PDocker.Direct.HostFiles

/-!
# Two ways to one file

A path that `rewrite_at_path_arg` takes below the descriptor of the rootfs, beside the
absolute path that it would have written; and what the emulated `faccessat` asks for,
beside what `openat` walks for the same arguments.
-/

set_option autoImplicit false

namespace PDocker.Direct

open Data (Text)
open Posix

def chosenProc (room : Room) (text : Text) : Text :=
  room.rootfs ++ "/.pdocker-proc".toList ++ text.drop procPath.length

/-- The terminal, or a path that has a file of its own for `/proc`. -/
def Chosen (room : Room) (text : Text) : Prop :=
  startsAt procPath text = true ∨ text = "/dev/tty".toList ∧ room.tty = true

def slowPath (room : Room) (text : Text) : Text :=
  if startsAt procPath text then chosenProc room text
  else if text = "/dev/tty".toList ∧ room.tty then "/proc/self/fd/0".toList
  else room.rootfs ++ text

def FastAgrees (v : Visit) (part : LastPart) (text : Text) : Prop :=
  (kernelWalk v.host.rootfs (text.drop 1)).bind (objectAt v.host.fs part) =
    (kernelWalk v.base (slowPath v.host.room text)).bind (objectAt v.host.fs part)

theorem resolved_slowPath {room : Room} {present : Text → Bool} {text rewritten : Text}
    (resolved : resolveGuestHostPath room present text = .host rewritten false) :
    rewritten = slowPath room text := by
  rw [resolveGuestHostPath] at resolved
  rw [slowPath]
  by_cases proc : startsAt procPath text = true
  · rw [if_pos proc] at resolved ⊢
    split at resolved
    · cases resolved
    dsimp only at resolved
    split at resolved
    · cases resolved
    split at resolved
    · exact (Resolved.host.inj resolved).1.symm
    · cases resolved
  rw [if_neg proc] at resolved ⊢
  by_cases tty : text = "/dev/tty".toList ∧ room.tty = true
  · rw [if_pos tty] at resolved ⊢
    exact (Resolved.host.inj resolved).1.symm
  rw [if_neg tty] at resolved ⊢
  split at resolved
  · cases resolved
  split at resolved
  all_goals
    rw [fitting] at resolved
    split at resolved
    · cases resolved
  · cases (Resolved.host.inj resolved).2
  · exact (Resolved.host.inj resolved).1.symm

theorem atPathRoute_rootfd {v : Visit} {follow : Bool} {text : Text} (fast : atPathRoute v follow text = .rootfd) :
    ∃ rest, text.take (PATH_MAX - 1) = '/' :: rest ∧ rest.head? ≠ some '/' ∧
      resolveGuestHostPath v.host.room v.host.present ('/' :: rest) =
        .host (slowPath v.host.room ('/' :: rest)) false := by
  rw [atPathRoute] at fast
  dsimp only at fast
  split at fast
  · cases fast
  split at fast
  · split at fast <;> cases fast
  rename_i absolute
  cases original : text.take (PATH_MAX - 1) with
  | nil =>
      rw [original] at absolute
      exact absurd (fun same => by cases same) absolute
  | cons first rest =>
      rw [original] at absolute fast
      obtain rfl : first = '/' := Option.some.inj (not_not.mp absolute)
      cases resolved : resolveGuestHostPath v.host.room v.host.present ('/' :: rest) with
      | kept | tooLong =>
          rw [resolved] at fast
          cases fast
      | host rewritten bind =>
          simp only [resolved] at fast
          split at fast
          · cases fast
          split at fast
          · rename_i redirect
            simp only [redirects, Bool.and_eq_true, Bool.not_eq_true', List.tail_cons] at redirect
            rw [redirect.1.1.1.1.1] at resolved
            exact ⟨rest, rfl, of_decide_eq_true redirect.1.2, resolved_slowPath resolved ▸ resolved⟩
          · cases fast

theorem take_of_short {text : Text} (short : (text.take (PATH_MAX - 1)).length < PATH_MAX - 1) :
    text.take (PATH_MAX - 1) = text :=
  List.take_of_length_le (by rw [List.length_take] at short; omega)

/-- Below the descriptor and by the written path the kernel comes to one object, unless the path
has a file of its own for `/proc` or is the terminal, and leads to another one in the rootfs. -/
theorem rootfd_agrees_iff (v : Visit) (part : LastPart) {text : Text} (dirfd path : Nat) (context : Int) (offset : Nat)
    (reads : v.string (v.regs.x path) = some text)
    (fast : atPathRoute v (pathContextFollowsFinalComponent context) text = .rootfd) :
    rewriteAtPathArg v.env v.regs v.tracee dirfd path context offset = Route.rootfd.apply v dirfd path offset ∧
      resolveGuestHostPath v.host.room v.host.present text = .host (slowPath v.host.room text) false ∧
      (FastAgrees v part text ↔
        (Chosen v.host.room text → objectAt v.host.fs part (v.host.rootfs ++ splitSlash (text.drop 1)) =
          objectAt v.host.fs part (splitSlash (slowPath v.host.room text)))) := by
  refine ⟨fast ▸ rewriteAtPathArg_route v dirfd context offset reads, ?_⟩
  obtain ⟨rest, original, single, resolved⟩ := atPathRoute_rootfd fast
  have fits := resolve_fits resolved
  have absolute : (slowPath v.host.room ('/' :: rest)).head? = some '/' := by
    unfold slowPath
    split
    · rfl
    split <;> rfl
  have whole : text = '/' :: rest := by
    rw [← original]
    refine (take_of_short ?_).symm
    rw [original]
    unfold slowPath at fits
    split at fits
    · simp only [chosenProc, List.length_append, List.length_drop] at fits
      have long : "/.pdocker-proc".toList.length = 14 := rfl
      have short : procPath.length = 5 := rfl
      omega
    split at fits
    · rename_i tty
      rw [tty.1]
      decide
    · have more : 0 < v.host.room.rootfs.length := List.length_pos_iff.mpr (List.cons_ne_nil _ _)
      rw [List.length_append] at fits
      omega
  subst whole
  refine ⟨resolved, ?_⟩
  have short : ¬ PATH_MAX ≤ rest.length := by
    have taken := congrArg List.length original
    rw [List.length_take, List.length_cons] at taken
    have most : PATH_MAX - 1 < PATH_MAX := by decide
    omega
  rw [FastAgrees, List.drop_one, List.tail_cons, kernelWalk, if_neg short, if_neg single, kernelWalk,
    if_neg (Nat.not_le.mpr fits), if_pos absolute, Option.bind_some, Option.bind_some]
  refine ⟨fun same _ => same, fun same => ?_⟩
  by_cases chosen : Chosen v.host.room ('/' :: rest)
  · exact same chosen
  have plain : ∀ name ∈ v.host.rootfs, PlainName name := by
    obtain ⟨mode, there⟩ := FS.isDirAt_iff.mp v.host.rootfsDir
    exact fun _ => FS.plainName_of_get there
  rw [slowPath, if_neg fun proc => chosen (.inl proc), if_neg fun tty => chosen (.inr tty)]
  exact (objectAt_candidate plain part rest).symm

def there (fs : FS) (walk : Option (List Name)) : Bool := (walk.bind fs.stat).isSome

def Visit.tracer (v : Visit) (cwd : Path) : Tracer := ⟨v.host, cwd, fun _ => some (render v.base), v.string⟩

/-- `access(path, F_OK)` -/
def Tracer.fOk (t : Tracer) (path : Text) : Option Nat :=
  if there t.host.fs (kernelWalk t.cwd path) then none else some (t.host.errno path).value

/-- The tracee sees the tree `seen`, which may differ from that of the tracer, as `/proc/self` does. -/
def AccessAgrees (v : Visit) (seen : FS) (cwd : Path) (offset : Nat) (text : Text) : Prop :=
  (emulateFaccessatPath (v.tracer cwd) (v.tracer cwd).fOk v.regs).result = some 0 ↔
    there seen ((atPathRoute v true text).walk v offset text) = true

/-- Nothing is found for a call that is refused, and for another what `openat` finds. -/
def Decided (v : Visit) (refused found here goesOn : Prop) : Prop :=
  (refused → (v.delivers = true → ¬ found) ∧ (v.delivers = false → (found ↔ here))) ∧ (¬ refused → (found ↔ goesOn))

def AgreesWhen (v : Visit) (seen : FS) (cwd : Path) (offset : Nat) (text : Text) : Prop :=
  let original := text.take (PATH_MAX - 1)
  let candidate := Host.candidate v.base original
  let found (path : Text) : Prop := there v.host.fs (kernelWalk cwd path) = true
  let opened (base : Path) (path : Text) : Prop := there seen (kernelWalk base path) = true
  if original.head? = some '/' then
    match resolveGuestHostPath v.host.room v.host.present original with
    | .kept => found original ↔ opened v.base text
    | .tooLong => v.delivers = true ∨ ¬ opened v.base text
    | .host path bind =>
        Decided v ((v.host.validate path true).negative = true) (found path) (opened v.base text)
          (if redirects v.env original bind then opened v.host.rootfs (text.drop 1)
            else opened v.base (if v.writes offset path then path else text))
  else
    Decided v (hostPathIsUnderAllowedHostPath v.host.room (render v.base) = false ∨ PATH_MAX ≤ candidate.length ∨
        (v.host.validate candidate true).negative = true)
      (hostPathIsUnderPrefix v.host.room.rootfs (render v.base) = true ∧ candidate.length < PATH_MAX ∧ found candidate)
      (opened v.base text) (opened v.base text)

section

variable {v : Visit} {seen : FS} {cwd : Path} {offset : Nat} {text : Text}

theorem emulateFaccessatPath_zero {t : Tracer} {regs : Regs} {original : Text}
    (string : t.readTraceeString (regs.x 1) = some original) :
    (emulateFaccessatPath t t.fOk regs).result = some 0 ↔
      match (t.resolveTraceeHostPath (toInt32 (regs.x 0)) (regs.x 1)).1 with
      | .path path => there t.host.fs (kernelWalk t.cwd path) = true
      | .error err => negative err = 0
      | .none => original.head? = some '/' ∧ there t.host.fs (kernelWalk t.cwd original) = true := by
  have failed (path : Text) : negative (t.host.errno path).value ≠ 0 := by
    have positive := (t.host.errno path).positive
    rw [negative]
    omega
  rw [emulateFaccessatPath]
  cases (t.resolveTraceeHostPath (toInt32 (regs.x 0)) (regs.x 1)).1 with
  | path path => cases found : there t.host.fs (kernelWalk t.cwd path) <;> simp [Tracer.fOk, found, failed]
  | error err => simp
  | none =>
      by_cases absolute : original.head? = some '/'
      · cases found : there t.host.fs (kernelWalk t.cwd original) <;>
          simp [string, absolute, Tracer.fOk, found, failed]
      · simp [string, absolute, negative, ENOENT]

theorem decided_iff {v : Visit} {refused : Prop} [Decidable refused] {found : Prop} {route : Route} {err : CInt}
    {seen : FS} {offset : Nat} {text : Text} :
    (found ↔ there seen ((if refused then Route.denied err else route).walk v offset text) = true) ↔
      Decided v refused found (there seen (kernelWalk v.base text) = true)
        (there seen (route.walk v offset text) = true) := by
  rw [Decided]
  by_cases refuses : refused
  · cases delivers : v.delivers <;> simp [refuses, delivers, Route.walk, there]
  · simp [refuses]

end

private def boundTree : FS :=
  .populate [.dir (pathOf "data/rootfs"), .file (pathOf "data/rootfs/in") [], .dir (pathOf "data/rootfs/.pdocker-proc"),
    .file (pathOf "data/rootfs/.pdocker-proc/cpuinfo") [], .dir (pathOf "srv"), .file (pathOf "srv/f") []]

private def boundHost : Host where
  fs := boundTree
  errno := fun _ => .noEntry
  rootfs := pathOf "data/rootfs"
  rootfsDir := by decide +kernel
  binds := [⟨"/srv".toList, "/mnt".toList⟩]
  tty := false

private def boundVisit (text : Text) : Visit where
  host := boundHost
  base := pathOf "srv"
  directory := by decide +kernel
  inside := .inr ⟨_, List.mem_cons_self, .inr (by decide)⟩
  string := fun _ => some text
  regs := ⟨fun _ => 0, 0, 0⟩
  tracee := ⟨⟨fun _ => 0, 0, 0⟩, 56⟩
  requests := ⟨fun _ => false, 3, true, fun _ => false, true, none, 0, none, none, none, 0, fun _ => none,
    fun _ _ => true, fun _ => .kept, fun _ _ => 0, fun _ _ _ => 0, fun _ => none, fun _ => none, ⟨true, true⟩,
    ⟨true, true⟩, true⟩

private theorem eq_rootfd {route : Route} (is : (match route with | .rootfd => true | _ => false) = true) :
    route = .rootfd := by
  cases route <;> first | rfl | cases is

theorem rootfd_agrees_plain : FastAgrees (boundVisit "/in".toList) .follow "/in".toList :=
  (rootfd_agrees_iff (boundVisit "/in".toList) .follow 0 1 56 8192 rfl
    (eq_rootfd (by decide +kernel))).2.2.mpr (not_or.mpr (by decide +kernel)).elim

theorem rootfd_misses_proc : ¬ ∀ (v : Visit) (part : LastPart) (text : Text) (context : Int),
    atPathRoute v (pathContextFollowsFinalComponent context) text = .rootfd → FastAgrees v part text := by
  intro agrees
  have found := agrees (boundVisit "/proc/cpuinfo".toList) .follow "/proc/cpuinfo".toList 56
    (eq_rootfd (by decide +kernel))
  rw [FastAgrees] at found
  revert found
  decide +kernel

end PDocker.Direct
