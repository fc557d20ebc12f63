import PDocker.Direct.Confinement

/-!
# What the kernel walks after a rewriting

A rewritten path argument, the directory behind the descriptor, and the walk that
the kernel then makes. What the check has looked at stays inside; the other walks
are named one by one.
-/

set_option autoImplicit false

namespace PDocker.Direct

open Data (Text)
open Posix

namespace Host

def validate (host : Host) (path : Text) (follow : Bool) : CInt :=
  BitVec.ofInt 32 (freshValidation host.room host.realpath path follow)

def candidate (base : Path) (path : Text) : Text := render base ++ '/' :: path

def validateRelativeTraceePath (host : Host) (base : Path) (path : Text) (follow : Bool) : CInt :=
  if !hostPathIsUnderAllowedHostPath host.room (render base) then -EXDEV
  else if path = [] then 0
  else if PATH_MAX ≤ (candidate base path).length then nameTooLong
  else host.validate (candidate base path) follow

end Host

structure Visit where
  host : Host
  /-- the directory behind the descriptor of the call -/
  base : Path
  directory : host.fs.isDirAt base = true
  inside : Inside host.room base
  /-- the string at an address of the tracee -/
  string : Reg → Option Text
  regs : Regs
  tracee : Stopped
  /-- the requests to the tracee -/
  requests : Env

namespace Visit

def env (v : Visit) : Env :=
  { v.requests with
    readTraceeString := fun addr => (v.string addr).map (List.take (PATH_MAX - 1))
    resolveGuestHostPath := resolveGuestHostPath v.host.room v.host.present
    validateHostPathUnderAllowed := v.host.validate
    validateRelativeTraceePath := fun _ => v.host.validateRelativeTraceePath v.base }

theorem plain (v : Visit) : ∀ name ∈ v.base, PlainName name := by
  obtain ⟨mode, there⟩ := FS.isDirAt_iff.mp v.directory
  exact fun _ => FS.plainName_of_get there

def delivers (v : Visit) : Bool := v.requests.denying.number

def writes (v : Visit) (offset : Nat) (path : Text) : Bool :=
  v.requests.writeTraceeString (scratchAddr v.regs offset) path

end Visit

inductive Route
  | denied (err : CInt)
  | kept
  | scratch (path : Text)
  | rootfd

def Route.apply (route : Route) (v : Visit) (dirfd path offset : Nat) : Rewrite :=
  match route with
  | .denied err => denyPathSyscall v.env v.regs v.tracee err
  | .kept => keepPath v.regs v.tracee
  | .scratch text => writeScratch v.env v.regs v.tracee path offset text
  | .rootfd =>
      let regs := v.regs.setX dirfd (v.env.rootfsFd.signExtend 64)
      ⟨1, regs.setX path (regs.x path + 1), v.tracee, none⟩

def redirects (env : Env) (original : Text) (bind : Bool) : Bool :=
  !bind && env.rootfdRewrite && !env.rootfsFd.negative && original.tail.head? ≠ none &&
    original.tail.head? ≠ some '/' && !pathHasParentSegment original

def scratchRoute (v : Visit) (text : Text) : Route :=
  match resolveGuestHostPath v.host.room v.host.present (text.take (PATH_MAX - 1)) with
  | .kept => .kept
  | .tooLong => .kept
  | .host rewritten _ =>
      if (v.host.validate rewritten true).negative then .denied (v.host.validate rewritten true)
      else .scratch rewritten

def atPathRoute (v : Visit) (follow : Bool) (text : Text) : Route :=
  let original := text.take (PATH_MAX - 1)
  if original = [] then .kept
  else if original.head? ≠ some '/' then
    let rc := v.host.validateRelativeTraceePath v.base original follow
    if rc.negative then .denied rc else .kept
  else
    match resolveGuestHostPath v.host.room v.host.present original with
    | .kept => .kept
    | .tooLong => .denied nameTooLong
    | .host rewritten bind =>
        let rc := v.host.validate rewritten follow
        if rc.negative then .denied rc
        else if redirects v.env original bind then .rootfd
        else .scratch rewritten

theorem rewritePathArgScratch_route (v : Visit) {path : Nat} {text : Text} (offset : Nat)
    (reads : v.string (v.regs.x path) = some text) :
    rewritePathArgScratch v.env v.regs v.tracee path offset =
      (scratchRoute v text).apply v 0 path offset := by
  have original : v.env.readTraceeString (v.regs.x path) = some (text.take (PATH_MAX - 1)) := by
    simp [Visit.env, reads]
  have resolve : v.env.resolveGuestHostPath = resolveGuestHostPath v.host.room v.host.present := rfl
  have validate : v.env.validateHostPathUnderAllowed = v.host.validate := rfl
  simp only [rewritePathArgScratch, original, resolve, validate, scratchRoute]
  cases resolveGuestHostPath v.host.room v.host.present (text.take (PATH_MAX - 1)) with
  | kept => rfl
  | tooLong => rfl
  | host rewritten bind =>
      simp only
      split <;> rfl

theorem rewriteAtPathArg_route (v : Visit) {path : Nat} {text : Text} (dirfd : Nat) (context : Int)
    (offset : Nat) (reads : v.string (v.regs.x path) = some text) :
    rewriteAtPathArg v.env v.regs v.tracee dirfd path context offset =
      (atPathRoute v (pathContextFollowsFinalComponent context) text).apply v dirfd path offset := by
  have original : v.env.readTraceeString (v.regs.x path) = some (text.take (PATH_MAX - 1)) := by
    simp [Visit.env, reads]
  have resolve : v.env.resolveGuestHostPath = resolveGuestHostPath v.host.room v.host.present := rfl
  have validate : v.env.validateHostPathUnderAllowed = v.host.validate := rfl
  have relative (fd : CInt) : v.env.validateRelativeTraceePath fd =
      v.host.validateRelativeTraceePath v.base := rfl
  simp only [rewriteAtPathArg, original, atPathRoute]
  generalize text.take (PATH_MAX - 1) = name
  cases name with
  | nil => rfl
  | cons first rest =>
      simp only [resolve, validate, relative, List.cons_ne_nil, ↓reduceIte, List.head?_cons, ne_eq,
        Option.some.injEq, ite_not]
      by_cases absolute : first = '/'
      · simp only [absolute, ↓reduceIte]
        cases resolveGuestHostPath v.host.room v.host.present ('/' :: rest) with
        | kept => rfl
        | tooLong => rfl
        | host rewritten bind =>
            simp only
            split
            · rfl
            · rw [redirects, List.tail_cons]
              simp only [ne_eq, decide_not]
              split <;> rfl
      · simp only [absolute, ↓reduceIte]
        split <;> rfl

def kernelWalk (base : Path) (text : Text) : Option (List Name) :=
  if PATH_MAX ≤ text.length then none
  else some (if text.head? = some '/' then splitSlash text else base ++ splitSlash text)

def Route.walk (route : Route) (v : Visit) (offset : Nat) (text : Text) : Option (List Name) :=
  match route with
  | .denied _ => if v.delivers then none else kernelWalk v.base text
  | .kept => kernelWalk v.base text
  | .scratch path => kernelWalk v.base (if v.writes offset path then path else text)
  | .rootfd => kernelWalk v.host.rootfs (text.drop 1)

def Named (text : Text) (object : Path) : Prop :=
  ∃ mount ∈ [procPath, devPath, sysPath], startsAt mount text = true ∧ writtenParts mount <+: object

def Confined (v : Visit) (part : LastPart) (text : Text) (raw : List Name) : Prop :=
  ∀ object, objectAt v.host.fs part raw = some object → Inside v.host.room object ∨ Named text object

def sees (host : Host) (part : LastPart) (follow : Bool) (path : Text) : Bool :=
  !isTerminal host path && looked host.fs part follow (splitSlash path)

/-- The walk of a path that `rewrite_path_arg_scratch` lets through unseen. -/
def scratchUnseen (v : Visit) (part : LastPart) (offset : Nat) (text : Text) : Option (List Name) :=
  match resolveGuestHostPath v.host.room v.host.present (text.take (PATH_MAX - 1)) with
  | .kept => kernelWalk v.base text
  | .tooLong => kernelWalk v.base text
  | .host rewritten _ =>
      if !v.delivers && (v.host.validate rewritten true).negative then kernelWalk v.base text
      else if !v.writes offset rewritten then kernelWalk v.base text
      else if sees v.host part true rewritten then none
      else kernelWalk v.base rewritten

/-- The walk of a path that `rewrite_at_path_arg` lets through unseen. -/
def atPathUnseen (v : Visit) (part : LastPart) (follow : Bool) (offset : Nat) (text : Text) :
    Option (List Name) :=
  let original := text.take (PATH_MAX - 1)
  if original = [] then none
  else if original.head? ≠ some '/' then
    if !v.delivers && (v.host.validateRelativeTraceePath v.base original follow).negative then
      kernelWalk v.base text
    else if sees v.host part follow (Host.candidate v.base original) then none
    else kernelWalk v.base text
  else
    match resolveGuestHostPath v.host.room v.host.present original with
    | .kept => kernelWalk v.base text
    | .tooLong => kernelWalk v.base text
    | .host rewritten bind =>
        if !v.delivers && (v.host.validate rewritten follow).negative then kernelWalk v.base text
        else if redirects v.env original bind then
          -- the descriptor leads to the path that was checked, unless that was chosen for
          -- `/proc` or the terminal
          if rewritten = v.host.room.rootfs ++ original ∧ sees v.host part follow rewritten then none
          else kernelWalk v.host.rootfs (text.drop 1)
        else if !v.writes offset rewritten then kernelWalk v.base text
        else if sees v.host part follow rewritten then none
        else kernelWalk v.base rewritten

variable {follow : Bool} {host : Host} {path : Text} {object base : Path}

variable (allowed : (host.validate path follow).negative ≠ true)

include allowed

theorem nonneg_of_validate : 0 ≤ freshValidation host.room host.realpath path follow := by
  by_contra below
  have small : -4096 < freshValidation host.room host.realpath path follow := by
    apply freshValidation_small
    intro path err failed
    rw [Host.realpath] at failed
    split at failed
    · cases failed
    · cases failed
      exact (host.errno path).small
  apply allowed
  simp only [Host.validate, CInt.negative, BitVec.slt, BitVec.toInt_ofInt, decide_eq_true_eq]
  rw [Int.bmod_eq_of_le (by omega) (by omega)]
  simp only [BitVec.ofNat_eq_ofNat, BitVec.toInt_zero]
  omega

theorem passed_of_validate : path.head? = some '/' ∧ Passed host.room host.realpath path follow := by
  apply freshValidation_passed _ (nonneg_of_validate allowed)
  intro path err failed
  rw [Host.realpath] at failed
  split at failed
  · cases failed
  · cases failed
    exact (host.errno path).positive

theorem inside_of_validate {part : LastPart} (seen : sees host part follow path = true)
    (located : objectAt host.fs part (splitSlash path) = some object) : Inside host.room object := by
  obtain ⟨absolute, passed⟩ := passed_of_validate allowed
  simp only [sees, Bool.and_eq_true, Bool.not_eq_true'] at seen
  exact checked_inside absolute passed seen.1 seen.2 located

omit allowed

theorem objectAt_blank (fs : FS) (part : LastPart) (raw : List Name) :
    objectAt fs part ([] :: raw) = objectAt fs part raw := by
  have skip (follow : Bool) (raw : List Name) : fs.namei ([] :: raw) follow = fs.namei raw follow :=
    FS.resolveFrom_stay (.inl rfl)
  cases part with
  | follow => exact skip true raw
  | nofollow => exact skip false raw
  | parent =>
      have trimmed : ([] :: raw).rdropWhile (· = []) =
          if raw.rdropWhile (· = []) = [] then [] else [] :: raw.rdropWhile (· = []) := by
        simp only [List.rdropWhile, List.reverse_cons, List.dropWhile_append, List.isEmpty_iff,
          List.reverse_eq_nil_iff]
        split <;> simp
      simp only [objectAt, trimmed]
      split
      · rename_i blank
        simp [blank]
      · rename_i filled
        rw [List.getLast?_cons_of_ne_nil filled, skip]

theorem objectAt_candidate {fs : FS} (plain : ∀ name ∈ base, PlainName name) (part : LastPart) (path : Text) :
    objectAt fs part (splitSlash (Host.candidate base path)) = objectAt fs part (base ++ splitSlash path) := by
  rw [Host.candidate, splitSlash_append_slash]
  by_cases root : base = []
  · subst root
    exact (objectAt_blank _ _ _).trans (objectAt_blank _ _ _)
  · rw [splitSlash_render (fun name member => (plain name member).2.2.2) root]
    exact objectAt_blank _ _ _

theorem objectAt_base {fs : FS} {part : LastPart} (directory : fs.isDirAt base = true)
    (located : objectAt fs part (base ++ [[]]) = some object) : object = base := by
  have here (follow : Bool) : fs.namei (base ++ [[]]) follow = some base := by
    rw [FS.namei_append_dir directory, FS.resolveFrom_stay (.inl rfl), FS.resolveFrom_nil]
  cases part with
  | follow => exact Option.some.inj (located.symm.trans (here true))
  | nofollow => exact Option.some.inj (located.symm.trans (here false))
  | parent =>
      simp only [objectAt] at located
      split at located
      · rename_i named
        rw [List.rdropWhile_concat_pos _ _ _ (by simp)] at located named
        obtain ⟨mode, there⟩ := FS.isDirAt_iff.mp directory
        have whole : base.rdropWhile (· = []) = base := by
          rw [List.rdropWhile_eq_self_iff]
          intro filled
          simpa using (FS.plainName_of_get there (List.getLast_mem filled)).1
        rw [whole, FS.namei_dir directory] at located
        exact (Option.some.inj located).symm
      · cases located

/-! ## Where the walk ends -/

theorem kernelWalk_fits {text : Text} {raw : List Name} (walk : kernelWalk base text = some raw) :
    text.take (PATH_MAX - 1) = text ∧
      raw = if text.head? = some '/' then splitSlash text else base ++ splitSlash text := by
  rw [kernelWalk] at walk
  split at walk
  · cases walk
  · rename_i fits
    exact ⟨List.take_of_length_le (by omega), (Option.some.inj walk).symm⟩

section Walks

variable {v : Visit} {part : LastPart} {text : Text} {raw : List Name} {unseen : Option (List Name)}

theorem confined_of_seen (none : unseen = none) (confined : Confined v part text raw) :
    Confined v part text raw ↔ ∀ walk, unseen = some walk → Confined v part text walk := by
  subst none
  exact ⟨nofun, fun _ => confined⟩

theorem confined_of_unseen (same : unseen = some raw) :
    Confined v part text raw ↔ ∀ walk, unseen = some walk → Confined v part text walk := by
  subst same
  exact ⟨fun confined walk found => Option.some.inj found ▸ confined, fun confined => confined raw rfl⟩

variable {follow bind : Bool} {path rewritten : Text} {offset : Nat}

theorem confined_of_validate
    (allowed : (v.host.validate path follow).negative ≠ true) (seen : sees v.host part follow path = true)
    (same : ∀ object, objectAt v.host.fs part raw = some object →
      objectAt v.host.fs part (splitSlash path) = some object) : Confined v part text raw :=
  fun object located => .inl (inside_of_validate allowed seen (same object located))

theorem scratchRoute_confined (proceeds : (scratchRoute v text).walk v offset text = some raw) :
    Confined v part text raw ↔
      ∀ walk, scratchUnseen v part offset text = some walk → Confined v part text walk := by
  cases resolved : resolveGuestHostPath v.host.room v.host.present (text.take (PATH_MAX - 1)) with
  | kept | tooLong =>
      apply confined_of_unseen
      simpa only [scratchRoute, scratchUnseen, resolved, Route.walk] using proceeds
  | host rewritten bind =>
      simp only [scratchRoute, resolved] at proceeds
      by_cases denied : (v.host.validate rewritten true).negative = true
      · simp only [denied, ↓reduceIte, Route.walk] at proceeds
        by_cases delivered : v.delivers = true
        · simp [delivered] at proceeds
        · apply confined_of_unseen
          simpa [scratchUnseen, resolved, denied, delivered] using proceeds
      simp only [denied, Route.walk] at proceeds
      by_cases written : v.writes offset rewritten = true
      · by_cases seen : sees v.host part true rewritten = true
        · apply confined_of_seen
          · simp [scratchUnseen, resolved, denied, written, seen]
          apply confined_of_validate denied seen
          intro object located
          simp only [written, Bool.false_eq_true, ↓reduceIte] at proceeds
          obtain ⟨_, rfl⟩ := kernelWalk_fits proceeds
          rwa [if_pos (passed_of_validate denied).1] at located
        · apply confined_of_unseen
          simpa [scratchUnseen, resolved, denied, written, seen] using proceeds
      · apply confined_of_unseen
        simpa [scratchUnseen, resolved, denied, written] using proceeds

theorem resolve_fits {room : Room} {present : Text → Bool} {guest : Text}
    (resolved : resolveGuestHostPath room present guest = .host rewritten bind) :
    rewritten.length < PATH_MAX := by
  have fits : ∀ path flag, fitting path flag = .host rewritten bind → rewritten.length < PATH_MAX := by
    intro path flag fitted
    rw [fitting] at fitted
    split at fitted
    · cases fitted
    · cases fitted
      omega
  simp only [resolveGuestHostPath] at resolved
  split at resolved
  · split at resolved
    · cases resolved
    split at resolved
    · cases resolved
    split at resolved
    · cases resolved
      omega
    · cases resolved
  · split at resolved
    · cases resolved
      decide
    split at resolved
    · cases resolved
    · split at resolved
      · exact fits _ _ resolved
      · exact fits _ _ resolved

theorem redirected_walk (host : Host) {env : Env} {text : Text} {object : Path} {raw : List Name} {part : LastPart}
    (walk : kernelWalk host.rootfs (text.drop 1) = some raw)
    (absolute : (text.take (PATH_MAX - 1)).head? = some '/')
    (redirect : redirects env (text.take (PATH_MAX - 1)) bind = true)
    (spelled : rewritten = host.room.rootfs ++ text.take (PATH_MAX - 1)) (fits : rewritten.length < PATH_MAX)
    (located : objectAt host.fs part raw = some object) :
    objectAt host.fs part (splitSlash rewritten) = some object := by
  have plain : ∀ name ∈ host.rootfs, PlainName name := by
    obtain ⟨mode, there⟩ := FS.isDirAt_iff.mp host.rootfsDir
    exact fun _ => FS.plainName_of_get there
  have whole : text.take (PATH_MAX - 1) = text := by
    apply List.take_of_length_le
    have more : 0 < host.room.rootfs.length := List.length_pos_iff.mpr (List.cons_ne_nil _ _)
    rw [spelled, List.length_append, List.length_take] at fits
    omega
  rw [whole] at absolute redirect spelled
  cases text with
  | nil => cases absolute
  | cons first rest =>
      cases absolute
      obtain ⟨_, rfl⟩ := kernelWalk_fits walk
      simp only [redirects, List.tail_cons, Bool.and_eq_true] at redirect
      rw [List.drop_one, List.tail_cons, if_neg (of_decide_eq_true redirect.1.2)] at located
      rw [spelled]
      exact (objectAt_candidate plain part rest).trans located

theorem validate_of_relative {host : Host} {base : Path} (filled : path ≠ [])
    (allowed : (host.validateRelativeTraceePath base path follow).negative ≠ true) :
    (host.validate (Host.candidate base path) follow).negative ≠ true := by
  rw [Host.validateRelativeTraceePath, if_neg filled] at allowed
  split at allowed
  · exact absurd (by decide) allowed
  · split at allowed
    · exact absurd (by decide) allowed
    · exact allowed

theorem atPathRoute_confined (proceeds : (atPathRoute v follow text).walk v offset text = some raw) :
    Confined v part text raw ↔
      ∀ walk, atPathUnseen v part follow offset text = some walk → Confined v part text walk := by
  simp only [atPathRoute] at proceeds
  by_cases empty : text.take (PATH_MAX - 1) = []
  · rw [if_pos empty] at proceeds
    apply confined_of_seen
    · simp [atPathUnseen, empty]
    intro object located
    obtain ⟨whole, rfl⟩ := kernelWalk_fits proceeds
    rw [← whole, empty] at located
    exact .inl (objectAt_base v.directory located ▸ v.inside)
  · rw [if_neg empty] at proceeds
    by_cases relative : (text.take (PATH_MAX - 1)).head? ≠ some '/'
    · rw [if_pos relative] at proceeds
      by_cases denied : (v.host.validateRelativeTraceePath v.base (text.take (PATH_MAX - 1)) follow).negative = true
      · simp only [denied, ↓reduceIte, Route.walk] at proceeds
        by_cases delivered : v.delivers = true
        · simp [delivered] at proceeds
        · apply confined_of_unseen
          simpa [atPathUnseen, empty, relative, denied, delivered] using proceeds
      simp only [denied, Bool.false_eq_true, ↓reduceIte, Route.walk] at proceeds
      by_cases seen : sees v.host part follow (Host.candidate v.base (text.take (PATH_MAX - 1))) = true
      · apply confined_of_seen
        · simp [atPathUnseen, empty, relative, denied, seen]
        apply confined_of_validate (validate_of_relative empty denied) seen
        intro object located
        obtain ⟨whole, rfl⟩ := kernelWalk_fits proceeds
        rw [whole] at relative ⊢
        rw [if_neg relative] at located
        rwa [objectAt_candidate v.plain]
      · apply confined_of_unseen
        simpa [atPathUnseen, empty, relative, denied, seen] using proceeds
    · rw [if_neg relative] at proceeds
      cases resolved : resolveGuestHostPath v.host.room v.host.present (text.take (PATH_MAX - 1)) with
      | kept =>
          apply confined_of_unseen
          simpa only [atPathUnseen, empty, relative, resolved, Route.walk, ↓reduceIte] using proceeds
      | tooLong =>
          simp only [resolved, Route.walk] at proceeds
          split at proceeds
          · cases proceeds
          · apply confined_of_unseen
            simpa only [atPathUnseen, empty, relative, resolved, ↓reduceIte] using proceeds
      | host rewritten bind =>
          simp only [resolved] at proceeds
          by_cases denied : (v.host.validate rewritten follow).negative = true
          · simp only [denied, ↓reduceIte, Route.walk] at proceeds
            by_cases delivered : v.delivers = true
            · simp [delivered] at proceeds
            · apply confined_of_unseen
              simpa [atPathUnseen, empty, relative, resolved, denied, delivered] using proceeds
          by_cases redirect : redirects v.env (text.take (PATH_MAX - 1)) bind = true
          · simp only [denied, redirect, Bool.false_eq_true, ↓reduceIte, Route.walk] at proceeds
            by_cases seen : rewritten = v.host.room.rootfs ++ text.take (PATH_MAX - 1) ∧
                sees v.host part follow rewritten = true
            · apply confined_of_seen
              · simp [atPathUnseen, empty, relative, resolved, denied, redirect, ← seen.1, seen.2]
              apply confined_of_validate denied seen.2
              intro object located
              exact redirected_walk v.host proceeds (not_not.mp relative) redirect seen.1
                (resolve_fits resolved) located
            · apply confined_of_unseen
              simpa [atPathUnseen, empty, relative, resolved, denied, redirect, seen] using proceeds
          · simp only [denied, redirect, Bool.false_eq_true, ↓reduceIte, Route.walk] at proceeds
            by_cases written : v.writes offset rewritten = true
            · by_cases seen : sees v.host part follow rewritten = true
              · apply confined_of_seen
                · simp [atPathUnseen, empty, relative, resolved, denied, redirect, written, seen]
                apply confined_of_validate denied seen
                intro object located
                simp only [written, ↓reduceIte] at proceeds
                obtain ⟨_, rfl⟩ := kernelWalk_fits proceeds
                rwa [if_pos (passed_of_validate denied).1] at located
              · apply confined_of_unseen
                simpa [atPathUnseen, empty, relative, resolved, denied, redirect, written, seen] using proceeds
            · apply confined_of_unseen
              simpa [atPathUnseen, empty, relative, resolved, denied, redirect, written] using proceeds

end Walks

section

private def etcTree : FS :=
  .populate [.dir (pathOf "data/rootfs"), .dir (pathOf "etc"), .dir (pathOf "dev"),
    .file (pathOf "etc/passwd") [], .file (pathOf "data/rootfs/in") [],
    .symlink (pathOf "data/rootfs/new") ⟨true, pathOf "etc/new"⟩,
    .symlink (pathOf "data/rootfs/up") ⟨true, pathOf "etc"⟩,
    .symlink (pathOf "etc/back") ⟨true, pathOf "data/rootfs/in"⟩]

private def etcHost : Host where
  fs := etcTree
  errno := fun _ => .noEntry
  rootfs := pathOf "data/rootfs"
  rootfsDir := by decide +kernel
  binds := []
  tty := false

private def willing : Env where
  svcAt := fun _ => false
  rootfsFd := -1
  rootfdRewrite := false
  candidateMmap := fun _ => false
  mmapRegs := true
  guardMemory := none
  emulateGetcwd := 0
  emulateProcSelfExeReadlinkat := none
  emulateLinkatCopy := none
  emulateRuntimeTmpSymlinkat := none
  emulateFaccessatPath := 0
  readTraceeString := fun _ => none
  writeTraceeString := fun _ _ => true
  resolveGuestHostPath := fun _ => .kept
  validateHostPathUnderAllowed := fun _ _ => 0
  validateRelativeTraceePath := fun _ _ _ => 0
  rewriteUnixSockaddrArg := fun _ => none
  rewriteExecveArg := fun _ => none
  denying := ⟨true, true⟩
  completing := ⟨true, true⟩
  setRegs := true

private def etcVisit (text : Text) : Visit where
  host := etcHost
  base := pathOf "data/rootfs"
  directory := by decide +kernel
  inside := .inl (.inr (by decide))
  string := fun _ => some text
  regs := ⟨fun _ => 0, 0, 0⟩
  tracee := ⟨⟨fun _ => 0, 0, 0⟩, 56⟩
  requests := willing

private theorem not_confined {v : Visit} {part : LastPart} {text : Text} {raw : List Name} {object : Path}
    (located : objectAt v.host.fs part raw = some object)
    (outside : v.host.room.rootfs ≠ ['/'] ∧ ¬ splitSlash v.host.room.rootfs <+: [] :: object ∧
      v.host.room.binds = [] ∧
      ∀ mount ∈ [procPath, devPath, sysPath], startsAt mount text = true → ¬ writtenParts mount <+: object) :
    ¬ Confined v part text raw := by
  intro confined
  obtain ⟨notRoot, notBelow, noBinds, notNamed⟩ := outside
  rcases confined object located with (root | below) | ⟨mount, member, names, below⟩
  · rcases root with root | below
    · exact notRoot root
    · exact notBelow below
  · obtain ⟨m, member, _⟩ := below
    rw [noBinds] at member
    cases member
  · exact notNamed mount member names below

private def Escapes (route : Visit → Text → Route) (part : LastPart) (text : Text) : Prop :=
  ∃ raw, (route (etcVisit text) text).walk (etcVisit text) 8192 text = some raw ∧
    ¬ Confined (etcVisit text) part text raw

end

end PDocker.Direct
