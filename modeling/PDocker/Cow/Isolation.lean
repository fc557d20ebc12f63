import PDocker.Cow.Apart
import PDocker.Cow.Shim
import PDocker.Data.Transition

/-!
# Isolation of the image

A run of the functions of the shim, with any arguments and in any order, leaves
a file alone that a layer holds, as long as every call that reaches the file
copies it up under a path that leads to the same name.
-/

set_option autoImplicit false

namespace PDocker.Cow

open Data (Table Text Reaches)

namespace Shim

variable {layers : Set DirId} {file : Ino} {s s' : Shim} {env : Env}

inductive CopyUp (s : Shim) : Shim → Prop where
  | nothing : CopyUp s s
  | replaced {slot : Slot} (inode : Inode) {path : Text}
      (placed : s.kernel.find .cwd path false = some (.slot slot)) :
      CopyUp s { s with kernel := s.kernel.replace slot inode }

variable {copyData followSymlink follow : Bool} {path cowPath mode : Text} {flags : OpenFlags} {base dirfd : At}
  {ino : Ino} {call : Sys} {change : Change} {stream : Nat} {k : Kernel} {raw : Raw}

theorem break_cases (broken : s.breakHardlinkCopyStat env path copyData followSymlink = some s') :
    (s' = s ∧ ∀ ino, s.kernel.inoAt .cwd path followSymlink = some ino → s.kernel.nlink ino ≤ 1) ∨
    ∃ slot inode, s.kernel.find .cwd path false = some (.slot slot) ∧
      s' = { s with kernel := s.kernel.replace slot inode } := by
  unfold breakHardlinkCopyStat at broken
  split at broken
  · rename_i missing
    cases broken
    exact .inl ⟨rfl, fun ino found => by simp [missing] at found⟩
  rename_i ino found
  split at broken
  · rename_i single
    cases broken
    refine .inl ⟨rfl, fun other same => ?_⟩
    rw [found] at same
    cases same
    exact single
  · split at broken
    · cases broken
    split at broken
    · rename_i slot placed
      cases broken
      exact .inr ⟨slot, _, placed, rfl⟩
    · cases broken

theorem copyUp_of_break
    (broken : s.breakHardlinkCopyStat env path copyData followSymlink = some s') : CopyUp s s' := by
  obtain ⟨rfl, _⟩ | ⟨slot, inode, placed, rfl⟩ := break_cases broken
  · exact .nothing
  · exact .replaced inode placed

theorem copyUp_of_maybeBreak (broken : s.maybeBreak env path flags = some s') : CopyUp s s' := by
  unfold maybeBreak at broken
  split at broken
  · cases broken
    exact .nothing
  split at broken
  · cases broken
    exact .nothing
  split at broken
  · cases broken
    exact .nothing
  · exact copyUp_of_break broken

theorem copyUp_of_prepare {sfd dfd : At} {src dst resolvedDst : Text}
    (broken : s.prepareRenameDestination env sfd src dfd dst resolvedDst = some s') :
    CopyUp s s' := by
  unfold prepareRenameDestination at broken
  split at broken
  · cases broken
    exact .nothing
  · exact copyUp_of_break broken

theorem CopyUp.keeps (apart : s.kernel.Apart layers file) (copyUp : CopyUp s s') :
    s.kernel.Keeps layers file s'.kernel := by
  cases copyUp with
  | nothing => exact apart.keeps
  | replaced inode placed => exact Kernel.keeps_replace apart (Kernel.find_outside apart placed) inode

/-- The call does not reach the file, or no layer holds it. -/
def Own (layers : Set DirId) (file : Ino) (k : Kernel) (call : Sys) : Prop :=
  k.reaches call = some file → ¬ k.Shared layers file

theorem fresh_not_shared (apart : s.kernel.Apart layers file) (copyUp : CopyUp s s')
    (fresh : file = s.kernel.next) : ¬ s'.kernel.Shared layers file := by
  rw [(copyUp.keeps apart).shared]
  intro shared
  exact Nat.ne_of_lt (shared.lt apart) fresh

theorem CopyUp.inoAt (copyUp : CopyUp s s') (found : s'.kernel.inoAt base path follow = some ino) :
    ino = s.kernel.next ∨ s.kernel.inoAt base path follow = some ino := by
  cases copyUp with
  | nothing => exact .inr found
  | replaced inode placed => exact Kernel.inoAt_replace found

theorem CopyUp.inoOf (copyUp : CopyUp s s') (fd : Nat) : s'.kernel.inoOf fd = s.kernel.inoOf fd := by
  cases copyUp <;> rfl

theorem CopyUp.reaches (copyUp : CopyUp s s') (reached : s'.kernel.reaches call = some ino) :
    ino = s.kernel.next ∨ s.kernel.reaches call = some ino := by
  cases call with
  | openat base path flags mode =>
      simp only [Kernel.reaches, Option.ite_none_right_eq_some] at reached ⊢
      exact (copyUp.inoAt reached.2).imp_right fun before => ⟨reached.1, before⟩
  | reopen fd flags =>
      simp only [Kernel.reaches, copyUp.inoOf fd] at reached ⊢
      exact .inr reached
  | alter target change =>
      cases target with
      | path base path follow => exact copyUp.inoAt reached
      | fd number => exact .inr ((copyUp.inoOf number).symm.trans reached)
  | _ => cases reached

theorem CopyUp.own (apart : s.kernel.Apart layers file) (copyUp : CopyUp s s')
    (own : Own layers file s.kernel call) : Own layers file s'.kernel call := by
  intro reached
  cases copyUp.reaches reached with
  | inl fresh => exact fresh_not_shared apart copyUp fresh
  | inr before =>
      rw [(copyUp.keeps apart).shared]
      exact own before

/-- The path that is copied up leads where the call goes: to the same name, and
on to the same file. -/
structure Meets (k : Kernel) (base : At) (path cowPath : Text) : Prop where
  place : k.find .cwd cowPath false = k.find base path false
  ino : k.inoAt .cwd cowPath true = k.inoAt base path true

theorem Meets.refl (k : Kernel) (path : Text) : Meets k .cwd path path := ⟨rfl, rfl⟩

variable (apart : s.kernel.Apart layers file)

include apart

theorem own_of_meets (meets : Meets s.kernel base path cowPath)
    (broken : s.breakHardlinkCopy env cowPath copyData = some s')
    (found : s'.kernel.inoAt base path follow = some file) : ¬ s'.kernel.Shared layers file := by
  have copyUp := copyUp_of_break broken
  obtain ⟨rfl, single⟩ | ⟨slot, inode, placed, rfl⟩ := break_cases broken
  · have followed : s'.kernel.inoAt base path true = some file := by
      cases follow with
      | true => exact found
      | false => exact Kernel.inoAt_follow found
    intro shared
    have several := shared.one_lt_nlink apart followed
    have short := single file (meets.ino.trans followed)
    omega
  · exact fresh_not_shared apart copyUp (Kernel.inoAt_replaced (meets.place.symm.trans placed) found)

theorem keeps_real (own : Own layers file s.kernel call) :
    s.kernel.Keeps layers file (s.real env call).1.kernel :=
  Kernel.keeps_exec apart env call own

theorem CopyUp.keeps_real (copyUp : CopyUp s s') (own : Own layers file s'.kernel call) :
    s.kernel.Keeps layers file (s'.real env call).1.kernel :=
  (copyUp.keeps apart).trans (Shim.keeps_real (copyUp.keeps apart).apart own)

theorem keeps_hooked {path : Option Text} (own : Own layers file s.kernel call) :
    s.kernel.Keeps layers file (s.hooked env path copyData call).1.kernel := by
  unfold hooked
  split
  · exact keeps_real apart own
  split
  · exact apart.keeps
  · rename_i broken
    have copyUp := copyUp_of_break broken
    exact copyUp.keeps_real apart (copyUp.own apart own)

theorem keeps_hooked_path (meets : Meets s.kernel base path cowPath) : s.kernel.Keeps layers file
      (s.hooked env (some cowPath) copyData (.alter (.path base path follow) change)).1.kernel := by
  dsimp only [hooked]
  split
  · exact apart.keeps
  · rename_i broken
    exact (copyUp_of_break broken).keeps_real apart (own_of_meets apart meets broken)

theorem keeps_opened {broken : Option Shim}
    {remember : Shim → Nat → Shim} (quiet : ∀ after fd, (remember after fd).kernel = after.kernel)
    (copyUp : ∀ s', broken = some s' → CopyUp s s')
    (own : ∀ s', broken = some s' → Own layers file s'.kernel call) :
    s.kernel.Keeps layers file (s.opened env broken call remember).1.kernel := by
  unfold opened
  split
  · exact apart.keeps
  rename_i s'
  have keeps : s.kernel.Keeps layers file (s'.real env call).1.kernel :=
    (copyUp s' rfl).keeps_real apart (own s' rfl)
  split
  · rename_i after fd result
    rw [result] at keeps
    rw [quiet]
    exact keeps
  · rename_i after result
    rw [result] at keeps
    exact keeps

omit apart

theorem kernel_fdtabSet (fd : Nat) (path : Option Text) : (s.fdtabSet fd path).kernel = s.kernel := by
  unfold fdtabSet
  split
  · rfl
  · split <;> rfl

theorem kernel_rememberOpen (fd : Nat) (path : Text) : (s.rememberOpen fd path).kernel = s.kernel := by
  unfold rememberOpen
  split
  · exact kernel_fdtabSet fd _
  split
  · rfl
  · split
    · rfl
    · exact kernel_fdtabSet fd _

theorem kernel_rememberOpenForFlags (fd : Nat) (path : Text) (flags : OpenFlags) :
    (s.rememberOpenForFlags fd path flags).kernel = s.kernel := by
  unfold rememberOpenForFlags
  split
  · rfl
  · exact kernel_rememberOpen fd path

theorem maybeBreak_eq (reaching : flags.reaching = true) :
    s.maybeBreak env path flags = s.breakHardlinkCopy env path !flags.trunc := by
  simp only [OpenFlags.reaching, Bool.and_eq_true, Bool.not_eq_true'] at reaching
  obtain ⟨⟨⟨⟨tmpfile, _⟩, directory⟩, excl⟩, writes⟩ := reaching
  have write : flagsWrite flags = true := by
    rw [flagsWrite, writes, Bool.true_or]
  simp [maybeBreak, write, tmpfile, directory, excl]

def Traced (s : Shim) (dirfd : At) (path : Text) : Prop :=
  path ≠ [] ∧ ∃ cowPath, s.cowPath dirfd path = some cowPath ∧ Meets s.kernel dirfd path cowPath

/-- The numbers that `syscall` copies up for under the path of the call itself. -/
def Raw.Plain : Raw → Prop
  | .chmod _ _ | .chown _ _ | .truncate _ _ | .ftruncate _ _ | .setxattr _ _ _ | .removexattr _ _ => True
  | .fchmodat dirfd path _ => fixedPath dirfd path = true
  | .fchownat dirfd path _ flags => fixedPath dirfd path = true ∧ flags.nofollow = false
  | .utimensat dirfd (some path) _ flags => fixedPath dirfd path = true ∧ flags.nofollow = false
  | .utimensat _ none _ _ | .fchmod _ _ | .fchown _ _ | .fsetxattr _ _ _ | .fremovexattr _ _
  | .other _ => False

/-- The call copies the file up where it finds it, or does not reach it while a
layer holds it. -/
def Spared (layers : Set DirId) (file : Ino) (s : Shim) : Call → Prop
  | .openat dirfd path flags mode | .openat64 dirfd path flags mode =>
      s.Traced dirfd path ∨ Own layers file s.kernel (.openat dirfd path flags mode)
  | .freopen none mode stream =>
      ∀ flags, fopenFlags mode = some flags → Own layers file s.kernel (.reopen stream flags)
  | .fchmodat dirfd path mode flags =>
      s.Traced dirfd path ∨ Own layers file s.kernel (.alter (.at dirfd path flags) (.mode mode))
  | .lchown path owner => Own layers file s.kernel (.alter (.path .cwd path false) (.owner owner))
  | .fchownat dirfd path owner flags =>
      flags.nofollow = false ∧ s.Traced dirfd path ∨
        Own layers file s.kernel (.alter (.at dirfd path flags) (.owner owner))
  | .utimensat dirfd path times flags =>
      flags.nofollow = false ∧ (∃ text, path = some text ∧ s.Traced dirfd text) ∨
        Own layers file s.kernel (.alter (utimesTarget dirfd path flags) (.times times))
  | .fchmod fd mode =>
      (s.fdtabGet fd).isSome = true ∨ Own layers file s.kernel (.alter (.fd fd) (.mode mode))
  | .fchown fd owner =>
      (s.fdtabGet fd).isSome = true ∨ Own layers file s.kernel (.alter (.fd fd) (.owner owner))
  | .futimens fd times =>
      (s.fdtabGet fd).isSome = true ∨ Own layers file s.kernel (.alter (.fd fd) (.times times))
  | .fsetxattr fd name value =>
      (s.fdtabGet fd).isSome = true ∨ Own layers file s.kernel (.alter (.fd fd) (.setXattr name value))
  | .fremovexattr fd name =>
      (s.fdtabGet fd).isSome = true ∨ Own layers file s.kernel (.alter (.fd fd) (.removeXattr name))
  | .syscall raw => raw.Plain ∨ Own layers file s.kernel raw.sys
  | _ => True

/-! ## Step by step -/

theorem own_maybeBreak (apart : s.kernel.Apart layers file) (mode : Nat) (meets : Meets s.kernel base path cowPath)
    (broken : s.maybeBreak env cowPath flags = some s') :
    Own layers file s'.kernel (.openat base path flags mode) := by
  intro reached
  simp only [Kernel.reaches, Option.ite_none_right_eq_some] at reached
  rw [maybeBreak_eq reached.1] at broken
  exact own_of_meets apart meets broken reached.2

theorem keeps_open (apart : s.kernel.Apart layers file) (path : Text) (flags : OpenFlags)
    (mode : Nat) : s.kernel.Keeps layers file (s.open_ env path flags mode).1.kernel := by
  refine keeps_opened apart (fun after fd => kernel_rememberOpenForFlags fd path flags) ?_ ?_
  · exact fun s' => copyUp_of_maybeBreak
  · exact fun s' => own_maybeBreak apart mode (.refl _ path)

theorem keeps_openat (apart : s.kernel.Apart layers file) {mode : Nat}
    (spared : s.Traced dirfd path ∨ Own layers file s.kernel (.openat dirfd path flags mode)) :
    s.kernel.Keeps layers file (s.openat env dirfd path flags mode).1.kernel := by
  unfold openat
  split
  · rename_i missing
    have own : Own layers file s.kernel (.openat dirfd path flags mode) := by
      cases spared with
      | inl traced =>
          obtain ⟨_, cowPath, found, _⟩ := traced
          rw [missing] at found
          cases found
      | inr own => exact own
    refine keeps_opened apart (fun _ _ => rfl) ?_ ?_
    · intro s' same
      cases same
      exact .nothing
    · intro s' same
      cases same
      exact own
  · rename_i cowPath found
    refine keeps_opened apart (fun after fd => kernel_rememberOpenForFlags fd cowPath flags) ?_ ?_
    · exact fun s' => copyUp_of_maybeBreak
    intro s' broken
    cases spared with
    | inl traced =>
        obtain ⟨_, other, same, meets⟩ := traced
        rw [found] at same
        cases same
        exact own_maybeBreak apart mode meets broken
    | inr own => exact (copyUp_of_maybeBreak broken).own apart own

theorem own_of_break (apart : s.kernel.Apart layers file) (flags : OpenFlags) (mode : Nat)
    (broken : s.breakHardlinkCopy env path copyData = some s') :
    Own layers file s'.kernel (.openat .cwd path flags mode) := by
  intro reached
  simp only [Kernel.reaches, Option.ite_none_right_eq_some] at reached
  exact own_of_meets apart (.refl _ path) broken reached.2

theorem keeps_creat (apart : s.kernel.Apart layers file) (path : Text) (mode : Nat) :
    s.kernel.Keeps layers file (s.creat env path mode).1.kernel := by
  refine keeps_opened apart (fun after fd => kernel_rememberOpen fd path) ?_ ?_
  · exact fun s' => copyUp_of_break
  · exact fun s' => own_of_break apart _ mode

theorem own_of_reading (reading : modeWrite mode = false)
    (parsed : fopenFlags mode = some flags) : flags.reaching = false := by
  rw [modeWrite, List.any_eq_false] at reading
  have plus : ((mode.drop 1).take 6).contains '+' = false := by
    rw [← Bool.not_eq_true, List.contains_iff_mem]
    intro member
    exact reading '+' (List.mem_of_mem_drop (List.mem_of_mem_take member)) (by decide)
  cases mode with
  | nil => cases parsed
  | cons first rest =>
      have start := reading first List.mem_cons_self
      simp only [fopenFlags, plus] at parsed
      split at parsed
      · cases parsed
        rfl
      · rename_i write
        cases write
        exact absurd rfl start
      · rename_i append
        cases append
        exact absurd rfl start
      · cases parsed

theorem keeps_realFopen (apart : s.kernel.Apart layers file) (own : ∀ flags, fopenFlags mode = some flags →
      Own layers file s.kernel (.openat .cwd path flags 0o666)) :
    s.kernel.Keeps layers file (s.realFopen env path mode).1.kernel := by
  unfold realFopen
  split
  · rename_i flags parsed
    exact keeps_real apart (own flags parsed)
  · exact apart.keeps

theorem own_openat_of_reading (reading : modeWrite mode = false) (path : Text)
    (flags : OpenFlags) (parsed : fopenFlags mode = some flags) :
    Own layers file s.kernel (.openat .cwd path flags 0o666) := by
  intro reached
  simp [Kernel.reaches, own_of_reading reading parsed] at reached

theorem keeps_fopen (apart : s.kernel.Apart layers file) (path mode : Text) :
    s.kernel.Keeps layers file (s.fopen env path mode).1.kernel := by
  unfold fopen
  split
  · split
    · exact apart.keeps
    · rename_i broken
      have copied := (copyUp_of_break broken).keeps apart
      exact copied.trans (keeps_realFopen copied.apart fun flags _ => own_of_break apart flags _ broken)
  · rename_i reading
    exact keeps_realFopen apart (own_openat_of_reading (by simpa using reading) path)

private theorem keeps_quiet (apart : s.kernel.Apart layers file) (quiet : s.kernel.reaches call = none) :
    s.kernel.Keeps layers file (s.real env call).1.kernel := by
  refine keeps_real apart ?_
  intro reached
  rw [quiet] at reached
  cases reached

theorem keeps_realFreopen {path : Option Text}
    (own : s.kernel.Keeps layers file (s.openStream env path mode stream).1.kernel) :
    s.kernel.Keeps layers file (s.realFreopen env path mode stream).1.kernel := by
  unfold realFreopen
  split
  · rename_i after fd result
    rw [result] at own
    split
    · exact own
    · have moved : after.kernel.Keeps layers file (after.real env (.dup3 fd stream)).1.kernel :=
        keeps_quiet own.apart rfl
      exact own.trans (moved.trans (keeps_quiet moved.apart rfl))
  · rename_i after result
    rw [result] at own
    exact own.trans (keeps_quiet own.apart rfl)

theorem keeps_freopen (apart : s.kernel.Apart layers file) {path : Option Text}
    (spared : Spared layers file s (.freopen path mode stream)) :
    s.kernel.Keeps layers file (s.freopen env path mode stream).1.kernel := by
  cases path with
  | none =>
      refine keeps_realFreopen ?_
      dsimp only [openStream]
      split
      · rename_i flags parsed
        exact keeps_real apart (spared flags parsed)
      · exact apart.keeps
  | some text =>
      dsimp only [freopen]
      split
      · split
        · exact apart.keeps
        rename_i broken
        have copied := (copyUp_of_break broken).keeps apart
        refine copied.trans (keeps_realFreopen ?_)
        exact keeps_realFopen copied.apart fun flags _ => own_of_break apart flags _ broken
      · rename_i reading
        exact keeps_realFreopen
          (keeps_realFopen apart (own_openat_of_reading (by simpa using reading) text))

theorem keeps_renameat (apart : s.kernel.Apart layers file) (sfd : At) (src : Text) (dfd : At)
    (dst : Text) : s.kernel.Keeps layers file (s.renameat env sfd src dfd dst).1.kernel := by
  unfold renameat
  split
  · exact keeps_quiet apart rfl
  split
  · exact apart.keeps
  · rename_i broken
    have copied := (copyUp_of_prepare broken).keeps apart
    exact copied.trans (keeps_quiet copied.apart rfl)

theorem keeps_rename (apart : s.kernel.Apart layers file) (src dst : Text) :
    s.kernel.Keeps layers file (s.rename env src dst).1.kernel := by
  unfold rename
  split
  · exact apart.keeps
  · rename_i broken
    have copied := (copyUp_of_prepare broken).keeps apart
    exact copied.trans (keeps_quiet copied.apart rfl)

theorem keeps_path (apart : s.kernel.Apart layers file) (path : Text) (copyData follow : Bool)
    (change : Change) : s.kernel.Keeps layers file
      (s.hooked env (some path) copyData (.alter (.path .cwd path follow) change)).1.kernel :=
  keeps_hooked_path apart (.refl _ path)

theorem target_at {flags : AtFlags} (filled : path ≠ []) :
    Target.at dirfd path flags = .path dirfd path !flags.nofollow := by
  cases dirfd <;> simp [Target.at, filled]

theorem keeps_at (apart : s.kernel.Apart layers file) {flags : AtFlags} (spared : s.Traced dirfd path ∨
      Own layers file s.kernel (.alter (.at dirfd path flags) change)) :
    s.kernel.Keeps layers file
      (s.hooked env (s.cowPath dirfd path) true (.alter (.at dirfd path flags) change)).1.kernel := by
  cases spared with
  | inl traced =>
      obtain ⟨filled, cowPath, found, meets⟩ := traced
      rw [target_at filled, found]
      exact keeps_hooked_path apart meets
  | inr own => exact keeps_hooked apart own

theorem keeps_byPath (apart : s.kernel.Apart layers file) (fd : Nat) (copyData : Bool)
    (change : Change) {direct : Shim → Shim × Option Nat}
    (otherwise : s.fdtabGet fd = none → s.kernel.Keeps layers file (direct s).1.kernel) :
    s.kernel.Keeps layers file (s.byPath env fd copyData change direct).1.kernel := by
  unfold byPath
  split
  · exact keeps_path apart _ copyData true change
  · rename_i missing
    exact otherwise missing

theorem find_absolute (absolute : isAbsolute path = true)
    (follow : Bool) : k.find base path follow = k.find .cwd path follow := by
  simp [Kernel.find, Kernel.startOf, absolute]

theorem meets_of_fixed (fixed : fixedPath base path = true) : Meets k base path path := by
  rw [fixedPath, Bool.or_eq_true, decide_eq_true_eq] at fixed
  cases fixed with
  | inl absolute =>
      refine ⟨(find_absolute absolute false).symm, ?_⟩
      have same : k.find .cwd path true = k.find base path true := (find_absolute absolute true).symm
      exact congrArg (fun place => (place.bind k.node).bind Node.ino?) same
  | inr cwd =>
      subst cwd
      exact .refl k path

theorem at_of_fixed (flags : AtFlags) (fixed : fixedPath base path = true) :
    Target.at base path flags = .path base path !flags.nofollow := by
  cases base with
  | cwd => rfl
  | fd number =>
      refine target_at ?_
      intro empty
      subst empty
      cases fixed

theorem keeps_syscall (apart : s.kernel.Apart layers file) (spared : raw.Plain ∨ Own layers file s.kernel raw.sys) :
    s.kernel.Keeps layers file (s.syscall env raw).1.kernel := by
  unfold syscall
  cases spared with
  | inr own => exact keeps_hooked apart own
  | inl plain =>
      cases raw with
      | chmod path mode | chown path owner | setxattr path name value | removexattr path name => exact keeps_path apart path true true _
      | truncate path length => exact keeps_path apart path _ true _
      | ftruncate fd length =>
          refine keeps_hooked apart ?_
          intro reached
          cases reached
      | fchmodat dirfd path mode =>
          have fixed : fixedPath dirfd path = true := plain
          simp only [Raw.copyUp, fixed, ↓reduceIte]
          exact keeps_hooked_path apart (meets_of_fixed fixed)
      | fchownat dirfd path owner flags =>
          have ⟨fixed, follows⟩ : fixedPath dirfd path = true ∧ flags.nofollow = false := plain
          simp only [Raw.copyUp, Raw.sys, fixed, follows, Bool.not_false, Bool.and_self, ↓reduceIte,
            at_of_fixed flags fixed]
          exact keeps_hooked_path apart (meets_of_fixed fixed)
      | utimensat dirfd path times flags =>
          cases path with
          | none => exact plain.elim
          | some path =>
              have ⟨fixed, follows⟩ : fixedPath dirfd path = true ∧ flags.nofollow = false := plain
              simp only [Raw.copyUp, Raw.sys, utimesTarget, Option.filter, fixed, follows,
                Bool.not_false, Bool.and_self, ↓reduceIte, at_of_fixed flags fixed]
              exact keeps_hooked_path apart (meets_of_fixed fixed)
      | fchmod fd mode | fchown fd owner | fsetxattr fd name value | fremovexattr fd name | other call => exact plain.elim

theorem keeps_tracked (apart : s.kernel.Apart layers file) {fd : Nat} (same : raw.sys = .alter (.fd fd) change)
    (spared : (s.fdtabGet fd).isSome = true ∨ Own layers file s.kernel (.alter (.fd fd) change)) :
    s.kernel.Keeps layers file (s.byPath env fd true change fun s => s.syscall env raw).1.kernel := by
  refine keeps_byPath apart fd true change fun missing => keeps_syscall apart (.inr ?_)
  rw [same]
  exact spared.resolve_left (by simp [missing])

theorem keeps_dup (apart : s.kernel.Apart layers file) (oldfd : Nat) :
    s.kernel.Keeps layers file (s.dup env oldfd).1.kernel := by
  have keeps : s.kernel.Keeps layers file (s.real env (.dup oldfd)).1.kernel := keeps_quiet apart rfl
  unfold dup
  split
  · rename_i after newfd result
    rw [result] at keeps
    split
    · rw [kernel_fdtabSet]
      exact keeps
    · exact keeps
  · rename_i after result
    rw [result] at keeps
    exact keeps

theorem keeps_dup2 (apart : s.kernel.Apart layers file) (oldfd newfd : Nat) :
    s.kernel.Keeps layers file (s.dup2 env oldfd newfd).1.kernel := by
  have keeps : s.kernel.Keeps layers file (s.real env (.dup3 oldfd newfd)).1.kernel :=
    keeps_quiet apart rfl
  unfold dup2
  split
  · rename_i after ret result
    rw [result] at keeps
    rw [kernel_fdtabSet]
    exact keeps
  · rename_i after result
    rw [result] at keeps
    exact keeps

theorem keeps_close (apart : s.kernel.Apart layers file) (fd : Nat) :
    s.kernel.Keeps layers file (s.close env fd).1.kernel := by
  have same : (s.fdtabClear fd).kernel = s.kernel := kernel_fdtabSet fd none
  have keeps : s.kernel.Keeps layers file ((s.fdtabClear fd).real env (.close fd)).1.kernel := by
    rw [← same] at apart ⊢
    exact keeps_quiet apart rfl
  exact keeps

theorem keeps_call (apart : s.kernel.Apart layers file) {call : Call}
    (spared : Spared layers file s call) :
    s.kernel.Keeps layers file (s.call env call).1.kernel := by
  cases call with
  | open_ path flags mode | open64 path flags mode => exact keeps_open apart path flags mode
  | openat dirfd path flags mode | openat64 dirfd path flags mode => exact keeps_openat apart spared
  | creat path mode | creat64 path mode => exact keeps_creat apart path mode
  | truncate path length | truncate64 path length => exact keeps_path apart path _ true _
  | ftruncate fd length | ftruncate64 fd length => exact keeps_byPath apart fd _ _ fun _ => keeps_quiet apart rfl
  | fopen path mode | fopen64 path mode => exact keeps_fopen apart path mode
  | freopen path mode stream => exact keeps_freopen apart spared
  | rename src dst => exact keeps_rename apart src dst
  | renameat sfd src dfd dst => exact keeps_renameat apart sfd src dfd dst
  | chmod path mode | chown path owner | utime path times | utimes path times | setxattr path name value
  | removexattr path name => exact keeps_path apart path true true _
  | fchmodat dirfd path mode flags => exact keeps_at apart spared
  | lchown path owner => exact keeps_real apart spared
  | fchownat dirfd path owner flags =>
      dsimp only [Shim.call, fchownat]
      cases spared with
      | inl traced =>
          rw [traced.1]
          exact keeps_at apart (.inl traced.2)
      | inr own => exact keeps_hooked apart own
  | utimensat dirfd path times flags =>
      dsimp only [Shim.call, utimensat]
      cases spared with
      | inl traced =>
          obtain ⟨follows, text, rfl, traced⟩ := traced
          rw [follows]
          exact keeps_at apart (.inl traced)
      | inr own => exact keeps_hooked apart own
  | lsetxattr path name value => exact keeps_path apart path true false _
  | lremovexattr path name => exact keeps_path apart path true false _
  | fchmod fd mode => exact keeps_tracked apart rfl spared
  | fchown fd owner => exact keeps_tracked apart rfl spared
  | futimens fd times =>
      refine keeps_byPath apart fd true _ fun missing => keeps_real apart ?_
      exact spared.resolve_left (by simp [missing])
  | fsetxattr fd name value => exact keeps_tracked apart rfl spared
  | fremovexattr fd name => exact keeps_tracked apart rfl spared
  | close fd => exact keeps_close apart fd
  | dup oldfd => exact keeps_dup apart oldfd
  | dup2 oldfd newfd => exact keeps_dup2 apart oldfd newfd
  | dup3 oldfd newfd => exact keeps_dup2 apart oldfd newfd
  | syscall raw => exact keeps_syscall apart spared

theorem inodes_real_alter {target : Target} (change : Change)
    (reached : s.kernel.ino target = some file) (done : env.refused = false) :
    (s.real env (.alter target change)).1.kernel.inodes file =
      change.apply env.now (s.kernel.inodes file) := by
  simp only [real, Kernel.exec, done, Bool.false_eq_true, ↓reduceIte, Kernel.alter, reached]
  exact Function.update_self file _ _

theorem inodes_lchown (owner : Nat × Nat)
    (found : s.kernel.inoAt .cwd path false = some file) (done : env.refused = false) :
    (s.call env (.lchown path owner)).1.kernel.inodes file = { s.kernel.inodes file with owner } :=
  inodes_real_alter (.owner owner) found done

def cloned : Shim where
  kernel :=
    { root := 0
      names := ((∅ : Table Slot Node).insert (1, ['f']) (.file 2)).insert (0, ['f']) (.file 2)
      above := fun _ => (0, [])
      inodes := fun _ =>
        { content := [42], mode := 0o644, owner := (0, 0), times := (0, 0), xattrs := ∅ }
      next := 3
      cwd := 0
      files := ∅ }
  fdPaths := ∅
  copyXattrs := false
  trackReadonlyFds := true

theorem cloned_names {slot : Slot} {node : Node}
    (found : cloned.kernel.names.lookup slot = some node) : node = .file 2 := by
  have looked : (((∅ : Table Slot Node).insert (1, ['f']) (.file 2)).insert (0, ['f'])
      (.file 2)).lookup slot = some node := found
  rw [Table.lookup_insert_eq_ite, Table.lookup_insert_eq_ite] at looked
  split at looked
  · exact (Option.some.inj looked).symm
  · split at looked
    · exact (Option.some.inj looked).symm
    · cases looked

private theorem zero_outside : (0 : DirId) ∉ ({1} : Set DirId) := fun inside => by cases inside

theorem cloned_apart : cloned.kernel.Apart {1} 2 where
  root := zero_outside
  cwd := zero_outside
  above := fun _ => zero_outside
  names := fun _ found => by cases cloned_names found
  inos := fun found => by
    cases cloned_names found
    decide
  dirs := fun inside => by
    cases inside
    decide
  openDirs := fun opened => by cases opened
  openInos := fun opened => by cases opened
  writable := fun opened => by cases opened

theorem cloned_shared : cloned.kernel.Shared {1} 2 := ⟨(1, ['f']), rfl, rfl⟩

end Shim

def Call.descriptor : Call → Option Nat
  | .ftruncate fd _ | .ftruncate64 fd _ | .fchmod fd _ | .fchown fd _ | .futimens fd _
  | .fsetxattr fd _ _ | .fremovexattr fd _ | .freopen none _ fd | .utimensat (.fd fd) none _ _ => some fd
  | .fchmodat (.fd fd) [] _ _ | .fchownat (.fd fd) [] _ _ | .utimensat (.fd fd) (some []) _ _ => some fd
  | .syscall raw =>
      match raw.sys with
      | .alter (.fd fd) _ | .ftruncate fd _ | .pwrite fd _ _ | .reopen fd _ => some fd
      | _ => none
  | _ => none

namespace Shim

end Shim

end PDocker.Cow
