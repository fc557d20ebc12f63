import PDocker.Direct.HostFiles

/-!
# The copy that stands for a link

`linkat` makes a new file and copies the old one into it, read by read and write by write. A failure takes
the new name away again; a name of the package manager was taken away before.
-/

set_option autoImplicit false

namespace PDocker.Direct.LinkCopy

open Data (Text contains)
open Posix

abbrev Bytes := List UInt8

def EISDIR : Nat := 21

/-- What the calls of a copy answer; those on descriptors in the order in which they are made. -/
structure Answers where
  openOld : Option Errno
  openNew : Option Errno
  openAgain : Option Errno
  read : Nat → Option Errno
  readCount : Nat → Nat
  write : Nat → Option Errno
  writeCount : Nat → Nat
  fchmod : Option Errno
  close : Option Errno

def moved (there count : Nat) : Nat := min there (max 1 count)

theorem moved_le (there count : Nat) : moved there count ≤ there := Nat.min_le_left _ _

variable {there : Nat}

theorem moved_positive (some_there : 0 < there) (count : Nat) : 0 < moved there count := by
  rw [moved]
  omega

theorem moved_eq_zero {count : Nat} : moved there count = 0 ↔ there = 0 := by
  rw [moved]
  omega

namespace Answers

variable (a : Answers)

def writeOut : Nat → Nat → Bytes → Bytes × Nat × Option Errno
  | 0, calls, _ => ([], calls, none)
  | fuel + 1, calls, left =>
      if left = [] then ([], calls, none)
      else
        match a.write calls with
        | some err => ([], calls + 1, some err)
        | none =>
            let w := moved left.length (a.writeCount calls)
            let rest := writeOut fuel (calls + 1) (left.drop w)
            (left.take w ++ rest.1, rest.2)

def copyLoop : Nat → Nat → Nat → Bytes → Bytes × Option Errno
  | 0, _, _, _ => ([], none)
  | fuel + 1, reads, writes, left =>
      match a.read reads with
      | some err => ([], some err)
      | none =>
          let n := moved (min left.length 65536) (a.readCount reads)
          if n = 0 then ([], none)
          else
            let out := a.writeOut n writes (left.take n)
            match out.2.2 with
            | some err => (out.1, some err)
            | none =>
                let rest := copyLoop fuel (reads + 1) out.2.1 (left.drop n)
                (out.1 ++ rest.1, rest.2)

end Answers

/-- `open(path, O_WRONLY | O_CREAT | O_EXCL | O_CLOEXEC, mode)` -/
def openNew (t : Tracer) (fs : FS) (path : Text) (fault : Option Errno) (mode : Nat) : Except Nat FS :=
  match fault with
  | some err => .error err.value
  | none =>
      match kernelWalk t.cwd path with
      | none => .error ENAMETOOLONG
      | some raw =>
          if raw.getLast? = some [] then .error EISDIR
          else
            match fs.namei raw false with
            | none => .error (t.host.errno path).value
            | some place =>
                if fs.get place ≠ none then .error EEXIST
                else
                  match (fs.allocate ⟨mode ^^^ (mode &&& fs.umask), []⟩).create place
                      (.file fs.inodes.length) with
                  | some made => .ok made
                  | none => .error (t.host.errno path).value

def fill (t : Tracer) (a : Answers) (new : Text) (source : Inode) (before made : FS) : FS × Int :=
  let ino := before.inodes.length
  let copied := a.copyLoop (source.content.length + 1) 0 0 source.content
  let chmod := copied.2.or a.fchmod
  let mode := if chmod = none then source.mode &&& 0o7777 else (made.inodes.getD ino default).mode
  let filled := made.setInode ino ⟨mode, copied.1⟩
  match chmod.or a.close with
  | none => (filled, 0)
  | some err => (unlinkHost t filled new, negative err.value)

def copyTo (t : Tracer) (a : Answers) (new : Text) (source : Inode) : FS × Int :=
  let fs := t.host.fs
  let mode := source.mode &&& 0o777
  match openNew t fs new a.openNew mode with
  | .ok made => fill t a new source fs made
  | .error err =>
      if err = EEXIST ∧ contains dpkgStatusOld new = true then
        let emptied := unlinkHost t fs new
        match openNew t emptied new a.openAgain mode with
        | .ok made => fill t a new source emptied made
        | .error err => (emptied, negative err)
      else (fs, negative err)

def AT_SYMLINK_FOLLOW : CInt := 0x400

def copyFileForLinkat (t : Tracer) (a : Answers) (old new : Text) (flags : CInt) : FS × Int :=
  let fs := t.host.fs
  if flags &&& ~~~AT_SYMLINK_FOLLOW ≠ 0 then (fs, negative EINVAL)
  else
    match (kernelWalk t.cwd old).bind fs.stat with
    | none => (fs, negative (t.host.errno old).value)
    | some (.file ino) =>
        match a.openOld with
        | some err => (fs, negative err.value)
        | none => copyTo t a new (fs.inodes.getD ino default)
    | some _ => (fs, -EXDEV.toInt)

def emulateLinkatCopy (t : Tracer) (a : Answers) (regs : Regs) : FS × Option Int :=
  match (t.resolveTraceeHostPath (toInt32 (regs.x 0)) (regs.x 1)).1,
    (t.resolveTraceeHostPath (toInt32 (regs.x 2)) (regs.x 3)).1 with
  | .none, _ => (t.host.fs, none)
  | _, .none => (t.host.fs, none)
  | .error err, _ => (t.host.fs, some (negative err))
  | _, .error err => (t.host.fs, some (negative err))
  | .path old, .path new =>
      let copied := copyFileForLinkat t a old new (toInt32 (regs.x 4))
      (copied.1, some copied.2)

def Untouched (before after : FS) : Prop := Frame (fun _ => False) before after

/-- The new name stands for a file that was not there before, with the bytes and the permission bits of the
old one. All other names and all files are as they were. -/
structure Copied (t : Tracer) (old new : Text) (source : Nat) (place : Path) (after : FS) : Prop where
  reads : (kernelWalk t.cwd old).bind t.host.fs.stat = some (.file source)
  makes : ((kernelWalk t.cwd new).bind fun raw => t.host.fs.namei raw false) = some place
  fresh : after.get place = some (.file t.host.fs.inodes.length)
  mode : (after.inodes.getD t.host.fs.inodes.length default).mode =
    (t.host.fs.inodes.getD source default).mode &&& 0o7777
  content : (after.inodes.getD t.host.fs.inodes.length default).content =
    (t.host.fs.inodes.getD source default).content
  others : Frame (· = place) t.host.fs after

def Atomic (t : Tracer) (old new : Text) (after : FS × Int) : Prop :=
  (after.2 = 0 ∧ ∃ source place, Copied t old new source place after.1) ∨
    (after.2 < 0 ∧ Untouched t.host.fs after.1)

structure Replaces (t : Tracer) (a : Answers) (old new : Text) (flags : CInt) (source : Nat)
    (emptied : FS) : Prop where
  flags : flags &&& ~~~AT_SYMLINK_FOLLOW = 0
  reads : (kernelWalk t.cwd old).bind t.host.fs.stat = some (.file source)
  readable : a.openOld = none
  taken : openNew t t.host.fs new a.openNew ((t.host.fs.inodes.getD source default).mode &&& 0o777) =
    .error EEXIST
  named : contains dpkgStatusOld new = true
  removed : (kernelWalk t.cwd new).bind t.host.fs.unlink = some emptied

namespace Answers

variable (a : Answers)

def writesEnd : Nat → Nat → Nat → Nat
  | 0, calls, _ => calls
  | fuel + 1, calls, left =>
      if left = 0 then calls else writesEnd fuel (calls + 1) (left - moved left (a.writeCount calls))

def copyEnd : Nat → Nat → Nat → Nat → Nat × Nat
  | 0, reads, writes, _ => (reads, writes)
  | fuel + 1, reads, writes, left =>
      let n := moved (min left 65536) (a.readCount reads)
      if n = 0 then (reads + 1, writes) else copyEnd fuel (reads + 1) (a.writesEnd n writes n) (left - n)

structure Fine (size : Nat) : Prop where
  read : ∀ call < (a.copyEnd (size + 1) 0 0 size).1, a.read call = none
  write : ∀ call < (a.copyEnd (size + 1) 0 0 size).2, a.write call = none
  fchmod : a.fchmod = none
  close : a.close = none

variable {a}

theorem writesEnd_ge (fuel calls left : Nat) : calls ≤ a.writesEnd fuel calls left := by
  induction fuel generalizing calls left with
  | zero => exact Nat.le_refl calls
  | succ fuel ih =>
      rw [writesEnd]
      split
      · exact Nat.le_refl calls
      · exact (Nat.le_succ calls).trans (ih _ _)

theorem copyEnd_ge (fuel reads writes left : Nat) :
    reads ≤ (a.copyEnd fuel reads writes left).1 ∧ writes ≤ (a.copyEnd fuel reads writes left).2 := by
  induction fuel generalizing reads writes left with
  | zero => exact ⟨Nat.le_refl _, Nat.le_refl _⟩
  | succ fuel ih =>
      rw [copyEnd]
      split
      · exact ⟨Nat.le_succ _, Nat.le_refl _⟩
      · obtain ⟨later, more⟩ := ih (reads + 1) (a.writesEnd (moved (min left 65536) (a.readCount reads)) writes
          (moved (min left 65536) (a.readCount reads))) (left - moved (min left 65536) (a.readCount reads))
        exact ⟨(Nat.le_succ _).trans later, (writesEnd_ge _ _ _).trans more⟩

variable {calls fuel reads writes : Nat} {left : Bytes}

theorem writeOut_fine (enough : left.length ≤ fuel)
    (fine : ∀ call, calls ≤ call → call < a.writesEnd fuel calls left.length → a.write call = none) :
    a.writeOut fuel calls left = (left, a.writesEnd fuel calls left.length, none) := by
  induction fuel generalizing calls left with
  | zero =>
      rw [List.length_eq_zero_iff.mp (Nat.le_zero.mp enough)]
      rfl
  | succ fuel ih =>
      rw [writesEnd] at fine ⊢
      rw [writeOut]
      by_cases empty : left = []
      · subst empty
        rfl
      have filled : left.length ≠ 0 := fun none => empty (List.length_eq_zero_iff.mp none)
      have some_moved := moved_positive (Nat.pos_of_ne_zero filled) (a.writeCount calls)
      rw [if_neg filled] at fine ⊢
      rw [if_neg empty, fine calls (Nat.le_refl _) (writesEnd_ge _ _ _)]
      rw [← List.length_drop] at fine ⊢
      have rest := ih (by rw [List.length_drop]; omega) fun call later before =>
        fine call ((Nat.le_succ _).trans later) before
      simp only [rest, List.take_append_drop]

theorem writeOut_failed {call : Nat} (later : calls ≤ call)
    (before : call < a.writesEnd fuel calls left.length) (failed : a.write call ≠ none) :
    (a.writeOut fuel calls left).2.2 ≠ none := by
  induction fuel generalizing calls left with
  | zero => exact absurd before (Nat.not_lt.mpr later)
  | succ fuel ih =>
      rw [writesEnd] at before
      rw [writeOut]
      by_cases empty : left = []
      · rw [empty, List.length_nil, if_pos rfl] at before
        exact absurd before (Nat.not_lt.mpr later)
      have filled : left.length ≠ 0 := fun none => empty (List.length_eq_zero_iff.mp none)
      rw [if_neg filled, ← List.length_drop] at before
      rw [if_neg empty]
      cases answer : a.write calls with
      | some err => exact Option.some_ne_none err
      | none =>
          refine ih ?_ before
          exact Nat.lt_of_le_of_ne later fun same => failed (same ▸ answer)

theorem copyLoop_fine (enough : left.length < fuel)
    (reading : ∀ call, reads ≤ call → call < (a.copyEnd fuel reads writes left.length).1 → a.read call = none)
    (writing : ∀ call, writes ≤ call → call < (a.copyEnd fuel reads writes left.length).2 →
      a.write call = none) :
    a.copyLoop fuel reads writes left = (left, none) := by
  induction fuel generalizing reads writes left with
  | zero => exact absurd enough (Nat.not_lt_zero _)
  | succ fuel ih =>
      have first : a.read reads = none := by
        refine reading reads (Nat.le_refl _) ?_
        rw [copyEnd]
        split
        · exact Nat.lt_succ_self _
        · exact (copyEnd_ge _ _ _ _).1
      rw [copyEnd] at reading writing
      rw [copyLoop, first]
      simp only
      generalize count : moved (min left.length 65536) (a.readCount reads) = n at reading writing ⊢
      have within : n ≤ left.length := by
        have bound := moved_le (min left.length 65536) (a.readCount reads)
        omega
      by_cases ended : n = 0
      · have nothing : min left.length 65536 = 0 := moved_eq_zero.mp (count.trans ended)
        rw [if_pos ended, List.length_eq_zero_iff.mp (by omega : left.length = 0)]
      rw [if_neg ended, ← List.length_drop] at reading writing
      rw [if_neg ended]
      have taken : (left.take n).length = n := List.length_take_of_le within
      have chunk : a.writeOut n writes (left.take n) = (left.take n, a.writesEnd n writes n, none) := by
        rw [writeOut_fine (Nat.le_of_eq taken), taken]
        rw [taken]
        exact fun call later before => writing call later (before.trans_le (copyEnd_ge _ _ _ _).2)
      have less : (left.drop n).length < fuel := by
        rw [List.length_drop]
        omega
      have rest := ih less (fun call later before => reading call ((Nat.le_succ _).trans later) before)
        (fun call later before => writing call ((writesEnd_ge _ _ _).trans later) before)
      simp only [chunk, rest, List.take_append_drop]

theorem copyLoop_failed
    (failed : (∃ call, reads ≤ call ∧ call < (a.copyEnd fuel reads writes left.length).1 ∧ a.read call ≠ none) ∨
      ∃ call, writes ≤ call ∧ call < (a.copyEnd fuel reads writes left.length).2 ∧ a.write call ≠ none) :
    (a.copyLoop fuel reads writes left).2 ≠ none := by
  induction fuel generalizing reads writes left with
  | zero =>
      rcases failed with ⟨call, later, before, -⟩ | ⟨call, later, before, -⟩
      · exact absurd before (Nat.not_lt.mpr later)
      · exact absurd before (Nat.not_lt.mpr later)
  | succ fuel ih =>
      rw [copyLoop]
      cases first : a.read reads with
      | some err => exact Option.some_ne_none err
      | none =>
          rw [copyEnd] at failed
          simp only
          generalize count : moved (min left.length 65536) (a.readCount reads) = n at failed ⊢
          have within : n ≤ left.length := by
            have bound := moved_le (min left.length 65536) (a.readCount reads)
            omega
          by_cases ended : n = 0
          · rw [if_pos ended] at failed
            rcases failed with ⟨call, later, before, failed⟩ | ⟨call, later, before, -⟩
            · have same : call = reads := Nat.le_antisymm (Nat.le_of_lt_succ before) later
              exact absurd (same ▸ first) failed
            · exact absurd before (Nat.not_lt.mpr later)
          rw [if_neg ended, ← List.length_drop] at failed
          rw [if_neg ended]
          have taken : (left.take n).length = n := List.length_take_of_le within
          cases broken : (a.writeOut n writes (left.take n)).2.2 with
          | some err => exact Option.some_ne_none err
          | none =>
              have whole : ∀ call, writes ≤ call → call < a.writesEnd n writes n → a.write call = none := by
                intro call later before
                by_contra failed
                exact writeOut_failed later (taken.symm ▸ before) failed broken
              have chunk : a.writeOut n writes (left.take n) = (left.take n, a.writesEnd n writes n, none) := by
                rw [writeOut_fine (Nat.le_of_eq taken), taken]
                rwa [taken]
              simp only [chunk]
              refine ih ?_
              rcases failed with ⟨call, later, before, failed⟩ | ⟨call, later, before, failed⟩
              · refine .inl ⟨call, Nat.lt_of_le_of_ne later fun same => failed (same ▸ first), before, failed⟩
              · refine .inr ⟨call, Nat.not_lt.mp fun early => failed (whole call later early), before, failed⟩

end Answers

structure Makes (t : Tracer) (fs : FS) (path : Text) (raw : List Name) (place : Path) (made : FS) : Prop where
  walk : kernelWalk t.cwd path = some raw
  found : fs.namei raw false = some place
  free : fs.get place = none
  proper : place ≠ []
  get : ∀ other, made.get other = if other = place then some (.file fs.inodes.length) else fs.get other
  inodes : ∃ inode, made.inodes = fs.inodes ++ [inode]

section

variable {t : Tracer} {a : Answers} {fs made : FS} {path : Text} {raw : List Name} {place : Path}

theorem makes_of_openNew {fault : Option Errno} {mode : Nat} (opened : openNew t fs path fault mode = .ok made) :
    ∃ raw place, Makes t fs path raw place made := by
  cases fault with
  | some err => cases opened
  | none =>
      simp only [openNew] at opened
      split at opened
      · cases opened
      rename_i raw walk
      split at opened
      · cases opened
      split at opened
      · cases opened
      rename_i place found
      split at opened
      · cases opened
      rename_i free
      rw [not_not] at free
      split at opened
      · rename_i after created
        cases opened
        simp only [FS.create] at created
        split at created
        · cases created
        rename_i name last
        split at created
        · rename_i fits
          cases created
          obtain ⟨parent, rfl⟩ := List.getLast?_eq_some_iff.mp last
          rw [List.dropLast_concat] at fits
          refine ⟨raw, parent ++ [name], walk, found, free, by simp, fun other => ?_, ?_⟩
          · rw [List.dropLast_concat]
            have valid : (Entry.file fs.inodes.length).ValidFor
                (fs.allocate ⟨mode ^^^ (mode &&& fs.umask), []⟩).inodes.length := by
              simp [Entry.ValidFor]
            exact FS.get_add fits.1 fits.2.1 fits.2.2 valid other
          · exact ⟨_, FS.inodes_add _ _ _ _⟩
        · cases created
      · cases opened

variable (makes : Makes t fs path raw place made)

include makes

theorem Makes.filled (inode : Inode) :
    (made.setInode fs.inodes.length inode).inodes = fs.inodes ++ [inode] := by
  obtain ⟨first, same⟩ := makes.inodes
  rw [FS.inodes_setInode, same, List.set_append_right _ _ (Nat.le_refl _), Nat.sub_self]
  rfl

theorem Makes.others (inode : Inode) :
    Frame (· = place) fs (made.setInode fs.inodes.length inode) where
  get := by
    intro other different
    rw [FS.get_setInode, makes.get, if_neg different]
  inodes := by
    rw [makes.filled]
    exact List.prefix_append _ _

theorem Makes.unlinked (inode : Inode) :
    Untouched fs (unlinkHost t (made.setInode fs.inodes.length inode) path) := by
  have grown : ∀ other entry, fs.get other = some entry →
      (made.setInode fs.inodes.length inode).get other = some entry := by
    intro other entry there
    rw [FS.get_setInode, makes.get, if_neg, there]
    rintro rfl
    cases makes.free.symm.trans there
  have found : (made.setInode fs.inodes.length inode).namei raw false = some place :=
    FS.namei_of_less grown makes.found
  have there : (made.setInode fs.inodes.length inode).get place = some (.file fs.inodes.length) := by
    rw [FS.get_setInode, makes.get, if_pos rfl]
  have gone : unlinkHost t (made.setInode fs.inodes.length inode) path =
      (made.setInode fs.inodes.length inode).remove place := by
    simp only [unlinkHost, makes.walk, Option.bind_some, FS.unlink, found, there, Option.getD_some]
  rw [gone]
  refine ⟨fun other _ => ?_, ?_⟩
  · rw [FS.get_remove makes.proper]
    split
    · rename_i below
      exact (FS.get_eq_none_below makes.free below).symm
    rename_i apart
    rw [FS.get_setInode, makes.get, if_neg]
    rintro rfl
    exact apart (List.prefix_refl _)
  · rw [FS.inodes_remove, makes.filled]
    exact List.prefix_append _ _

omit makes

theorem negative_lt (err : Errno) : negative err.value < 0 := by
  have positive := err.positive
  rw [negative]
  omega

variable {before : FS}

theorem fill_fine {source : Inode} (fine : a.Fine source.content.length) :
    fill t a path source before made =
      (made.setInode before.inodes.length ⟨source.mode &&& 0o7777, source.content⟩, 0) := by
  have whole : a.copyLoop (source.content.length + 1) 0 0 source.content = (source.content, none) :=
    Answers.copyLoop_fine (Nat.lt_succ_self _) (fun call _ before => fine.read call before)
      fun call _ before => fine.write call before
  simp only [fill, whole, fine.fchmod, fine.close, Option.or_none, if_pos]

theorem fill_failed {source : Inode} (makes : Makes t before path raw place made)
    (failed : ¬ a.Fine source.content.length) :
    (fill t a path source before made).2 < 0 ∧ Untouched before (fill t a path source before made).1 := by
  simp only [fill]
  cases rc : ((a.copyLoop (source.content.length + 1) 0 0 source.content).2.or a.fchmod).or a.close with
  | some err => exact ⟨negative_lt err, makes.unlinked _⟩
  | none =>
      rw [Option.or_eq_none_iff, Option.or_eq_none_iff] at rc
      obtain ⟨⟨copied, fchmod⟩, close⟩ := rc
      refine absurd ⟨fun call before => ?_, fun call before => ?_, fchmod, close⟩ failed
      · by_contra broken
        exact Answers.copyLoop_failed (.inl ⟨call, Nat.zero_le _, before, broken⟩) copied
      · by_contra broken
        exact Answers.copyLoop_failed (.inr ⟨call, Nat.zero_le _, before, broken⟩) copied

theorem removed_spec {emptied : FS} (walk : kernelWalk t.cwd path = some raw)
    (removed : (kernelWalk t.cwd path).bind fs.unlink = some emptied) :
    ∃ place, fs.namei raw false = some place ∧ fs.get place ≠ none ∧ emptied.get place = none ∧
      Frame (· = place) fs emptied ∧ emptied.inodes = fs.inodes := by
  rw [walk, Option.bind_some, FS.unlink] at removed
  obtain ⟨place, found, removed⟩ := Option.bind_eq_some_iff.mp removed
  obtain ⟨entry, there, flat, rfl⟩ : ∃ entry, fs.get place = some entry ∧ entry.isDir = false ∧
      emptied = fs.remove place := by
    split at removed
    · rename_i ino there
      exact ⟨_, there, rfl, (Option.some.inj removed).symm⟩
    · rename_i target there
      exact ⟨_, there, rfl, (Option.some.inj removed).symm⟩
    · cases removed
    · cases removed
  have notDir : fs.isDirAt place = false := by rw [FS.isDirAt_of_get there, flat]
  have proper : place ≠ [] := by
    rintro rfl
    obtain ⟨mode, root⟩ := fs.wellFormed.root
    have same : some entry = some (.dir mode) := there.symm.trans root
    cases same
    cases flat
  refine ⟨place, found, by rw [there]; exact Option.some_ne_none entry, ?_, ⟨fun other different => ?_, ?_⟩, ?_⟩
  · rw [FS.get_remove proper, if_pos (List.prefix_refl _)]
  · rw [FS.get_remove proper]
    split
    · rename_i below
      obtain ⟨rest, rfl⟩ := below
      refine (FS.get_append_of_not_dir notDir ?_).symm
      rintro rfl
      exact different (List.append_nil _)
    · rfl
  · rw [FS.inodes_remove]
  · exact FS.inodes_remove _ _

end

section

variable {t : Tracer} {a : Answers} {old new : Text} {source : Nat}

theorem copied_of_makes {before made : FS} {raw : List Name} {place : Path}
    (reads : (kernelWalk t.cwd old).bind t.host.fs.stat = some (.file source))
    (makes : Makes t before new raw place made) (found : t.host.fs.namei raw false = some place)
    (others : Frame (· = place) t.host.fs before) (inodes : before.inodes = t.host.fs.inodes) :
    Copied t old new source place (made.setInode before.inodes.length
      ⟨(t.host.fs.inodes.getD source default).mode &&& 0o7777,
        (t.host.fs.inodes.getD source default).content⟩) := by
  have last : ∀ inode, ((made.setInode before.inodes.length inode).inodes.getD t.host.fs.inodes.length default) =
      inode := by
    intro inode
    rw [makes.filled, ← inodes, List.getD_append_right _ _ _ _ (Nat.le_refl _), Nat.sub_self]
    rfl
  refine ⟨reads, ?_, ?_, by rw [last], by rw [last], others.trans (makes.others _)⟩
  · rw [makes.walk, Option.bind_some, found]
  · rw [FS.get_setInode, makes.get, if_pos rfl, inodes]

variable {fault : Option Errno} {mode : Nat} {emptied : FS} {err : Int}

theorem fill_atomic {made : FS} (reads : (kernelWalk t.cwd old).bind t.host.fs.stat = some (.file source))
    (opened : openNew t t.host.fs new fault mode = .ok made) :
    Atomic t old new (fill t a new (t.host.fs.inodes.getD source default) t.host.fs made) := by
  obtain ⟨raw, place, makes⟩ := makes_of_openNew opened
  by_cases fine : a.Fine (t.host.fs.inodes.getD source default).content.length
  · rw [fill_fine fine]
    exact .inl ⟨rfl, source, place, copied_of_makes reads makes makes.found (Frame.refl _ _) rfl⟩
  · exact .inr (fill_failed makes fine)

def Refills (t : Tracer) (a : Answers) (new : Text) (source : Inode) (emptied : FS) : Prop :=
  (∃ made, openNew t emptied new a.openAgain (source.mode &&& 0o777) = .ok made) ∧
    a.Fine source.content.length

theorem refill_atomic_iff {made : FS} (reads : (kernelWalk t.cwd old).bind t.host.fs.stat = some (.file source))
    (removed : (kernelWalk t.cwd new).bind t.host.fs.unlink = some emptied)
    (opened : openNew t emptied new fault mode = .ok made) :
    Atomic t old new (fill t a new (t.host.fs.inodes.getD source default) emptied made) ↔
      a.Fine (t.host.fs.inodes.getD source default).content.length := by
  obtain ⟨raw, place, makes⟩ := makes_of_openNew opened
  obtain ⟨there, found, taken, missing, others, inodes⟩ := removed_spec makes.walk removed
  have fewer : ∀ path entry, emptied.get path = some entry → t.host.fs.get path = some entry := by
    intro path entry kept
    rw [← others.get path, kept]
    rintro rfl
    cases missing.symm.trans kept
  have same : there = place := Option.some.inj (found.symm.trans (FS.namei_of_less fewer makes.found))
  subst same
  constructor
  · intro atomic
    by_contra failed
    obtain ⟨negative, untouched⟩ := fill_failed makes failed
    rcases atomic with ⟨zero, -⟩ | ⟨-, kept⟩
    · omega
    · apply taken
      rw [← kept.get there (fun none => none), untouched.get there (fun none => none), missing]
  · intro fine
    rw [fill_fine fine]
    exact .inl ⟨rfl, source, there, copied_of_makes reads makes found others inodes⟩

theorem atomic_error (error : err < 0) : Atomic t old new (t.host.fs, err) :=
  .inr ⟨error, Frame.refl _ _⟩

theorem openNew_error {fs : FS} {path : Text} {err : Nat}
    (failed : openNew t fs path fault mode = .error err) : negative err < 0 := by
  suffices positive : 0 < err by
    rw [negative]
    omega
  cases fault with
  | some err =>
      cases failed
      exact err.positive
  | none =>
      simp only [openNew] at failed
      split at failed
      · cases failed
        decide
      split at failed
      · cases failed
        decide
      split at failed
      · cases failed
        exact (t.host.errno path).positive
      split at failed
      · cases failed
        decide
      split at failed
      · cases failed
      · cases failed
        exact (t.host.errno path).positive

theorem emptied_not_atomic (error : err < 0) (removed : (kernelWalk t.cwd new).bind t.host.fs.unlink = some emptied) :
    ¬ Atomic t old new (emptied, err) := by
  obtain ⟨raw, walk, -⟩ := Option.bind_eq_some_iff.mp removed
  obtain ⟨there, -, taken, missing, -, -⟩ := removed_spec walk removed
  rintro (⟨zero, -⟩ | ⟨-, kept⟩)
  · exact absurd zero (Int.ne_of_lt error)
  · exact taken (by rw [← kept.get there (fun none => none), missing])

theorem copyTo_atomic_iff {flags : CInt} (plain : flags &&& ~~~AT_SYMLINK_FOLLOW = 0)
    (reads : (kernelWalk t.cwd old).bind t.host.fs.stat = some (.file source)) (readable : a.openOld = none) :
    Atomic t old new (copyTo t a new (t.host.fs.inodes.getD source default)) ↔
      ∀ emptied, Replaces t a old new flags source emptied →
        Refills t a new (t.host.fs.inodes.getD source default) emptied := by
  simp only [copyTo]
  cases first : openNew t t.host.fs new a.openNew
      ((t.host.fs.inodes.getD source default).mode &&& 0o777) with
  | ok made =>
      refine iff_of_true (fill_atomic reads first) fun emptied replaces => ?_
      cases first.symm.trans replaces.taken
  | error err =>
      simp only
      by_cases again : err = EEXIST ∧ contains dpkgStatusOld new = true
      · obtain ⟨rfl, named⟩ := again
        rw [if_pos ⟨rfl, named⟩]
        cases removed : (kernelWalk t.cwd new).bind t.host.fs.unlink with
        | none =>
            rw [unlinkHost, removed, Option.getD_none]
            refine iff_of_true ?_ fun emptied replaces => ?_
            · cases second : openNew t t.host.fs new a.openAgain
                  ((t.host.fs.inodes.getD source default).mode &&& 0o777) with
              | ok made => exact fill_atomic reads second
              | error err => exact atomic_error (openNew_error second)
            · cases removed.symm.trans replaces.removed
        | some emptied =>
            rw [unlinkHost, removed, Option.getD_some]
            have replaces : Replaces t a old new flags source emptied :=
              ⟨plain, reads, readable, first, named, removed⟩
            have only : ∀ other, Replaces t a old new flags source other → other = emptied :=
              fun other replaced => Option.some.inj (replaced.removed.symm.trans removed)
            cases second : openNew t emptied new a.openAgain
                ((t.host.fs.inodes.getD source default).mode &&& 0o777) with
            | ok made =>
                simp only
                rw [refill_atomic_iff reads removed second]
                constructor
                · intro fine other replaced
                  rw [only other replaced]
                  exact ⟨⟨made, second⟩, fine⟩
                · exact fun refills => (refills emptied replaces).2
            | error err =>
                refine iff_of_false (emptied_not_atomic (openNew_error second) removed) fun refills => ?_
                obtain ⟨⟨made, opened⟩, -⟩ := refills emptied replaces
                cases second.symm.trans opened
      · rw [if_neg again]
        refine iff_of_true (atomic_error (openNew_error first)) fun emptied replaces => ?_
        have same : Except.error (ε := Nat) (α := FS) err = .error EEXIST := first.symm.trans replaces.taken
        cases same
        exact absurd ⟨rfl, replaces.named⟩ again

theorem copyFileForLinkat_atomic_iff (t : Tracer) (a : Answers) (old new : Text) (flags : CInt) :
    Atomic t old new (copyFileForLinkat t a old new flags) ↔
      ∀ source emptied, Replaces t a old new flags source emptied →
        Refills t a new (t.host.fs.inodes.getD source default) emptied := by
  have error : ∀ {err : Int}, err < 0 → (∀ source emptied, ¬ Replaces t a old new flags source emptied) →
      (Atomic t old new (t.host.fs, err) ↔ ∀ source emptied, Replaces t a old new flags source emptied →
        Refills t a new (t.host.fs.inodes.getD source default) emptied) :=
    fun negative never => iff_of_true (atomic_error negative) fun source emptied replaces =>
      absurd replaces (never source emptied)
  simp only [copyFileForLinkat]
  by_cases plain : flags &&& ~~~AT_SYMLINK_FOLLOW = 0
  · rw [if_neg (not_not.mpr plain)]
    split
    · rename_i missing
      exact error (negative_lt _) fun _ _ replaces => by cases missing.symm.trans replaces.reads
    · rename_i source found
      cases readable : a.openOld with
      | some err => exact error (negative_lt err) fun _ _ replaces => by cases readable.symm.trans replaces.readable
      | none =>
          simp only
          rw [copyTo_atomic_iff plain found readable]
          constructor
          · intro refills other emptied replaces
            cases found.symm.trans replaces.reads
            exact refills emptied replaces
          · exact fun refills emptied replaces => refills source emptied replaces
    · rename_i entry other found
      refine error (by decide) fun source _ replaces => ?_
      exact other source (Option.some.inj (found.symm.trans replaces.reads))
  · rw [if_pos plain]
    exact error (by decide) fun _ _ replaces => plain replaces.flags

end

/-- What `emulate_linkat_copy` leaves: the copy of what the two names of the tracee stand for with the
result zero, or nothing but another result. -/
def LinkAtomic (t : Tracer) (regs : Regs) (after : FS × Option Int) : Prop :=
  (after.2 = some 0 ∧ ∃ old new source place,
      (t.resolveTraceeHostPath (toInt32 (regs.x 0)) (regs.x 1)).1 = .path old ∧
        (t.resolveTraceeHostPath (toInt32 (regs.x 2)) (regs.x 3)).1 = .path new ∧
          Copied t old new source place after.1) ∨
    ((∀ result, after.2 = some result → result < 0) ∧ Untouched t.host.fs after.1)

theorem resolve_error {t : Tracer} {dirfd : CInt} {addr : Reg} {err : Nat}
    (failed : (t.resolveTraceeHostPath dirfd addr).1 = .error err) : negative err < 0 := by
  suffices value : err = ENOENT ∨ err = ENAMETOOLONG by
    rcases value with rfl | rfl
    · decide
    · decide
  simp only [Tracer.resolveTraceeHostPath] at failed
  split at failed
  · cases failed
  split at failed
  · exact .inl (HostPath.error.inj failed).symm
  split at failed
  · split at failed
    · cases failed
    · exact .inr (HostPath.error.inj failed).symm
    · cases failed
  split at failed
  · cases failed
  split at failed
  · cases failed
  · split at failed
    · exact .inr (HostPath.error.inj failed).symm
    · cases failed

/-- The copy is atomic if and only if a name of the package manager that it takes away is made again and
no call on the descriptors fails from there on. -/
theorem emulateLinkatCopy_atomic_iff (t : Tracer) (a : Answers) (regs : Regs) :
    LinkAtomic t regs (emulateLinkatCopy t a regs) ↔
      ∀ old new source emptied, (t.resolveTraceeHostPath (toInt32 (regs.x 0)) (regs.x 1)).1 = .path old →
        (t.resolveTraceeHostPath (toInt32 (regs.x 2)) (regs.x 3)).1 = .path new →
          Replaces t a old new (toInt32 (regs.x 4)) source emptied →
            Refills t a new (t.host.fs.inodes.getD source default) emptied := by
  have still : ∀ result : Option Int, (∀ err, result = some err → err < 0) →
      LinkAtomic t regs (t.host.fs, result) := fun result error => .inr ⟨error, Frame.refl _ _⟩
  have skipped : LinkAtomic t regs (t.host.fs, none) := still none fun _ none => by cases none
  simp only [emulateLinkatCopy]
  cases oldPath : (t.resolveTraceeHostPath (toInt32 (regs.x 0)) (regs.x 1)).1 with
  | none => exact iff_of_true skipped fun _ _ _ _ impossible => by cases impossible
  | error err =>
      have failed : LinkAtomic t regs (t.host.fs, some (negative err)) :=
        still _ fun _ same => Option.some.inj same ▸ resolve_error oldPath
      cases newPath : (t.resolveTraceeHostPath (toInt32 (regs.x 2)) (regs.x 3)).1 with
      | none => exact iff_of_true skipped fun _ _ _ _ impossible => by cases impossible
      | error _ | path _ => exact iff_of_true failed fun _ _ _ _ impossible => by cases impossible
  | path old =>
      cases newPath : (t.resolveTraceeHostPath (toInt32 (regs.x 2)) (regs.x 3)).1 with
      | none => exact iff_of_true skipped fun _ _ _ _ _ impossible => by cases impossible
      | error err =>
          refine iff_of_true (still _ fun _ same => Option.some.inj same ▸ resolve_error newPath) ?_
          exact fun _ _ _ _ _ impossible => by cases impossible
      | path new =>
          have link : LinkAtomic t regs ((copyFileForLinkat t a old new (toInt32 (regs.x 4))).1,
              some (copyFileForLinkat t a old new (toInt32 (regs.x 4))).2) ↔
                Atomic t old new (copyFileForLinkat t a old new (toInt32 (regs.x 4))) := by
            rw [LinkAtomic, Atomic, oldPath, newPath]
            constructor
            · rintro (⟨zero, old, new, source, place, sameOld, sameNew, copied⟩ | ⟨error, kept⟩)
              · cases sameOld
                cases sameNew
                exact .inl ⟨Option.some.inj zero, source, place, copied⟩
              · exact .inr ⟨error _ rfl, kept⟩
            · rintro (⟨zero, source, place, copied⟩ | ⟨error, kept⟩)
              · exact .inl ⟨congrArg some zero, old, new, source, place, rfl, rfl, copied⟩
              · exact .inr ⟨fun _ same => Option.some.inj same ▸ error, kept⟩
          rw [link, copyFileForLinkat_atomic_iff]
          constructor
          · intro refills _ _ source emptied sameOld sameNew
            cases sameOld
            cases sameNew
            exact refills source emptied
          · exact fun refills source emptied => refills old new source emptied rfl rfl

private def statusTree : FS :=
  .populate [.dir (pathOf "data/rootfs/var/lib/dpkg"), .file (pathOf "data/rootfs/var/lib/dpkg/status") [1],
    .file (pathOf "data/rootfs/var/lib/dpkg/status-old") [2]]

private def statusTracer : Tracer where
  host :=
    { fs := statusTree
      errno := fun _ => .noEntry
      rootfs := pathOf "data/rootfs"
      rootfsDir := by decide +kernel
      binds := []
      tty := false }
  cwd := []
  link := fun _ => none
  string := fun addr =>
    if addr = 1 then some "/var/lib/dpkg/status".toList
    else if addr = 2 then some "/var/lib/dpkg/status-old".toList
    else none

private def statusRegs : Regs := ⟨fun index => if index = 1 then 1 else if index = 3 then 2 else 0, 0, 0⟩

private def fullDisk : Answers where
  openOld := none
  openNew := none
  openAgain := none
  read := fun _ => none
  readCount := fun _ => 65536
  write := fun _ => some ⟨28, by decide, by decide⟩
  writeCount := fun _ => 65536
  fchmod := none
  close := none

deriving instance DecidableEq for HostPath

private def statusFile : Text := "/data/rootfs/var/lib/dpkg/status".toList
private def statusOldFile : Text := "/data/rootfs/var/lib/dpkg/status-old".toList

private theorem lost_not_linkAtomic {t : Tracer} {regs : Regs} {tree : FS} {err : Int} {path : Path}
    (failed : err ≠ 0) (lost : tree.get path = none) (there : t.host.fs.get path ≠ none) :
    ¬ LinkAtomic t regs (tree, some err) := by
  rintro (⟨zero, -⟩ | ⟨-, kept⟩)
  · exact failed (Option.some.inj zero)
  · exact there ((kept.get path fun none => none).symm.trans lost)

theorem status_old_lost :
    ¬ LinkAtomic statusTracer statusRegs (emulateLinkatCopy statusTracer fullDisk statusRegs) := by
  have old : (statusTracer.resolveTraceeHostPath (toInt32 (statusRegs.x 0)) (statusRegs.x 1)).1 =
      .path statusFile := by decide +kernel
  have new : (statusTracer.resolveTraceeHostPath (toInt32 (statusRegs.x 2)) (statusRegs.x 3)).1 =
      .path statusOldFile := by decide +kernel
  have flags : toInt32 (statusRegs.x 4) = 0 := by decide
  have failed : (copyFileForLinkat statusTracer fullDisk statusFile statusOldFile 0).2 ≠ 0 := by decide +kernel
  have lost : (copyFileForLinkat statusTracer fullDisk statusFile statusOldFile 0).1.get
      (pathOf "data/rootfs/var/lib/dpkg/status-old") = none := by decide +kernel
  have there : statusTracer.host.fs.get (pathOf "data/rootfs/var/lib/dpkg/status-old") ≠ none := by
    decide +kernel
  simp only [emulateLinkatCopy, old, new, flags]
  exact lost_not_linkAtomic failed lost there

end PDocker.Direct.LinkCopy
