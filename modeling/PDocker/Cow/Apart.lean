import Mathlib.Data.Set.Basic
import PDocker.Cow.Syscalls

/-!
# The process and the layers

Some directories belong to layers. The process never comes to one of them: what
it can name starts at its root, its working directory or an open directory, and
none of these leads there. It may still hold a file of a layer under a name of
its own. A step of the process *keeps* a file when the names in the
layers stay as they are, and so does the inode of the file as long as a layer
holds it.
-/

set_option autoImplicit false

namespace PDocker.Cow

open Data (Table Text)
open Posix (Name dot dotdot)

namespace Kernel

def Shared (layers : Set DirId) (k : Kernel) (ino : Ino) : Prop :=
  ∃ slot : Slot, slot.1 ∈ layers ∧ k.names.lookup slot = some (.file ino)

structure Apart (layers : Set DirId) (file : Ino) (k : Kernel) : Prop where
  root : k.root ∉ layers
  cwd : k.cwd ∉ layers
  above : ∀ {dir : DirId}, dir ∉ layers → (k.above dir).1 ∉ layers
  names : ∀ {slot : Slot} {id : DirId}, slot.1 ∉ layers →
    k.names.lookup slot = some (.dir id) → id ∉ layers
  inos : ∀ {slot : Slot} {ino : Ino}, k.names.lookup slot = some (.file ino) → ino < k.next
  dirs : ∀ {dir : DirId}, dir ∈ layers → dir < k.next
  openDirs : ∀ {fd : Nat} {id : DirId}, k.files.lookup fd = some (.dir id) → id ∉ layers
  openInos : ∀ {fd : Nat} {ino : Ino} {writable : Bool},
    k.files.lookup fd = some (.file ino writable) → ino < k.next
  writable : ∀ {fd : Nat}, k.files.lookup fd = some (.file file true) → ¬ Shared layers k file

structure Keeps (layers : Set DirId) (file : Ino) (k k' : Kernel) : Prop where
  apart : Apart layers file k'
  names : ∀ slot : Slot, slot.1 ∈ layers → k'.names.lookup slot = k.names.lookup slot
  inode : Shared layers k file → k'.inodes file = k.inodes file

variable {layers : Set DirId} {file : Ino} {k k' k'' : Kernel}

variable {ino : Ino} {follow : Bool} {base : At} {path : Text} {slot : Slot} {node : Node} {handle : Handle}
  {flags : OpenFlags}

theorem Shared.lt (apart : Apart layers file k) (shared : Shared layers k ino) : ino < k.next := by
  obtain ⟨slot, _, file⟩ := shared
  exact apart.inos file

theorem shared_congr (same : ∀ slot : Slot, slot.1 ∈ layers →
    k'.names.lookup slot = k.names.lookup slot) (ino : Ino) :
    Shared layers k' ino ↔ Shared layers k ino := by
  constructor
  · intro ⟨slot, inside, file⟩
    exact ⟨slot, inside, same slot inside ▸ file⟩
  · intro ⟨slot, inside, file⟩
    exact ⟨slot, inside, (same slot inside).trans file⟩

theorem Keeps.shared (keeps : Keeps layers file k k') (ino : Ino) :
    Shared layers k' ino ↔ Shared layers k ino :=
  shared_congr keeps.names ino

theorem Apart.keeps (apart : Apart layers file k) : Keeps layers file k k where
  apart
  names := fun _ _ => rfl
  inode := fun _ => rfl

theorem Keeps.trans (first : Keeps layers file k k') (second : Keeps layers file k' k'') :
    Keeps layers file k k'' where
  apart := second.apart
  names := fun slot inside => (second.names slot inside).trans (first.names slot inside)
  inode := fun shared =>
    (second.inode ((first.shared file).mpr shared)).trans (first.inode shared)

def Place.Outside (layers : Set DirId) : Place → Prop
  | .dir id => id ∉ layers
  | .slot slot => slot.1 ∉ layers

variable (apart : Apart layers file k)

include apart

theorem Apart.up {dir : DirId} (outside : dir ∉ layers) : k.up dir ∉ layers := by
  rw [Kernel.up]
  split
  · exact outside
  · exact apart.above outside

private theorem walkParts_outside {onLink : DirId → List Name → Option Place}
    (links : ∀ dir parts place, dir ∉ layers → onLink dir parts = some place →
      Place.Outside layers place)
    (parts : List Name) (cur : DirId) (place : Place) (outside : cur ∉ layers)
    (walked : k.walkParts follow onLink cur parts = some place) : Place.Outside layers place := by
  induction parts generalizing cur with
  | nil =>
      cases walked
      exact outside
  | cons part rest ih =>
      rw [walkParts] at walked
      by_cases stays : part = [] ∨ part = dot
      · rw [if_pos stays] at walked
        exact ih cur outside walked
      rw [if_neg stays] at walked
      by_cases up : part = dotdot
      · rw [if_pos up] at walked
        exact ih _ (apart.up outside) walked
      rw [if_neg up] at walked
      have last : ∀ {rest : List Name},
          (if rest = [] then some (Place.slot (cur, part)) else none) = some place →
            Place.Outside layers place := by
        intro rest stopped
        split at stopped
        · cases stopped
          exact outside
        · cases stopped
      cases found : k.names.lookup (cur, part) with
      | none =>
          rw [found] at walked
          exact last walked
      | some node =>
          rw [found] at walked
          cases node with
          | dir id => exact ih id (apart.names outside found) walked
          | file ino => exact last walked
          | symlink target =>
              by_cases stop : rest = [] ∧ follow = false
              · simp only [if_pos stop] at walked
                cases walked
                exact outside
              simp only [if_neg stop] at walked
              refine links _ _ _ ?_ walked
              split
              · exact apart.root
              · exact outside

theorem walk_outside (links : Nat) (cur : DirId) (parts : List Name) (place : Place) (outside : cur ∉ layers)
    (walked : k.walk follow links cur parts = some place) : Place.Outside layers place := by
  induction links generalizing cur parts place with
  | zero =>
      exact walkParts_outside apart (fun _ _ _ _ none => by cases none) parts cur place outside walked
  | succ links ih =>
      exact walkParts_outside apart (fun _ _ _ => ih _ _ _) parts cur place outside walked

theorem startOf_outside {start : DirId} (started : k.startOf base path = some start) : start ∉ layers := by
  unfold startOf at started
  split at started
  · cases started
    exact apart.root
  cases base with
  | cwd =>
      cases started
      exact apart.cwd
  | fd number =>
      dsimp only at started
      split at started
      · rename_i opened
        cases started
        exact apart.openDirs opened
      · cases started

theorem find_outside
    {place : Place} (found : k.find base path follow = some place) : Place.Outside layers place := by
  obtain ⟨_, start, started, walked⟩ := find_eq_some.mp found
  exact walk_outside apart _ _ _ _ (startOf_outside apart started) walked

theorem entry_outside (found : k.entry base path = some slot) : slot.1 ∉ layers := by
  rw [entry] at found
  split at found
  · cases found
  dsimp only at found
  split at found
  · cases found
  split at found
  · cases found
  split at found
  · rename_i walked
    obtain ⟨start, started, walked⟩ := Option.bind_eq_some_iff.mp walked
    cases found
    exact walk_outside apart _ _ _ _ (startOf_outside apart started) walked
  · cases found

theorem inoAt_lt (found : k.inoAt base path follow = some ino) : ino < k.next := by
  obtain ⟨slot, _, file⟩ := inoAt_eq_some.mp found
  exact apart.inos file

theorem Shared.one_lt_nlink (shared : Shared layers k ino) (found : k.inoAt base path follow = some ino) :
    1 < k.nlink ino := by
  obtain ⟨slot, placed, file⟩ := inoAt_eq_some.mp found
  obtain ⟨lower, inside, held⟩ := shared
  have outside : slot.1 ∉ layers := find_outside apart placed
  have distinct : slot ≠ lower := by
    intro same
    exact outside (same ▸ inside)
  exact Kernel.one_lt_nlink distinct file held

theorem keeps_modify
    (free : ino = file → ¬ Shared layers k file) (after : Inode) : Keeps layers file k (k.modify ino after) where
  apart := { apart with }
  names := fun _ _ => rfl
  inode := by
    intro shared
    have different : file ≠ ino := by
      intro same
      exact free same.symm shared
    exact Function.update_of_ne different _ _

theorem keeps_allocate (inode : Inode) : Keeps layers file k (k.allocate inode) where
  apart :=
    { apart with
      inos := fun file => Nat.lt_succ_of_lt (apart.inos file)
      dirs := fun inside => Nat.lt_succ_of_lt (apart.dirs inside)
      openInos := fun opened => Nat.lt_succ_of_lt (apart.openInos opened) }
  names := fun _ _ => rfl
  inode := by
    intro shared
    exact Function.update_of_ne (Nat.ne_of_lt (shared.lt apart)) _ _

omit apart

def NodeOk (layers : Set DirId) (k : Kernel) : Node → Prop
  | .dir id => id ∉ layers
  | .file ino => ino < k.next
  | .symlink _ => True

theorem keeps_put (apart : Apart layers file k) (outside : slot.1 ∉ layers)
    (good : NodeOk layers k node) : Keeps layers file k (k.put slot node) := by
  have lookup : ∀ other : Slot, (k.put slot node).names.lookup other =
      if other = slot then some node else k.names.lookup other :=
    fun other => Table.lookup_insert_eq_ite k.names slot other node
  have names : ∀ other : Slot, other.1 ∈ layers →
      (k.put slot node).names.lookup other = k.names.lookup other := by
    intro other inside
    have different : other ≠ slot := by
      intro same
      exact outside (same ▸ inside)
    rw [lookup, if_neg different]
  refine ⟨{ apart with names := ?_, inos := ?_, writable := ?_ }, names, fun _ => rfl⟩
  · intro other id away found
    rw [lookup] at found
    split at found
    · cases found
      exact good
    · exact apart.names away found
  · intro other ino found
    rw [lookup] at found
    split at found
    · cases found
      exact good
    · exact apart.inos found
  · intro fd opened shared
    exact apart.writable opened ((shared_congr names file).mp shared)

theorem keeps_drop (apart : Apart layers file k) (outside : slot.1 ∉ layers) :
    Keeps layers file k (k.drop slot) := by
  have lookup : ∀ other : Slot, other ≠ slot →
      (k.drop slot).names.lookup other = k.names.lookup other :=
    fun other different => AList.lookup_erase_ne different
  have held : ∀ {other : Slot} {node : Node}, (k.drop slot).names.lookup other = some node →
      k.names.lookup other = some node := by
    intro other node found
    by_cases same : other = slot
    · subst same
      rw [drop, AList.lookup_erase] at found
      cases found
    · rwa [lookup other same] at found
  have names : ∀ other : Slot, other.1 ∈ layers →
      (k.drop slot).names.lookup other = k.names.lookup other := by
    intro other inside
    refine lookup other ?_
    intro same
    exact outside (same ▸ inside)
  refine ⟨{ apart with names := ?_, inos := ?_, writable := ?_ }, names, fun _ => rfl⟩
  · exact fun away found => apart.names away (held found)
  · exact fun found => apart.inos (held found)
  · exact fun opened shared => apart.writable opened ((shared_congr names _).mp shared)

theorem keeps_hang (apart : Apart layers file k) (id : DirId) (outside : slot.1 ∉ layers) :
    Keeps layers file k (k.hang id slot) where
  apart :=
    { apart with
      above := by
        intro dir away
        show (Function.update k.above id slot dir).1 ∉ layers
        by_cases same : dir = id
        · subst same
          rwa [Function.update_self]
        · rw [Function.update_of_ne same]
          exact apart.above away }
  names := fun _ _ => rfl
  inode := fun _ => rfl

def HandleOk (layers : Set DirId) (file : Ino) (k : Kernel) : Handle → Prop
  | .dir id => id ∉ layers
  | .file ino writable =>
      ino < k.next ∧ (ino = file → writable = true → ¬ Shared layers k file)
  | .stub => True

theorem Apart.handleOk (apart : Apart layers file k) {fd : Nat}
    (opened : k.files.lookup fd = some handle) : HandleOk layers file k handle := by
  cases handle with
  | dir id => exact apart.openDirs opened
  | file ino writable =>
      refine ⟨apart.openInos opened, ?_⟩
      intro same canWrite
      subst same canWrite
      exact apart.writable opened
  | stub => trivial

theorem keeps_files (apart : Apart layers file k) {files : Table Nat Handle}
    (good : ∀ {fd : Nat} {handle : Handle}, files.lookup fd = some handle →
      HandleOk layers file k handle) : Keeps layers file k { k with files } where
  apart :=
    { apart with
      openDirs := fun opened => good opened
      openInos := fun opened => (good opened).1
      writable := fun opened => (good opened).2 rfl rfl }
  names := fun _ _ => rfl
  inode := fun _ => rfl

theorem keeps_insert (apart : Apart layers file k) (fd : Nat) (good : HandleOk layers file k handle) :
    Keeps layers file k { k with files := k.files.insert fd handle } := by
  refine keeps_files apart ?_
  intro other found opened
  rw [Table.lookup_insert_eq_ite] at opened
  split at opened
  · cases opened
    exact good
  · exact apart.handleOk opened

theorem keeps_install (apart : Apart layers file k) (fd : Nat)
    (good : HandleOk layers file k handle) : Keeps layers file k (k.install fd handle).1 := by
  rw [install]
  split
  · exact apart.keeps
  · exact keeps_insert apart fd good

theorem keeps_replace (apart : Apart layers file k) (outside : slot.1 ∉ layers)
    (inode : Inode) : Keeps layers file k (k.replace slot inode) := by
  have allocated : Keeps layers file k (k.allocate inode) := keeps_allocate apart inode
  exact allocated.trans (keeps_put allocated.apart outside (Nat.lt_succ_self k.next))

/-- The regular file that a call changes, or opens for writing. A descriptor
that was opened for writing does not count again. -/
def reaches (k : Kernel) : Sys → Option Ino
  | .openat base path flags _ =>
      if flags.reaching then k.inoAt base path !flags.nofollow else none
  | .reopen fd flags => if flags.writable || flags.trunc then k.inoOf fd else none
  | .alter target _ => k.ino target
  | _ => none

theorem keeps_openFile (apart : Apart layers file k) (env : Env) (inside : ino < k.next)
    (own : (flags.writable || flags.trunc) = true → ino = file → ¬ Shared layers k file) :
    Keeps layers file k (k.openFile env ino flags).1 := by
  rw [openFile]
  split
  · rename_i truncates
    have free : ino = file → ¬ Shared layers k file := own (by simp [truncates])
    have emptied : Keeps layers file k (k.modify ino _) :=
      keeps_modify apart free ((Change.resize 0).apply env.now (k.inodes ino))
    refine emptied.trans (keeps_install emptied.apart _ ⟨inside, fun same _ => ?_⟩)
    rw [emptied.shared]
    exact free same
  · exact keeps_install apart _ ⟨inside, fun same canWrite => own (by simp [canWrite]) same⟩

private theorem keeps_fresh {k' : Kernel} (keeps : Keeps layers file k k') (fd : Nat) (writable : Bool)
    (next : k'.next = k.next + 1) (apart : Apart layers file k) :
    Keeps layers file k (k'.install fd (.file k.next writable)).1 := by
  refine keeps.trans (keeps_install keeps.apart fd ⟨by rw [next]; exact Nat.lt_succ_self _, fun same _ shared => ?_⟩)
  subst same
  exact Nat.lt_irrefl _ (((keeps.shared _).mp shared).lt apart)

theorem keeps_openat (apart : Apart layers file k) (env : Env) (mode : Nat)
    (own : k.reaches (.openat base path flags mode) = some file → ¬ Shared layers k file) :
    Keeps layers file k (k.openat env base path flags mode).1 := by
  unfold openat
  split
  · split
    · split
      · exact keeps_fresh (keeps_allocate apart _) _ _ rfl apart
      · exact apart.keeps
    · exact apart.keeps
  rename_i named
  split
  · split
    · rename_i id status
      obtain ⟨place, placed, noded⟩ := Option.bind_eq_some_iff.mp status
      have outside := find_outside apart placed
      refine keeps_install apart _ ?_
      cases place with
      | dir other =>
          cases noded
          exact outside
      | slot slot => exact apart.names outside noded
    · split
      · exact apart.keeps
      · exact keeps_install apart _ trivial
    · exact apart.keeps
  · rename_i plain
    split
    · exact apart.keeps
    split
    · exact apart.keeps
    · rename_i id placed
      split
      · exact apart.keeps
      · exact keeps_install apart _ (find_outside apart placed)
    rename_i slot placed
    have outside : slot.1 ∉ layers := find_outside apart placed
    split
    · rename_i ino file
      split
      · exact apart.keeps
      rename_i allowed
      refine keeps_openFile apart env (apart.inos file) ?_
      intro changes same
      subst same
      apply own
      simp only [Bool.or_eq_true, not_or, Bool.not_eq_true] at allowed
      have reaching : flags.reaching = true := by
        simp [OpenFlags.reaching, named, plain, allowed.1, allowed.2, changes]
      rw [allowed.1, Bool.or_false] at placed
      rw [reaches, if_pos reaching, inoAt_eq_some]
      exact ⟨slot, placed, file⟩
    · exact apart.keeps
    split
    · have allocated : Keeps layers file k (k.allocate (newFile env mode)) :=
        keeps_allocate apart (newFile env mode)
      have good : NodeOk layers (k.allocate (newFile env mode)) (.file k.next) :=
        Nat.lt_succ_self k.next
      have named := allocated.trans (keeps_put allocated.apart outside good)
      exact keeps_fresh named _ _ rfl apart
    · exact apart.keeps

theorem keeps_alter (apart : Apart layers file k) (env : Env) {target : Target} (change : Change)
    (own : k.ino target = some file → ¬ Shared layers k file) :
    Keeps layers file k (k.alter env target change).1 := by
  unfold alter
  split
  · rename_i ino reached
    exact keeps_modify apart (fun same => own (same ▸ reached)) _
  · exact apart.keeps

theorem keeps_writeFile (apart : Apart layers file k) (env : Env) (fd : Nat)
    (after : List UInt8 → List UInt8) : Keeps layers file k (k.writeFile env fd after).1 := by
  unfold writeFile
  split
  · rename_i ino opened
    exact keeps_modify apart (fun same => apart.writable (same ▸ opened)) _
  · exact apart.keeps

theorem Apart.nodeOk (apart : Apart layers file k) (outside : slot.1 ∉ layers)
    (found : k.names.lookup slot = some node) : NodeOk layers k node := by
  cases node with
  | dir id => exact apart.names outside found
  | file ino => exact apart.inos found
  | symlink target => trivial

theorem keeps_renameat (apart : Apart layers file k) (sfd : At) (src : Text) (dfd : At) (dst : Text) :
    Keeps layers file k (k.renameat sfd src dfd dst).1 := by
  unfold renameat
  split
  · rename_i old new source target
    have away := entry_outside apart source
    have outside := entry_outside apart target
    split
    · exact apart.keeps
    rename_i node held
    split
    · exact apart.keeps
    split
    · have dropped : Keeps layers file k (k.drop old) := keeps_drop apart away
      have good : NodeOk layers (k.drop old) node := apart.nodeOk away held
      have moved := dropped.trans (keeps_put dropped.apart outside good)
      unfold move
      cases node with
      | dir id => exact moved.trans (keeps_hang moved.apart id outside)
      | file ino | symlink text => exact moved
    · exact apart.keeps
  · exact apart.keeps

theorem keeps_linkat (apart : Apart layers file k) (sfd : At) (src : Text) (dfd : At) (dst : Text) :
    Keeps layers file k (k.linkat sfd src dfd dst).1 := by
  unfold linkat
  split
  · rename_i source target
    split
    · exact apart.keeps
    · exact keeps_put apart (entry_outside apart target) (inoAt_lt apart source)
  · exact apart.keeps

theorem keeps_unlinkat (apart : Apart layers file k) (base : At) (path : Text) (removeDir : Bool) :
    Keeps layers file k (k.unlinkat base path removeDir).1 := by
  unfold unlinkat
  split
  · exact apart.keeps
  rename_i slot found
  have dropped : Keeps layers file k (k.drop slot) := keeps_drop apart (entry_outside apart found)
  split
  · split
    · exact dropped
    · exact apart.keeps
  · split
    · exact apart.keeps
    · exact dropped
  · exact apart.keeps

theorem keeps_mkdirat (apart : Apart layers file k) (base : At) (path : Text) :
    Keeps layers file k (k.mkdirat base path).1 := by
  unfold mkdirat
  split
  · rename_i slot found
    have outside := entry_outside apart found
    split
    · exact apart.keeps
    have fresh : k.next ∉ layers := fun inside => Nat.lt_irrefl _ (apart.dirs inside)
    have good : NodeOk layers k (.dir k.next) := fresh
    have named : Keeps layers file k (k.put slot (.dir k.next)) := keeps_put apart outside good
    have hung := named.trans (keeps_hang named.apart k.next outside)
    exact ⟨{ hung.apart with
        inos := fun file => Nat.lt_succ_of_lt (hung.apart.inos file)
        dirs := fun inside => Nat.lt_succ_of_lt (hung.apart.dirs inside)
        openInos := fun opened => Nat.lt_succ_of_lt (hung.apart.openInos opened) },
      hung.names, hung.inode⟩
  · exact apart.keeps

theorem keeps_symlinkat (apart : Apart layers file k) (target : Text) (base : At) (path : Text) :
    Keeps layers file k (k.symlinkat target base path).1 := by
  unfold symlinkat
  split
  · rename_i slot found
    split
    · exact apart.keeps
    · exact keeps_put apart (entry_outside apart found) trivial
  · exact apart.keeps

theorem keeps_chdir (apart : Apart layers file k) (path : Text) : Keeps layers file k (k.chdir path).1 := by
  unfold chdir
  split
  · rename_i id found
    exact ⟨{ apart with cwd := find_outside apart found }, fun _ _ => rfl, fun _ => rfl⟩
  · exact apart.keeps

theorem keeps_close (apart : Apart layers file k) (fd : Nat) : Keeps layers file k (k.close fd).1 := by
  unfold close
  split
  · refine keeps_files apart ?_
    intro other handle opened
    by_cases same : other = fd
    · subst same
      rw [AList.lookup_erase] at opened
      cases opened
    · rw [AList.lookup_erase_ne same] at opened
      exact apart.handleOk opened
  · exact apart.keeps

theorem keeps_exec (apart : Apart layers file k) (env : Env) (call : Sys)
    (own : k.reaches call = some file → ¬ Shared layers k file) :
    Keeps layers file k (k.exec env call).1 := by
  unfold exec
  split
  · exact apart.keeps
  cases call with
  | openat base path flags mode => exact keeps_openat apart env mode own
  | reopen fd flags =>
      dsimp only
      unfold reopen
      split
      · rename_i ino writable opened
        refine keeps_openFile apart env (apart.openInos opened) ?_
        intro changes same
        subst same
        apply own
        simp [reaches, changes, inoOf, opened]
      · exact apart.keeps
  | alter target change => exact keeps_alter apart env change own
  | ftruncate fd length | pwrite fd data offset => exact keeps_writeFile apart env fd _
  | renameat sfd src dfd dst => exact keeps_renameat apart sfd src dfd dst
  | linkat sfd src dfd dst => exact keeps_linkat apart sfd src dfd dst
  | unlinkat base path removeDir => exact keeps_unlinkat apart base path removeDir
  | mkdirat base path => exact keeps_mkdirat apart base path
  | symlinkat target base path => exact keeps_symlinkat apart target base path
  | chdir path => exact keeps_chdir apart path
  | close fd => exact keeps_close apart fd
  | dup fd =>
      dsimp only
      unfold dup
      split
      · rename_i handle opened
        exact keeps_install apart _ (apart.handleOk opened)
      · exact apart.keeps
  | dup3 old new =>
      dsimp only
      unfold dup3
      split
      · rename_i handle opened
        exact keeps_insert apart new (apart.handleOk opened)
      · exact apart.keeps

end Kernel

end PDocker.Cow
