import PDocker.Data.Table
import PDocker.Posix.Resolve

/-!
# Names and inodes

The tree that a process sees, with directories known by number and files by
inode: a name in a directory leads to a directory, an inode or the text of a
symbolic link, and any number of names may lead to one inode. A clone made by
`cp -al` shares the inodes of its regular files with the layers below.

Attributes of directories and of links are left out, and no access is refused.
-/

set_option autoImplicit false

namespace PDocker.Cow

open Data (Table Text splitParts)
open Posix (Name dot dotdot maxSymlinks)

abbrev DirId := Nat
abbrev Ino := Nat

abbrev Slot := DirId × Name

inductive Node where
  | dir (id : DirId)
  | file (ino : Ino)
  | symlink (target : Text)
  deriving DecidableEq, Repr

structure Inode where
  content : List UInt8
  mode : Nat
  owner : Nat × Nat
  times : Nat × Nat
  xattrs : Table Text (List UInt8)

/-- An open file. A `stub` comes from `O_PATH` and gives no access to a file. -/
inductive Handle where
  | dir (id : DirId)
  | file (ino : Ino) (writable : Bool)
  | stub
  deriving DecidableEq, Repr

/-- What one process finds in the kernel. `above` is where a directory hangs,
or hung when it was removed. -/
structure Kernel where
  root : DirId
  names : Table Slot Node
  above : DirId → Slot
  inodes : Ino → Inode
  next : Nat
  cwd : DirId
  files : Table Nat Handle

def PATH_MAX : Nat := 4096

inductive At where
  | cwd
  | fd (number : Nat)
  deriving DecidableEq, Repr

def isAbsolute (path : Text) : Bool := path.head? = some '/'

def Node.ino? : Node → Option Ino
  | .file ino => some ino
  | .dir _ | .symlink _ => none

/-- What a path leads to: a directory, or a name that is not one of a directory. -/
inductive Place where
  | dir (id : DirId)
  | slot (slot : Slot)
  deriving DecidableEq, Repr

namespace Kernel

def up (k : Kernel) (dir : DirId) : DirId := if dir = k.root then dir else (k.above dir).1

def walkParts (k : Kernel) (follow : Bool) (onLink : DirId → List Name → Option Place) :
    DirId → List Name → Option Place
  | cur, [] => some (.dir cur)
  | cur, part :: rest =>
      if part = [] ∨ part = dot then walkParts k follow onLink cur rest
      else if part = dotdot then walkParts k follow onLink (k.up cur) rest
      else
        match k.names.lookup (cur, part) with
        | some (.dir id) => walkParts k follow onLink id rest
        | some (.symlink target) =>
            if rest = [] ∧ follow = false then some (.slot (cur, part))
            else onLink (if isAbsolute target then k.root else cur) (splitParts '/' target ++ rest)
        | some (.file _) | none => if rest = [] then some (.slot (cur, part)) else none

def walk (k : Kernel) (follow : Bool) : Nat → DirId → List Name → Option Place
  | 0 => k.walkParts follow fun _ _ => none
  | links + 1 => k.walkParts follow (k.walk follow links)

def startOf (k : Kernel) (base : At) (path : Text) : Option DirId :=
  if isAbsolute path then some k.root
  else
    match base with
    | .cwd => some k.cwd
    | .fd number =>
        match k.files.lookup number with
        | some (.dir id) => some id
        | _ => none

/-- The place that `path` leads to from `base`. `follow` tells whether a link in
the last place is followed. -/
def find (k : Kernel) (base : At) (path : Text) (follow : Bool) : Option Place :=
  if path = [] ∨ PATH_MAX ≤ path.length then none
  else (k.startOf base path).bind fun start => k.walk follow maxSymlinks start (splitParts '/' path)

def node (k : Kernel) : Place → Option Node
  | .dir id => some (.dir id)
  | .slot slot => k.names.lookup slot

/-- `stat` (`lstat` without `follow`) of a path. -/
def stat (k : Kernel) (base : At) (path : Text) (follow : Bool) : Option Node :=
  (k.find base path follow).bind k.node

def inoAt (k : Kernel) (base : At) (path : Text) (follow : Bool) : Option Ino :=
  (k.stat base path follow).bind Node.ino?

def inoOf (k : Kernel) (fd : Nat) : Option Ino :=
  match k.files.lookup fd with
  | some (.file ino _) => some ino
  | _ => none

/-- The name that `rename`, `unlink` and the calls that make names act on. -/
def entry (k : Kernel) (base : At) (path : Text) : Option Slot :=
  if path = [] ∨ PATH_MAX ≤ path.length then none
  else
    let parts := (splitParts '/' path).rdropWhile (· = [])
    match parts.getLast? with
    | none => none
    | some last =>
        if last = dot ∨ last = dotdot then none
        else
          match (k.startOf base path).bind fun start => k.walk true maxSymlinks start parts.dropLast with
          | some (.dir dir) => some (dir, last)
          | _ => none

def nlink (k : Kernel) (ino : Ino) : Nat :=
  (k.names.entries.filter fun row => row.2 = .file ino).length

def climb (k : Kernel) : Nat → DirId → Option Text
  | 0, _ => none
  | fuel + 1, dir =>
      if dir = k.root then some []
      else (k.climb fuel (k.above dir).1).map fun front => front ++ '/' :: (k.above dir).2

def pathOf (k : Kernel) (dir : DirId) : Option Text :=
  (k.climb (k.names.entries.length + 2) dir).map fun text => if text = [] then ['/'] else text

def attached (k : Kernel) (dir : DirId) : Bool :=
  dir = k.root || k.names.lookup (k.above dir) = some (.dir dir)

def getcwd (k : Kernel) : Option Text := if k.attached k.cwd then k.pathOf k.cwd else none

def procFd (k : Kernel) (fd : Nat) : Option Text :=
  match k.files.lookup fd with
  | some (.dir id) =>
      (k.pathOf id).map fun text => if k.attached id then text else text ++ " (deleted)".toList
  | _ => none

def replace (k : Kernel) (slot : Slot) (inode : Inode) : Kernel :=
  { k with
    names := k.names.insert slot (.file k.next)
    inodes := Function.update k.inodes k.next inode
    next := k.next + 1 }

section
variable {k : Kernel} {slot : Slot} {inode : Inode} {follow : Bool}

theorem lookup_replace (other : Slot) : (k.replace slot inode).names.lookup other =
      if other = slot then some (.file k.next) else k.names.lookup other :=
  Table.lookup_insert_eq_ite k.names slot other (.file k.next)

theorem startOf_replace (base : At) (path : Text) :
    (k.replace slot inode).startOf base path = k.startOf base path := rfl

variable {onLink onLink' : DirId → List Name → Option Place} {place : Place} {base : At} {path : Text} {ino : Ino}

private theorem walkParts_replace (links : ∀ dir parts place, onLink' dir parts = some place →
      place = .slot slot ∨ onLink dir parts = some place)
    (parts : List Name) (cur : DirId) (place : Place)
    (walked : (k.replace slot inode).walkParts follow onLink' cur parts = some place) :
    place = .slot slot ∨ k.walkParts follow onLink cur parts = some place := by
  induction parts generalizing cur with
  | nil => exact .inr walked
  | cons part rest ih =>
      rw [walkParts] at walked ⊢
      by_cases stays : part = [] ∨ part = dot
      · rw [if_pos stays] at walked ⊢
        exact ih cur walked
      rw [if_neg stays] at walked ⊢
      by_cases up : part = dotdot
      · rw [if_pos up] at walked ⊢
        exact ih _ walked
      rw [if_neg up] at walked ⊢
      rw [lookup_replace] at walked
      by_cases here : (cur, part) = slot
      · rw [if_pos here] at walked
        by_cases last : rest = []
        · simp only [last, ↓reduceIte, Option.some.injEq] at walked
          exact .inl (by rw [← walked, here])
        · simp [last] at walked
      rw [if_neg here] at walked
      cases found : k.names.lookup (cur, part) with
      | none =>
          rw [found] at walked
          exact .inr walked
      | some node =>
          rw [found] at walked
          cases node with
          | dir id => exact ih id walked
          | file ino => exact .inr walked
          | symlink target =>
              by_cases stop : rest = [] ∧ follow = false
              · simp only [if_pos stop] at walked ⊢
                exact .inr walked
              · simp only [if_neg stop] at walked ⊢
                exact links _ _ _ walked

theorem walk_replace (links : Nat) (cur : DirId) (parts : List Name) (place : Place)
    (walked : (k.replace slot inode).walk follow links cur parts = some place) :
    place = .slot slot ∨ k.walk follow links cur parts = some place := by
  induction links generalizing cur parts place with
  | zero => exact walkParts_replace (fun _ _ _ none => by cases none) parts cur place walked
  | succ links ih => exact walkParts_replace (fun _ _ _ => ih _ _ _) parts cur place walked

private theorem walkParts_replaced (links : ∀ dir parts place, onLink dir parts = some (.slot slot) →
      onLink' dir parts = some place → place = .slot slot)
    (parts : List Name) (cur : DirId) (place : Place)
    (reached : k.walkParts false onLink cur parts = some (.slot slot))
    (walked : (k.replace slot inode).walkParts follow onLink' cur parts = some place) :
    place = .slot slot := by
  induction parts generalizing cur with
  | nil => cases reached
  | cons part rest ih =>
      rw [walkParts] at walked reached
      by_cases stays : part = [] ∨ part = dot
      · rw [if_pos stays] at walked reached
        exact ih cur reached walked
      rw [if_neg stays] at walked reached
      by_cases up : part = dotdot
      · rw [if_pos up] at walked reached
        exact ih _ reached walked
      rw [if_neg up] at walked reached
      rw [lookup_replace] at walked
      by_cases here : (cur, part) = slot
      · rw [if_pos here] at walked
        by_cases last : rest = []
        · simp only [last, ↓reduceIte, Option.some.injEq] at walked
          rw [← walked, here]
        · simp [last] at walked
      -- another name in the last place would have been the place reached
      have inner : rest ≠ [] ∨ ∃ id, k.names.lookup (cur, part) = some (.dir id) := by
        by_contra outer
        rw [not_or, not_not, not_exists] at outer
        obtain ⟨last, file⟩ := outer
        cases found : k.names.lookup (cur, part) with
        | none => simp [found, last, here] at reached
        | some node =>
            cases node with
            | dir id => exact file id found
            | file ino | symlink target => simp [found, last, here] at reached
      rw [if_neg here] at walked
      cases found : k.names.lookup (cur, part) with
      | none => simp_all
      | some node =>
          rw [found] at walked reached
          cases node with
          | dir id => exact ih id reached walked
          | file ino => simp_all
          | symlink target =>
              have more : rest ≠ [] := by simpa [found] using inner
              simp only [more, false_and, ↓reduceIte] at walked reached
              exact links _ _ _ reached walked

theorem walk_replaced (links : Nat) (cur : DirId) (parts : List Name) (place : Place)
    (reached : k.walk false links cur parts = some (.slot slot))
    (walked : (k.replace slot inode).walk follow links cur parts = some place) :
    place = .slot slot := by
  induction links generalizing cur parts place with
  | zero => exact walkParts_replaced (fun _ _ _ none => by cases none) parts cur place reached walked
  | succ links ih => exact walkParts_replaced (fun _ _ _ => ih _ _ _) parts cur place reached walked

private theorem walkParts_follow (final : ∀ target, k.node place ≠ some (.symlink target))
    (links : ∀ dir parts, onLink dir parts = some place → onLink' dir parts = some place)
    (parts : List Name) (cur : DirId)
    (walked : k.walkParts false onLink cur parts = some place) :
    k.walkParts true onLink' cur parts = some place := by
  induction parts generalizing cur with
  | nil => exact walked
  | cons part rest ih =>
      rw [walkParts] at walked ⊢
      by_cases stays : part = [] ∨ part = dot
      · rw [if_pos stays] at walked ⊢
        exact ih cur walked
      rw [if_neg stays] at walked ⊢
      by_cases up : part = dotdot
      · rw [if_pos up] at walked ⊢
        exact ih _ walked
      rw [if_neg up] at walked ⊢
      cases found : k.names.lookup (cur, part) with
      | none =>
          rw [found] at walked
          exact walked
      | some node =>
          rw [found] at walked
          cases node with
          | dir id => exact ih id walked
          | file ino => exact walked
          | symlink target =>
              by_cases last : rest = []
              · simp only [last, true_and, ↓reduceIte, Option.some.injEq] at walked
                subst walked
                exact absurd found (final target)
              · simp only [last, false_and, ↓reduceIte] at walked ⊢
                exact links _ _ walked

theorem walk_follow (final : ∀ target, k.node place ≠ some (.symlink target))
    (links : Nat) (cur : DirId) (parts : List Name)
    (walked : k.walk false links cur parts = some place) :
    k.walk true links cur parts = some place := by
  induction links generalizing cur parts with
  | zero => exact walkParts_follow final (fun _ _ none => by cases none) parts cur walked
  | succ links ih => exact walkParts_follow final (fun _ _ => ih _ _) parts cur walked

theorem find_eq_some : k.find base path follow = some place ↔
      ¬ (path = [] ∨ PATH_MAX ≤ path.length) ∧ ∃ start, k.startOf base path = some start ∧
        k.walk follow maxSymlinks start (splitParts '/' path) = some place := by
  rw [find]
  split
  · rename_i bad
    simp [bad]
  · rename_i good
    rw [Option.bind_eq_some_iff]
    exact ⟨fun found => ⟨good, found⟩, And.right⟩

theorem inoAt_eq_some : k.inoAt base path follow = some ino ↔
      ∃ slot, k.find base path follow = some (.slot slot) ∧ k.names.lookup slot = some (.file ino) := by
  rw [inoAt, stat]
  constructor
  · intro found
    obtain ⟨node, ⟨place, placed, noded⟩, isFile⟩ : ∃ node, (∃ place,
        k.find base path follow = some place ∧ k.node place = some node) ∧ node.ino? = some ino := by
      simpa only [Option.bind_eq_some_iff] using found
    cases place with
    | dir id =>
        cases noded
        cases isFile
    | slot slot =>
        cases node with
        | dir id | symlink target => cases isFile
        | file other =>
            cases isFile
            exact ⟨slot, placed, noded⟩
  · rintro ⟨slot, placed, file⟩
    rw [placed, Option.bind_some, node, file]
    rfl

theorem inoAt_replace (found : (k.replace slot inode).inoAt base path follow = some ino) :
    ino = k.next ∨ k.inoAt base path follow = some ino := by
  obtain ⟨at', placed, file⟩ := inoAt_eq_some.mp found
  obtain ⟨good, start, started, walked⟩ := find_eq_some.mp placed
  rw [lookup_replace] at file
  by_cases same : at' = slot
  · rw [if_pos same] at file
    cases file
    exact .inl rfl
  · rw [if_neg same] at file
    have before := (walk_replace _ _ _ _ walked).resolve_left (by simpa using same)
    exact .inr (inoAt_eq_some.mpr ⟨at', find_eq_some.mpr ⟨good, start, started, before⟩, file⟩)

theorem inoAt_replaced (reached : k.find base path false = some (.slot slot))
    (found : (k.replace slot inode).inoAt base path follow = some ino) : ino = k.next := by
  obtain ⟨at', placed, file⟩ := inoAt_eq_some.mp found
  obtain ⟨_, start, started, walked⟩ := find_eq_some.mp placed
  obtain ⟨_, first, firsted, reached⟩ := find_eq_some.mp reached
  rw [startOf_replace, firsted] at started
  cases started
  cases walk_replaced _ _ _ _ reached walked
  rw [lookup_replace, if_pos rfl] at file
  cases file
  rfl

theorem inoAt_follow (found : k.inoAt base path false = some ino) : k.inoAt base path true = some ino := by
  obtain ⟨slot, placed, file⟩ := inoAt_eq_some.mp found
  obtain ⟨good, start, started, walked⟩ := find_eq_some.mp placed
  have final : ∀ target, k.node (.slot slot) ≠ some (.symlink target) := by
    intro target linked
    rw [node, file] at linked
    cases linked
  exact inoAt_eq_some.mpr ⟨slot, find_eq_some.mpr ⟨good, start, started, walk_follow final _ _ _ walked⟩,
    file⟩

theorem one_lt_nlink {one two : Slot} (distinct : one ≠ two)
    (first : k.names.lookup one = some (.file ino)) (second : k.names.lookup two = some (.file ino)) :
    1 < k.nlink ino := by
  have listed : ∀ {at' : Slot}, k.names.lookup at' = some (.file ino) →
      Sigma.mk at' (Node.file ino) ∈ k.names.entries.filter fun row => row.2 = .file ino :=
    fun found => List.mem_filter.mpr ⟨AList.mem_lookup_iff.mp found, by simp⟩
  have here := listed first
  have there := listed second
  rw [nlink]
  cases rows : k.names.entries.filter fun row => row.2 = .file ino with
  | nil =>
      rw [rows] at here
      cases here
  | cons row more =>
      cases more with
      | nil =>
          rw [rows, List.mem_singleton] at here there
          exact absurd (congrArg Sigma.fst (here.trans there.symm)) distinct
      | cons => simp

end

end Kernel

end PDocker.Cow
