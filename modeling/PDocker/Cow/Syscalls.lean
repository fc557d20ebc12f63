import PDocker.Cow.Graph

/-!
# System calls

What the kernel does on the calls that reach it. One constructor covers every
call that changes an attribute of a file, by its target and its change. An
inode *reached* by a call is one that the call changes, or opens for writing.
-/

set_option autoImplicit false

namespace PDocker.Cow

open Data (Text)

/-- The bits of `O_ACCMODE`; `none` stands for the value three. -/
inductive Access where
  | rdonly
  | wronly
  | rdwr
  | none
  deriving DecidableEq, Repr

/-- The flags of `open`. `O_TMPFILE` is the bit `tmpfile` together with `directory`. -/
structure OpenFlags where
  access : Access := .rdonly
  create : Bool := false
  excl : Bool := false
  trunc : Bool := false
  append : Bool := false
  directory : Bool := false
  nofollow : Bool := false
  path : Bool := false
  tmpfile : Bool := false
  deriving DecidableEq, Repr

def OpenFlags.writable (flags : OpenFlags) : Bool :=
  match flags.access with
  | .wronly | .rdwr => true
  | .rdonly | .none => false

def OpenFlags.reaching (flags : OpenFlags) : Bool :=
  !flags.tmpfile && !flags.path && !flags.directory && !(flags.create && flags.excl) &&
    (flags.writable || flags.trunc)

/-- The flags of the `*at` calls. -/
structure AtFlags where
  nofollow : Bool := false
  emptyPath : Bool := false
  deriving DecidableEq, Repr

/-- Seconds of access and modification; `none` means now. -/
abbrev Times := Option (Nat × Nat)

inductive Change where
  | resize (length : Nat)
  | mode (mode : Nat)
  | owner (owner : Nat × Nat)
  | times (times : Times)
  | setXattr (name : Text) (value : List UInt8)
  | removeXattr (name : Text)

inductive Target where
  | path (base : At) (path : Text) (follow : Bool)
  | fd (number : Nat)

/-- A path with the flags of an `*at` call. -/
def Target.at (base : At) (path : Text) (flags : AtFlags) : Target :=
  match base with
  | .fd number => if path = [] ∧ flags.emptyPath then .fd number else .path base path !flags.nofollow
  | .cwd => .path base path !flags.nofollow

inductive Sys where
  | openat (base : At) (path : Text) (flags : OpenFlags) (mode : Nat)
  /-- Open the file behind a descriptor again, through `/proc/self/fd`. -/
  | reopen (fd : Nat) (flags : OpenFlags)
  | alter (target : Target) (change : Change)
  | ftruncate (fd : Nat) (length : Nat)
  | pwrite (fd : Nat) (data : List UInt8) (offset : Nat)
  | renameat (sfd : At) (src : Text) (dfd : At) (dst : Text)
  | linkat (sfd : At) (src : Text) (dfd : At) (dst : Text)
  | unlinkat (base : At) (path : Text) (removeDir : Bool)
  | mkdirat (base : At) (path : Text)
  | symlinkat (target : Text) (base : At) (path : Text)
  | chdir (path : Text)
  | close (fd : Nat)
  | dup (fd : Nat)
  | dup3 (old new : Nat)

structure Env where
  now : Nat := 0
  owner : Nat × Nat := (0, 0)
  fd : Nat := 3
  refused : Bool := false
  copyFails : Bool := false
  deriving DecidableEq, Repr

/-- `content[:length]`, padded with zeros. -/
def resized (length : Nat) (content : List UInt8) : List UInt8 :=
  content.take length ++ List.replicate (length - content.length) 0

def splice (offset : Nat) (data content : List UInt8) : List UInt8 :=
  resized offset content ++ data ++ content.drop (offset + data.length)

def Change.apply (now : Nat) (inode : Inode) : Change → Inode
  | .resize size => { inode with content := resized size inode.content, times := (inode.times.1, now) }
  | .mode bits => { inode with mode := bits }
  | .owner pair => { inode with owner := pair }
  | .times stamps => { inode with times := stamps.getD (now, now) }
  | .setXattr name value => { inode with xattrs := inode.xattrs.insert name value }
  | .removeXattr name => { inode with xattrs := inode.xattrs.erase name }

namespace Kernel

/-! ## Parts of the calls -/

def modify (k : Kernel) (ino : Ino) (after : Inode) : Kernel :=
  { k with inodes := Function.update k.inodes ino after }

def install (k : Kernel) (fd : Nat) (handle : Handle) : Kernel × Option Nat :=
  if (k.files.lookup fd).isSome then (k, none)
  else ({ k with files := k.files.insert fd handle }, some fd)

def allocate (k : Kernel) (inode : Inode) : Kernel :=
  { k with inodes := Function.update k.inodes k.next inode, next := k.next + 1 }

def put (k : Kernel) (slot : Slot) (node : Node) : Kernel :=
  { k with names := k.names.insert slot node }

def drop (k : Kernel) (slot : Slot) : Kernel := { k with names := k.names.erase slot }

def hang (k : Kernel) (id : DirId) (slot : Slot) : Kernel :=
  { k with above := Function.update k.above id slot }

def newFile (env : Env) (mode : Nat) : Inode where
  content := []
  mode
  owner := env.owner
  times := (env.now, env.now)
  xattrs := ∅

def openFile (k : Kernel) (env : Env) (ino : Ino) (flags : OpenFlags) : Kernel × Option Nat :=
  let k' := if flags.trunc then k.modify ino ((Change.resize 0).apply env.now (k.inodes ino)) else k
  k'.install env.fd (.file ino flags.writable)

def openat (k : Kernel) (env : Env) (base : At) (path : Text) (flags : OpenFlags) (mode : Nat) :
    Kernel × Option Nat :=
  if flags.tmpfile then
    match k.find base path true with
    | some (.dir _) =>
        if flags.directory ∧ flags.writable then
          (k.allocate (newFile env mode)).install env.fd (.file k.next true)
        else (k, none)
    | _ => (k, none)
  else if flags.path then
    match k.stat base path !flags.nofollow with
    | some (.dir id) => k.install env.fd (.dir id)
    | some _ => if flags.directory then (k, none) else k.install env.fd .stub
    | none => (k, none)
  else if flags.create ∧ flags.directory then (k, none)
  else
    match k.find base path !(flags.nofollow || flags.create && flags.excl) with
    | none => (k, none)
    | some (.dir id) =>
        if flags.writable ∨ flags.create ∨ flags.trunc then (k, none) else k.install env.fd (.dir id)
    | some (.slot slot) =>
        match k.names.lookup slot with
        | some (.file ino) =>
            if flags.create && flags.excl || flags.directory then (k, none) else k.openFile env ino flags
        | some _ => (k, none)
        | none =>
            if flags.create then
              ((k.allocate (newFile env mode)).put slot (.file k.next)).install env.fd
                (.file k.next flags.writable)
            else (k, none)

def ino (k : Kernel) : Target → Option Ino
  | .path base path follow => k.inoAt base path follow
  | .fd number => k.inoOf number

/-- Something that is not a regular file has no attributes here. -/
def present (k : Kernel) : Target → Bool
  | .path base path follow => (k.stat base path follow).isSome
  | .fd number => (k.files.lookup number).isSome

def alter (k : Kernel) (env : Env) (target : Target) (change : Change) : Kernel × Option Nat :=
  match k.ino target with
  | some ino => (k.modify ino (change.apply env.now (k.inodes ino)), some 0)
  | none => (k, if k.present target then some 0 else none)

def writeFile (k : Kernel) (env : Env) (fd : Nat) (after : List UInt8 → List UInt8) :
    Kernel × Option Nat :=
  match k.files.lookup fd with
  | some (.file ino true) =>
      let inode := k.inodes ino
      (k.modify ino { inode with content := after inode.content, times := (inode.times.1, env.now) },
        some 0)
  | _ => (k, none)

def isEmptyDir (k : Kernel) (id : DirId) : Bool := k.names.keys.all fun slot => slot.1 ≠ id

/-- `id` is `dir` or one of the directories above it. -/
def within (k : Kernel) (id : DirId) : Nat → DirId → Bool
  | 0, _ => false
  | fuel + 1, dir => dir = id || (dir ≠ k.root && k.within id fuel (k.above dir).1)

def movable (k : Kernel) (node : Node) (new : Slot) : Bool :=
  match node, k.names.lookup new with
  | .dir id, none => !k.within id (k.names.entries.length + 2) new.1
  | .dir id, some (.dir other) =>
      !k.within id (k.names.entries.length + 2) new.1 && k.isEmptyDir other
  | .dir _, some _ => false
  | _, some (.dir _) => false
  | _, _ => true

def move (k : Kernel) (old new : Slot) (node : Node) : Kernel :=
  let k' := (k.drop old).put new node
  match node with
  | .dir id => k'.hang id new
  | .file _ | .symlink _ => k'

def renameat (k : Kernel) (sfd : At) (src : Text) (dfd : At) (dst : Text) : Kernel × Option Nat :=
  match k.entry sfd src, k.entry dfd dst with
  | some old, some new =>
      match k.names.lookup old with
      | none => (k, none)
      | some node =>
          if old = new ∨ node.ino?.isSome ∧ k.names.lookup new = some node then (k, some 0)
          else if k.movable node new then (k.move old new node, some 0)
          else (k, none)
  | _, _ => (k, none)

def linkat (k : Kernel) (sfd : At) (src : Text) (dfd : At) (dst : Text) : Kernel × Option Nat :=
  match k.inoAt sfd src false, k.entry dfd dst with
  | some ino, some new =>
      if (k.names.lookup new).isSome then (k, none) else (k.put new (.file ino), some 0)
  | _, _ => (k, none)

def unlinkat (k : Kernel) (base : At) (path : Text) (removeDir : Bool) : Kernel × Option Nat :=
  match k.entry base path with
  | none => (k, none)
  | some slot =>
      match k.names.lookup slot with
      | some (.dir id) =>
          if removeDir ∧ k.isEmptyDir id then (k.drop slot, some 0) else (k, none)
      | some _ => if removeDir then (k, none) else (k.drop slot, some 0)
      | none => (k, none)

def mkdirat (k : Kernel) (base : At) (path : Text) : Kernel × Option Nat :=
  match k.entry base path with
  | some slot =>
      if (k.names.lookup slot).isSome then (k, none)
      else
        let k' := (k.put slot (.dir k.next)).hang k.next slot
        ({ k' with next := k.next + 1 }, some 0)
  | none => (k, none)

def symlinkat (k : Kernel) (target : Text) (base : At) (path : Text) : Kernel × Option Nat :=
  match k.entry base path with
  | some slot =>
      if target = [] ∨ (k.names.lookup slot).isSome then (k, none)
      else (k.put slot (.symlink target), some 0)
  | none => (k, none)

def chdir (k : Kernel) (path : Text) : Kernel × Option Nat :=
  match k.find .cwd path true with
  | some (.dir id) => ({ k with cwd := id }, some 0)
  | _ => (k, none)

def close (k : Kernel) (fd : Nat) : Kernel × Option Nat :=
  if (k.files.lookup fd).isSome then ({ k with files := k.files.erase fd }, some 0) else (k, none)

def dup (k : Kernel) (env : Env) (fd : Nat) : Kernel × Option Nat :=
  match k.files.lookup fd with
  | some handle => k.install env.fd handle
  | none => (k, none)

/-- `dup2` and `dup3`: the new number may be taken, and is closed then. -/
def dup3 (k : Kernel) (old new : Nat) : Kernel × Option Nat :=
  match k.files.lookup old with
  | some handle => ({ k with files := k.files.insert new handle }, some new)
  | none => (k, none)

def reopen (k : Kernel) (env : Env) (fd : Nat) (flags : OpenFlags) : Kernel × Option Nat :=
  match k.files.lookup fd with
  | some (.file ino _) => k.openFile env ino flags
  | _ => (k, none)

def exec (k : Kernel) (env : Env) (call : Sys) : Kernel × Option Nat :=
  if env.refused then (k, none)
  else
    match call with
    | .openat base path flags mode => k.openat env base path flags mode
    | .reopen fd flags => k.reopen env fd flags
    | .alter target change => k.alter env target change
    | .ftruncate fd length => k.writeFile env fd (resized length)
    | .pwrite fd data offset => k.writeFile env fd (splice offset data)
    | .renameat sfd src dfd dst => k.renameat sfd src dfd dst
    | .linkat sfd src dfd dst => k.linkat sfd src dfd dst
    | .unlinkat base path removeDir => k.unlinkat base path removeDir
    | .mkdirat base path => k.mkdirat base path
    | .symlinkat target base path => k.symlinkat target base path
    | .chdir path => k.chdir path
    | .close fd => k.close fd
    | .dup fd => k.dup env fd
    | .dup3 old new => k.dup3 old new

end Kernel

end PDocker.Cow
