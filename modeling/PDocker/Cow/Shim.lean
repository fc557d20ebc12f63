import PDocker.Cow.Syscalls

/-!
# The copy-on-write shim

`libcow.c`: the functions that are loaded in front of the C library. Most of
them first give a file with several links an inode of its own, then make the
call that was asked for. The table of descriptors remembers the path that each
was opened under.

A result of `none` stands for `-1` (or `NULL`). A stream is known by its
descriptor, and `NULL` is passed for a path only where a branch looks for it.
-/

set_option autoImplicit false

namespace PDocker.Cow

open Data (Table Text initParts)

def FD_TABLE_MAX : Nat := 4096

structure Shim where
  kernel : Kernel
  fdPaths : Table Nat Text
  copyXattrs : Bool
  trackReadonlyFds : Bool

def fopenFlags (mode : Text) : Option OpenFlags :=
  let options := (mode.drop 1).take 6
  let plus := options.contains '+'
  match mode.head? with
  | some 'r' => some { access := if plus then .rdwr else .rdonly }
  | some 'w' =>
      some { access := if plus then .rdwr else .wronly, create := true, trunc := true,
             excl := options.contains 'x' }
  | some 'a' =>
      some { access := if plus then .rdwr else .wronly, create := true, append := true,
             excl := options.contains 'x' }
  | _ => none

def flagsWrite (flags : OpenFlags) : Bool := flags.writable || flags.trunc || flags.append

def modeWrite (mode : Text) : Bool := mode.any fun char => char = 'w' || char = 'a' || char = '+'

def modeTruncates (mode : Text) : Bool := mode.head? = some 'w'

namespace Shim

def fdtabSet (s : Shim) (fd : Nat) (path : Option Text) : Shim :=
  if FD_TABLE_MAX ≤ fd then s
  else
    match path with
    | some path => { s with fdPaths := s.fdPaths.insert fd path }
    | none => { s with fdPaths := s.fdPaths.erase fd }

def fdtabClear (s : Shim) (fd : Nat) : Shim := s.fdtabSet fd none

def fdtabGet (s : Shim) (fd : Nat) : Option Text :=
  if FD_TABLE_MAX ≤ fd then none else s.fdPaths.lookup fd

/-- `getcwd` into a buffer of `PATH_MAX` bytes. -/
def getcwd (s : Shim) : Option Text := s.kernel.getcwd.filter fun text => text.length < PATH_MAX

def rememberOpen (s : Shim) (fd : Nat) (path : Text) : Shim :=
  if isAbsolute path then s.fdtabSet fd (some path)
  else
    match s.getcwd with
    | none => s
    | some cwd =>
        if PATH_MAX ≤ cwd.length + 1 + path.length + 1 then s
        else s.fdtabSet fd (some (cwd ++ '/' :: path))

def rememberOpenForFlags (s : Shim) (fd : Nat) (path : Text) (flags : OpenFlags) : Shim :=
  if !s.trackReadonlyFds && !flagsWrite flags then s else s.rememberOpen fd path

def basePath (s : Shim) : At → Option Text
  | .cwd => s.getcwd
  | .fd fd =>
      match s.fdtabGet fd with
      | some tracked => if PATH_MAX ≤ tracked.length then none else some tracked
      | none => (s.kernel.procFd fd).map fun text => text.take (PATH_MAX - 1)

def resolveAtPath (s : Shim) (dirfd : At) (path : Text) : Option Text :=
  if isAbsolute path then if PATH_MAX ≤ path.length then none else some path
  else
    match s.basePath dirfd with
    | none => none
    | some base =>
        if PATH_MAX < base.length + 1 + path.length + 1 then none else some (base ++ '/' :: path)

/-- The path under which an `*at` call is copied up. -/
def cowPath (s : Shim) (dirfd : At) (path : Text) : Option Text :=
  if !isAbsolute path && dirfd ≠ .cwd then s.resolveAtPath dirfd path else some path

def copied (s : Shim) (env : Env) (inode : Inode) (copyData : Bool) : Inode where
  content := if copyData then inode.content else []
  mode := inode.mode % 0o10000
  owner := env.owner
  times := (env.now, env.now)
  xattrs :=
    if s.copyXattrs then inode.xattrs.eraseWhere fun name => inode.xattrs.lookup name = some [] else ∅

def tmpFits (path : Text) : Bool :=
  !path.contains '/' || (initParts '/' path).length + 1 + 16 < PATH_MAX

def breakHardlinkCopyStat (s : Shim) (env : Env) (path : Text) (copyData followSymlink : Bool) :
    Option Shim :=
  match s.kernel.inoAt .cwd path followSymlink with
  | none => some s
  | some ino =>
      if s.kernel.nlink ino ≤ 1 then some s
      else if !tmpFits path || env.copyFails then none
      else
        -- the rename over the path does not follow a link in the last place
        match s.kernel.find .cwd path false with
        | some (.slot slot) =>
            some { s with
              kernel := s.kernel.replace slot (s.copied env (s.kernel.inodes ino) copyData) }
        | _ => none

def breakHardlinkCopy (s : Shim) (env : Env) (path : Text) (copyData : Bool) : Option Shim :=
  s.breakHardlinkCopyStat env path copyData true

def breakHardlinkCopyEntry (s : Shim) (env : Env) (path : Text) (copyData : Bool) : Option Shim :=
  s.breakHardlinkCopyStat env path copyData false

def breakHardlink (s : Shim) (env : Env) (path : Text) : Option Shim :=
  s.breakHardlinkCopy env path true

def maybeBreak (s : Shim) (env : Env) (path : Text) (flags : OpenFlags) : Option Shim :=
  if !flagsWrite flags then some s
  -- `O_TMPFILE` has the bit of `O_DIRECTORY` too
  else if flags.tmpfile || flags.directory then some s
  else if flags.create && flags.excl then some s
  else s.breakHardlinkCopy env path !flags.trunc

def real (s : Shim) (env : Env) (call : Sys) : Shim × Option Nat :=
  ({ s with kernel := (s.kernel.exec env call).1 }, (s.kernel.exec env call).2)

/-- Copy up under `path`, when there is one, and make the call. -/
def hooked (s : Shim) (env : Env) (path : Option Text) (copyData : Bool) (call : Sys) :
    Shim × Option Nat :=
  match path with
  | none => s.real env call
  | some path =>
      match s.breakHardlinkCopy env path copyData with
      | none => (s, none)
      | some s' => s'.real env call

def opened (s : Shim) (env : Env) (broken : Option Shim) (call : Sys)
    (remember : Shim → Nat → Shim) : Shim × Option Nat :=
  match broken with
  | none => (s, none)
  | some s' =>
      match s'.real env call with
      | (after, some fd) => (remember after fd, some fd)
      | (after, none) => (after, none)

def open_ (s : Shim) (env : Env) (path : Text) (flags : OpenFlags) (mode : Nat) : Shim × Option Nat :=
  s.opened env (s.maybeBreak env path flags) (.openat .cwd path flags mode)
    fun after fd => after.rememberOpenForFlags fd path flags

def open64 (s : Shim) (env : Env) (path : Text) (flags : OpenFlags) (mode : Nat) : Shim × Option Nat :=
  s.open_ env path flags mode

def openat (s : Shim) (env : Env) (dirfd : At) (path : Text) (flags : OpenFlags) (mode : Nat) :
    Shim × Option Nat :=
  match s.cowPath dirfd path with
  | none => s.opened env (some s) (.openat dirfd path flags mode) fun after _ => after
  | some cowPath =>
      s.opened env (s.maybeBreak env cowPath flags) (.openat dirfd path flags mode)
        fun after fd => after.rememberOpenForFlags fd cowPath flags

def openat64 (s : Shim) (env : Env) (dirfd : At) (path : Text) (flags : OpenFlags) (mode : Nat) :
    Shim × Option Nat :=
  s.openat env dirfd path flags mode

def creat (s : Shim) (env : Env) (path : Text) (mode : Nat) : Shim × Option Nat :=
  s.opened env (s.breakHardlinkCopy env path false)
    (.openat .cwd path { access := .wronly, create := true, trunc := true } mode)
    fun after fd => after.rememberOpen fd path

def creat64 (s : Shim) (env : Env) (path : Text) (mode : Nat) : Shim × Option Nat :=
  s.creat env path mode

def realFopen (s : Shim) (env : Env) (path : Text) (mode : Text) : Shim × Option Nat :=
  match fopenFlags mode with
  | some flags => s.real env (.openat .cwd path flags 0o666)
  | none => (s, none)

def fopen (s : Shim) (env : Env) (path : Text) (mode : Text) : Shim × Option Nat :=
  if modeWrite mode then
    match s.breakHardlinkCopy env path !modeTruncates mode with
    | none => (s, none)
    | some s' => s'.realFopen env path mode
  else s.realFopen env path mode

def fopen64 (s : Shim) (env : Env) (path : Text) (mode : Text) : Shim × Option Nat :=
  s.fopen env path mode

def openStream (s : Shim) (env : Env) (path : Option Text) (mode : Text) (stream : Nat) :
    Shim × Option Nat :=
  match path with
  | some path => s.realFopen env path mode
  | none =>
      match fopenFlags mode with
      | some flags => s.real env (.reopen stream flags)
      | none => (s, none)

/-- Open, move the descriptor to the number of the stream, and close the stream
when that fails. -/
def realFreopen (s : Shim) (env : Env) (path : Option Text) (mode : Text) (stream : Nat) :
    Shim × Option Nat :=
  match s.openStream env path mode stream with
  | (after, some fd) =>
      if fd = stream then (after, some stream)
      else (((after.real env (.dup3 fd stream)).1.real env (.close fd)).1, some stream)
  | (after, none) => ((after.real env (.close stream)).1, none)

def freopen (s : Shim) (env : Env) (path : Option Text) (mode : Text) (stream : Nat) :
    Shim × Option Nat :=
  match path with
  | none => s.realFreopen env none mode stream
  | some text =>
      if modeWrite mode then
        match s.breakHardlinkCopy env text !modeTruncates mode with
        | none => (s, none)
        | some s' => s'.realFreopen env (some text) mode stream
      else s.realFreopen env (some text) mode stream

def sameExistingEntry (s : Shim) (sfd : At) (src : Text) (dfd : At) (dst : Text) : Bool :=
  match s.kernel.find sfd src false, s.kernel.find dfd dst false with
  | some one, some two =>
      match s.kernel.node one, s.kernel.node two with
      | some (.file ino), some (.file other) => ino = other
      | some (.dir id), some (.dir other) => id = other
      | some (.symlink _), some (.symlink _) => one = two
      | _, _ => false
  | _, _ => false

def prepareRenameDestination (s : Shim) (env : Env) (sfd : At) (src : Text) (dfd : At) (dst : Text)
    (resolvedDst : Text) : Option Shim :=
  if s.sameExistingEntry sfd src dfd dst then some s
  else s.breakHardlinkCopyEntry env resolvedDst true

def rename (s : Shim) (env : Env) (src dst : Text) : Shim × Option Nat :=
  match s.prepareRenameDestination env .cwd src .cwd dst dst with
  | none => (s, none)
  | some s' => s'.real env (.renameat .cwd src .cwd dst)

def renameat (s : Shim) (env : Env) (sfd : At) (src : Text) (dfd : At) (dst : Text) :
    Shim × Option Nat :=
  match s.cowPath dfd dst with
  | none => s.real env (.renameat sfd src dfd dst)
  | some cowDst =>
      match s.prepareRenameDestination env sfd src dfd dst cowDst with
      | none => (s, none)
      | some s' => s'.real env (.renameat sfd src dfd dst)

def truncate (s : Shim) (env : Env) (path : Text) (length : Nat) : Shim × Option Nat :=
  s.hooked env (some path) (length ≠ 0) (.alter (.path .cwd path true) (.resize length))

def truncate64 (s : Shim) (env : Env) (path : Text) (length : Nat) : Shim × Option Nat :=
  s.truncate env path length

def chmod (s : Shim) (env : Env) (path : Text) (mode : Nat) : Shim × Option Nat :=
  s.hooked env (some path) true (.alter (.path .cwd path true) (.mode mode))

def fchmodat (s : Shim) (env : Env) (dirfd : At) (path : Text) (mode : Nat) (flags : AtFlags) :
    Shim × Option Nat :=
  s.hooked env (s.cowPath dirfd path) true (.alter (.at dirfd path flags) (.mode mode))

def chown (s : Shim) (env : Env) (path : Text) (owner : Nat × Nat) : Shim × Option Nat :=
  s.hooked env (some path) true (.alter (.path .cwd path true) (.owner owner))

def lchown (s : Shim) (env : Env) (path : Text) (owner : Nat × Nat) : Shim × Option Nat :=
  s.real env (.alter (.path .cwd path false) (.owner owner))

def fchownat (s : Shim) (env : Env) (dirfd : At) (path : Text) (owner : Nat × Nat)
    (flags : AtFlags) : Shim × Option Nat :=
  s.hooked env (if flags.nofollow then none else s.cowPath dirfd path) true
    (.alter (.at dirfd path flags) (.owner owner))

def utime (s : Shim) (env : Env) (path : Text) (times : Times) : Shim × Option Nat :=
  s.hooked env (some path) true (.alter (.path .cwd path true) (.times times))

def utimes (s : Shim) (env : Env) (path : Text) (times : Times) : Shim × Option Nat :=
  s.hooked env (some path) true (.alter (.path .cwd path true) (.times times))

def utimesTarget (dirfd : At) (path : Option Text) (flags : AtFlags) : Target :=
  match path, dirfd with
  | some path, _ => .at dirfd path flags
  | none, .fd fd => .fd fd
  | none, .cwd => .path .cwd [] true

def utimensat (s : Shim) (env : Env) (dirfd : At) (path : Option Text) (times : Times)
    (flags : AtFlags) : Shim × Option Nat :=
  s.hooked env (if flags.nofollow then none else path.bind (s.cowPath dirfd)) true
    (.alter (utimesTarget dirfd path flags) (.times times))

def setxattr (s : Shim) (env : Env) (path name : Text) (value : List UInt8) : Shim × Option Nat :=
  s.hooked env (some path) true (.alter (.path .cwd path true) (.setXattr name value))

def lsetxattr (s : Shim) (env : Env) (path name : Text) (value : List UInt8) : Shim × Option Nat :=
  s.hooked env (some path) true (.alter (.path .cwd path false) (.setXattr name value))

def removexattr (s : Shim) (env : Env) (path name : Text) : Shim × Option Nat :=
  s.hooked env (some path) true (.alter (.path .cwd path true) (.removeXattr name))

def lremovexattr (s : Shim) (env : Env) (path name : Text) : Shim × Option Nat :=
  s.hooked env (some path) true (.alter (.path .cwd path false) (.removeXattr name))

/-- The numbers that `syscall` looks at, with their arguments. -/
inductive Raw where
  | chmod (path : Text) (mode : Nat)
  | fchmodat (dirfd : At) (path : Text) (mode : Nat)
  | chown (path : Text) (owner : Nat × Nat)
  | fchownat (dirfd : At) (path : Text) (owner : Nat × Nat) (flags : AtFlags)
  | truncate (path : Text) (length : Nat)
  | ftruncate (fd : Nat) (length : Nat)
  | utimensat (dirfd : At) (path : Option Text) (times : Times) (flags : AtFlags)
  | setxattr (path name : Text) (value : List UInt8)
  | removexattr (path name : Text)
  | fchmod (fd : Nat) (mode : Nat)
  | fchown (fd : Nat) (owner : Nat × Nat)
  | fsetxattr (fd : Nat) (name : Text) (value : List UInt8)
  | fremovexattr (fd : Nat) (name : Text)
  | other (call : Sys)

def Raw.sys : Raw → Sys
  | .chmod path mode => .alter (.path .cwd path true) (.mode mode)
  | .fchmodat dirfd path mode => .alter (.path dirfd path true) (.mode mode)
  | .chown path owner => .alter (.path .cwd path true) (.owner owner)
  | .fchownat dirfd path owner flags => .alter (.at dirfd path flags) (.owner owner)
  | .truncate path length => .alter (.path .cwd path true) (.resize length)
  | .ftruncate fd length => .ftruncate fd length
  | .utimensat dirfd path times flags => .alter (utimesTarget dirfd path flags) (.times times)
  | .setxattr path name value => .alter (.path .cwd path true) (.setXattr name value)
  | .removexattr path name => .alter (.path .cwd path true) (.removeXattr name)
  | .fchmod fd mode => .alter (.fd fd) (.mode mode)
  | .fchown fd owner => .alter (.fd fd) (.owner owner)
  | .fsetxattr fd name value => .alter (.fd fd) (.setXattr name value)
  | .fremovexattr fd name => .alter (.fd fd) (.removeXattr name)
  | .other call => call

/-- `p[0] == '/' || (int)a0 == AT_FDCWD` -/
def fixedPath (dirfd : At) (path : Text) : Bool := isAbsolute path || dirfd = .cwd

/-- The path that `syscall` copies up, and whether with its content. -/
def Raw.copyUp (s : Shim) : Raw → Option Text × Bool
  | .chmod path _ | .chown path _ | .setxattr path _ _ | .removexattr path _ => (some path, true)
  | .fchmodat dirfd path _ => (if fixedPath dirfd path then some path else none, true)
  | .fchownat dirfd path _ flags =>
      (if fixedPath dirfd path && !flags.nofollow then some path else none, true)
  | .truncate path length => (some path, length ≠ 0)
  | .ftruncate fd length => (s.fdtabGet fd, length ≠ 0)
  | .utimensat dirfd path _ flags =>
      (path.filter fun text => fixedPath dirfd text && !flags.nofollow, true)
  | .fchmod fd _ | .fchown fd _ | .fsetxattr fd _ _ | .fremovexattr fd _ => (s.fdtabGet fd, true)
  | .other _ => (none, true)

def syscall (s : Shim) (env : Env) (raw : Raw) : Shim × Option Nat :=
  s.hooked env (raw.copyUp s).1 (raw.copyUp s).2 raw.sys

def byPath (s : Shim) (env : Env) (fd : Nat) (copyData : Bool) (change : Change)
    (direct : Shim → Shim × Option Nat) : Shim × Option Nat :=
  match s.fdtabGet fd with
  | some path => s.hooked env (some path) copyData (.alter (.path .cwd path true) change)
  | none => direct s

def ftruncate (s : Shim) (env : Env) (fd length : Nat) : Shim × Option Nat :=
  s.byPath env fd (length ≠ 0) (.resize length) fun s => s.real env (.ftruncate fd length)

def ftruncate64 (s : Shim) (env : Env) (fd length : Nat) : Shim × Option Nat :=
  s.ftruncate env fd length

def fchmod (s : Shim) (env : Env) (fd mode : Nat) : Shim × Option Nat :=
  s.byPath env fd true (.mode mode) fun s => s.syscall env (.fchmod fd mode)

def fchown (s : Shim) (env : Env) (fd : Nat) (owner : Nat × Nat) : Shim × Option Nat :=
  s.byPath env fd true (.owner owner) fun s => s.syscall env (.fchown fd owner)

def futimens (s : Shim) (env : Env) (fd : Nat) (times : Times) : Shim × Option Nat :=
  s.byPath env fd true (.times times) fun s => s.real env (.alter (.fd fd) (.times times))

def fsetxattr (s : Shim) (env : Env) (fd : Nat) (name : Text) (value : List UInt8) :
    Shim × Option Nat :=
  s.byPath env fd true (.setXattr name value) fun s => s.syscall env (.fsetxattr fd name value)

def fremovexattr (s : Shim) (env : Env) (fd : Nat) (name : Text) : Shim × Option Nat :=
  s.byPath env fd true (.removeXattr name) fun s => s.syscall env (.fremovexattr fd name)

def close (s : Shim) (env : Env) (fd : Nat) : Shim × Option Nat :=
  (s.fdtabClear fd).real env (.close fd)

def dup (s : Shim) (env : Env) (oldfd : Nat) : Shim × Option Nat :=
  match s.real env (.dup oldfd) with
  | (after, some newfd) =>
      match after.fdtabGet oldfd with
      | some path => (after.fdtabSet newfd (some path), some newfd)
      | none => (after, some newfd)
  | (after, none) => (after, none)

def dup2 (s : Shim) (env : Env) (oldfd newfd : Nat) : Shim × Option Nat :=
  match s.real env (.dup3 oldfd newfd) with
  | (after, some ret) => (after.fdtabSet newfd (after.fdtabGet oldfd), some ret)
  | (after, none) => (after, none)

def dup3 (s : Shim) (env : Env) (oldfd newfd : Nat) : Shim × Option Nat := s.dup2 env oldfd newfd

end Shim

/-- The functions that are loaded in front of the C library. Any call to the
kernel that has no such function is one of `syscall` to another number. -/
inductive Call where
  | open_ (path : Text) (flags : OpenFlags) (mode : Nat)
  | open64 (path : Text) (flags : OpenFlags) (mode : Nat)
  | openat (dirfd : At) (path : Text) (flags : OpenFlags) (mode : Nat)
  | openat64 (dirfd : At) (path : Text) (flags : OpenFlags) (mode : Nat)
  | creat (path : Text) (mode : Nat)
  | creat64 (path : Text) (mode : Nat)
  | truncate (path : Text) (length : Nat)
  | truncate64 (path : Text) (length : Nat)
  | ftruncate (fd length : Nat)
  | ftruncate64 (fd length : Nat)
  | fopen (path mode : Text)
  | fopen64 (path mode : Text)
  | freopen (path : Option Text) (mode : Text) (stream : Nat)
  | rename (src dst : Text)
  | renameat (sfd : At) (src : Text) (dfd : At) (dst : Text)
  | chmod (path : Text) (mode : Nat)
  | fchmodat (dirfd : At) (path : Text) (mode : Nat) (flags : AtFlags)
  | chown (path : Text) (owner : Nat × Nat)
  | lchown (path : Text) (owner : Nat × Nat)
  | fchownat (dirfd : At) (path : Text) (owner : Nat × Nat) (flags : AtFlags)
  | utime (path : Text) (times : Times)
  | utimes (path : Text) (times : Times)
  | utimensat (dirfd : At) (path : Option Text) (times : Times) (flags : AtFlags)
  | setxattr (path name : Text) (value : List UInt8)
  | lsetxattr (path name : Text) (value : List UInt8)
  | removexattr (path name : Text)
  | lremovexattr (path name : Text)
  | fchmod (fd mode : Nat)
  | fchown (fd : Nat) (owner : Nat × Nat)
  | futimens (fd : Nat) (times : Times)
  | fsetxattr (fd : Nat) (name : Text) (value : List UInt8)
  | fremovexattr (fd : Nat) (name : Text)
  | close (fd : Nat)
  | dup (oldfd : Nat)
  | dup2 (oldfd newfd : Nat)
  | dup3 (oldfd newfd : Nat)
  | syscall (raw : Shim.Raw)

def Shim.call (s : Shim) (env : Env) : Call → Shim × Option Nat
  | .open_ path flags mode => s.open_ env path flags mode
  | .open64 path flags mode => s.open64 env path flags mode
  | .openat dirfd path flags mode => s.openat env dirfd path flags mode
  | .openat64 dirfd path flags mode => s.openat64 env dirfd path flags mode
  | .creat path mode => s.creat env path mode
  | .creat64 path mode => s.creat64 env path mode
  | .truncate path length => s.truncate env path length
  | .truncate64 path length => s.truncate64 env path length
  | .ftruncate fd length => s.ftruncate env fd length
  | .ftruncate64 fd length => s.ftruncate64 env fd length
  | .fopen path mode => s.fopen env path mode
  | .fopen64 path mode => s.fopen64 env path mode
  | .freopen path mode stream => s.freopen env path mode stream
  | .rename src dst => s.rename env src dst
  | .renameat sfd src dfd dst => s.renameat env sfd src dfd dst
  | .chmod path mode => s.chmod env path mode
  | .fchmodat dirfd path mode flags => s.fchmodat env dirfd path mode flags
  | .chown path owner => s.chown env path owner
  | .lchown path owner => s.lchown env path owner
  | .fchownat dirfd path owner flags => s.fchownat env dirfd path owner flags
  | .utime path times => s.utime env path times
  | .utimes path times => s.utimes env path times
  | .utimensat dirfd path times flags => s.utimensat env dirfd path times flags
  | .setxattr path name value => s.setxattr env path name value
  | .lsetxattr path name value => s.lsetxattr env path name value
  | .removexattr path name => s.removexattr env path name
  | .lremovexattr path name => s.lremovexattr env path name
  | .fchmod fd mode => s.fchmod env fd mode
  | .fchown fd owner => s.fchown env fd owner
  | .futimens fd times => s.futimens env fd times
  | .fsetxattr fd name value => s.fsetxattr env fd name value
  | .fremovexattr fd name => s.fremovexattr env fd name
  | .close fd => s.close env fd
  | .dup oldfd => s.dup env oldfd
  | .dup2 oldfd newfd => s.dup2 env oldfd newfd
  | .dup3 oldfd newfd => s.dup3 env oldfd newfd
  | .syscall raw => s.syscall env raw

def Shim.step (s : Shim) (event : Env × Call) : Option Shim := some (s.call event.1 event.2).1

end PDocker.Cow
