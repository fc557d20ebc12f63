import PDocker.Data.Table
import PDocker.Data.Text

/-!
# Traced processes

`pdocker_direct_exec.c`: the registers of a stopped process, the record that the
tracer keeps for it, the table of these records, and the results that the tracer
makes up for credential calls.

The fields `uid`, `euid` and `suid` of the record are the parts of one triple,
those of the groups of another. The fields of the memory pager and of the brk
statistics are not part of it.
-/

set_option autoImplicit false

namespace PDocker.Direct

open Data (Table Text)

/-- `unsigned long long`: a register, an address or a raw system call result. -/
abbrev Reg := BitVec 64

abbrev Pid := Nat

abbrev Args := Fin 6 → Reg

instance neZeroArgs : NeZero 6 := ⟨by decide⟩

def negErrno (err : Nat) : Reg := BitVec.ofInt 64 (-(err : Int))

/-- `struct user_pt_regs`. -/
structure Regs where
  x : Nat → Reg
  sp : Reg
  pc : Reg

namespace Regs

def setX (r : Regs) (index : Nat) (value : Reg) : Regs :=
  { r with x := fun other => if other = index then value else r.x other }

@[simp] theorem setX_same (r : Regs) (index : Nat) (value : Reg) :
    (r.setX index value).x index = value := if_pos rfl

theorem setX_other (r : Regs) {index other : Nat} (value : Reg) (differ : other ≠ index) :
    (r.setX index value).x other = r.x other := if_neg differ

/-- `(long)regs.regs[8]`. -/
def nr (r : Regs) : Int := (r.x 8).toInt

def args (r : Regs) : Args := fun index => r.x index

end Regs

structure Ids (Id : Type) where
  real : Id
  effective : Id
  saved : Id
deriving DecidableEq

def Ids.map {Id Id' : Type} (f : Id → Id') (ids : Ids Id) : Ids Id' :=
  ⟨f ids.real, f ids.effective, f ids.saved⟩

structure TraceeState where
  inSyscall : Bool
  lastNr : Int
  emulatedNr : Int
  lastEmulatedNr : Int
  emulatedResult : Reg
  uid : Ids Reg
  gid : Ids Reg
  lastArgs : Args
  managedPendingLen : Reg
  pendingPathCacheInvalidation : Bool
  execGuestPath : Text
  guestCwd : Text
  pendingGuestCwd : Text

def MAX_TRACEES : Nat := 128

abbrev Tracees := Table Pid TraceeState

/-- What `add_tracee` writes into a free slot. -/
def freshTracee : TraceeState where
  inSyscall := false
  lastNr := -1
  emulatedNr := -1
  lastEmulatedNr := -1
  emulatedResult := 0
  uid := ⟨0, 0, 0⟩
  gid := ⟨0, 0, 0⟩
  lastArgs := fun _ => 0
  managedPendingLen := 0
  pendingPathCacheInvalidation := false
  execGuestPath := []
  guestCwd := ['/']
  pendingGuestCwd := []

def findTracee (tracees : Tracees) (pid : Pid) : Option TraceeState := tracees.lookup pid

/-- `none` when every slot is taken. -/
def addTracee (tracees : Tracees) (pid : Pid) : Option (Tracees × TraceeState) :=
  match findTracee tracees pid with
  | some existing => some (tracees, existing)
  | none =>
      if tracees.entries.length < MAX_TRACEES then
        some (tracees.insert pid freshTracee, freshTracee)
      else none

variable {pid : Pid} {state : TraceeState} {tracees after : Tracees}

theorem addTracee_found
    (found : findTracee tracees pid = some state) : addTracee tracees pid = some (tracees, state) := by
  rw [addTracee, found]

theorem addTracee_spec (added : addTracee tracees pid = some (after, state)) :
    findTracee tracees pid = some state ∧ after = tracees ∨
      findTracee tracees pid = none ∧ state = freshTracee ∧ after = tracees.insert pid freshTracee := by
  rw [addTracee] at added
  split at added
  · rename_i existing found
    cases added
    exact .inl ⟨found, rfl⟩
  rename_i missing
  split at added
  · cases added
    exact .inr ⟨missing, rfl, rfl⟩
  · cases added

theorem findTracee_addTracee (added : addTracee tracees pid = some (after, state)) (other : Pid) :
    findTracee after other = if other = pid then some state else findTracee tracees other := by
  rcases addTracee_spec added with ⟨found, rfl⟩ | ⟨missing, rfl, rfl⟩
  · by_cases same : other = pid
    · rw [if_pos same, same, found]
    · rw [if_neg same]
  · exact Table.lookup_insert_eq_ite tracees pid other freshTracee

theorem addTracee_isSome (room : (findTracee tracees pid).isSome = true ∨ tracees.entries.length < MAX_TRACEES) :
    (addTracee tracees pid).isSome = true := by
  rw [addTracee]
  cases found : findTracee tracees pid with
  | some existing => rfl
  | none =>
      have slot : tracees.entries.length < MAX_TRACEES := by
        rcases room with present | slot
        · rw [found] at present
          cases present
        · exact slot
      simp [slot]

def isMinusOneArg (value : Reg) : Bool := value = 0xffffffffffffffff

/-- What `write_tracee_u32` writes into the tracee: nothing through a null pointer. -/
def writeTraceeU32 (addr value : Reg) : List (Reg × BitVec 32) :=
  if addr = 0 then [] else [(addr, value.setWidth 32)]

/-- `setreuid` and `setregid`. -/
def Ids.setRe (ids : Ids Reg) (real effective : Reg) : Ids Reg :=
  let real := if isMinusOneArg real then ids.real else real
  let effective := if isMinusOneArg effective then ids.effective else effective
  ⟨real, effective, effective⟩

/-- `setuid` and `setgid`. -/
def Ids.setAll (_ : Ids Reg) (id : Reg) : Ids Reg := ⟨id, id, id⟩

/-- `setresuid` and `setresgid`. -/
def Ids.setRes (ids : Ids Reg) (real effective saved : Reg) : Ids Reg :=
  let real := if isMinusOneArg real then ids.real else real
  let effective := if isMinusOneArg effective then ids.effective else effective
  ⟨real, effective, if isMinusOneArg saved then effective else saved⟩

/-- `getresuid` and `getresgid`. -/
def Ids.getRes (ids : Ids Reg) (args : Args) : List (Reg × BitVec 32) :=
  writeTraceeU32 (args 0) ids.real ++ writeTraceeU32 (args 1) ids.effective ++
    writeTraceeU32 (args 2) ids.saved

def prepareEmulatedResult (state : TraceeState) (nr : Int) :
    TraceeState × Reg × List (Reg × BitVec 32) :=
  let args := state.lastArgs
  match nr with
  | 174 => (state, state.uid.real, [])
  | 175 => (state, state.uid.effective, [])
  | 176 => (state, state.gid.real, [])
  | 177 => (state, state.gid.effective, [])
  | 143 => ({ state with gid := state.gid.setRe (args 0) (args 1) }, 0, [])
  | 144 => ({ state with gid := state.gid.setAll (args 0) }, 0, [])
  | 145 => ({ state with uid := state.uid.setRe (args 0) (args 1) }, 0, [])
  | 146 => ({ state with uid := state.uid.setAll (args 0) }, 0, [])
  | 147 => ({ state with uid := state.uid.setRes (args 0) (args 1) (args 2) }, 0, [])
  | 148 => (state, 0, state.uid.getRes args)
  | 149 => ({ state with gid := state.gid.setRes (args 0) (args 1) (args 2) }, 0, [])
  | 150 => (state, 0, state.gid.getRes args)
  | _ => (state, 0, [])

end PDocker.Direct
