import Mathlib.Data.Fin.VecNotation
import PDocker.Data.Transition
import PDocker.Direct.Tracee

/-!
# Credentials of a process tree

The credential calls of every traced process are skipped and answered from the
table. Beside each answer stands the one of a kernel in which every such call
succeeds. A fork reaches the tracer twice, as the event of the parent and as the
initial stop of the child, in either order; the child inherits at the former and
may run from the latter on.
-/

set_option autoImplicit false

namespace PDocker.Direct

open Data (Table Reaches runAll reaches_of_runAll)

/-- `uid_t` and `gid_t` leave an id alone when they are -1. -/
def unchangedId : BitVec 32 := 0xffffffff

structure Creds where
  uid : Ids (BitVec 32)
  gid : Ids (BitVec 32)
deriving DecidableEq

def rootCreds : Creds := ⟨⟨0, 0, 0⟩, ⟨0, 0, 0⟩⟩

/-- The low half of a register, which is all that the kernel reads of it. -/
def idArg (value : Reg) : BitVec 32 := value.setWidth 32

def orKept (id kept : BitVec 32) : BitVec 32 := if id = unchangedId then kept else id

/-- The saved id follows when the real id is set, or the effective id to another
value than the real id had. -/
def Ids.kernelSetRe (ids : Ids (BitVec 32)) (real effective : BitVec 32) : Ids (BitVec 32) where
  real := orKept real ids.real
  effective := orKept effective ids.effective
  saved :=
    if real ≠ unchangedId ∨ effective ≠ unchangedId ∧ effective ≠ ids.real then
      orKept effective ids.effective
    else ids.saved

def Ids.kernelSetRes (ids : Ids (BitVec 32)) (real effective saved : BitVec 32) : Ids (BitVec 32) where
  real := orKept real ids.real
  effective := orKept effective ids.effective
  saved := orKept saved ids.saved

def Ids.kernelGetRes (ids : Ids (BitVec 32)) (args : Args) : List (Reg × BitVec 32) :=
  let put (addr : Reg) (id : BitVec 32) := if addr = 0 then [] else [(addr, id)]
  put (args 0) ids.real ++ put (args 1) ids.effective ++ put (args 2) ids.saved

def credentialCalls : List Int := [143, 144, 145, 146, 147, 148, 149, 150, 174, 175, 176, 177]

def idReads : List Int := [148, 150, 174, 175, 176, 177]

def kernelCall (creds : Creds) (nr : Int) (args : Args) : Creds × Reg × List (Reg × BitVec 32) :=
  let id (index : Fin 6) := idArg (args index)
  match nr with
  | 174 => (creds, creds.uid.real.setWidth 64, [])
  | 175 => (creds, creds.uid.effective.setWidth 64, [])
  | 176 => (creds, creds.gid.real.setWidth 64, [])
  | 177 => (creds, creds.gid.effective.setWidth 64, [])
  | 143 => ({ creds with gid := creds.gid.kernelSetRe (id 0) (id 1) }, 0, [])
  | 144 => ({ creds with gid := ⟨id 0, id 0, id 0⟩ }, 0, [])
  | 145 => ({ creds with uid := creds.uid.kernelSetRe (id 0) (id 1) }, 0, [])
  | 146 => ({ creds with uid := ⟨id 0, id 0, id 0⟩ }, 0, [])
  | 147 => ({ creds with uid := creds.uid.kernelSetRes (id 0) (id 1) (id 2) }, 0, [])
  | 148 => (creds, 0, creds.uid.kernelGetRes args)
  | 149 => ({ creds with gid := creds.gid.kernelSetRes (id 0) (id 1) (id 2) }, 0, [])
  | 150 => (creds, 0, creds.gid.kernelGetRes args)
  | _ => (creds, 0, [])

def Ids.widen (ids : Ids (BitVec 32)) : Ids Reg := ids.map (·.setWidth 64)

structure TraceeState.Holds (state : TraceeState) (creds : Creds) : Prop where
  uid : state.uid = creds.uid.widen
  gid : state.gid = creds.gid.widen

def PlainId (value : Reg) : Prop := value = 0xffffffffffffffff ∨ value.toNat < 0xffffffff

def Ids.ReAgrees (ids : Ids (BitVec 32)) (real effective : Reg) : Prop :=
  PlainId real ∧ PlainId effective ∧
    (idArg real ≠ unchangedId ∨ idArg effective ≠ unchangedId ∧ idArg effective ≠ ids.real ∨
      ids.saved = orKept (idArg effective) ids.effective)

def Ids.ResAgrees (ids : Ids (BitVec 32)) (real effective saved : Reg) : Prop :=
  PlainId real ∧ PlainId effective ∧ PlainId saved ∧
    (idArg saved ≠ unchangedId ∨ ids.saved = orKept (idArg effective) ids.effective)

/-- No register carries more than the id it stands for, and the saved id follows
the effective one, or equals it already. -/
def CallAgrees (creds : Creds) (nr : Int) (args : Args) : Prop :=
  match nr with
  | 143 => creds.gid.ReAgrees (args 0) (args 1)
  | 145 => creds.uid.ReAgrees (args 0) (args 1)
  | 144 | 146 => (args 0).toNat < 0x100000000
  | 147 => creds.uid.ResAgrees (args 0) (args 1) (args 2)
  | 149 => creds.gid.ResAgrees (args 0) (args 1) (args 2)
  | _ => True

variable {value effective real : Reg} {id : BitVec 32} {ids : Ids (BitVec 32)}

theorem widen_idArg (small : value.toNat < 0x100000000) : (idArg value).setWidth 64 = value := by
  apply BitVec.eq_of_toNat_eq
  simp only [idArg, BitVec.toNat_setWidth]
  omega

theorem PlainId.cases (plain : PlainId value) : isMinusOneArg value = true ∧ idArg value = unchangedId ∨
      isMinusOneArg value = false ∧ idArg value ≠ unchangedId ∧ (idArg value).setWidth 64 = value := by
  rcases plain with rfl | small
  · exact .inl (by decide)
  have wide : (idArg value).setWidth 64 = value := widen_idArg (by omega)
  refine .inr ⟨?_, ?_, wide⟩
  · have differ : value ≠ 0xffffffffffffffff := by
      intro same
      rw [same] at small
      exact absurd small (by decide)
    simpa [isMinusOneArg] using differ
  · intro same
    rw [same] at wide
    rw [← wide] at small
    exact absurd small (by decide)

theorem orKept_unchanged {kept : BitVec 32} (same : id = unchangedId) : orKept id kept = kept :=
  if_pos same

theorem orKept_changed {kept : BitVec 32} (differ : id ≠ unchangedId) : orKept id kept = id :=
  if_neg differ

theorem PlainId.kept (plain : PlainId value) (kept : BitVec 32) :
    (if isMinusOneArg value then kept.setWidth 64 else value) =
      (orKept (idArg value) kept).setWidth 64 := by
  rcases plain.cases with ⟨minusOne, same⟩ | ⟨notMinusOne, differ, wide⟩
  · rw [if_pos minusOne, orKept_unchanged same]
  · rw [notMinusOne, if_neg Bool.false_ne_true, orKept_changed differ, wide]

theorem Ids.setRe_widen (agrees : ids.ReAgrees real effective) :
    ids.widen.setRe real effective = (ids.kernelSetRe (idArg real) (idArg effective)).widen := by
  obtain ⟨plainReal, plainEffective, follows⟩ := agrees
  have savedId : (ids.kernelSetRe (idArg real) (idArg effective)).saved =
      orKept (idArg effective) ids.effective := by
    rw [kernelSetRe]
    split
    · rfl
    rename_i still
    rcases follows with realSet | effectiveSet | already
    · exact absurd (.inl realSet) still
    · exact absurd (.inr effectiveSet) still
    · exact already
  have realId := plainReal.kept ids.real
  have effectiveId := plainEffective.kept ids.effective
  simp only [setRe, widen, map, savedId]
  simp only [kernelSetRe]
  rw [realId, effectiveId]

theorem Ids.setRes_widen {saved : Reg} (agrees : ids.ResAgrees real effective saved) :
    ids.widen.setRes real effective saved =
      (ids.kernelSetRes (idArg real) (idArg effective) (idArg saved)).widen := by
  obtain ⟨plainReal, plainEffective, plainSaved, follows⟩ := agrees
  have realId := plainReal.kept ids.real
  have effectiveId := plainEffective.kept ids.effective
  have savedId : (if isMinusOneArg saved then
      (orKept (idArg effective) ids.effective).setWidth 64 else saved) =
        (orKept (idArg saved) ids.saved).setWidth 64 := by
    rcases plainSaved.cases with ⟨minusOne, same⟩ | ⟨notMinusOne, differ, wide⟩
    · have already := follows.resolve_left (not_not_intro same)
      rw [if_pos minusOne, orKept_unchanged same, already]
    · rw [notMinusOne, if_neg Bool.false_ne_true, orKept_changed differ, wide]
  simp only [setRes, widen, map, kernelSetRes]
  rw [realId, effectiveId, savedId]

theorem Ids.setAll_widen (ids : Ids Reg) {id : Reg} (small : id.toNat < 0x100000000) :
    ids.setAll id = (⟨idArg id, idArg id, idArg id⟩ : Ids (BitVec 32)).widen := by
  simp only [setAll, widen, map, widen_idArg small]

theorem Ids.getRes_widen (ids : Ids (BitVec 32)) (args : Args) :
    ids.widen.getRes args = ids.kernelGetRes args := by
  simp [getRes, kernelGetRes, widen, map, writeTraceeU32]

theorem prepareEmulatedResult_agrees {state : TraceeState} {creds : Creds} {nr : Int}
    (holds : state.Holds creds) (listed : nr ∈ credentialCalls)
    (agrees : CallAgrees creds nr state.lastArgs) :
    (prepareEmulatedResult state nr).1.Holds (kernelCall creds nr state.lastArgs).1 ∧
      (prepareEmulatedResult state nr).2 = (kernelCall creds nr state.lastArgs).2 := by
  obtain ⟨uid, gid⟩ := holds
  simp only [credentialCalls, List.mem_cons, List.not_mem_nil, or_false] at listed
  rcases listed with rfl | rfl | rfl | rfl | rfl | rfl | rfl | rfl | rfl | rfl | rfl | rfl <;>
    simp only [CallAgrees] at agrees <;> simp only [prepareEmulatedResult, kernelCall]
  · exact ⟨⟨uid, by rw [gid, Ids.setRe_widen agrees]⟩, trivial⟩
  · exact ⟨⟨uid, Ids.setAll_widen state.gid agrees⟩, trivial⟩
  · exact ⟨⟨by rw [uid, Ids.setRe_widen agrees], gid⟩, trivial⟩
  · exact ⟨⟨Ids.setAll_widen state.uid agrees, gid⟩, trivial⟩
  · exact ⟨⟨by rw [uid, Ids.setRes_widen agrees], gid⟩, trivial⟩
  · exact ⟨⟨uid, gid⟩, by rw [uid, Ids.getRes_widen]⟩
  · exact ⟨⟨uid, by rw [gid, Ids.setRes_widen agrees]⟩, trivial⟩
  · exact ⟨⟨uid, gid⟩, by rw [gid, Ids.getRes_widen]⟩
  · exact ⟨⟨uid, gid⟩, by rw [uid]; rfl⟩
  · exact ⟨⟨uid, gid⟩, by rw [uid]; rfl⟩
  · exact ⟨⟨uid, gid⟩, by rw [gid]; rfl⟩
  · exact ⟨⟨uid, gid⟩, by rw [gid]; rfl⟩

/-! ## The process tree -/

/-- A process as the kernel has it: whether its initial stop has reached the
tracer, the parent whose fork event for it has not, and the child whose fork
event it is stopped at. -/
structure Process where
  creds : Creds
  born : Bool
  awaits : Option Pid
  forking : Option Pid

structure Report where
  pid : Pid
  nr : Int
  result : Reg × List (Reg × BitVec 32)
  expected : Reg × List (Reg × BitVec 32)

structure Tree where
  tracees : Tracees
  processes : Table Pid Process
  reports : List Report

inductive TreeEvent
  | fork (parent child : Pid)
  | firstStop (pid : Pid)
  | forkEvent (parent : Pid)
  | call (pid : Pid) (nr : Int) (args : Args)
  | exit (pid : Pid)

namespace Tree

def start (root : Pid) : Tree where
  tracees := (∅ : Tracees).insert root freshTracee
  processes := (∅ : Table Pid Process).insert root ⟨rootCreds, true, none, none⟩
  reports := []

def free (t : Tree) (pid : Pid) : Bool :=
  (t.processes.lookup pid).isNone && t.processes.entries.all fun entry => entry.2.forking ≠ some pid

def inherit (state newState : TraceeState) : TraceeState :=
  { newState with
    uid := state.uid
    gid := state.gid
    execGuestPath := state.execGuestPath
    guestCwd := if state.guestCwd = [] then ['/'] else state.guestCwd }

def step (t : Tree) : TreeEvent → Option Tree
  | .fork parent child =>
      match t.processes.lookup parent with
      | none => none
      | some p =>
          if p.born && p.forking.isNone && t.free child then
            some { t with
              processes := (t.processes.insert parent { p with forking := some child }).insert child
                ⟨p.creds, false, some parent, none⟩ }
          else none
  | .firstStop pid =>
      match t.processes.lookup pid with
      | none => none
      | some p =>
          if p.born then none
          else
            match addTracee t.tracees pid with
            | none => some { t with processes := t.processes.erase pid }
            | some (tracees, _) =>
                some { t with tracees, processes := t.processes.insert pid { p with born := true } }
  | .forkEvent parent =>
      match t.processes.lookup parent with
      | none => none
      | some p =>
          match p.forking with
          | none => none
          | some child =>
              match addTracee t.tracees parent with
              | none => some { t with processes := t.processes.erase parent }
              | some (tracees, state) =>
                  let resumed := t.processes.insert parent { p with forking := none }
                  let processes :=
                    match resumed.lookup child with
                    | none => resumed
                    | some c => resumed.insert child { c with awaits := none }
                  match addTracee tracees child with
                  | none => some { t with tracees, processes }
                  | some (tracees, newState) =>
                      some { t with tracees := tracees.insert child (inherit state newState), processes }
  | .call pid nr args =>
      match t.processes.lookup pid with
      | none => none
      | some p =>
          if p.born && p.forking.isNone && credentialCalls.contains nr then
            match addTracee t.tracees pid with
            | none => some { t with processes := t.processes.erase pid }
            | some (tracees, state) =>
                let answered := prepareEmulatedResult { state with lastNr := nr, lastArgs := args } nr
                let called := kernelCall p.creds nr args
                some {
                  tracees := tracees.insert pid answered.1
                  processes := t.processes.insert pid { p with creds := called.1 }
                  reports := ⟨pid, nr, answered.2, called.2⟩ :: t.reports }
          else none
  | .exit pid =>
      if (t.processes.lookup pid).isSome then
        some { t with tracees := t.tracees.erase pid, processes := t.processes.erase pid }
      else none

/-- No call has changed the ids of the process from zero, and those in the table,
if any, are zero too. -/
def Blank (t : Tree) (pid : Pid) (p : Process) : Prop :=
  p.creds = rootCreds ∧
    ∀ state, findTracee t.tracees pid = some state → state.uid = ⟨0, 0, 0⟩ ∧ state.gid = ⟨0, 0, 0⟩

/-- A call comes from a process whose fork event has been handled and agrees by
itself, or only reads ids that nothing has set; at a fork event the ids of the
parent are known in one of these two ways, and the table has room. -/
def Settled (t : Tree) : TreeEvent → Prop
  | .call pid nr args =>
      ∀ p, t.processes.lookup pid = some p →
        p.awaits = none ∧ CallAgrees p.creds nr args ∨ t.Blank pid p ∧ nr ∈ idReads
  | .forkEvent parent =>
      ∀ p child, t.processes.lookup parent = some p → p.forking = some child →
        (p.awaits = none ∨ t.Blank parent p) ∧
          ((findTracee t.tracees child).isSome = true ∨ t.tracees.entries.length < MAX_TRACEES)
  | _ => True

structure Follows (t : Tree) : Prop where
  held : ∀ pid p, t.processes.lookup pid = some p → p.awaits = none →
    ∃ state, findTracee t.tracees pid = some state ∧ state.Holds p.creds
  present : ∀ pid p, t.processes.lookup pid = some p → p.born = true →
    (findTracee t.tracees pid).isSome = true
  announced : ∀ parent p child c, t.processes.lookup parent = some p → p.forking = some child →
    t.processes.lookup child = some c → c.awaits = some parent ∧ c.creds = p.creds
  running : ∀ pid p, t.processes.lookup pid = some p → p.forking.isSome = true → p.born = true
  reports : ∀ report ∈ t.reports, report.result = report.expected

theorem follows_start (root : Pid) : (start root).Follows := by
  have only : ∀ pid p, (start root).processes.lookup pid = some p →
      pid = root ∧ p = ⟨rootCreds, true, none, none⟩ := by
    intro pid p found
    rcases Table.lookup_insert_cases found with only | ⟨_, none⟩
    · exact only
    · cases none
  have entry : findTracee (start root).tracees root = some freshTracee :=
    AList.lookup_insert _
  constructor
  · intro pid p found _
    obtain ⟨rfl, rfl⟩ := only pid p found
    exact ⟨freshTracee, entry, by constructor <;> rfl⟩
  · intro pid p found _
    obtain ⟨rfl, rfl⟩ := only pid p found
    rw [entry]
    rfl
  · intro parent p child c found forking
    obtain ⟨rfl, rfl⟩ := only parent p found
    cases forking
  · intro pid p found _
    obtain ⟨rfl, rfl⟩ := only pid p found
    rfl
  · intro report member
    cases member

variable {pid parent : Pid} {t next : Tree}

theorem free_spec (free : t.free pid = true) : t.processes.lookup pid = none ∧
      ∀ other p, t.processes.lookup other = some p → p.forking ≠ some pid := by
  rw [Tree.free, Bool.and_eq_true, Option.isNone_iff_eq_none, List.all_eq_true] at free
  obtain ⟨missing, apart⟩ := free
  refine ⟨missing, fun other p found => ?_⟩
  have member := AList.mem_lookup_iff.mp found
  simpa using apart _ member

variable (follows : t.Follows)

include follows

theorem Follows.fork {child : Pid} (result : t.step (.fork parent child) = some next) : next.Follows := by
  rw [step] at result
  split at result
  · cases result
  rename_i p found
  split at result
  · rename_i guard
    cases result
    obtain ⟨⟨born, idle⟩, free⟩ : (p.born = true ∧ p.forking.isNone = true) ∧ t.free child = true := by
      simpa using guard
    obtain ⟨missing, apart⟩ := free_spec free
    have differ : parent ≠ child := by
      rintro rfl
      rw [missing] at found
      cases found
    have look : ∀ pid q, ((t.processes.insert parent { p with forking := some child }).insert child
        ⟨p.creds, false, some parent, none⟩).lookup pid = some q →
        pid = child ∧ q = ⟨p.creds, false, some parent, none⟩ ∨
        pid = parent ∧ q = { p with forking := some child } ∨
        pid ≠ child ∧ pid ≠ parent ∧ t.processes.lookup pid = some q := by
      intro pid q looked
      rcases Table.lookup_insert_cases looked with new | ⟨away, looked⟩
      · exact .inl new
      · rcases Table.lookup_insert_cases looked with old | ⟨elsewhere, looked⟩
        · exact .inr (.inl old)
        · exact .inr (.inr ⟨away, elsewhere, looked⟩)
    constructor
    · intro pid q looked announced
      rcases look pid q looked with ⟨rfl, rfl⟩ | ⟨rfl, rfl⟩ | ⟨_, _, old⟩
      · cases announced
      · exact follows.held pid p found announced
      · exact follows.held pid q old announced
    · intro pid q looked running
      rcases look pid q looked with ⟨rfl, rfl⟩ | ⟨rfl, rfl⟩ | ⟨_, _, old⟩
      · cases running
      · exact follows.present pid p found born
      · exact follows.present pid q old running
    · intro pid q other c looked forking lookedChild
      rcases look pid q looked with ⟨rfl, rfl⟩ | ⟨rfl, rfl⟩ | ⟨_, _, old⟩
      · cases forking
      · cases forking
        rcases look child c lookedChild with ⟨_, rfl⟩ | ⟨same, _⟩ | ⟨away, _, _⟩
        · exact ⟨rfl, rfl⟩
        · exact absurd same.symm differ
        · exact absurd rfl away
      · rcases look other c lookedChild with ⟨rfl, _⟩ | ⟨rfl, rfl⟩ | ⟨_, _, oldChild⟩
        · exact absurd forking (apart pid q old)
        · exact follows.announced pid q other p old forking found
        · exact follows.announced pid q other c old forking oldChild
    · intro pid q looked busy
      rcases look pid q looked with ⟨rfl, rfl⟩ | ⟨rfl, rfl⟩ | ⟨_, _, old⟩
      · cases busy
      · exact born
      · exact follows.running pid q old busy
    · exact follows.reports
  · cases result

theorem Follows.gone (pid : Pid) (tracees : Tracees)
    (kept : ∀ other, other ≠ pid → findTracee tracees other = findTracee t.tracees other) :
    ({ t with tracees, processes := t.processes.erase pid } : Tree).Follows := by
  have look : ∀ other q, (t.processes.erase pid).lookup other = some q →
      other ≠ pid ∧ t.processes.lookup other = some q :=
    fun _ _ => Table.lookup_erase_some
  constructor
  · intro other q looked announced
    obtain ⟨away, old⟩ := look other q looked
    rw [kept other away]
    exact follows.held other q old announced
  · intro other q looked running
    obtain ⟨away, old⟩ := look other q looked
    rw [kept other away]
    exact follows.present other q old running
  · intro parent q child c looked forking lookedChild
    exact follows.announced parent q child c (look parent q looked).2 forking
      (look child c lookedChild).2
  · intro other q looked busy
    exact follows.running other q (look other q looked).2 busy
  · exact follows.reports

theorem Follows.exit (result : t.step (.exit pid) = some next) : next.Follows := by
  rw [step] at result
  split at result
  · cases result
    apply follows.gone
    intro other away
    exact AList.lookup_erase_ne away
  · cases result

theorem Follows.firstStop (result : t.step (.firstStop pid) = some next) : next.Follows := by
  rw [step] at result
  split at result
  · cases result
  rename_i p found
  split at result
  · cases result
  split at result
  · cases result
    exact follows.gone pid t.tracees fun _ _ => rfl
  rename_i tracees state added
  cases result
  have tracked := findTracee_addTracee added
  have look : ∀ other q, (t.processes.insert pid { p with born := true }).lookup other = some q →
      other = pid ∧ q = { p with born := true } ∨ other ≠ pid ∧ t.processes.lookup other = some q :=
    fun _ _ => Table.lookup_insert_cases
  constructor
  · intro other q looked announced
    rcases look other q looked with ⟨rfl, rfl⟩ | ⟨away, old⟩
    · obtain ⟨entry, present, holds⟩ := follows.held other p found announced
      rcases addTracee_spec added with ⟨_, rfl⟩ | ⟨missing, _⟩
      · exact ⟨entry, present, holds⟩
      · rw [missing] at present
        cases present
    · rw [tracked other, if_neg away]
      exact follows.held other q old announced
  · intro other q looked running
    rw [tracked other]
    rcases look other q looked with ⟨rfl, _⟩ | ⟨away, old⟩
    · rw [if_pos rfl]
      rfl
    · rw [if_neg away]
      exact follows.present other q old running
  · intro parent q child c looked forking lookedChild
    have parentOld : ∃ q', t.processes.lookup parent = some q' ∧ q'.forking = some child ∧
        q'.creds = q.creds := by
      rcases look parent q looked with ⟨rfl, rfl⟩ | ⟨_, old⟩
      · exact ⟨p, found, forking, rfl⟩
      · exact ⟨q, old, forking, rfl⟩
    have childOld : ∃ c', t.processes.lookup child = some c' ∧ c'.awaits = c.awaits ∧
        c'.creds = c.creds := by
      rcases look child c lookedChild with ⟨rfl, rfl⟩ | ⟨_, old⟩
      · exact ⟨p, found, rfl, rfl⟩
      · exact ⟨c, old, rfl, rfl⟩
    obtain ⟨q', foundParent, forking', sameParent⟩ := parentOld
    obtain ⟨c', foundChild, sameAwaits, sameChild⟩ := childOld
    have before := follows.announced parent q' child c' foundParent forking' foundChild
    rw [sameAwaits, sameChild, sameParent] at before
    exact before
  · intro other q looked busy
    rcases look other q looked with ⟨rfl, rfl⟩ | ⟨_, old⟩
    · rfl
    · exact follows.running other q old busy
  · exact follows.reports

theorem Follows.known {p : Process}
    {tracees : Tracees} {state : TraceeState} (found : t.processes.lookup pid = some p)
    (known : p.awaits = none ∨ t.Blank pid p)
    (added : addTracee t.tracees pid = some (tracees, state)) : state.Holds p.creds := by
  rcases known with announced | ⟨zero, blank⟩
  · obtain ⟨entry, present, holds⟩ := follows.held pid p found announced
    rw [addTracee_found present] at added
    cases added
    exact holds
  · rw [zero]
    rcases addTracee_spec added with ⟨present, _⟩ | ⟨_, rfl, _⟩
    · obtain ⟨uid, gid⟩ := blank state present
      exact ⟨uid, gid⟩
    · constructor <;> rfl

theorem Follows.call {nr : Int} {args : Args}
    (settled : t.Settled (.call pid nr args)) (result : t.step (.call pid nr args) = some next) :
    next.Follows := by
  rw [step] at result
  split at result
  · cases result
  rename_i p found
  split at result
  · rename_i guard
    obtain ⟨⟨born, idle⟩, listed⟩ :
        (p.born = true ∧ p.forking.isNone = true) ∧ nr ∈ credentialCalls := by
      simpa using guard
    split at result
    · cases result
      exact follows.gone pid t.tracees fun _ _ => rfl
    rename_i tracees state added
    cases result
    have known : p.awaits = none ∨ t.Blank pid p :=
      (settled p found).imp (·.1) (·.1)
    have agrees : CallAgrees p.creds nr args := by
      rcases settled p found with ⟨_, agrees⟩ | ⟨_, reads⟩
      · exact agrees
      · simp only [idReads, List.mem_cons, List.not_mem_nil, or_false] at reads
        rcases reads with rfl | rfl | rfl | rfl | rfl | rfl <;> trivial
    have unchanged : p.awaits ≠ none → (kernelCall p.creds nr args).1 = p.creds := by
      intro awaits
      rcases settled p found with ⟨announced, _⟩ | ⟨_, reads⟩
      · exact absurd announced awaits
      · simp only [idReads, List.mem_cons, List.not_mem_nil, or_false] at reads
        rcases reads with rfl | rfl | rfl | rfl | rfl | rfl <;> rfl
    have holds := follows.known found known added
    obtain ⟨after, same⟩ :=
      @prepareEmulatedResult_agrees { state with lastNr := nr, lastArgs := args } p.creds nr
        ⟨holds.uid, holds.gid⟩ listed agrees
    have tracked := findTracee_addTracee added
    have table : ∀ other, findTracee (tracees.insert pid
        (prepareEmulatedResult { state with lastNr := nr, lastArgs := args } nr).1) other =
        if other = pid then
          some (prepareEmulatedResult { state with lastNr := nr, lastArgs := args } nr).1
        else findTracee t.tracees other := by
      intro other
      rw [findTracee, Table.lookup_insert_eq_ite]
      split
      · rfl
      · rename_i away
        exact (tracked other).trans (if_neg away)
    have look : ∀ other q, (t.processes.insert pid
        { p with creds := (kernelCall p.creds nr args).1 }).lookup other = some q →
        other = pid ∧ q = { p with creds := (kernelCall p.creds nr args).1 } ∨
          other ≠ pid ∧ t.processes.lookup other = some q :=
      fun _ _ => Table.lookup_insert_cases
    constructor
    · intro other q looked announced
      rw [table other]
      rcases look other q looked with ⟨rfl, rfl⟩ | ⟨away, old⟩
      · exact ⟨_, if_pos rfl, after⟩
      · rw [if_neg away]
        exact follows.held other q old announced
    · intro other q looked running
      rw [table other]
      rcases look other q looked with ⟨rfl, _⟩ | ⟨away, old⟩
      · rw [if_pos rfl]
        rfl
      · rw [if_neg away]
        exact follows.present other q old running
    · intro parent q child c looked forking lookedChild
      rcases look parent q looked with ⟨rfl, rfl⟩ | ⟨_, old⟩
      · rw [Option.isNone_iff_eq_none.mp idle] at forking
        cases forking
      rcases look child c lookedChild with ⟨rfl, rfl⟩ | ⟨_, oldChild⟩
      · obtain ⟨awaits, equal⟩ := follows.announced parent q child p old forking found
        have still := unchanged (by rw [awaits]; exact Option.some_ne_none parent)
        exact ⟨awaits, still.trans equal⟩
      · exact follows.announced parent q child c old forking oldChild
    · intro other q looked busy
      rcases look other q looked with ⟨rfl, rfl⟩ | ⟨_, old⟩
      · exact born
      · exact follows.running other q old busy
    · intro report member
      rcases List.mem_cons.mp member with rfl | earlier
      · exact same
      · exact follows.reports report earlier
  · cases result

theorem Follows.forkEvent
    (settled : t.Settled (.forkEvent parent)) (result : t.step (.forkEvent parent) = some next) :
    next.Follows := by
  rw [step] at result
  split at result
  · cases result
  rename_i p found
  split at result
  · cases result
  rename_i child forking
  obtain ⟨known, room⟩ := settled p child found forking
  have born : p.born = true := follows.running parent p found (by rw [forking]; rfl)
  obtain ⟨state, present⟩ := Option.isSome_iff_exists.mp (follows.present parent p found born)
  have holds := follows.known found known (addTracee_found present)
  obtain ⟨⟨tracees, newState⟩, added⟩ := Option.isSome_iff_exists.mp (addTracee_isSome room)
  simp only [addTracee_found present, added] at result
  cases result
  have tracked := findTracee_addTracee added
  have table : ∀ other, findTracee (tracees.insert child (inherit state newState)) other =
      if other = child then some (inherit state newState) else findTracee t.tracees other := by
    intro other
    rw [findTracee, Table.lookup_insert_eq_ite]
    split
    · rfl
    · rename_i away
      exact (tracked other).trans (if_neg away)
  generalize processes_def : (match (t.processes.insert parent { p with forking := none }).lookup child with
    | none => t.processes.insert parent { p with forking := none }
    | some c => (t.processes.insert parent { p with forking := none }).insert child
        { c with awaits := none }) = processes
  -- Every process is an old one, with its fork event handled or announced.
  have look : ∀ pid q, processes.lookup pid = some q → ∃ old, t.processes.lookup pid = some old ∧
      q.creds = old.creds ∧ q.born = old.born ∧
      q.forking = (if pid = parent then none else old.forking) ∧
      q.awaits = (if pid = child then none else old.awaits) := by
    have resumed : ∀ pid q, (t.processes.insert parent { p with forking := none }).lookup pid = some q →
        ∃ old, t.processes.lookup pid = some old ∧ q.creds = old.creds ∧ q.born = old.born ∧
          q.forking = (if pid = parent then none else old.forking) ∧ q.awaits = old.awaits := by
      intro pid q looked
      rcases Table.lookup_insert_cases looked with ⟨rfl, rfl⟩ | ⟨away, old⟩
      · exact ⟨p, found, rfl, rfl, (if_pos rfl).symm, rfl⟩
      · exact ⟨q, old, rfl, rfl, (if_neg away).symm, rfl⟩
    intro pid q looked
    subst processes_def
    split at looked
    · rename_i missing
      obtain ⟨old, foundOld, creds, born, forking, awaits⟩ := resumed pid q looked
      have away : pid ≠ child := by
        rintro rfl
        rw [missing] at looked
        cases looked
      exact ⟨old, foundOld, creds, born, forking, awaits.trans (if_neg away).symm⟩
    · rename_i c foundChild
      rcases Table.lookup_insert_cases looked with ⟨rfl, rfl⟩ | ⟨away, looked⟩
      · obtain ⟨old, foundOld, creds, born, forking, _⟩ := resumed pid c foundChild
        exact ⟨old, foundOld, creds, born, forking, (if_pos rfl).symm⟩
      · obtain ⟨old, foundOld, creds, born, forking, awaits⟩ := resumed pid q looked
        exact ⟨old, foundOld, creds, born, forking, awaits.trans (if_neg away).symm⟩
  constructor
  · intro pid q looked announced
    obtain ⟨old, foundOld, creds, _, _, awaits⟩ := look pid q looked
    rw [table pid, creds]
    by_cases same : pid = child
    · subst same
      have equal := (follows.announced parent p pid old found forking foundOld).2
      rw [equal]
      exact ⟨_, if_pos rfl, holds.uid, holds.gid⟩
    · rw [if_neg same]
      rw [if_neg same] at awaits
      exact follows.held pid old foundOld (awaits.symm.trans announced)
  · intro pid q looked running
    obtain ⟨old, foundOld, _, born, _⟩ := look pid q looked
    rw [table pid]
    split
    · rfl
    · exact follows.present pid old foundOld (born.symm.trans running)
  · intro pid q other c looked busy lookedChild
    obtain ⟨old, foundOld, creds, _, forkingOld, _⟩ := look pid q looked
    obtain ⟨oldChild, foundChild, credsChild, _, _, awaitsChild⟩ := look other c lookedChild
    have away : pid ≠ parent := by
      rintro rfl
      rw [if_pos rfl, busy] at forkingOld
      cases forkingOld
    rw [if_neg away, busy] at forkingOld
    obtain ⟨awaits, equal⟩ := follows.announced pid old other oldChild foundOld forkingOld.symm foundChild
    have apart : other ≠ child := by
      rintro rfl
      have expected := (follows.announced parent p other oldChild found forking foundChild).1
      rw [awaits] at expected
      exact away (Option.some.inj expected)
    rw [if_neg apart] at awaitsChild
    exact ⟨awaitsChild.trans awaits, by rw [credsChild, creds, equal]⟩
  · intro pid q looked busy
    obtain ⟨old, foundOld, _, born, forkingOld, _⟩ := look pid q looked
    have away : pid ≠ parent := by
      rintro rfl
      rw [forkingOld, if_pos rfl] at busy
      cases busy
    rw [if_neg away] at forkingOld
    exact born.trans (follows.running pid old foundOld (by rw [← forkingOld]; exact busy))
  · exact follows.reports

omit follows

theorem Follows.step {t next : Tree} {event : TreeEvent} (follows : t.Follows)
    (settled : t.Settled event) (result : t.step event = some next) : next.Follows := by
  cases event with
  | fork parent child => exact follows.fork result
  | firstStop pid => exact follows.firstStop result
  | forkEvent parent => exact follows.forkEvent settled result
  | call pid nr args => exact follows.call settled result
  | exit pid => exact follows.exit result

/-- Every answer is the kernel's, in a run whose calls and fork events are settled. -/
theorem credentials_follow {root : Pid} {last : Tree}
    (reaches : Reaches step Settled (start root) last) :
    ∀ report ∈ last.reports, report.result = report.expected :=
  (reaches.invariant Follows (follows_start root) fun _ _ _ follows settled result =>
    follows.step settled result).reports

section

private def argsOf (first second third : Reg) : Args := ![first, second, third, 0, 0, 0]

private def minusOne : Reg := 0xffffffffffffffff

theorem credentials_follow_child : ∃ last, Reaches step Settled (start 1) last ∧
    last.reports.map (·.result) = [(1000, []), (0, [])] ∧
    ∀ report ∈ last.reports, report.result = report.expected := by
  obtain ⟨changed, set⟩ : ∃ next, (start 1).step (.call 1 147 (argsOf 1000 1000 1000)) = some next := ⟨_, rfl⟩
  obtain ⟨forked, fork⟩ : ∃ next, changed.step (.fork 1 2) = some next := by cases set; exact ⟨_, rfl⟩
  obtain ⟨announced, event⟩ : ∃ next, forked.step (.forkEvent 1) = some next := by
    cases set; cases fork; exact ⟨_, rfl⟩
  obtain ⟨running, stop⟩ : ∃ next, announced.step (.firstStop 2) = some next := by
    cases set; cases fork; cases event; exact ⟨_, rfl⟩
  obtain ⟨last, read⟩ : ∃ next, running.step (.call 2 174 (argsOf 0 0 0)) = some next := by
    cases set; cases fork; cases event; cases stop; exact ⟨_, rfl⟩
  have reaches : Reaches step Settled (start 1) last := by
    refine .step (.step (.step (.step (.step .refl ?_ set) ?_ fork) ?_ event) ?_ stop) ?_ read
    · intro p found
      cases found
      refine .inl ⟨rfl, ?_⟩
      simp only [CallAgrees, Ids.ResAgrees, PlainId]
      decide
    · trivial
    · cases set
      cases fork
      intro p child found forking
      cases found
      cases forking
      exact ⟨.inl rfl, .inr (by decide)⟩
    · trivial
    cases set
    cases fork
    cases event
    cases stop
    intro p found
    cases found
    exact .inl ⟨rfl, trivial⟩
  refine ⟨last, reaches, ?_, credentials_follow reaches⟩
  cases set
  cases fork
  cases event
  cases stop
  cases read
  decide

def astrayRuns : List (List TreeEvent) :=
  [[.call 1 147 (argsOf 1000 1000 minusOne), .call 1 148 (argsOf 8 16 24)],
   [.call 1 147 (argsOf 0 5 7), .call 1 145 (argsOf minusOne minusOne 0), .call 1 148 (argsOf 8 16 24)],
   [.call 1 147 (argsOf 0xffffffff 5 5), .call 1 174 (argsOf 0 0 0)],
   [.call 1 146 (argsOf 1000 0 0), .fork 1 2, .firstStop 2, .call 2 174 (argsOf 0 0 0)],
   [.fork 1 2, .firstStop 2, .call 2 146 (argsOf 7 0 0), .forkEvent 1, .call 2 174 (argsOf 0 0 0)]]

private def anyTreeEvent : Tree → TreeEvent → Bool := fun _ _ => true

private def leadsAstray (events : List TreeEvent) : Bool :=
  match runAll step anyTreeEvent (start 1) events with
  | none => false
  | some last => last.reports.any fun report => report.result ≠ report.expected

theorem credentials_astray : astrayRuns.length = 5 ∧ ∀ events ∈ astrayRuns, ∃ last,
    Reaches step (fun _ _ => True) (start 1) last ∧
      ∃ report ∈ last.reports, report.result ≠ report.expected := by
  have every : ∀ events ∈ astrayRuns, leadsAstray events = true := by decide +kernel
  refine ⟨rfl, fun events member => ?_⟩
  have astray := every events member
  rw [leadsAstray] at astray
  split at astray
  · cases astray
  rename_i last result
  obtain ⟨report, reported, differ⟩ := List.any_eq_true.mp astray
  exact ⟨last, reaches_of_runAll (fun _ _ _ => trivial) events .refl result,
    report, reported, of_decide_eq_true differ⟩

end

end Tree

end PDocker.Direct
