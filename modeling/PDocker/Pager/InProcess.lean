import PDocker.Data.Pages
import PDocker.Pager.Admission

/-!
# The pager in the process

A mapping without access and a backing file. A page is read in when it is asked for and
written out, if it is dirty, before another takes its place. All system calls succeed.
-/

set_option autoImplicit false

namespace PDocker.Pager

open Data

/-! ## The pager -/

inductive PagerCall where
  | mprotect (page prot : Nat)
  | pread (page : Nat)
  | pwrite (page : Nat)
deriving DecidableEq, Repr

/-- `memory` and `protection` are what the mapping holds, byte by byte, and how its pages
are protected; `backing` is the file. -/
structure ManagedPagerPoc where
  pageSize : Nat
  pageCount : Nat
  residentLimit : Nat
  residentCount : Nat := 0
  maxResidentCount : Nat := 0
  clockHand : Nat := 0
  backing : Nat → UInt8 := fun _ => 0
  resident : Nat → Bool := fun _ => false
  dirty : Nat → Bool := fun _ => false
  writable : Nat → Bool := fun _ => false
  pageIns : Nat := 0
  pageOuts : Nat := 0
  dirtyPageOuts : Nat := 0
  bytesIn : Nat := 0
  bytesOut : Nat := 0
  memory : Nat → UInt8 := fun _ => 0
  protection : Nat → Nat := fun _ => PROT_NONE

/-- `managed_pager_init`, by what `sysconf` says. The length of the backing file is signed, and
`ftruncate` takes no negative one. -/
def managedPagerInit (sysconf : Int) (pageCount residentLimit : Nat) : Option ManagedPagerPoc :=
  let pageSize := if 0 < sysconf then sysconf.toNat else 4096
  if pageCount = 0 then none
  else if SIZE_MAX / pageSize < pageCount then none
  else if 2 ^ 63 ≤ pageSize * pageCount then none
  else some { pageSize, pageCount, residentLimit := min (if residentLimit = 0 then 1 else residentLimit) pageCount }

def ManagedPagerPoc.protect (pager : ManagedPagerPoc) (page prot : Nat) : ManagedPagerPoc :=
  { pager with protection := Function.update pager.protection page prot }

def ManagedPagerPoc.writeOut (pager : ManagedPagerPoc) (page : Nat) : ManagedPagerPoc :=
  if pager.dirty page then
    { pager with
      backing := copyPage pager.pageSize page pager.memory pager.backing
      dirty := Function.update pager.dirty page false
      dirtyPageOuts := pager.dirtyPageOuts + 1
      bytesOut := pager.bytesOut + pager.pageSize }
  else pager

def ManagedPagerPoc.close (pager : ManagedPagerPoc) (page : Nat) : ManagedPagerPoc :=
  { pager.protect page PROT_NONE with
    resident := Function.update pager.resident page false
    writable := Function.update pager.writable page false
    residentCount := pager.residentCount - 1
    pageOuts := pager.pageOuts + 1 }

def ManagedPagerPoc.evictCalls (pager : ManagedPagerPoc) (page : Nat) : List PagerCall :=
  (if pager.dirty page then [.pwrite page] else []) ++ [.mprotect page PROT_NONE]

/-- `managed_pager_evict_one`: whether it succeeds, the pager after it, and its system calls. -/
def managedPagerEvictOne (pager : ManagedPagerPoc) (avoidIndex : Nat) : Bool × ManagedPagerPoc × List PagerCall :=
  if pager.residentCount = 0 then (false, pager, [])
  else
    match clockScan pager.resident pager.pageCount avoidIndex (pager.pageCount * 2 % 2 ^ 64) pager.clockHand with
    | (none, hand) => (false, { pager with clockHand := hand }, [])
    | (some page, hand) => (true, ({ pager with clockHand := hand }.writeOut page).close page, pager.evictCalls page)

@[simp] theorem ManagedPagerPoc.writeOut_residentCount (pager : ManagedPagerPoc) (page : Nat) :
    (pager.writeOut page).residentCount = pager.residentCount := by
  rw [writeOut]
  split <;> rfl

theorem managedPagerEvictOne_less {pager after : ManagedPagerPoc} {avoidIndex : Nat} {calls : List PagerCall}
    (result : managedPagerEvictOne pager avoidIndex = (true, after, calls)) : after.residentCount < pager.residentCount := by
  rw [managedPagerEvictOne] at result
  split at result
  · cases result
  split at result
  · cases result
  · cases result
    simp only [ManagedPagerPoc.close, ManagedPagerPoc.writeOut_residentCount]
    omega

def makeRoom (pager : ManagedPagerPoc) (index : Nat) : Bool × ManagedPagerPoc × List PagerCall :=
  if pager.residentCount < pager.residentLimit then (true, pager, [])
  else
    match _ : managedPagerEvictOne pager index with
    | (false, after, calls) => (false, after, calls)
    | (true, after, calls) =>
        let (made, last, more) := makeRoom after index
        (made, last, calls ++ more)
  termination_by pager.residentCount
  decreasing_by exact managedPagerEvictOne_less ‹_›

def ManagedPagerPoc.load (pager : ManagedPagerPoc) (index : Nat) : ManagedPagerPoc :=
  { pager.protect index (PROT_READ ||| PROT_WRITE) with
    memory := copyPage pager.pageSize index pager.backing pager.memory
    resident := Function.update pager.resident index true
    residentCount := pager.residentCount + 1
    maxResidentCount := max pager.maxResidentCount (pager.residentCount + 1)
    writable := Function.update pager.writable index true
    pageIns := pager.pageIns + 1
    bytesIn := pager.bytesIn + pager.pageSize }

def ManagedPagerPoc.allow (pager : ManagedPagerPoc) (index : Nat) (writeable : Bool) : ManagedPagerPoc :=
  { pager.protect index (if writeable then PROT_READ ||| PROT_WRITE else PROT_READ) with
    writable := Function.update pager.writable index writeable }

def ManagedPagerPoc.touch (pager : ManagedPagerPoc) (index : Nat) : ManagedPagerPoc :=
  { pager with dirty := Function.update pager.dirty index true }

def ManagedPagerPoc.access (pager : ManagedPagerPoc) (index : Nat) (writeable : Bool) : ManagedPagerPoc :=
  let pager :=
    if writeable && !pager.writable index then pager.allow index true
    else if !writeable && pager.writable index then pager.allow index false
    else pager
  if writeable then pager.touch index else pager

def ManagedPagerPoc.accessCalls (pager : ManagedPagerPoc) (index : Nat) (writeable : Bool) : List PagerCall :=
  if writeable && !pager.writable index then [.mprotect index (PROT_READ ||| PROT_WRITE)]
  else if !writeable && pager.writable index then [.mprotect index PROT_READ]
  else []

/-- `managed_pager_get_page`: the offset of the page in the mapping, the pager after it, and
its system calls. -/
def managedPagerGetPage (pager : ManagedPagerPoc) (index : Nat) (writeable : Bool) :
    Option Nat × ManagedPagerPoc × List PagerCall :=
  if pager.pageCount ≤ index then (none, pager, [])
  else if pager.resident index then
    (some (index * pager.pageSize), pager.access index writeable, pager.accessCalls index writeable)
  else
    match makeRoom pager index with
    | (false, pager, calls) => (none, pager, calls)
    | (true, pager, calls) =>
        (some (index * pager.pageSize), (pager.load index).access index writeable,
          calls ++ [.mprotect index (PROT_READ ||| PROT_WRITE), .pread index] ++ (pager.load index).accessCalls index writeable)

/-- `page` is the page that a writeable get has returned last, until the next get; `array`
is what the caller has written. -/
structure PagerClient where
  pager : ManagedPagerPoc
  page : Option Nat := none
  array : Nat → UInt8 := fun _ => 0

inductive PagerEvent where
  | get (index : Nat) (writeable : Bool)
  | write (offset : Nat) (byte : UInt8)

/-- A write that does not go through the pointer is not made. -/
def PagerClient.step (client : PagerClient) : PagerEvent → Option PagerClient
  | .get index writeable =>
      let (result, pager, _) := managedPagerGetPage client.pager index writeable
      some { client with
        pager
        page := if writeable && result.isSome then some index else none }
  | .write offset byte =>
      if client.page = some (offset / client.pager.pageSize) then
        some { client with
          pager := { client.pager with memory := Function.update client.pager.memory offset byte }
          array := Function.update client.array offset byte }
      else none

/-- No page is dirty when it loses its access: the flags are followed through the writes. -/
def WrittenFirst : (Nat → Bool) → List PagerCall → Prop
  | _, [] => True
  | dirty, .mprotect page prot :: calls => (prot = PROT_NONE → dirty page = false) ∧ WrittenFirst dirty calls
  | dirty, .pread _ :: calls => WrittenFirst dirty calls
  | dirty, .pwrite page :: calls => WrittenFirst (Function.update dirty page false) calls

/-- The pager is an array of bytes: every page can be had, holds what has been written to it and can be
read, or written if that was asked for; what is resident is counted and limited. -/
structure PagerClient.Sound (client : PagerClient) (residentLimit : Nat) : Prop where
  counted : client.pager.residentCount = flagged client.pager.resident client.pager.pageCount
  limited : client.pager.residentCount ≤ min (max residentLimit 1) client.pager.pageCount
  refused : ∀ index writeable,
    (managedPagerGetPage client.pager index writeable).1 = none ↔ client.pager.pageCount ≤ index
  returned : ∀ index writeable offset pager calls,
    managedPagerGetPage client.pager index writeable = (some offset, pager, calls) →
      offset = index * pager.pageSize ∧ SamePage pager.pageSize index pager.memory client.array ∧
        pager.protection index = (if writeable then PROT_READ ||| PROT_WRITE else PROT_READ)
  writtenFirst : ∀ index writeable, WrittenFirst client.pager.dirty (managedPagerGetPage client.pager index writeable).2.2

/-! ## What the pager keeps -/

section
variable {pager after : ManagedPagerPoc} {array : Nat → UInt8} {index page : Nat} {calls : List PagerCall}

structure ManagedPagerPoc.Holds (pager : ManagedPagerPoc) (array : Nat → UInt8) : Prop where
  short : pager.pageCount * 2 < 2 ^ 64
  positive : 0 < pager.residentLimit
  hand : pager.clockHand < 2 ^ 64
  counted : pager.residentCount = flagged pager.resident pager.pageCount
  limited : pager.residentCount ≤ pager.residentLimit
  loaded : ∀ page, pager.resident page = true → SamePage pager.pageSize page pager.memory array
  saved : ∀ page, pager.resident page = false ∨ pager.dirty page = false →
    SamePage pager.pageSize page pager.backing array
  access : ∀ page, pager.protection page =
    if pager.resident page then if pager.writable page then PROT_READ ||| PROT_WRITE else PROT_READ else PROT_NONE

theorem ManagedPagerPoc.Holds.turn (holds : pager.Holds array) {hand : Nat} (small : hand < 2 ^ 64) :
    { pager with clockHand := hand }.Holds array :=
  { holds with hand := small }

theorem ManagedPagerPoc.Holds.writeOut (holds : pager.Holds array) (resident : pager.resident page = true) :
    (pager.writeOut page).Holds array := by
  rw [ManagedPagerPoc.writeOut]
  split
  · refine { holds with saved := ?_ }
    intro other clean
    by_cases same : other = page
    · subst same
      exact (copyPage_same _ _ _ _).trans (holds.loaded other resident)
    · refine (copyPage_other same _ _).trans (holds.saved other ?_)
      simpa only [Function.update_of_ne same] using clean
  · exact holds

theorem ManagedPagerPoc.writeOut_resident (pager : ManagedPagerPoc) (page : Nat) :
    (pager.writeOut page).resident = pager.resident := by
  rw [writeOut]
  split <;> rfl

theorem ManagedPagerPoc.writeOut_pageCount (pager : ManagedPagerPoc) (page : Nat) :
    (pager.writeOut page).pageCount = pager.pageCount := by
  rw [writeOut]
  split <;> rfl

theorem ManagedPagerPoc.writeOut_clean (pager : ManagedPagerPoc) (page : Nat) : (pager.writeOut page).dirty page = false := by
  rw [writeOut]
  split
  · exact Function.update_self _ _ _
  · rename_i clean
    exact Bool.not_eq_true _ ▸ clean

theorem ManagedPagerPoc.Holds.close (holds : pager.Holds array) (inside : page < pager.pageCount)
    (resident : pager.resident page = true) (clean : pager.dirty page = false) : (pager.close page).Holds array := by
  have counted := flagged_clear inside resident
  have before := holds.counted
  have limit := holds.limited
  constructor
  · exact holds.short
  · exact holds.positive
  · exact holds.hand
  · simp only [ManagedPagerPoc.close, ManagedPagerPoc.protect]
    omega
  · simp only [ManagedPagerPoc.close, ManagedPagerPoc.protect]
    omega
  · intro other set
    by_cases same : other = page
    · subst same
      simp only [ManagedPagerPoc.close, Function.update_self, Bool.false_eq_true] at set
    · simp only [ManagedPagerPoc.close, Function.update_of_ne same] at set
      exact holds.loaded other set
  · intro other clear
    by_cases same : other = page
    · subst same
      exact holds.saved other (.inr clean)
    · simp only [ManagedPagerPoc.close, ManagedPagerPoc.protect, Function.update_of_ne same] at clear
      exact holds.saved other clear
  · intro other
    by_cases same : other = page
    · subst same
      simp [ManagedPagerPoc.close, ManagedPagerPoc.protect]
    · simp only [ManagedPagerPoc.close, ManagedPagerPoc.protect, Function.update_of_ne same]
      exact holds.access other

structure SameShape (pager after : ManagedPagerPoc) : Prop where
  pageSize : after.pageSize = pager.pageSize
  pageCount : after.pageCount = pager.pageCount
  residentLimit : after.residentLimit = pager.residentLimit

theorem SameShape.refl (pager : ManagedPagerPoc) : SameShape pager pager := ⟨rfl, rfl, rfl⟩

theorem SameShape.trans {last : ManagedPagerPoc} (first : SameShape pager after) (second : SameShape after last) :
    SameShape pager last :=
  ⟨second.pageSize.trans first.pageSize, second.pageCount.trans first.pageCount,
    second.residentLimit.trans first.residentLimit⟩

theorem ManagedPagerPoc.sameShape_writeOut (pager : ManagedPagerPoc) (page : Nat) : SameShape pager (pager.writeOut page) := by
  rw [writeOut]
  split <;> exact ⟨rfl, rfl, rfl⟩

theorem writtenFirst_evict {rest : List PagerCall}
    (later : WrittenFirst ((pager.writeOut page).close page).dirty rest) :
    WrittenFirst pager.dirty (pager.evictCalls page ++ rest) := by
  rw [ManagedPagerPoc.evictCalls]
  simp only [ManagedPagerPoc.close, ManagedPagerPoc.protect, ManagedPagerPoc.writeOut] at later
  by_cases dirty : pager.dirty page = true
  · simp only [dirty, if_true] at later ⊢
    exact ⟨fun _ => Function.update_self _ _ _, later⟩
  · simp only [dirty, if_false, Bool.false_eq_true] at later ⊢
    exact ⟨fun _ => Bool.not_eq_true _ ▸ dirty, later⟩

variable (holds : pager.Holds array)

include holds

theorem ManagedPagerPoc.Holds.evictOne (absent : pager.resident index = false)
    (full : pager.residentLimit ≤ pager.residentCount) :
    ∃ after calls, managedPagerEvictOne pager index = (true, after, calls) ∧ after.Holds array ∧ SameShape pager after ∧
      after.resident index = false ∧
      ∀ rest, WrittenFirst after.dirty rest → WrittenFirst pager.dirty (calls ++ rest) := by
  have some_resident : 0 < pager.residentCount := Nat.lt_of_lt_of_le holds.positive full
  obtain ⟨page, inside, set⟩ := exists_flagged (holds.counted ▸ some_resident)
  have other : page ≠ index := by
    intro same
    rw [same, absent] at set
    cases set
  have short := holds.short
  obtain ⟨victim, found⟩ := clockScan_finds (by omega) inside set other holds.hand
  have facts := clockScan_some (Nat.zero_lt_of_lt inside) _ _ found
  have hand := @clockScan_hand pager.resident pager.pageCount index (pager.pageCount * 2) _ holds.hand
  rcases scanned : clockScan pager.resident pager.pageCount index (pager.pageCount * 2) pager.clockHand with ⟨choice, next⟩
  rw [scanned] at found hand
  cases found
  let turned := { pager with clockHand := next }
  have written : (turned.writeOut victim).Holds array := (holds.turn hand).writeOut facts.2.2
  have inside' : victim < (turned.writeOut victim).pageCount := by
    rw [ManagedPagerPoc.writeOut_pageCount]
    exact facts.1
  have resident' : (turned.writeOut victim).resident victim = true := by
    rw [ManagedPagerPoc.writeOut_resident]
    exact facts.2.2
  refine ⟨(turned.writeOut victim).close victim, pager.evictCalls victim, ?_,
    written.close inside' resident' (ManagedPagerPoc.writeOut_clean _ _), ?_, ?_, ?_⟩
  · rw [managedPagerEvictOne, if_neg (by omega), Nat.mod_eq_of_lt short, scanned]
  · have same := turned.sameShape_writeOut victim
    exact ⟨same.pageSize, same.pageCount, same.residentLimit⟩
  · simp only [ManagedPagerPoc.close, ManagedPagerPoc.writeOut_resident]
    rw [Function.update_of_ne facts.2.1.symm]
    exact absent
  · intro rest later
    exact @writtenFirst_evict turned victim rest later

theorem ManagedPagerPoc.Holds.makeRoom (absent : pager.resident index = false) :
    ∃ after calls, makeRoom pager index = (true, after, calls) ∧ after.Holds array ∧ SameShape pager after ∧
      after.resident index = false ∧ after.residentCount < after.residentLimit ∧
      ∀ rest, WrittenFirst after.dirty rest → WrittenFirst pager.dirty (calls ++ rest) := by
  induction bound : pager.residentCount using Nat.strongRecOn generalizing pager with
  | ind count ih =>
      rw [Pager.makeRoom]
      by_cases free : pager.residentCount < pager.residentLimit
      · rw [if_pos free]
        exact ⟨pager, [], rfl, holds, .refl pager, absent, free, fun _ later => later⟩
      rw [if_neg free]
      obtain ⟨next, first, evicted, kept, shape, still, before⟩ := holds.evictOne absent (Nat.le_of_not_lt free)
      obtain ⟨last, more, made, held, shape', absent', free', later'⟩ :=
        ih next.residentCount (bound ▸ managedPagerEvictOne_less evicted) kept still rfl
      split
      · rename_i failed
        rw [evicted] at failed
        cases failed
      rename_i same
      rw [evicted] at same
      cases same
      rw [made]
      refine ⟨last, first ++ more, rfl, held, shape.trans shape', absent', free', ?_⟩
      intro rest later
      rw [List.append_assoc]
      exact before _ (later' rest later)

theorem ManagedPagerPoc.Holds.load (inside : index < pager.pageCount)
    (absent : pager.resident index = false) (room : pager.residentCount < pager.residentLimit) :
    (pager.load index).Holds array := by
  have counted := flagged_set inside absent
  have before := holds.counted
  constructor
  · exact holds.short
  · exact holds.positive
  · exact holds.hand
  · simp only [ManagedPagerPoc.load, ManagedPagerPoc.protect]
    omega
  · simp only [ManagedPagerPoc.load, ManagedPagerPoc.protect]
    omega
  · intro other set
    by_cases same : other = index
    · subst same
      exact (copyPage_same _ _ _ _).trans (holds.saved other (.inl absent))
    · simp only [ManagedPagerPoc.load, Function.update_of_ne same] at set
      exact (copyPage_other same _ _).trans (holds.loaded other set)
  · intro other clear
    refine holds.saved other ?_
    by_cases same : other = index
    · exact .inl (same ▸ absent)
    · simpa only [ManagedPagerPoc.load, ManagedPagerPoc.protect, Function.update_of_ne same] using clear
  · intro other
    by_cases same : other = index
    · subst same
      simp [ManagedPagerPoc.load, ManagedPagerPoc.protect]
    · simp only [ManagedPagerPoc.load, ManagedPagerPoc.protect, Function.update_of_ne same]
      exact holds.access other

theorem ManagedPagerPoc.Holds.allow (resident : pager.resident index = true)
    (writeable : Bool) : (pager.allow index writeable).Holds array := by
  refine { holds with access := ?_ }
  intro page
  by_cases same : page = index
  · subst same
    simp only [ManagedPagerPoc.allow, ManagedPagerPoc.protect, Function.update_self, resident, if_true]
  · simp only [ManagedPagerPoc.allow, ManagedPagerPoc.protect, Function.update_of_ne same]
    exact holds.access page

theorem ManagedPagerPoc.Holds.touch (resident : pager.resident index = true) :
    (pager.touch index).Holds array := by
  refine { holds with saved := ?_ }
  intro page clean
  by_cases same : page = index
  · subst same
    simp [ManagedPagerPoc.touch, resident] at clean
  · simp only [ManagedPagerPoc.touch, Function.update_of_ne same] at clean
    exact holds.saved page clean

theorem ManagedPagerPoc.Holds.accessed (resident : pager.resident index = true) (writeable : Bool) :
    (pager.access index writeable).Holds array ∧ SameShape pager (pager.access index writeable) ∧
      (pager.access index writeable).resident = pager.resident ∧
      (pager.access index writeable).writable index = writeable ∧
      (writeable = true → (pager.access index writeable).dirty index = true) := by
  cases writeable with
  | false =>
      cases set : pager.writable index with
      | false =>
          simp only [ManagedPagerPoc.access, set]
          exact ⟨holds, .refl pager, rfl, set, nofun⟩
      | true =>
          simp only [ManagedPagerPoc.access, set]
          exact ⟨holds.allow resident false, ⟨rfl, rfl, rfl⟩, rfl, Function.update_self _ _ _, nofun⟩
  | true =>
      cases set : pager.writable index with
      | false =>
          simp only [ManagedPagerPoc.access, set]
          exact ⟨(holds.allow resident true).touch resident, ⟨rfl, rfl, rfl⟩, rfl, Function.update_self _ _ _,
            fun _ => Function.update_self _ _ _⟩
      | true =>
          simp only [ManagedPagerPoc.access, set]
          exact ⟨holds.touch resident, ⟨rfl, rfl, rfl⟩, rfl, set, fun _ => Function.update_self _ _ _⟩

omit holds

theorem writtenFirst_accessCalls (dirty : Nat → Bool) (pager : ManagedPagerPoc) (index : Nat) (writeable : Bool) :
    WrittenFirst dirty (pager.accessCalls index writeable) := by
  rw [ManagedPagerPoc.accessCalls]
  split
  · exact ⟨nofun, trivial⟩
  · split
    · exact ⟨nofun, trivial⟩
    · trivial

structure Got (pager after : ManagedPagerPoc) (array : Nat → UInt8) (index : Nat) (writeable : Bool) : Prop where
  holds : after.Holds array
  shape : SameShape pager after
  resident : after.resident index = true
  writable : after.writable index = writeable
  dirty : writeable = true → after.dirty index = true

theorem ManagedPagerPoc.Holds.getPage (holds : pager.Holds array) (inside : index < pager.pageCount) (writeable : Bool) :
    ∃ after calls, managedPagerGetPage pager index writeable = (some (index * pager.pageSize), after, calls) ∧
      Got pager after array index writeable ∧ WrittenFirst pager.dirty calls := by
  rw [managedPagerGetPage, if_neg (Nat.not_le_of_gt inside)]
  by_cases resident : pager.resident index = true
  · obtain ⟨held, shape, same, writable, dirty⟩ := holds.accessed resident writeable
    rw [if_pos resident]
    exact ⟨_, _, rfl, ⟨held, shape, same ▸ resident, writable, dirty⟩, writtenFirst_accessCalls _ _ _ _⟩
  rw [if_neg resident]
  obtain ⟨roomy, calls, made, kept, shape, absent, room, later⟩ := holds.makeRoom (Bool.not_eq_true _ ▸ resident)
  have read : (roomy.load index).Holds array := kept.load (shape.pageCount ▸ inside) absent room
  have loaded : (roomy.load index).resident index = true := Function.update_self _ _ _
  obtain ⟨held, shape', same, writable, dirty⟩ := read.accessed loaded writeable
  have loading : SameShape roomy (roomy.load index) := ⟨rfl, rfl, rfl⟩
  rw [made, ← shape.pageSize]
  refine ⟨_, _, rfl, ⟨held, (shape.trans loading).trans shape', same ▸ loaded, writable, dirty⟩, ?_⟩
  rw [List.append_assoc]
  exact later _ ⟨nofun, writtenFirst_accessCalls _ _ _ _⟩

end

section
variable {sysconf : Int} {pageCount residentLimit : Nat} {pager : ManagedPagerPoc} {client next : PagerClient}

structure PagerClient.Holds (client : PagerClient) (residentLimit : Nat) : Prop where
  pager : client.pager.Holds client.array
  limit : client.pager.residentLimit ≤ min (max residentLimit 1) client.pager.pageCount
  current : ∀ page, client.page = some page → client.pager.resident page = true ∧ client.pager.dirty page = true

theorem managedPagerInit_holds (made : managedPagerInit sysconf pageCount residentLimit = some pager) :
    (PagerClient.mk pager none fun _ => 0).Holds residentLimit := by
  simp only [managedPagerInit] at made
  generalize sized : (if 0 < sysconf then sysconf.toNat else 4096) = pageSize at made
  have positive : 0 < pageSize := by
    split at sized <;> omega
  split at made
  · cases made
  rename_i nonempty
  split at made
  · cases made
  split at made
  · cases made
  rename_i fits
  cases made
  have total : pageCount ≤ pageSize * pageCount := Nat.le_mul_of_pos_left pageCount positive
  constructor
  · constructor
    · show pageCount * 2 < 2 ^ 64
      omega
    · show 0 < min (if residentLimit = 0 then 1 else residentLimit) pageCount
      split <;> omega
    · exact Nat.two_pow_pos 64
    · exact (flagged_none pageCount).symm
    · exact Nat.zero_le _
    · exact nofun
    · exact fun page _ => .refl pageSize page _
    · exact fun page => rfl
  · show min (if residentLimit = 0 then 1 else residentLimit) pageCount ≤ min (max residentLimit 1) pageCount
    split <;> omega
  · exact nofun

theorem PagerClient.Holds.get (holds : client.Holds residentLimit) {index : Nat} {writeable : Bool}
    (result : client.step (.get index writeable) = some next) : next.Holds residentLimit := by
  simp only [PagerClient.step, Option.some.injEq] at result
  subst result
  by_cases inside : index < client.pager.pageCount
  · obtain ⟨after, calls, found, got, -⟩ := holds.pager.getPage inside writeable
    rw [found]
    constructor
    · exact got.holds
    · show after.residentLimit ≤ min (max residentLimit 1) after.pageCount
      rw [got.shape.residentLimit, got.shape.pageCount]
      exact holds.limit
    intro page current
    cases writeable with
    | false => cases current
    | true =>
        cases current
        exact ⟨got.resident, got.dirty rfl⟩
  · rw [managedPagerGetPage, if_pos (Nat.le_of_not_lt inside)]
    refine ⟨holds.pager, holds.limit, ?_⟩
    intro page current
    simp only [Option.isSome_none, Bool.and_false] at current
    cases current

theorem PagerClient.Holds.write (holds : client.Holds residentLimit) {offset : Nat} {byte : UInt8}
    (result : client.step (.write offset byte) = some next) : next.Holds residentLimit := by
  rw [PagerClient.step] at result
  split at result
  · rename_i current
    cases result
    refine ⟨?_, holds.limit, holds.current⟩
    refine { holds.pager with loaded := ?_, saved := ?_ }
    · exact fun page resident => (holds.pager.loaded page resident).update offset byte
    intro page clean
    refine (holds.pager.saved page clean).update_away ?_ byte
    intro here
    have facts := holds.current _ current
    rw [here] at facts
    rcases clean with absent | clean
    · exact Bool.false_ne_true (absent.symm.trans facts.1)
    · exact Bool.false_ne_true (clean.symm.trans facts.2)
  · cases result

theorem PagerClient.Holds.step (holds : client.Holds residentLimit) {event : PagerEvent}
    (result : client.step event = some next) : next.Holds residentLimit := by
  cases event with
  | get index writeable => exact holds.get result
  | write offset byte => exact holds.write result

theorem PagerClient.Holds.sound (holds : client.Holds residentLimit) : client.Sound residentLimit := by
  constructor
  · exact holds.pager.counted
  · exact Nat.le_trans holds.pager.limited holds.limit
  · intro index writeable
    by_cases inside : index < client.pager.pageCount
    · obtain ⟨after, calls, found, -⟩ := holds.pager.getPage inside writeable
      rw [found]
      exact iff_of_false nofun (Nat.not_le_of_gt inside)
    · rw [managedPagerGetPage, if_pos (Nat.le_of_not_lt inside)]
      exact iff_of_true rfl (Nat.le_of_not_lt inside)
  · intro index writeable offset pager calls result
    by_cases inside : index < client.pager.pageCount
    · obtain ⟨after, made, found, got, -⟩ := holds.pager.getPage inside writeable
      rw [found] at result
      cases result
      have access := got.holds.access index
      rw [got.resident, got.writable, if_pos rfl] at access
      exact ⟨by rw [got.shape.pageSize], got.holds.loaded index got.resident, access⟩
    · rw [managedPagerGetPage, if_pos (Nat.le_of_not_lt inside)] at result
      cases result
  · intro index writeable
    by_cases inside : index < client.pager.pageCount
    · obtain ⟨after, calls, found, -, written⟩ := holds.pager.getPage inside writeable
      rw [found]
      exact written
    · rw [managedPagerGetPage, if_pos (Nat.le_of_not_lt inside)]
      trivial

end

end PDocker.Pager
