import PDocker.Data.Pages
import PDocker.Pager.Admission

/-!
# Faults in managed regions

A page of a region has no access until the tracee touches it. Then another page is copied to the
backing file, if there is no room, and the page is opened and filled. Every request may fail.
-/

set_option autoImplicit false

namespace PDocker.Pager

open Data

/-! ## Regions with their pages -/

/-- The pages of a region in the tracee, by their offset: what they hold, how they are protected, and
what the tracee has stored in them. -/
structure TracedRegion extends ManagedTraceRegion where
  memory : Nat → UInt8 := fun _ => 0
  protection : Nat → Nat := fun _ => PROT_NONE
  latest : Nat → UInt8 := fun _ => 0

structure EvictAnswers where
  malloc : Bool
  readv : Option Nat
  pwrite : Option Nat
  mprotect : Injection
deriving DecidableEq, Repr

structure LoadAnswers where
  mprotect : Injection
  calloc : Bool
  pread : Option Nat
  writev : Option Nat
  setRegs : Bool
deriving DecidableEq, Repr

structure FaultAnswers where
  evict : Nat → EvictAnswers
  load : LoadAnswers

namespace TracedRegion

def protect (region : TracedRegion) (page prot : Nat) : TracedRegion :=
  { region with protection := Function.update region.protection page prot }

def writeOut (region : TracedRegion) (page count : Nat) : TracedRegion :=
  { region with backing := copyBytes region.pageSize page count region.memory region.backing }

def close (region : TracedRegion) (page : Nat) : TracedRegion :=
  { region.protect page PROT_NONE with
    resident := Function.update region.resident page false
    residentCount := region.residentCount - 1 }

def evict (answers : EvictAnswers) (region : TracedRegion) (page : Nat) : Bool × TracedRegion :=
  if !answers.malloc then (false, region)
  else if answers.readv ≠ some region.pageSize then (false, region)
  else
    match answers.pwrite with
    | none => (false, region)
    | some written =>
        if written ≠ region.pageSize then (false, region.writeOut page written)
        else
          match answers.mprotect with
          | .done => (true, (region.writeOut page written).close page)
          | .notRun => (false, region.writeOut page written)
          | .unreported => (false, (region.writeOut page written).protect page PROT_NONE)

end TracedRegion

open TracedRegion (evict)

def evictOneManagedTracePage (answers : EvictAnswers) (region : TracedRegion) (avoidIndex : Nat) : Bool × TracedRegion :=
  if region.residentCount = 0 then (false, region)
  else
    match clockScan region.resident region.pageCount avoidIndex (region.pageCount * 2 % 2 ^ 64) region.clockHand with
    | (none, hand) => (false, { region with clockHand := hand })
    | (some page, hand) => evict answers { region with clockHand := hand } page

variable {answers : EvictAnswers} {regions : List TracedRegion}

theorem evict_less {region after : TracedRegion} {page : Nat}
    (result : evict answers region page = (true, after)) (some_resident : region.residentCount ≠ 0) :
    after.residentCount < region.residentCount := by
  simp only [evict] at result
  repeat' split at result
  all_goals cases result
  simp only [TracedRegion.close, TracedRegion.protect, TracedRegion.writeOut]
  omega

theorem evictOneManagedTracePage_less {region after : TracedRegion} {avoidIndex : Nat}
    (result : evictOneManagedTracePage answers region avoidIndex = (true, after)) :
    after.residentCount < region.residentCount := by
  rw [evictOneManagedTracePage] at result
  split at result
  · cases result
  rename_i some_resident
  split at result
  · cases result
  · have less := evict_less result some_resident
    exact less

def makeRegionRoom (answers : Nat → EvictAnswers) (region : TracedRegion) (index : Nat) : Bool × TracedRegion :=
  if region.residentCount < region.residentLimit then (true, region)
  else
    match _ : evictOneManagedTracePage (answers 0) region index with
    | (false, after) => (false, after)
    | (true, after) => makeRegionRoom (fun attempt => answers (attempt + 1)) after index
  termination_by region.residentCount
  decreasing_by exact evictOneManagedTracePage_less ‹_›

namespace TracedRegion

def buffer (region : TracedRegion) (index read : Nat) : Nat → UInt8 :=
  if region.everLoaded index then copyBytes region.pageSize index read region.backing fun _ => 0 else fun _ => 0

def enroll (region : TracedRegion) (index : Nat) : TracedRegion :=
  { region with
    resident := Function.update region.resident index true
    everLoaded := Function.update region.everLoaded index true
    residentCount := region.residentCount + 1 }

def fill (answers : LoadAnswers) (region : TracedRegion) (index : Nat) : Bool × TracedRegion :=
  if region.resident index then (answers.setRegs, region)
  else if !answers.calloc then (false, region)
  else
    match if region.everLoaded index then answers.pread else some 0 with
    | none => (false, region)
    | some read =>
        match answers.writev with
        | none => (false, region)
        | some written =>
            let filled := { region with memory := copyBytes region.pageSize index written (region.buffer index read) region.memory }
            if written ≠ region.pageSize then (false, filled)
            else (answers.setRegs, filled.enroll index)

def load (answers : LoadAnswers) (region : TracedRegion) (index : Nat) : Bool × TracedRegion :=
  match answers.mprotect with
  | .notRun => (false, region)
  | .unreported => (false, region.protect index region.prot)
  | .done => (region.protect index region.prot).fill answers index

/-- `handle_managed_memory_fault` once the region is found: whether it returns 1, and the region after it. -/
def fault (answers : FaultAnswers) (region : TracedRegion) (index : Nat) : Bool × TracedRegion :=
  match makeRegionRoom answers.evict region index with
  | (false, after) => (false, after)
  | (true, after) => after.load answers.load index

end TracedRegion

def findManagedRegionForAddr (regions : List TracedRegion) (addr : Nat) : Option (Nat × Nat) :=
  match regions.findIdx? fun region =>
      region.active && decide (region.base ≤ addr ∧ addr < (region.base + region.length) % 2 ^ 64) with
  | none => none
  | some slot =>
      match regions[slot]? with
      | none => none
      | some region =>
          let index := (addr - region.base) / region.pageSize
          if region.pageCount ≤ index then none else some (slot, index)

def handleManagedMemoryFault (answers : FaultAnswers) (regions : List TracedRegion) (addr : Nat) : Int × List TracedRegion :=
  match findManagedRegionForAddr regions addr with
  | none => (0, regions)
  | some (slot, index) =>
      match regions[slot]? with
      | none => (0, regions)
      | some region =>
          let (handled, after) := region.fault answers index
          (if handled then 1 else -1, regions.set slot after)

inductive FaultEvent where
  | fault (addr : Nat) (answers : FaultAnswers)
  /-- The tracee stores a byte where it can. -/
  | store (slot offset : Nat) (byte : UInt8)

def TracedRegion.store (region : TracedRegion) (offset : Nat) (byte : UInt8) : TracedRegion :=
  { region with
    memory := Function.update region.memory offset byte
    latest := Function.update region.latest offset byte }

def faultStep (regions : List TracedRegion) : FaultEvent → Option (List TracedRegion)
  | .fault addr answers => some (handleManagedMemoryFault answers regions addr).2
  | .store slot offset byte =>
      match regions[slot]? with
      | none => none
      | some region =>
          if region.active = true ∧ offset / region.pageSize < region.pageCount ∧
              region.protection (offset / region.pageSize) &&& PROT_WRITE ≠ 0 then
            some (regions.set slot (region.store offset byte))
          else none

def EvictAnswers.Smooth (answers : EvictAnswers) (pageSize : Nat) : Prop :=
  answers = ⟨true, some pageSize, some pageSize, .done⟩

def LoadAnswers.Smooth (answers : LoadAnswers) (pageSize : Nat) : Prop :=
  answers = ⟨.done, true, some pageSize, some pageSize, true⟩

def FaultAnswers.Smooth (answers : FaultAnswers) (pageSize : Nat) : Prop :=
  (∀ attempt, (answers.evict attempt).Smooth pageSize) ∧ answers.load.Smooth pageSize

/-- What is resident is counted and limited, what is not is closed and in the file if it was ever
loaded, and a page that is closed can be had, as it was, when no request fails. -/
structure TracedRegion.Sound (region : TracedRegion) : Prop where
  counted : region.residentCount = flagged region.resident region.pageCount
  limited : region.residentCount ≤ region.residentLimit
  closed : ∀ page, page < region.pageCount → region.resident page = false → region.protection page = PROT_NONE
  saved : ∀ page, page < region.pageCount → region.resident page = false → region.everLoaded page = true →
    SamePage region.pageSize page region.backing region.latest
  kept : ∀ page, page < region.pageCount → region.resident page = true →
    SamePage region.pageSize page region.memory region.latest
  retried : ∀ page, page < region.pageCount → region.protection page = PROT_NONE →
    ∀ answers : FaultAnswers, answers.Smooth region.pageSize → ∀ handled after, region.fault answers page = (handled, after) →
      handled = true ∧ SamePage region.pageSize page after.memory region.latest ∧ after.protection page = region.prot

def LoadAnswers.Whole (answers : LoadAnswers) (region : TracedRegion) (index : Nat) : Prop :=
  answers.mprotect = .notRun ∨ answers.mprotect = .done ∧ answers.calloc = true ∧
      (region.everLoaded index = true → answers.pread = some region.pageSize) ∧ answers.writev = some region.pageSize

/-- When a page is not resident and there is room for it, or room is made, it stays closed or is filled; and
the only page of a region is not closed without the tracer knowing. -/
def FaultAnswers.Kept (answers : FaultAnswers) (region : TracedRegion) (index : Nat) : Prop :=
  (region.resident index = false →
    region.residentCount < region.residentLimit ∨ (answers.evict 0).Smooth region.pageSize →
    answers.load.Whole region index) ∧
  (region.residentLimit = 1 → (answers.evict 0).mprotect ≠ .unreported)

def FaultEvent.Kept (regions : List TracedRegion) : FaultEvent → Prop
  | .fault addr answers => ∀ slot index region,
      findManagedRegionForAddr regions addr = some (slot, index) → regions[slot]? = some region → answers.Kept region index
  | .store _ _ _ => True

/-! ## What a region keeps -/

section
variable {region after : TracedRegion} {index page : Nat}

structure TracedRegion.Holds (region : TracedRegion) : Prop where
  sized : 0 < region.pageSize
  short : region.pageCount * 2 < 2 ^ 64
  positive : 0 < region.residentLimit
  accessible : region.prot ≠ PROT_NONE
  hand : region.clockHand < 2 ^ 64
  counted : region.residentCount = flagged region.resident region.pageCount
  limited : region.residentCount ≤ region.residentLimit
  closed : ∀ page, region.resident page = false → region.protection page = PROT_NONE
  once : ∀ page, region.resident page = true → region.everLoaded page = true
  loaded : ∀ page, region.resident page = true → SamePage region.pageSize page region.memory region.latest
  saved : ∀ page, region.resident page = false →
    SamePage region.pageSize page (if region.everLoaded page then region.backing else fun _ => 0) region.latest
  alone : region.residentLimit = 1 → ∀ page, region.resident page = true → region.protection page ≠ PROT_NONE

structure SameRegion (region after : TracedRegion) : Prop where
  active : after.active = region.active
  pageSize : after.pageSize = region.pageSize
  pageCount : after.pageCount = region.pageCount
  residentLimit : after.residentLimit = region.residentLimit
  prot : after.prot = region.prot
  everLoaded : after.everLoaded = region.everLoaded
  latest : after.latest = region.latest

theorem TracedRegion.Holds.turn (holds : region.Holds) {hand : Nat} (small : hand < 2 ^ 64) :
    ({ region with clockHand := hand } : TracedRegion).Holds :=
  { holds with hand := small }

theorem TracedRegion.Holds.writeOut (holds : region.Holds) (resident : region.resident page = true) (count : Nat) :
    (region.writeOut page count).Holds := by
  refine { holds with saved := ?_ }
  intro other absent
  have away : other ≠ page := by
    intro same
    rw [same] at absent
    exact Bool.false_ne_true (absent.symm.trans resident)
  have before := holds.saved other absent
  by_cases loaded : region.everLoaded other = true
  · simp only [TracedRegion.writeOut, loaded, if_true] at before ⊢
    exact (copyBytes_other away _ _).trans before
  · simp only [TracedRegion.writeOut, loaded, if_false, Bool.false_eq_true] at before ⊢
    exact before

theorem TracedRegion.Holds.protect (holds : region.Holds) (resident : region.resident page = true) {prot : Nat}
    (allowed : region.residentLimit = 1 → prot ≠ PROT_NONE) : (region.protect page prot).Holds := by
  refine { holds with closed := ?_, alone := ?_ }
  · intro other absent
    have away : other ≠ page := by
      intro same
      rw [same] at absent
      exact Bool.false_ne_true (absent.symm.trans resident)
    simp only [TracedRegion.protect, Function.update_of_ne away]
    exact holds.closed other absent
  · intro single other set
    by_cases same : other = page
    · subst same
      simp only [TracedRegion.protect, Function.update_self]
      exact allowed single
    · simp only [TracedRegion.protect, Function.update_of_ne same]
      exact holds.alone single other set

theorem TracedRegion.Holds.close (holds : region.Holds) (inside : page < region.pageCount)
    (resident : region.resident page = true)
    (written : SamePage region.pageSize page region.backing region.latest) : (region.close page).Holds := by
  have counted := flagged_clear inside resident
  have before := holds.counted
  have limit := holds.limited
  refine { sized := holds.sized, short := holds.short, positive := holds.positive, accessible := holds.accessible
           hand := holds.hand, counted := ?_, limited := ?_, closed := ?_, once := ?_, loaded := ?_, saved := ?_, alone := ?_ }
  · simp only [TracedRegion.close, TracedRegion.protect]
    omega
  · simp only [TracedRegion.close, TracedRegion.protect]
    omega
  · intro other absent
    by_cases same : other = page
    · subst same
      exact Function.update_self _ _ _
    · simp only [TracedRegion.close, TracedRegion.protect, Function.update_of_ne same] at absent ⊢
      exact holds.closed other absent
  · intro other set
    by_cases same : other = page
    · subst same
      exact holds.once other resident
    · simp only [TracedRegion.close, TracedRegion.protect, Function.update_of_ne same] at set
      exact holds.once other set
  · intro other set
    by_cases same : other = page
    · subst same
      exact holds.loaded other resident
    · simp only [TracedRegion.close, TracedRegion.protect, Function.update_of_ne same] at set
      exact holds.loaded other set
  · intro other absent
    by_cases same : other = page
    · subst same
      simp only [TracedRegion.close, TracedRegion.protect, holds.once other resident, if_true]
      exact written
    · simp only [TracedRegion.close, TracedRegion.protect, Function.update_of_ne same] at absent
      exact holds.saved other absent
  · intro single other set
    by_cases same : other = page
    · subst same
      simp only [TracedRegion.close, Function.update_self, Bool.false_eq_true] at set
    · simp only [TracedRegion.close, TracedRegion.protect, Function.update_of_ne same] at set ⊢
      exact holds.alone single other set

theorem SameRegion.refl (region : TracedRegion) : SameRegion region region := ⟨rfl, rfl, rfl, rfl, rfl, rfl, rfl⟩

theorem TracedRegion.Holds.evict (holds : region.Holds) (inside : page < region.pageCount)
    (resident : region.resident page = true) (answers : EvictAnswers)
    (known : region.residentLimit = 1 → answers.mprotect ≠ .unreported) :
    ∃ done after, evict answers region page = (done, after) ∧ after.Holds ∧ SameRegion region after ∧
      (done = true ↔ answers.Smooth region.pageSize) ∧
      (∀ other, other ≠ page → after.resident other = region.resident other) := by
  obtain ⟨malloc, readv, pwrite, mprotect⟩ := answers
  simp only [Pager.TracedRegion.evict, EvictAnswers.Smooth, EvictAnswers.mk.injEq]
  cases malloc with
  | false => exact ⟨false, _, rfl, holds, .refl region, by simp, fun _ _ => rfl⟩
  | true =>
      by_cases read : readv = some region.pageSize
      · cases pwrite with
        | none => exact ⟨false, _, by simp [read], holds, .refl region, by simp, fun _ _ => rfl⟩
        | some written =>
            have out := holds.writeOut resident written
            have same : SameRegion region (region.writeOut page written) := ⟨rfl, rfl, rfl, rfl, rfl, rfl, rfl⟩
            by_cases whole : written = region.pageSize
            · subst whole
              cases mprotect with
              | done =>
                  have saved : SamePage region.pageSize page (region.writeOut page region.pageSize).backing region.latest :=
                    (copyBytes_whole holds.sized _ _).trans (holds.loaded page resident)
                  refine ⟨true, _, by simp [read], out.close inside resident saved, ⟨rfl, rfl, rfl, rfl, rfl, rfl, rfl⟩, by simp [read], ?_⟩
                  intro other away
                  exact Function.update_of_ne away _ _
              | notRun => exact ⟨false, _, by simp [read], out, same, by simp, fun _ _ => rfl⟩
              | unreported =>
                  refine ⟨false, (region.writeOut page region.pageSize).protect page PROT_NONE, by simp [read], out.protect resident ?_, ⟨rfl, rfl, rfl, rfl, rfl, rfl, rfl⟩, by simp, fun _ _ => rfl⟩
                  exact fun single => absurd rfl (known single)
            · exact ⟨false, _, by simp [read, whole], out, same, by simp [whole], fun _ _ => rfl⟩
      · exact ⟨false, _, by simp [read], holds, .refl region, by simp [read], fun _ _ => rfl⟩

theorem TracedRegion.Holds.evictOne (holds : region.Holds) (answers : EvictAnswers) (index : Nat)
    (known : region.residentLimit = 1 → answers.mprotect ≠ .unreported) :
    ∃ done after, evictOneManagedTracePage answers region index = (done, after) ∧ after.Holds ∧ SameRegion region after ∧
      (done = true → answers.Smooth region.pageSize) ∧
      ((region.resident index).toNat < region.residentCount → answers.Smooth region.pageSize → done = true) ∧
      after.resident index = region.resident index := by
  rw [evictOneManagedTracePage]
  by_cases none_resident : region.residentCount = 0
  · rw [if_pos none_resident]
    exact ⟨false, region, rfl, holds, .refl region, nofun, fun more => by omega, rfl⟩
  have short := holds.short
  have resident : 0 < flagged region.resident region.pageCount := by
    rw [← holds.counted]
    omega
  obtain ⟨first, inside, -⟩ := exists_flagged resident
  have hand := @clockScan_hand region.resident region.pageCount index (region.pageCount * 2) _ holds.hand
  rw [if_neg none_resident, Nat.mod_eq_of_lt short]
  rcases scanned : clockScan region.resident region.pageCount index (region.pageCount * 2) region.clockHand with ⟨choice, next⟩
  rw [scanned] at hand
  cases choice with
  | none =>
      refine ⟨false, _, rfl, holds.turn hand, ⟨rfl, rfl, rfl, rfl, rfl, rfl, rfl⟩, nofun, ?_, rfl⟩
      intro more
      obtain ⟨page, below, set, other⟩ := exists_flagged_other (holds.counted ▸ more)
      obtain ⟨victim, found⟩ := clockScan_finds (by omega) below set other holds.hand
      rw [scanned] at found
      cases found
  | some victim =>
      have facts := clockScan_some (Nat.zero_lt_of_lt inside) _ _ (congrArg Prod.fst scanned)
      obtain ⟨done, after, evicted, held, same, smooth, rest⟩ :=
        (holds.turn hand).evict facts.1 facts.2.2 answers known
      have same' : SameRegion region after :=
        ⟨same.active, same.pageSize, same.pageCount, same.residentLimit, same.prot, same.everLoaded, same.latest⟩
      exact ⟨done, after, evicted, held, same', smooth.mp, fun _ => smooth.mpr, rest index facts.2.1.symm⟩

theorem TracedRegion.Holds.makeRoom (holds : region.Holds) (answers : Nat → EvictAnswers) (index : Nat)
    (known : region.residentLimit = 1 → (answers 0).mprotect ≠ .unreported) :
    ∃ made after, makeRegionRoom answers region index = (made, after) ∧ after.Holds ∧ SameRegion region after ∧
      (made = true → after.residentCount < after.residentLimit ∧
        (region.residentCount < region.residentLimit ∨ (answers 0).Smooth region.pageSize)) ∧
      ((region.resident index).toNat < region.residentLimit → (answers 0).Smooth region.pageSize → made = true) ∧
      after.resident index = region.resident index := by
  rw [makeRegionRoom]
  by_cases free : region.residentCount < region.residentLimit
  · rw [if_pos free]
    exact ⟨true, region, rfl, holds, .refl region, fun _ => ⟨free, .inl free⟩, fun _ _ => rfl, rfl⟩
  rw [if_neg free]
  obtain ⟨done, after, evicted, held, same, smooth, found, still⟩ := holds.evictOne (answers 0) index known
  split
  · rename_i failed
    rw [evicted] at failed
    cases failed
    refine ⟨false, after, rfl, held, same, nofun, ?_, still⟩
    exact fun more smooth => found (by omega) smooth
  rename_i evicted'
  rw [evicted] at evicted'
  cases evicted'
  have less := evictOneManagedTracePage_less evicted
  have limit := holds.limited
  have room : after.residentCount < after.residentLimit := by
    rw [same.residentLimit]
    omega
  rw [makeRegionRoom, if_pos room]
  exact ⟨true, after, rfl, held, same, fun _ => ⟨room, .inr (smooth rfl)⟩, fun _ _ => rfl, still⟩

theorem TracedRegion.Holds.enroll (holds : region.Holds) (inside : index < region.pageCount)
    (absent : region.resident index = false) (room : region.residentCount < region.residentLimit)
    {memory : Nat → UInt8} (same : ∀ page, page ≠ index → SamePage region.pageSize page memory region.memory)
    (filled : SamePage region.pageSize index memory region.latest) :
    ({ region.protect index region.prot with memory } : TracedRegion).enroll index |>.Holds := by
  have counted := flagged_set inside absent
  have before := holds.counted
  refine { sized := holds.sized, short := holds.short, positive := holds.positive, accessible := holds.accessible
           hand := holds.hand, counted := ?_, limited := ?_, closed := ?_, once := ?_, loaded := ?_, saved := ?_, alone := ?_ }
  · simp only [TracedRegion.enroll, TracedRegion.protect]
    omega
  · simp only [TracedRegion.enroll, TracedRegion.protect]
    omega
  · intro other clear
    by_cases here : other = index
    · subst here
      simp only [TracedRegion.enroll, Function.update_self, Bool.true_eq_false] at clear
    · simp only [TracedRegion.enroll, TracedRegion.protect, Function.update_of_ne here] at clear ⊢
      exact holds.closed other clear
  · intro other set
    by_cases here : other = index
    · subst here
      exact Function.update_self _ _ _
    · simp only [TracedRegion.enroll, TracedRegion.protect, Function.update_of_ne here] at set ⊢
      exact holds.once other set
  · intro other set
    by_cases here : other = index
    · subst here
      exact filled
    · simp only [TracedRegion.enroll, TracedRegion.protect, Function.update_of_ne here] at set
      exact (same other here).trans (holds.loaded other set)
  · intro other clear
    by_cases here : other = index
    · subst here
      simp only [TracedRegion.enroll, Function.update_self, Bool.true_eq_false] at clear
    · simp only [TracedRegion.enroll, TracedRegion.protect, Function.update_of_ne here] at clear ⊢
      exact holds.saved other clear
  · intro single other set
    by_cases here : other = index
    · subst here
      simp only [TracedRegion.enroll, TracedRegion.protect, Function.update_self]
      exact holds.accessible
    · simp only [TracedRegion.enroll, TracedRegion.protect, Function.update_of_ne here] at set ⊢
      exact holds.alone single other set

theorem TracedRegion.fill_whole {answers : LoadAnswers} {count : Nat} (absent : region.resident index = false)
    (calloc : answers.calloc = true) (read : (if region.everLoaded index then answers.pread else some 0) = some count)
    (written : answers.writev = some region.pageSize) :
    region.fill answers index = (answers.setRegs,
      ({ region with memory := copyBytes region.pageSize index region.pageSize (region.buffer index count) region.memory } : TracedRegion).enroll index) := by
  rw [TracedRegion.fill, absent, calloc, read, written]
  simp

theorem TracedRegion.Holds.buffer (holds : region.Holds) (absent : region.resident index = false) {pread : Option Nat}
    (whole : region.everLoaded index = true → pread = some region.pageSize) :
    ∃ count, (if region.everLoaded index then pread else some 0) = some count ∧
      SamePage region.pageSize index (region.buffer index count) region.latest := by
  have before := holds.saved index absent
  by_cases ever : region.everLoaded index = true
  · rw [if_pos ever] at before
    refine ⟨region.pageSize, by rw [if_pos ever, whole ever], ?_⟩
    rw [TracedRegion.buffer, if_pos ever]
    exact (copyBytes_whole holds.sized _ _).trans before
  · rw [if_neg ever] at before
    refine ⟨0, if_neg ever, ?_⟩
    rw [TracedRegion.buffer, if_neg ever]
    exact before

theorem TracedRegion.Holds.load (holds : region.Holds) (inside : index < region.pageCount)
    (room : region.residentCount < region.residentLimit) (answers : LoadAnswers)
    (whole : region.resident index = false → answers.Whole region index) :
    ∃ handled after, region.load answers index = (handled, after) ∧ after.Holds ∧
      (answers.Smooth region.pageSize → handled = true ∧ SamePage region.pageSize index after.memory region.latest ∧
        after.protection index = region.prot) := by
  rw [TracedRegion.load]
  cases resident : region.resident index with
  | true =>
      have opened := @TracedRegion.Holds.protect _ _ holds resident region.prot fun _ => holds.accessible
      cases run : answers.mprotect with
      | notRun =>
          refine ⟨false, region, rfl, holds, fun smooth => ?_⟩
          rw [smooth] at run
          cases run
      | unreported =>
          refine ⟨false, region.protect index region.prot, rfl, opened, fun smooth => ?_⟩
          rw [smooth] at run
          cases run
      | done =>
          refine ⟨answers.setRegs, region.protect index region.prot, ?_, opened, fun smooth => ⟨?_, ?_, ?_⟩⟩
          · exact if_pos resident
          · rw [smooth]
          · exact holds.loaded index resident
          · exact Function.update_self _ _ _
  | false =>
      rcases whole resident with notRun | ⟨done, calloc, read, written⟩
      · rw [notRun]
        refine ⟨false, region, rfl, holds, fun smooth => ?_⟩
        rw [smooth] at notRun
        cases notRun
      obtain ⟨count, pread, filled⟩ := holds.buffer resident read
      have copied := (copyBytes_whole holds.sized (region.buffer index count) region.memory).trans filled
      have admitted := holds.enroll inside resident room (fun page away => copyBytes_other away _ _) copied
      rw [done]
      refine ⟨answers.setRegs, _, ?_, admitted, fun smooth => ⟨?_, copied, ?_⟩⟩
      · exact @TracedRegion.fill_whole (region.protect index region.prot) index answers count resident calloc pread written
      · rw [smooth]
      · exact Function.update_self _ _ _

theorem TracedRegion.Holds.fault (holds : region.Holds) (inside : index < region.pageCount) (answers : FaultAnswers)
    (kept : answers.Kept region index) :
    ∃ handled after, region.fault answers index = (handled, after) ∧ after.Holds ∧
      ((region.resident index).toNat < region.residentLimit → answers.Smooth region.pageSize →
        handled = true ∧ SamePage region.pageSize index after.memory region.latest ∧
          after.protection index = region.prot) := by
  obtain ⟨made, roomy, result, held, same, room, succeeds, still⟩ := holds.makeRoom answers.evict index kept.2
  rw [TracedRegion.fault, result]
  cases made with
  | false => exact ⟨false, roomy, rfl, held, fun more smooth => by cases succeeds more (smooth.1 0)⟩
  | true =>
      have whole : roomy.resident index = false → answers.load.Whole roomy index := by
        intro absent
        have known := kept.1 (still ▸ absent) (room rfl).2
        rw [LoadAnswers.Whole, same.everLoaded, same.pageSize]
        exact known
      obtain ⟨handled, after, loaded, last, smooth⟩ := held.load (same.pageCount ▸ inside) (room rfl).1 answers.load whole
      rw [same.pageSize, same.latest, same.prot] at smooth
      exact ⟨handled, after, loaded, last, fun _ all => smooth all.2⟩

theorem FaultAnswers.Smooth.kept {answers : FaultAnswers} (smooth : answers.Smooth region.pageSize) :
    answers.Kept region index := by
  constructor
  · intro _ _
    rw [smooth.2]
    exact .inr ⟨rfl, rfl, fun _ => rfl, rfl⟩
  · intro _
    rw [smooth.1 0]
    exact nofun

theorem TracedRegion.Holds.sound (holds : region.Holds) : region.Sound := by
  refine ⟨holds.counted, holds.limited, fun page _ => holds.closed page, ?_, fun page _ => holds.loaded page, ?_⟩
  · intro page _ absent ever
    have before := holds.saved page absent
    rwa [if_pos ever] at before
  intro page inside shut answers smooth handled after result
  obtain ⟨made, last, found, -, served⟩ := holds.fault inside answers smooth.kept
  rw [result] at found
  cases found
  refine served ?_ smooth
  have positive := holds.positive
  by_cases single : region.residentLimit = 1
  · cases resident : region.resident page with
    | false => exact positive
    | true => exact absurd shut (holds.alone single page resident)
  · exact Nat.lt_of_le_of_lt (Bool.toNat_le _) (by omega)

theorem TracedRegion.Holds.store (holds : region.Holds) {offset : Nat}
    (writable : region.protection (offset / region.pageSize) &&& PROT_WRITE ≠ 0) (byte : UInt8) :
    (region.store offset byte).Holds := by
  refine { holds with loaded := ?_, saved := ?_ }
  · exact fun page resident => (holds.loaded page resident).update offset byte
  intro page absent
  refine (holds.saved page absent).update_away ?_ byte
  intro here
  rw [here, holds.closed page absent] at writable
  exact writable rfl

end

def freshRegion (config : Config) (base pages prot : Nat) : TracedRegion :=
  { newRegion config base pages prot with active := true }

theorem freshRegion_holds (config : Config) (base prot : Nat) {pages : Nat} (some_pages : pages ≠ 0)
    (fits : pages ≤ SIZE_MAX / 2) : (freshRegion config base pages prot).Holds := by
  have most : SIZE_MAX / 2 = 2 ^ 63 - 1 := rfl
  refine { sized := config.pageSize_pos, short := ?_, positive := ?_, accessible := ?_, hand := Nat.two_pow_pos 64
           counted := (flagged_none pages).symm, limited := Nat.zero_le _, closed := fun _ _ => rfl, once := nofun
           loaded := nofun, saved := fun page _ => .refl _ page _, alone := fun _ => nofun }
  · show pages * 2 < 2 ^ 64
    omega
  · show 0 < min (if config.residentPages = 0 then 1 else config.residentPages) pages
    split <;> omega
  show (if prot % 2 ^ 32 = 0 then PROT_READ ||| PROT_WRITE else prot % 2 ^ 32) ≠ PROT_NONE
  split
  · exact nofun
  · assumption

theorem findManagedRegionForAddr_some {addr slot index : Nat}
    (found : findManagedRegionForAddr regions addr = some (slot, index)) :
    ∃ region, regions[slot]? = some region ∧ region.active = true ∧ index < region.pageCount := by
  simp only [findManagedRegionForAddr] at found
  split at found
  · cases found
  rename_i position located
  split at found
  · cases found
  rename_i region there
  split at found
  · cases found
  cases found
  have facts := (List.findIdx?_eq_some_iff_getElem.mp located)
  obtain ⟨below, holds, -⟩ := facts
  have same : regions[slot] = region := by
    rw [List.getElem?_eq_getElem below] at there
    exact Option.some.inj there
  rw [same, Bool.and_eq_true] at holds
  exact ⟨region, there, holds.1, by omega⟩

theorem holds_set (holds : ∀ region ∈ regions, region.active = true → region.Holds)
    {after : TracedRegion} (kept : after.Holds) (slot : Nat) :
    ∀ region ∈ regions.set slot after, region.active = true → region.Holds := by
  intro region member active
  rcases List.mem_or_eq_of_mem_set member with old | rfl
  · exact holds region old active
  · exact kept

theorem faultStep_holds {next : List TracedRegion} {event : FaultEvent}
    (holds : ∀ region ∈ regions, region.active = true → region.Holds) (kept : event.Kept regions)
    (result : faultStep regions event = some next) : ∀ region ∈ next, region.active = true → region.Holds := by
  cases event with
  | fault addr answers =>
      cases result
      rw [handleManagedMemoryFault]
      split
      · exact holds
      rename_i slot index found
      obtain ⟨region, there, active, inside⟩ := findManagedRegionForAddr_some found
      obtain ⟨handled, after, served, held, -⟩ :=
        (holds region (List.mem_of_getElem? there) active).fault inside answers (kept slot index region found there)
      rw [there]
      simp only [served]
      exact holds_set holds held slot
  | store slot offset byte =>
      rw [faultStep] at result
      split at result
      · cases result
      rename_i region there
      split at result
      · rename_i writable
        cases result
        have held := holds region (List.mem_of_getElem? there) writable.1
        exact holds_set holds (held.store writable.2.2 byte) slot
      · cases result

/-- In a run whose faults meet the condition, the regions are sound. -/
theorem managedFaults_sound {config : Config} {regions last : List TracedRegion}
    (fresh : ∀ region ∈ regions, region.active = true →
      ∃ base pages prot, pages ≠ 0 ∧ pages ≤ SIZE_MAX / 2 ∧ region = freshRegion config base pages prot)
    (reached : Reaches faultStep FaultEvent.Kept regions last) :
    ∀ region ∈ last, region.active = true → region.Sound := by
  have start : ∀ region ∈ regions, region.active = true → region.Holds := by
    intro region member active
    obtain ⟨base, pages, prot, some_pages, fits, same⟩ := fresh region member active
    exact same ▸ freshRegion_holds config base prot some_pages fits
  have all := reached.invariant (fun regions : List TracedRegion => ∀ region ∈ regions, region.active = true → region.Holds)
    start fun _ _ _ holds kept result => faultStep_holds holds kept result
  exact fun region member active => (all region member active).sound

theorem managedFaults_sound_closed : ∃ (config : Config) (last : List TracedRegion),
    Reaches faultStep FaultEvent.Kept [freshRegion config 65536 2 3] last ∧
      ∀ region ∈ last, region.active = true → region.Sound := by
  let config : Config := ⟨true, 4096, 0, 1, false, 4096, by decide⟩
  let region := freshRegion config 65536 2 3
  let smooth : FaultAnswers :=
    { evict := fun _ => ⟨true, some 4096, some 4096, .done⟩, load := ⟨.done, true, some 4096, some 4096, true⟩ }
  let closed : FaultAnswers := { smooth with load := ⟨.notRun, true, none, none, true⟩ }
  have served : FaultEvent.Kept [region] (.fault 65536 smooth) := by
    intro slot index found _ there
    have same : found = region := by
      cases slot with
      | zero => exact (Option.some.inj there).symm
      | succ slot => cases there
    subst same
    exact FaultAnswers.Smooth.kept ⟨fun _ => rfl, rfl⟩
  let opened := (handleManagedMemoryFault smooth [region] 65536).2
  have first : Reaches faultStep FaultEvent.Kept [region] opened := .step .refl served rfl
  have failing : FaultEvent.Kept opened (.fault 69632 closed) :=
    fun _ _ _ _ _ => ⟨fun _ _ => .inl rfl, fun _ => nofun⟩
  have second : Reaches faultStep FaultEvent.Kept [region] (handleManagedMemoryFault closed opened 69632).2 :=
    .step first failing rfl
  refine ⟨config, _, second, @managedFaults_sound config _ _ ?_ second⟩
  intro other member _
  exact ⟨65536, 2, 3, by decide, by decide, List.mem_singleton.mp member⟩

/-- The filling of a page that may only be read fails, and the page stays open. -/
theorem page_left_open : ¬ ∀ (config : Config) (regions last : List TracedRegion),
    (∀ region ∈ regions, region.active = true →
      ∃ base pages prot, pages ≠ 0 ∧ pages ≤ SIZE_MAX / 2 ∧ region = freshRegion config base pages prot) →
    Reaches faultStep (fun _ _ => True) regions last → ∀ region ∈ last, region.active = true → region.Sound := by
  intro claim
  let config : Config := ⟨true, 4096, 0, 1, false, 4096, by decide⟩
  let region := freshRegion config 65536 1 PROT_READ
  let refused : FaultAnswers :=
    { evict := fun _ => ⟨true, some 4096, some 4096, .done⟩, load := ⟨.done, true, some 4096, none, true⟩ }
  have room : makeRegionRoom refused.evict region 0 = (true, region) := by
    rw [makeRegionRoom]
    rfl
  have failed : region.fault refused 0 = (false, region.protect 0 PROT_READ) := by
    rw [TracedRegion.fault, room]
    rfl
  have found : findManagedRegionForAddr [region] 65536 = some (0, 0) := by decide
  have left : handleManagedMemoryFault refused [region] 65536 = (-1, [region.protect 0 PROT_READ]) := by
    rw [handleManagedMemoryFault, found]
    show (let (handled, after) := region.fault refused 0; ((if handled then 1 else -1), [after])) = _
    rw [failed]
    rfl
  have moved : faultStep [region] (.fault 65536 refused) = some [region.protect 0 PROT_READ] := by
    rw [faultStep, left]
  have sound := claim config [region] [region.protect 0 PROT_READ]
    (by
      intro other member _
      exact ⟨65536, 1, PROT_READ, by decide, by decide, List.mem_singleton.mp member⟩)
    (.step .refl trivial moved)
    _ (List.mem_singleton.mpr rfl) rfl
  have shut := sound.closed 0 Nat.one_pos rfl
  cases shut

end PDocker.Pager
