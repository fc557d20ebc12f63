import PDocker.Data.Transition

/-!
# Admission to the managed pager

A large anonymous mapping is made by the kernel without access, and registered with the pager when
the call returns; if that fails, it is unmapped again.
-/

set_option autoImplicit false

namespace PDocker.Pager

/-! ## Calls of the tracee -/

structure MmapArgs where
  addr : Nat
  length : Nat
  prot : Nat
  flags : Nat
  fd : Nat
  offset : Nat
deriving DecidableEq, Repr

def PROT_NONE : Nat := 0
def PROT_READ : Nat := 1
def PROT_WRITE : Nat := 2
def PROT_EXEC : Nat := 4
def MAP_PRIVATE : Nat := 0x02
def MAP_FIXED : Nat := 0x10
def MAP_ANONYMOUS : Nat := 0x20
def EINVAL : Nat := 22
def ENOMEM : Nat := 12
def SIZE_MAX : Nat := 2 ^ 64 - 1

def errorResult (errno : Nat) : Nat := 2 ^ 64 - errno

def syscallFailedResult (result : Nat) : Bool := decide (2 ^ 64 - 4095 ≤ result)

/-- The `g_managed_memory_pager` settings, the page size and the tracing mode. -/
structure Config where
  managedMemoryPager : Bool
  minRequest : Nat
  maxRegion : Nat
  residentPages : Nat
  selectiveTrace : Bool
  pageSize : Nat
  pageSize_pos : 0 < pageSize

def Config.pagesOf (config : Config) (length : Nat) : Nat :=
  (length + config.pageSize - 1) / config.pageSize

def Config.rounded (config : Config) (length : Nat) : Nat := config.pagesOf length * config.pageSize

abbrev Space := Nat → Option Nat

def Space.map (space : Space) (first count : Nat) (prot : Option Nat) : Space :=
  fun page => if first ≤ page ∧ page < first + count then prot else space page

/-- The kernel's `mmap`, when it fails or takes a base. -/
def kernelMmap (config : Config) (outcome : Except Nat Nat) (args : MmapArgs) (space : Space) : Nat × Space :=
  match outcome with
  | .error errno => (errorResult errno, space)
  | .ok base => (base, space.map (base / config.pageSize) (config.pagesOf args.length) args.prot)

/-- What the kernel can do: errors are small, nothing is mapped for no length, and a mapping lies in
the lower half on page boundaries, not at 0 unless it was asked for. -/
def Possible (config : Config) (args : MmapArgs) : Except Nat Nat → Prop
  | .error errno => 0 < errno ∧ errno ≤ 4095
  | .ok base =>
      args.length ≠ 0 ∧ base % config.pageSize = 0 ∧ base + config.rounded args.length ≤ 2 ^ 63 ∧
        (args.flags &&& MAP_FIXED = 0 → base ≠ 0)

instance (config : Config) (args : MmapArgs) : (outcome : Except Nat Nat) → Decidable (Possible config args outcome)
  | .error errno => inferInstanceAs (Decidable (0 < errno ∧ errno ≤ 4095))
  | .ok _ => inferInstanceAs (Decidable (_ ∧ _ ∧ _ ∧ (_ → _)))

structure Admission where
  considered : Nat := 0
  pending : Nat := 0
  accepted : Nat := 0
  deniedEnomem : Nat := 0
  registerFailed : Nat := 0
  cleanupMunmapFailed : Nat := 0
  rejectedNotEnabled : Nat := 0
  rejectedBelowThreshold : Nat := 0
  rejectedTooLarge : Nat := 0
  rejectedFixedAddress : Nat := 0
  rejectedFlags : Nat := 0
  rejectedFileBacked : Nat := 0
  rejectedProtection : Nat := 0
deriving DecidableEq, Repr

def Admission.rejected (stats : Admission) : Nat :=
  stats.rejectedBelowThreshold + stats.rejectedTooLarge + stats.rejectedFixedAddress + stats.rejectedFlags +
    stats.rejectedFileBacked + stats.rejectedProtection

def managedTraceIsCandidateMmap (config : Config) (args : MmapArgs) (stats : Admission) : Bool × Admission :=
  if !config.managedMemoryPager then
    (false, { stats with rejectedNotEnabled := stats.rejectedNotEnabled + 1 })
  else
    let stats := { stats with considered := stats.considered + 1 }
    if args.addr ≠ 0 then
      (false, { stats with rejectedFixedAddress := stats.rejectedFixedAddress + 1 })
    else if args.length < config.minRequest then
      (false, { stats with rejectedBelowThreshold := stats.rejectedBelowThreshold + 1 })
    else if config.maxRegion ≠ 0 ∧ config.maxRegion < args.length then
      (false, { stats with rejectedTooLarge := stats.rejectedTooLarge + 1 })
    else if args.flags &&& MAP_ANONYMOUS = 0 ∨ args.flags &&& MAP_PRIVATE = 0 ∨ args.flags &&& MAP_FIXED ≠ 0 then
      (false, { stats with rejectedFlags := stats.rejectedFlags + 1 })
    else if args.fd ≠ 0xffffffffffffffff ∧ args.fd ≠ 0xffffffff then
      (false, { stats with rejectedFileBacked := stats.rejectedFileBacked + 1 })
    else if args.prot &&& (PROT_READ ||| PROT_WRITE) = 0 ∨ args.prot &&& PROT_EXEC ≠ 0 then
      (false, { stats with rejectedProtection := stats.rejectedProtection + 1 })
    else (true, stats)

def isCandidate (config : Config) (args : MmapArgs) : Bool := (managedTraceIsCandidateMmap config args {}).1

def MAX_MANAGED_TRACE_REGIONS : Nat := 8

/-- `backing` is what the backing file holds. -/
structure ManagedTraceRegion where
  active : Bool := false
  base : Nat := 0
  length : Nat := 0
  prot : Nat := 0
  pageSize : Nat := 0
  pageCount : Nat := 0
  residentLimit : Nat := 0
  residentCount : Nat := 0
  clockHand : Nat := 0
  resident : Nat → Bool := fun _ => false
  everLoaded : Nat → Bool := fun _ => false
  backing : Nat → UInt8 := fun _ => 0

structure Resources where
  table : Bool
  flagArrays : Bool
  openBacking : Bool
  ftruncate : Bool
deriving DecidableEq, Repr

def regionTable (regions : List ManagedTraceRegion) (table : Bool) : List ManagedTraceRegion :=
  if regions = [] ∧ table then List.replicate MAX_MANAGED_TRACE_REGIONS {} else regions

def allocManagedRegionSlot (regions : List ManagedTraceRegion) : Option Nat :=
  regions.findIdx? fun region => !region.active

def newRegion (config : Config) (base pages prot : Nat) : ManagedTraceRegion where
  base := base
  length := pages * config.pageSize
  prot := if prot % 2 ^ 32 = 0 then PROT_READ ||| PROT_WRITE else prot % 2 ^ 32
  pageSize := config.pageSize
  pageCount := pages
  residentLimit := min (if config.residentPages = 0 then 1 else config.residentPages) pages

def registerManagedMmapRegion (config : Config) (resources : Resources) (base length prot : Nat)
    (stats : Admission) (regions : List ManagedTraceRegion) : Bool × Admission × List ManagedTraceRegion :=
  if syscallFailedResult base ∨ base = 0 ∨ length = 0 then (false, stats, regions)
  else
    let pages := (length + config.pageSize - 1) % 2 ^ 64 / config.pageSize
    if pages = 0 ∨ SIZE_MAX / 2 < pages then (false, stats, regions)
    else
      let regions := regionTable regions resources.table
      match allocManagedRegionSlot regions with
      | none => (false, stats, regions)
      | some slot =>
          let region := newRegion config base pages prot
          if resources.flagArrays && resources.openBacking && resources.ftruncate then
            (true, { stats with accepted := stats.accepted + 1 }, regions.set slot { region with active := true })
          else (false, { stats with registerFailed := stats.registerFailed + 1 }, regions.set slot region)

inductive Call where
  | mmap (args : MmapArgs)
  /-- The call is skipped; the result is in place. -/
  | skipped (result : Nat)
deriving DecidableEq, Repr

structure Tracee where
  lastArgs : MmapArgs := ⟨0, 0, 0, 0, 0, 0⟩
  managedPendingLen : Nat := 0
  managedPendingProt : Nat := 0
  managedRegions : List ManagedTraceRegion := []
  call : Option Call := none
  result : Nat := 0
  space : Space := fun _ => none

/-- The outcomes of the tracer's requests at the entry, and whether the memory guard denies the call. -/
structure EntryAnswers where
  prepareRegs : Bool
  guardDenies : Bool
  completeNumber : Bool
  completeRegs : Bool
deriving DecidableEq, Repr

def maybePrepareManagedMmap (config : Config) (setRegs : Bool) (stats : Admission) (tracee : Tracee) :
    Admission × Tracee :=
  let (candidate, stats) := managedTraceIsCandidateMmap config tracee.lastArgs stats
  if !candidate then (stats, { tracee with managedPendingLen := 0 })
  else
    let stats := { stats with pending := stats.pending + 1 }
    let tracee :=
      { tracee with
        managedPendingLen := tracee.lastArgs.length
        managedPendingProt := tracee.lastArgs.prot }
    if setRegs then (stats, { tracee with call := some (.mmap { tracee.lastArgs with prot := PROT_NONE }) })
    else (stats, { tracee with managedPendingLen := 0 })

/-- A call is denied in two requests: its number is taken away, then the result is put in place. -/
def maybeGuardMemorySyscall (answers : EntryAnswers) (tracee : Tracee) : Tracee :=
  if tracee.lastArgs.length ≠ 0 ∧ answers.guardDenies ∧ answers.completeNumber then
    { tracee with
      call := some (.skipped (if answers.completeRegs then errorResult ENOMEM else tracee.lastArgs.addr)) }
  else tracee

def mmapEntry (config : Config) (answers : EntryAnswers) (args : MmapArgs) (stats : Admission) (tracee : Tracee) :
    Admission × Tracee :=
  let tracee := { tracee with lastArgs := args, call := some (.mmap args) }
  let (stats, tracee) := maybePrepareManagedMmap config answers.prepareRegs stats tracee
  if tracee.managedPendingLen = 0 then (stats, maybeGuardMemorySyscall answers tracee) else (stats, tracee)

inductive Injection where
  | done
  | notRun
  /-- The call has run, but a later request of the injection fails. -/
  | unreported
deriving DecidableEq, Repr

structure ExitAnswers where
  resources : Resources
  injection : Injection
  setRegs : Bool
deriving DecidableEq, Repr

def cleanupMunmap (config : Config) (answers : ExitAnswers) (base length : Nat) (space : Space) :
    Bool × Space × Nat :=
  let unmapped := space.map (base / config.pageSize) (config.pagesOf length) none
  if config.selectiveTrace then
    -- The filter stops the injected call; it runs when the tracee goes on, with the registers set by then.
    if answers.setRegs then (false, space, errorResult EINVAL) else (false, unmapped, 0)
  else
    match answers.injection with
    | .done => (true, unmapped, if answers.setRegs then errorResult ENOMEM else 0)
    | .notRun => (false, space, if answers.setRegs then errorResult ENOMEM else base)
    | .unreported => (false, unmapped, if answers.setRegs then errorResult ENOMEM else 0)

def maybeFinishManagedMmap (config : Config) (answers : ExitAnswers) (stats : Admission) (tracee : Tracee) :
    Admission × Tracee :=
  if tracee.managedPendingLen = 0 then (stats, tracee)
  else
    let length := tracee.managedPendingLen
    let base := tracee.result
    let tracee := { tracee with managedPendingLen := 0 }
    if syscallFailedResult base ∨ base = 0 then (stats, tracee)
    else
      let (registered, stats, regions) :=
        registerManagedMmapRegion config answers.resources base length tracee.managedPendingProt stats
          tracee.managedRegions
      let tracee := { tracee with managedRegions := regions }
      if registered then (stats, tracee)
      else
        let (reported, space, result) := cleanupMunmap config answers base length tracee.space
        ({ stats with
            cleanupMunmapFailed := stats.cleanupMunmapFailed + if reported then 0 else 1
            deniedEnomem := stats.deniedEnomem + 1 },
          { tracee with space := space, result := result })

def mmapExit (config : Config) (outcome : Except Nat Nat) (answers : ExitAnswers) (stats : Admission)
    (tracee : Tracee) (call : Call) : Admission × Tracee :=
  match call with
  | .skipped result => (stats, { tracee with call := none, result := result })
  | .mmap args =>
      let (result, space) := kernelMmap config outcome args tracee.space
      maybeFinishManagedMmap config answers stats { tracee with call := none, result := result, space := space }

/-- `kernelFailed` counts the candidates whose call the kernel itself failed. -/
structure Tracer where
  stats : Admission := {}
  tracees : List Tracee
  kernelFailed : Nat := 0

inductive Event where
  | entry (index : Nat) (args : MmapArgs) (answers : EntryAnswers)
  | exit (index : Nat) (outcome : Except Nat Nat) (answers : ExitAnswers)
  /-- Other calls, of this thread or of one that shares the memory. -/
  | changed (index : Nat) (space : Space)
  | removed (index : Nat)

namespace Tracer

def initial (count : Nat) : Tracer where
  tracees := List.replicate count {}

def kernelFails (config : Config) (tracee : Tracee) (call : Call) (outcome : Except Nat Nat) : Bool :=
  match call, outcome with
  | .mmap _, .error _ => isCandidate config tracee.lastArgs
  | _, _ => false

def step (config : Config) (tracer : Tracer) : Event → Option Tracer
  | .entry index args answers =>
      match tracer.tracees[index]? with
      | none => none
      | some tracee =>
          if tracee.call.isSome then none
          else
            let (stats, tracee) := mmapEntry config answers args tracer.stats tracee
            some { tracer with stats := stats, tracees := tracer.tracees.set index tracee }
  | .exit index outcome answers =>
      match tracer.tracees[index]? with
      | none => none
      | some tracee =>
          match tracee.call with
          | none => none
          | some call =>
              if Possible config tracee.lastArgs outcome then
                let (stats, after) := mmapExit config outcome answers tracer.stats tracee call
                some
                  { stats := stats
                    tracees := tracer.tracees.set index after
                    kernelFailed :=
                      tracer.kernelFailed + if kernelFails config tracee call outcome then 1 else 0 }
              else none
  | .changed index space =>
      tracer.tracees[index]?.map fun tracee =>
        { tracer with tracees := tracer.tracees.set index { tracee with space := space } }
  | .removed index => some { tracer with tracees := tracer.tracees.set index {} }

end Tracer

def ManagedTraceRegion.overlaps (region : ManagedTraceRegion) (base length : Nat) : Bool :=
  region.active && decide (region.base < base + length ∧ base < region.base + region.length)

def CoveredOnce (config : Config) (regions : List ManagedTraceRegion) (base length : Nat) : Prop :=
  ∃ (slot : Nat) (region : ManagedTraceRegion),
    regions[slot]? = some region ∧ region.active = true ∧ region.base = base ∧
      region.length = config.rounded length ∧
      ∀ (other : Nat) (region' : ManagedTraceRegion), regions[other]? = some region' →
        region'.overlaps base (config.rounded length) = true → other = slot

/-- The mapping of a candidate is registered or gone, and any other call is the kernel's own. -/
def Settled (config : Config) (outcome : Except Nat Nat) (before after : Tracee) : Prop :=
  isCandidate config before.lastArgs = false ∧
      (after.result, after.space) = kernelMmap config outcome before.lastArgs before.space ∨
    (∃ base, outcome = .ok base ∧ after.result = base ∧
      (∀ page, base / config.pageSize ≤ page → page < base / config.pageSize + config.pagesOf before.lastArgs.length →
        (after.space page).isSome) ∧
      CoveredOnce config after.managedRegions base before.lastArgs.length) ∨
    syscallFailedResult after.result = true ∧ ∀ page, (after.space page).isSome → after.space page = before.space page

/-- Every call that has been considered is accounted for, once none is under way. -/
def Tracer.Balanced (tracer : Tracer) : Prop :=
  tracer.stats.considered = tracer.stats.rejected + tracer.stats.pending ∧
    ((∀ tracee ∈ tracer.tracees, tracee.call = none) →
      tracer.stats.pending = tracer.stats.accepted + tracer.stats.deniedEnomem + tracer.kernelFailed)

def Tracer.Returns (config : Config) (tracer next : Tracer) : Event → Prop
  | .exit index outcome _ =>
      ∀ before after, tracer.tracees[index]? = some before → next.tracees[index]? = some after →
        Settled config outcome before after
  | _ => True

def registrable (resources : Resources) (regions : List ManagedTraceRegion) : Bool :=
  (allocManagedRegionSlot (regionTable regions resources.table)).isSome &&
    (resources.flagArrays && resources.openBacking && resources.ftruncate)

/-- The requests that the pager needs succeed, and no region of an earlier mapping is in the way. -/
def Kept (config : Config) (tracer : Tracer) : Event → Prop
  | .entry _ args answers =>
      (isCandidate config args = true → answers.prepareRegs = true) ∧
        (answers.guardDenies = true → answers.completeNumber = true → answers.completeRegs = true)
  | .exit index outcome answers =>
      ∀ tracee base, tracer.tracees[index]? = some tracee → isCandidate config tracee.lastArgs = true →
        outcome = .ok base →
        if registrable answers.resources tracee.managedRegions then
          ∀ region ∈ tracee.managedRegions, region.overlaps base (config.rounded tracee.lastArgs.length) = false
        else config.selectiveTrace = false ∧ answers.injection ≠ .notRun ∧ answers.setRegs = true
  | .changed .. => True
  | .removed index =>
      ∀ tracee, tracer.tracees[index]? = some tracee → tracee.call = none ∨ isCandidate config tracee.lastArgs = false

end PDocker.Pager
