import PDocker.Pager.Admission

/-!
# Settled mappings

One lemma for each part of a managed `mmap`, then a run of calls of several tracees.
-/

set_option autoImplicit false

namespace PDocker.Pager

open Data

theorem managedTraceIsCandidateMmap_fst (config : Config) (args : MmapArgs) (stats : Admission) :
    (managedTraceIsCandidateMmap config args stats).1 = isCandidate config args := by
  unfold isCandidate managedTraceIsCandidateMmap
  dsimp only
  split_ifs <;> rfl

structure Counted (candidate : Bool) (before after : Admission) : Prop where
  considered : ∀ others, before.considered = before.rejected + others →
    after.considered = after.rejected + others + candidate.toNat
  pending : after.pending = before.pending
  accepted : after.accepted = before.accepted
  deniedEnomem : after.deniedEnomem = before.deniedEnomem

theorem managedTraceIsCandidateMmap_counted (config : Config) (args : MmapArgs) (stats : Admission) :
    Counted (isCandidate config args) stats (managedTraceIsCandidateMmap config args stats).2 := by
  rw [← managedTraceIsCandidateMmap_fst config args stats]
  unfold managedTraceIsCandidateMmap
  dsimp only
  split_ifs <;>
    exact
      { considered := fun others balanced => by
          dsimp only [Admission.rejected, Bool.toNat, cond] at balanced ⊢
          omega
        pending := rfl
        accepted := rfl
        deniedEnomem := rfl }

section
variable {config : Config} {base length prot : Nat} {resources : Resources} {regions : List ManagedTraceRegion}

theorem rounded_pos (nonempty : length ≠ 0) : 0 < config.pagesOf length := by
  have positive := config.pageSize_pos
  exact Nat.div_pos (by omega) positive

theorem pagesOf_le_rounded : config.pagesOf length ≤ config.rounded length :=
  Nat.le_mul_of_pos_right _ config.pageSize_pos

structure Placeable (config : Config) (base length : Nat) : Prop where
  nonempty : length ≠ 0
  nonzero : base ≠ 0
  fits : base + config.rounded length ≤ 2 ^ 63

namespace Placeable

variable (placeable : Placeable config base length)
include placeable

theorem result_ok : ¬(syscallFailedResult base = true ∨ base = 0) := by
  have fits := placeable.fits
  rintro (failed | zero)
  · rw [syscallFailedResult, decide_eq_true_eq] at failed
    omega
  · exact placeable.nonzero zero

theorem pages_eq : (length + config.pageSize - 1) % 2 ^ 64 / config.pageSize = config.pagesOf length := by
  have fits := placeable.fits
  have small := Nat.mod_lt (length + config.pageSize - 1) config.pageSize_pos
  have division := Nat.div_add_mod (length + config.pageSize - 1) config.pageSize
  have one : config.pageSize ≤ config.rounded length :=
    Nat.le_mul_of_pos_left _ (rounded_pos placeable.nonempty)
  have below : length + config.pageSize - 1 < 2 ^ 64 := by
    rw [Config.rounded, Config.pagesOf, Nat.mul_comm] at fits one
    omega
  rw [Nat.mod_eq_of_lt below, Config.pagesOf]

theorem pages_ok : ¬(config.pagesOf length = 0 ∨ SIZE_MAX / 2 < config.pagesOf length) := by
  have positive : 0 < config.pagesOf length := rounded_pos placeable.nonempty
  have nonzero := placeable.nonzero
  have fits := placeable.fits
  have most : config.pagesOf length ≤ config.rounded length := pagesOf_le_rounded
  have half : SIZE_MAX / 2 = 2 ^ 63 - 1 := by decide
  omega

theorem registerManagedMmapRegion_eq (stats : Admission) :
    registerManagedMmapRegion config resources base length prot stats regions =
      match allocManagedRegionSlot (regionTable regions resources.table) with
      | none => (false, stats, regionTable regions resources.table)
      | some slot =>
          let region := newRegion config base (config.pagesOf length) prot
          if resources.flagArrays && resources.openBacking && resources.ftruncate then
            (true, { stats with accepted := stats.accepted + 1 },
              (regionTable regions resources.table).set slot { region with active := true })
          else
            (false, { stats with registerFailed := stats.registerFailed + 1 },
              (regionTable regions resources.table).set slot region) := by
  have result := placeable.result_ok
  rw [registerManagedMmapRegion, if_neg (by
      have nonempty := placeable.nonempty
      tauto)]
  dsimp only
  rw [placeable.pages_eq]
  exact if_neg placeable.pages_ok

theorem registered (possible : registrable resources regions = true) (prot : Nat) (stats : Admission) :
    ∃ slot, allocManagedRegionSlot (regionTable regions resources.table) = some slot ∧
      registerManagedMmapRegion config resources base length prot stats regions =
        (true, { stats with accepted := stats.accepted + 1 },
          (regionTable regions resources.table).set slot
            { newRegion config base (config.pagesOf length) prot with active := true }) := by
  rw [registrable, Bool.and_eq_true] at possible
  obtain ⟨free, resourcesThere⟩ := possible
  obtain ⟨slot, found⟩ := Option.isSome_iff_exists.mp free
  refine ⟨slot, found, ?_⟩
  rw [placeable.registerManagedMmapRegion_eq, found]
  dsimp only
  rw [if_pos resourcesThere]

theorem unregistered (impossible : registrable resources regions = false) (prot : Nat) (stats : Admission) :
    ∃ failures after, registerManagedMmapRegion config resources base length prot stats regions =
      (false, { stats with registerFailed := failures }, after) := by
  rw [placeable.registerManagedMmapRegion_eq]
  rw [registrable] at impossible
  cases found : allocManagedRegionSlot (regionTable regions resources.table) with
  | none => exact ⟨stats.registerFailed, _, rfl⟩
  | some slot =>
      rw [found, Option.isSome_some, Bool.true_and] at impossible
      dsimp only
      rw [impossible]
      exact ⟨_, _, rfl⟩

end Placeable

theorem mem_regionTable {table : Bool} {region : ManagedTraceRegion}
    (member : region ∈ regionTable regions table) : region ∈ regions ∨ region.active = false := by
  unfold regionTable at member
  split at member
  · rw [List.eq_of_mem_replicate member]
    exact .inr rfl
  · exact .inl member

theorem coveredOnce_set {slot : Nat} (free : allocManagedRegionSlot (regionTable regions resources.table) = some slot)
    (clear : ∀ region ∈ regions, region.overlaps base (config.rounded length) = false) :
    CoveredOnce config ((regionTable regions resources.table).set slot
      { newRegion config base (config.pagesOf length) prot with active := true }) base length := by
  have small : slot < (regionTable regions resources.table).length := (List.findIdx?_eq_some_iff_getElem.mp free).1
  refine ⟨slot, _, List.getElem?_set_self small, rfl, rfl, rfl, fun other region found reaches => ?_⟩
  rcases getElem?_set_cases found with ⟨same, -⟩ | ⟨-, before⟩
  · exact same
  rcases mem_regionTable (List.mem_of_getElem? before) with member | inactive
  · rw [clear region member] at reaches
    cases reaches
  · rw [ManagedTraceRegion.overlaps, inactive] at reaches
    cases reaches

end

/-! ## One call -/

/-- Between the stops of a tracee: what is pending is what the kernel has been asked for. -/
inductive Consistent (config : Config) (tracee : Tracee) : Prop where
  | idle (none : tracee.call = none) (pending : tracee.managedPendingLen = 0)
  | plain (called : tracee.call = some (.mmap tracee.lastArgs)) (pending : tracee.managedPendingLen = 0)
      (rejected : isCandidate config tracee.lastArgs = false)
  | prepared (called : tracee.call = some (.mmap { tracee.lastArgs with prot := PROT_NONE }))
      (pending : tracee.managedPendingLen = tracee.lastArgs.length)
      (candidate : isCandidate config tracee.lastArgs = true)
  | denied (result : Nat) (called : tracee.call = some (.skipped result))
      (pending : tracee.managedPendingLen = 0) (rejected : isCandidate config tracee.lastArgs = false)
      (failed : syscallFailedResult result = true)

theorem enomem_failed : syscallFailedResult (errorResult ENOMEM) = true := by decide

def underWay (config : Config) (tracee : Tracee) : Bool :=
  tracee.call.isSome && isCandidate config tracee.lastArgs

section
variable {config : Config}

theorem maybePrepareManagedMmap_candidate {tracee : Tracee} (candidate : isCandidate config tracee.lastArgs = true)
    (stats : Admission) :
    maybePrepareManagedMmap config true stats tracee =
      let counted := (managedTraceIsCandidateMmap config tracee.lastArgs stats).2
      ({ counted with pending := counted.pending + 1 },
        { tracee with
          managedPendingLen := tracee.lastArgs.length
          managedPendingProt := tracee.lastArgs.prot
          call := some (.mmap { tracee.lastArgs with prot := PROT_NONE }) }) := by
  rw [← managedTraceIsCandidateMmap_fst config tracee.lastArgs stats] at candidate
  simp only [maybePrepareManagedMmap, candidate, Bool.not_true, Bool.false_eq_true, ↓reduceIte]

theorem maybePrepareManagedMmap_rejected {tracee : Tracee} (rejected : isCandidate config tracee.lastArgs = false)
    (setRegs : Bool) (stats : Admission) :
    maybePrepareManagedMmap config setRegs stats tracee =
      ((managedTraceIsCandidateMmap config tracee.lastArgs stats).2, { tracee with managedPendingLen := 0 }) := by
  rw [← managedTraceIsCandidateMmap_fst config tracee.lastArgs stats] at rejected
  simp only [maybePrepareManagedMmap, rejected, Bool.not_false, ↓reduceIte]

structure Entered (config : Config) (args : MmapArgs) (stats : Admission) (after : Admission × Tracee) : Prop where
  consistent : Consistent config after.2
  lastArgs : after.2.lastArgs = args
  called : after.2.call.isSome = true
  stats : after.1 =
    let counted := (managedTraceIsCandidateMmap config args stats).2
    { counted with pending := counted.pending + (isCandidate config args).toNat }

variable {answers : EntryAnswers} {args : MmapArgs} {tracee : Tracee} {count first page : Nat} {space : Space}

theorem mmapEntry_candidate (stats : Admission) (tracee : Tracee)
    (candidate : isCandidate config args = true) (prepared : answers.prepareRegs = true) :
    Entered config args stats (mmapEntry config answers args stats tracee) := by
  have ready := @maybePrepareManagedMmap_candidate config
    { tracee with lastArgs := args, call := some (.mmap args) } candidate stats
  rw [mmapEntry, prepared]
  dsimp only at ready ⊢
  rw [ready]
  dsimp only
  split
  · next empty =>
      rw [maybeGuardMemorySyscall, if_neg fun guarded => guarded.1 empty]
      exact ⟨.prepared rfl rfl candidate, rfl, rfl, by rw [candidate]; rfl⟩
  · exact ⟨.prepared rfl rfl candidate, rfl, rfl, by rw [candidate]; rfl⟩

theorem mmapEntry_rejected (stats : Admission) (tracee : Tracee) (rejected : isCandidate config args = false)
    (completed : answers.guardDenies = true → answers.completeNumber = true → answers.completeRegs = true) :
    Entered config args stats (mmapEntry config answers args stats tracee) := by
  have ready := @maybePrepareManagedMmap_rejected config
    { tracee with lastArgs := args, call := some (.mmap args) } rejected answers.prepareRegs stats
  rw [mmapEntry]
  dsimp only at ready ⊢
  rw [ready]
  dsimp only
  rw [if_pos rfl, maybeGuardMemorySyscall]
  split
  · next guarded =>
      obtain ⟨_, denies, number⟩ := guarded
      rw [completed denies number]
      exact ⟨.denied _ rfl rfl rejected (by rw [if_pos rfl]; exact enomem_failed), rfl, rfl, by rw [rejected]; rfl⟩
  · exact ⟨.plain rfl rfl rejected, rfl, rfl, by rw [rejected]; rfl⟩

/-- A call under way is accounted for when it returns: denied, accepted or failed by the kernel. -/
structure Accounted (candidate : Bool) (failed : Nat) (before after : Admission) : Prop where
  considered : after.considered = before.considered
  rejected : after.rejected = before.rejected
  pending : after.pending = before.pending
  settled : after.accepted + after.deniedEnomem + failed =
    before.accepted + before.deniedEnomem + candidate.toNat

theorem Accounted.refl (stats : Admission) {candidate : Bool} {failed : Nat}
    (one : failed = candidate.toNat) : Accounted candidate failed stats stats where
  considered := rfl
  rejected := rfl
  pending := rfl
  settled := congrArg (stats.accepted + stats.deniedEnomem + ·) one

structure Exited (config : Config) (outcome : Except Nat Nat) (tracee : Tracee) (call : Call) (stats : Admission)
    (after : Admission × Tracee) : Prop where
  consistent : Consistent config after.2
  returned : after.2.call = none
  settled : Settled config outcome tracee after.2
  accounted : Accounted (isCandidate config tracee.lastArgs)
    (if Tracer.kernelFails config tracee call outcome then 1 else 0) stats after.1

theorem mmapExit_denied {result : Nat} (rejected : isCandidate config tracee.lastArgs = false)
    (failed : syscallFailedResult result = true) (pending : tracee.managedPendingLen = 0)
    (outcome : Except Nat Nat) (answers : ExitAnswers) (stats : Admission) :
    Exited config outcome tracee (.skipped result) stats
      (mmapExit config outcome answers stats tracee (.skipped result)) where
  consistent := .idle rfl pending
  returned := rfl
  settled := .inr (.inr ⟨failed, fun _ _ => rfl⟩)
  accounted := .refl stats (by rw [rejected]; rfl)

theorem mmapExit_plain (rejected : isCandidate config tracee.lastArgs = false)
    (pending : tracee.managedPendingLen = 0) (outcome : Except Nat Nat) (answers : ExitAnswers)
    (stats : Admission) :
    Exited config outcome tracee (.mmap tracee.lastArgs) stats
      (mmapExit config outcome answers stats tracee (.mmap tracee.lastArgs)) := by
  rw [mmapExit]
  dsimp only
  rw [maybeFinishManagedMmap, if_pos pending]
  exact
    { consistent := .idle rfl pending
      returned := rfl
      settled := .inl ⟨rejected, rfl⟩
      accounted := .refl stats (by cases outcome <;> simp [Tracer.kernelFails, rejected]) }

theorem mmapExit_failed (tracee : Tracee) (args : MmapArgs) {errno : Nat} (small : 0 < errno ∧ errno ≤ 4095)
    (answers : ExitAnswers) (stats : Admission) :
    Exited config (.error errno) tracee (.mmap args) stats
      (mmapExit config (.error errno) answers stats tracee (.mmap args)) := by
  have failed : syscallFailedResult (errorResult errno) = true := by
    rw [syscallFailedResult, errorResult, decide_eq_true_eq]
    omega
  have accounted : Accounted (isCandidate config tracee.lastArgs)
      (if Tracer.kernelFails config tracee (.mmap args) (.error errno) then 1 else 0) stats stats :=
    .refl stats (by
      rw [Tracer.kernelFails]
      cases isCandidate config tracee.lastArgs <;> rfl)
  rw [mmapExit, kernelMmap]
  dsimp only
  rw [maybeFinishManagedMmap]
  dsimp only
  split
  · next pending => exact ⟨.idle rfl pending, rfl, .inr (.inr ⟨failed, fun _ _ => rfl⟩), accounted⟩
  · rw [if_pos (.inl failed)]
    exact ⟨.idle rfl rfl, rfl, .inr (.inr ⟨failed, fun _ _ => rfl⟩), accounted⟩

theorem Possible.placeable {base : Nat} (possible : Possible config args (.ok base))
    (candidate : isCandidate config args = true) : Placeable config base args.length := by
  obtain ⟨nonempty, _, fits, nonzero⟩ := possible
  refine ⟨nonempty, nonzero ?_, fits⟩
  by_contra fixed
  rw [isCandidate, managedTraceIsCandidateMmap] at candidate
  dsimp only at candidate
  split_ifs at candidate
  tauto

theorem map_isSome (prot : Nat) (above : first ≤ page)
    (below : page < first + count) : (space.map first count (some prot) page).isSome = true := by
  rw [Space.map, if_pos ⟨above, below⟩]
  rfl

theorem map_none_map {prot : Option Nat}
    (mapped : ((space.map first count prot).map first count none page).isSome = true) :
    (space.map first count prot).map first count none page = space page := by
  rw [Space.map] at mapped ⊢
  split at mapped
  · cases mapped
  · next outside => rw [if_neg outside, Space.map, if_neg outside]

theorem mmapExit_registered (candidate : isCandidate config tracee.lastArgs = true)
    (pending : tracee.managedPendingLen = tracee.lastArgs.length) {base : Nat}
    (placeable : Placeable config base tracee.lastArgs.length) {answers : ExitAnswers}
    (possible : registrable answers.resources tracee.managedRegions = true)
    (clear : ∀ region ∈ tracee.managedRegions,
      region.overlaps base (config.rounded tracee.lastArgs.length) = false) (stats : Admission) :
    Exited config (.ok base) tracee (.mmap { tracee.lastArgs with prot := PROT_NONE }) stats
      (mmapExit config (.ok base) answers stats tracee (.mmap { tracee.lastArgs with prot := PROT_NONE })) := by
  obtain ⟨slot, free, registered⟩ :=
    placeable.registered possible tracee.managedPendingProt stats
  rw [mmapExit, kernelMmap]
  dsimp only
  rw [maybeFinishManagedMmap]
  dsimp only
  rw [pending, if_neg placeable.nonempty, if_neg placeable.result_ok, registered]
  exact
    { consistent := .idle rfl rfl
      returned := rfl
      settled := .inr (.inl ⟨base, rfl, rfl, fun page above below => map_isSome PROT_NONE above below,
        coveredOnce_set free clear⟩)
      accounted :=
        { considered := rfl
          rejected := rfl
          pending := rfl
          settled := by
            rw [candidate]
            exact (Nat.add_zero _).trans (Nat.add_right_comm _ 1 _) } }

theorem mmapExit_removed (candidate : isCandidate config tracee.lastArgs = true)
    (pending : tracee.managedPendingLen = tracee.lastArgs.length) {base : Nat}
    (placeable : Placeable config base tracee.lastArgs.length) {answers : ExitAnswers}
    (impossible : registrable answers.resources tracee.managedRegions = false)
    (unfiltered : config.selectiveTrace = false) (ran : answers.injection ≠ .notRun)
    (setRegs : answers.setRegs = true) (stats : Admission) :
    Exited config (.ok base) tracee (.mmap { tracee.lastArgs with prot := PROT_NONE }) stats
      (mmapExit config (.ok base) answers stats tracee (.mmap { tracee.lastArgs with prot := PROT_NONE })) := by
  obtain ⟨failures, regions, unregistered⟩ :=
    placeable.unregistered impossible tracee.managedPendingProt stats
  have cleaned : ∀ space, ∃ reported, cleanupMunmap config answers base tracee.lastArgs.length space =
      (reported, space.map (base / config.pageSize) (config.pagesOf tracee.lastArgs.length) none,
        errorResult ENOMEM) := by
    intro space
    rw [cleanupMunmap, unfiltered]
    cases injected : answers.injection with
    | done => exact ⟨true, by simp only [setRegs, Bool.false_eq_true, ↓reduceIte]⟩
    | notRun => exact absurd injected ran
    | unreported => exact ⟨false, by simp only [setRegs, Bool.false_eq_true, ↓reduceIte]⟩
  obtain ⟨reported, cleanup⟩ := cleaned
    (tracee.space.map (base / config.pageSize) (config.pagesOf tracee.lastArgs.length) (some PROT_NONE))
  rw [mmapExit, kernelMmap]
  dsimp only
  rw [maybeFinishManagedMmap]
  dsimp only
  rw [pending, if_neg placeable.nonempty, if_neg placeable.result_ok, unregistered]
  simp only [Bool.false_eq_true, ↓reduceIte, cleanup]
  exact
    { consistent := .idle rfl rfl
      returned := rfl
      settled := .inr (.inr ⟨enomem_failed, fun page mapped => map_none_map mapped⟩)
      accounted :=
        { considered := rfl
          rejected := rfl
          pending := rfl
          settled := by
            rw [candidate]
            exact Nat.add_zero _ } }

end

structure Accounts (config : Config) (tracer : Tracer) : Prop where
  consistent : ∀ tracee ∈ tracer.tracees, Consistent config tracee
  considered : tracer.stats.considered = tracer.stats.rejected + tracer.stats.pending
  pending : tracer.stats.pending = tracer.stats.accepted + tracer.stats.deniedEnomem + tracer.kernelFailed +
    tracer.tracees.countP (underWay config)

section
variable {config : Config}

theorem Accounts.balanced {tracer : Tracer} (accounts : Accounts config tracer) : tracer.Balanced := by
  refine ⟨accounts.considered, fun idle => ?_⟩
  have nothing : tracer.tracees.countP (underWay config) = 0 := by
    rw [List.countP_eq_zero]
    intro tracee member
    rw [underWay, idle tracee member, Option.isSome_none, Bool.false_and]
    exact Bool.false_ne_true
  rw [accounts.pending, nothing, Nat.add_zero]

theorem accounts_initial (count : Nat) : Accounts config (.initial count) where
  consistent tracee member := by
    rw [List.eq_of_mem_replicate member]
    exact .idle rfl rfl
  considered := rfl
  pending := by
    rw [Tracer.initial, List.countP_replicate]
    rfl

variable {index : Nat} {tracees : List Tracee} {answers : EntryAnswers} {args : MmapArgs} {outcome : Except Nat Nat}

theorem countP_set_underWay (config : Config) {before : Tracee}
    (found : tracees[index]? = some before) (after : Tracee) :
    (tracees.set index after).countP (underWay config) + (underWay config before).toNat =
      tracees.countP (underWay config) + (underWay config after).toNat := by
  obtain ⟨small, here⟩ := List.getElem?_eq_some_iff.mp found
  have counted : (underWay config before).toNat ≤ tracees.countP (underWay config) := by
    cases underway : underWay config before with
    | true => exact List.countP_pos_iff.mpr ⟨before, List.mem_of_getElem? found, underway⟩
    | false => exact Nat.zero_le _
  have alike : ∀ tracee, (if underWay config tracee then 1 else 0) = (underWay config tracee).toNat :=
    fun tracee => by cases underWay config tracee <;> rfl
  rw [List.countP_set small, here, alike, alike]
  omega

theorem consistent_set (consistent : ∀ tracee ∈ tracees, Consistent config tracee)
    {after : Tracee} (here : Consistent config after) :
    ∀ tracee ∈ tracees.set index after, Consistent config tracee := by
  intro tracee member
  rcases List.mem_or_eq_of_mem_set member with old | rfl
  · exact consistent tracee old
  · exact here

theorem mmapEntry_entered (stats : Admission) (tracee : Tracee)
    (prepared : isCandidate config args = true → answers.prepareRegs = true)
    (completed : answers.guardDenies = true → answers.completeNumber = true → answers.completeRegs = true) :
    Entered config args stats (mmapEntry config answers args stats tracee) := by
  cases candidate : isCandidate config args with
  | true => exact mmapEntry_candidate stats tracee candidate (prepared candidate)
  | false => exact mmapEntry_rejected stats tracee candidate completed

theorem mmapExit_exited {tracer : Tracer} {tracee : Tracee} {call : Call}
    (found : tracer.tracees[index]? = some tracee) (consistent : Consistent config tracee)
    (called : tracee.call = some call) {answers : ExitAnswers}
    (kept : Kept config tracer (.exit index outcome answers)) (possible : Possible config tracee.lastArgs outcome)
    (stats : Admission) :
    Exited config outcome tracee call stats (mmapExit config outcome answers stats tracee call) := by
  cases consistent with
  | idle none _ => rw [none] at called; cases called
  | plain called' pending rejected =>
      rw [called'] at called
      cases called
      exact mmapExit_plain rejected pending outcome answers stats
  | denied result called' pending rejected failed =>
      rw [called'] at called
      cases called
      exact mmapExit_denied rejected failed pending outcome answers stats
  | prepared called' pending candidate =>
      rw [called'] at called
      cases called
      cases outcome with
      | error errno => exact mmapExit_failed tracee _ possible answers stats
      | ok base =>
          have placeable := possible.placeable candidate
          have here := kept tracee base found candidate rfl
          split at here
          · next registers => exact mmapExit_registered candidate pending placeable registers here stats
          · next refused =>
              exact mmapExit_removed candidate pending placeable (Bool.not_eq_true _ ▸ refused) here.1
                here.2.1 here.2.2 stats

theorem step_entry {tracer next : Tracer} (stepped : tracer.step config (.entry index args answers) = some next) :
    ∃ tracee after, tracer.tracees[index]? = some tracee ∧ tracee.call = none ∧
      mmapEntry config answers args tracer.stats tracee = after ∧
      next = { tracer with stats := after.1, tracees := tracer.tracees.set index after.2 } := by
  rw [Tracer.step] at stepped
  split at stepped
  · cases stepped
  next tracee found =>
    split at stepped
    · cases stepped
    · next idle =>
        rw [Bool.not_eq_true, Option.isSome_eq_false_iff, Option.isNone_iff_eq_none] at idle
        exact ⟨tracee, _, found, idle, rfl, (Option.some.inj stepped).symm⟩

theorem step_exit {tracer next : Tracer} {answers : ExitAnswers}
    (stepped : tracer.step config (.exit index outcome answers) = some next) :
    ∃ tracee call after, tracer.tracees[index]? = some tracee ∧ tracee.call = some call ∧
      Possible config tracee.lastArgs outcome ∧
      mmapExit config outcome answers tracer.stats tracee call = after ∧
      next =
        { stats := after.1
          tracees := tracer.tracees.set index after.2
          kernelFailed := tracer.kernelFailed + if Tracer.kernelFails config tracee call outcome then 1 else 0 } := by
  rw [Tracer.step] at stepped
  split at stepped
  · cases stepped
  next tracee found =>
    split at stepped
    · cases stepped
    next call called =>
      split at stepped
      · next possible => exact ⟨tracee, call, _, found, called, possible, rfl, (Option.some.inj stepped).symm⟩
      · cases stepped

namespace Accounts

variable {tracer next : Tracer} (accounts : Accounts config tracer)
include accounts

variable {index : Nat}

theorem entered {args : MmapArgs} {answers : EntryAnswers} (kept : Kept config tracer (.entry index args answers))
    (stepped : tracer.step config (.entry index args answers) = some next) : Accounts config next := by
  obtain ⟨tracee, after, found, idle, result, rfl⟩ := step_entry stepped
  have entered := mmapEntry_entered tracer.stats tracee kept.1 kept.2
  rw [result] at entered
  have counted := managedTraceIsCandidateMmap_counted config args tracer.stats
  have before : underWay config tracee = false := by
    rw [underWay, idle, Option.isSome_none, Bool.false_and]
  have afterwards : underWay config after.2 = isCandidate config args := by
    rw [underWay, entered.called, entered.lastArgs, Bool.true_and]
  have total := countP_set_underWay config found after.2
  rw [before, afterwards] at total
  dsimp only [Bool.toNat_false] at total
  refine ⟨consistent_set accounts.consistent entered.consistent, ?_, ?_⟩
  · have considered := counted.considered _ accounts.considered
    dsimp only
    rw [entered.stats]
    dsimp only [Admission.rejected] at considered ⊢
    rw [counted.pending]
    omega
  · have pending := accounts.pending
    dsimp only
    rw [entered.stats]
    dsimp only
    rw [counted.pending, counted.accepted, counted.deniedEnomem]
    omega

theorem exited {outcome : Except Nat Nat} {answers : ExitAnswers}
    (kept : Kept config tracer (.exit index outcome answers))
    (stepped : tracer.step config (.exit index outcome answers) = some next) :
    Accounts config next ∧ tracer.Returns config next (.exit index outcome answers) := by
  obtain ⟨tracee, call, after, found, called, possible, result, rfl⟩ := step_exit stepped
  have exited := mmapExit_exited found (accounts.consistent tracee (List.mem_of_getElem? found)) called kept
    possible tracer.stats
  rw [result] at exited
  have before : underWay config tracee = isCandidate config tracee.lastArgs := by
    rw [underWay, called, Option.isSome_some, Bool.true_and]
  have afterwards : underWay config after.2 = false := by
    rw [underWay, exited.returned, Option.isSome_none, Bool.false_and]
  have total := countP_set_underWay config found after.2
  rw [before, afterwards] at total
  dsimp only [Bool.toNat_false] at total
  refine ⟨⟨consistent_set accounts.consistent exited.consistent, ?_, ?_⟩, ?_⟩
  · dsimp only
    rw [exited.accounted.considered, exited.accounted.rejected, exited.accounted.pending]
    exact accounts.considered
  · have pending := accounts.pending
    have settled := exited.accounted.settled
    dsimp only
    rw [exited.accounted.pending]
    omega
  · intro earlier later foundEarlier foundLater
    rw [found] at foundEarlier
    cases foundEarlier
    rw [List.getElem?_set_self (List.getElem?_eq_some_iff.mp found).1] at foundLater
    cases foundLater
    exact exited.settled

theorem changed {space : Space} (stepped : tracer.step config (.changed index space) = some next) :
    Accounts config next := by
  obtain ⟨tracee, found, rfl⟩ := Option.map_eq_some_iff.mp stepped
  have same : Consistent config { tracee with space := space } := by
    cases accounts.consistent tracee (List.mem_of_getElem? found) with
    | idle none pending => exact .idle none pending
    | plain called pending rejected => exact .plain called pending rejected
    | prepared called pending candidate => exact .prepared called pending candidate
    | denied result called pending rejected failed => exact .denied result called pending rejected failed
  have total := countP_set_underWay config found { tracee with space := space }
  have unchanged : underWay config { tracee with space := space } = underWay config tracee := rfl
  rw [unchanged] at total
  have pending := accounts.pending
  exact ⟨consistent_set accounts.consistent same, accounts.considered, by dsimp only; omega⟩

theorem removed (kept : Kept config tracer (.removed index)) :
    Accounts config { tracer with tracees := tracer.tracees.set index {} } := by
  have fresh : Consistent config {} := .idle rfl rfl
  refine ⟨consistent_set accounts.consistent fresh, accounts.considered, ?_⟩
  dsimp only
  cases found : tracer.tracees[index]? with
  | none =>
      rw [List.set_eq_of_length_le (List.getElem?_eq_none_iff.mp found)]
      exact accounts.pending
  | some tracee =>
      have idle : underWay config tracee = false := by
        rcases kept tracee found with none | rejected
        · rw [underWay, none, Option.isSome_none, Bool.false_and]
        · rw [underWay, rejected, Bool.and_false]
      have total := countP_set_underWay config found {}
      have nothing : underWay config {} = false := rfl
      rw [idle, nothing] at total
      have pending := accounts.pending
      omega

theorem step {event : Event} (kept : Kept config tracer event)
    (stepped : tracer.step config event = some next) :
    Accounts config next ∧ tracer.Returns config next event := by
  cases event with
  | entry index args answers => exact ⟨accounts.entered kept stepped, trivial⟩
  | exit index outcome answers => exact accounts.exited kept stepped
  | changed index space => exact ⟨accounts.changed stepped, trivial⟩
  | removed index =>
      cases stepped
      exact ⟨accounts.removed kept, trivial⟩

end Accounts

/-- In a run whose events meet the condition, every `mmap` is settled when it returns, and every call
that has been considered is accounted for. -/
theorem managed_mmap_settled {count : Nat} {tracer : Tracer}
    (reached : Reaches (Tracer.step config) (Kept config) (.initial count) tracer) :
    tracer.Balanced ∧ ∀ event next, Kept config tracer event → tracer.step config event = some next →
      tracer.Returns config next event := by
  have accounts : Accounts config tracer :=
    reached.invariant (Accounts config) (accounts_initial count) fun _ _ _ accounts kept stepped =>
      (accounts.step kept stepped).1
  exact ⟨accounts.balanced, fun _ _ kept stepped => (accounts.step kept stepped).2⟩

end

def pagerConfig (selectiveTrace : Bool) : Config where
  managedMemoryPager := true
  minRequest := 128 * 1024 * 1024
  maxRegion := 1024 * 1024 * 1024
  residentPages := 256
  selectiveTrace := selectiveTrace
  pageSize := 4096
  pageSize_pos := by decide

def largeMmap : MmapArgs where
  addr := 0
  length := 128 * 1024 * 1024
  prot := PROT_READ ||| PROT_WRITE
  flags := MAP_PRIVATE ||| MAP_ANONYMOUS
  fd := 2 ^ 64 - 1
  offset := 0

def largeEntry : Event := .entry 0 largeMmap ⟨true, false, true, true⟩

def largeExit (ftruncate : Bool) : Event :=
  .exit 0 (.ok (2 ^ 36)) ⟨⟨true, true, true, ftruncate⟩, .done, true⟩

theorem managed_mmap_settled_registered :
    ∃ entered returned, (Tracer.initial 1).step (pagerConfig true) largeEntry = some entered ∧
      entered.step (pagerConfig true) (largeExit true) = some returned ∧ returned.Balanced ∧
      entered.Returns (pagerConfig true) returned (largeExit true) := by
  have keptEntry : Kept (pagerConfig true) (.initial 1) largeEntry := ⟨fun _ => rfl, fun _ _ => rfl⟩
  have keptExit : ∀ entered, (Tracer.initial 1).step (pagerConfig true) largeEntry = some entered →
      Kept (pagerConfig true) entered (largeExit true) := by
    rintro _ ⟨⟩ tracee base found _ _
    cases found
    exact fun region member => nomatch member
  have reached : Reaches (Tracer.step (pagerConfig true)) (Kept (pagerConfig true)) (.initial 1) _ :=
    .step .refl keptEntry rfl
  exact ⟨_, _, rfl, rfl, (managed_mmap_settled (reached.step (keptExit _ rfl) rfl)).1,
    (managed_mmap_settled reached).2 _ _ (keptExit _ rfl) rfl⟩

/-- The backing file cannot be made long enough, and the filter stops the injected `munmap`: the
tracee is left with a mapping that it cannot access and no region covers. -/
theorem managed_mmap_abandoned :
    ¬∀ (config : Config) (count : Nat) (tracer : Tracer),
      Reaches (Tracer.step config) (fun _ _ => True) (.initial count) tracer →
        tracer.Balanced ∧ ∀ event next, tracer.step config event = some next →
          tracer.Returns config next event := by
  intro settled
  have stepped : (Tracer.initial 1).step (pagerConfig true) largeEntry = some _ := rfl
  have reached : Reaches (Tracer.step (pagerConfig true)) (fun _ _ => True) (.initial 1) _ :=
    .step .refl trivial stepped
  have returns := (settled _ _ _ reached).2 (largeExit false) _ rfl _ _ rfl rfl
  rcases returns with ⟨rejected, -⟩ | ⟨base, same, result, -⟩ | ⟨-, unchanged⟩
  · exact absurd rejected (by decide)
  · cases same
    exact absurd result (by decide)
  · exact absurd (unchanged (2 ^ 24) (by decide)) (by decide)

end PDocker.Pager
