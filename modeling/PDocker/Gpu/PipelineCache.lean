import PDocker.Gpu.Pipelines

/-!
# The pipeline cache

When a dispatch that takes its pipeline from the cache gets the one that it would have built.
-/

set_option autoImplicit false

namespace PDocker.Gpu.Pipelines

open Spirv PDocker.Data
open PDocker.Gpu.Command (VulkanDispatchSpecialization DispatchCall)
open PDocker.Gpu.LocalSize (Specializations)

/-! ## What is hashed -/

def specStream (specs : Specializations) : Bytes :=
  lowFirst 8 specs.entries.length ++ specs.entries.flatMap (specPiece specs.data)

theorem pipelineSpecializationHash_eq (specs : Specializations) :
    pipelineSpecializationHash specs = fnv1a64 (specStream specs) := by
  rw [pipelineSpecializationHash, foldl_fnv1a64Update, fnv1a64, specStream, fnv1a64Update_append]

def Prepared.hashed (p : Prepared) : List Bytes :=
  [p.code, specStream p.specs, policyBits p.policy p.specializationMaterialized] ++ p.retried.toList

def Inside (specs : Specializations) : Prop :=
  ∀ entry ∈ specs.entries, entry.offset.toNat + entry.size.toNat ≤ specs.data.length

section

variable {data : Bytes} {entry : VulkanDispatchSpecialization}

def entryBytes (data : Bytes) (entry : VulkanDispatchSpecialization) : Bytes :=
  (data.drop entry.offset.toNat).take entry.size.toNat

theorem entryBytes_length (inside : entry.offset.toNat + entry.size.toNat ≤ data.length) :
    (entryBytes data entry).length = entry.size.toNat := by
  rw [entryBytes, List.length_take, List.length_drop]
  omega

theorem specPiece_inside (inside : entry.offset.toNat + entry.size.toNat ≤ data.length) :
    specPiece data entry = lowFirst 4 entry.constantId.toNat ++ (lowFirst 8 entry.size.toNat ++ entryBytes data entry) := by
  rw [specPiece, if_pos ⟨by omega, by omega⟩, List.append_assoc, entryBytes]

end

variable {first second : Bytes} {p : Prepared}

theorem specPiece_append {a b : VulkanDispatchSpecialization} {behind beyond : Bytes}
    (aInside : a.offset.toNat + a.size.toNat ≤ first.length) (bInside : b.offset.toNat + b.size.toNat ≤ second.length)
    (same : specPiece first a ++ behind = specPiece second b ++ beyond) :
    (a.constantId = b.constantId ∧ entryBytes first a = entryBytes second b) ∧ behind = beyond := by
  rw [specPiece_inside aInside, specPiece_inside bInside] at same
  simp only [List.append_assoc] at same
  obtain ⟨ids, rest⟩ := List.append_inj same (by simp only [lowFirst_length])
  obtain ⟨sizes, bytes⟩ := List.append_inj rest (by simp only [lowFirst_length])
  have id := lowFirst_injective a.constantId.toNat_lt b.constantId.toNat_lt ids
  have size := lowFirst_injective a.size.toNat_lt b.size.toNat_lt sizes
  obtain ⟨value, tail⟩ := List.append_inj bytes (by rw [entryBytes_length aInside, entryBytes_length bInside, size])
  exact ⟨⟨UInt32.toNat_inj.mp id, value⟩, tail⟩

theorem pieces_injective {entries others : List VulkanDispatchSpecialization}
    (inside : ∀ entry ∈ entries, entry.offset.toNat + entry.size.toNat ≤ first.length)
    (othersInside : ∀ entry ∈ others, entry.offset.toNat + entry.size.toNat ≤ second.length)
    (count : entries.length = others.length)
    (same : entries.flatMap (specPiece first) = others.flatMap (specPiece second)) :
    entries.map (fun entry => (entry.constantId, entryBytes first entry)) =
      others.map fun entry => (entry.constantId, entryBytes second entry) := by
  induction entries generalizing others with
  | nil =>
      cases List.length_eq_zero_iff.mp count.symm
      rfl
  | cons a entries ih =>
      obtain ⟨b, others, rfl⟩ := List.exists_cons_of_length_eq_add_one count.symm
      rw [List.flatMap_cons, List.flatMap_cons] at same
      obtain ⟨⟨id, value⟩, rest⟩ := specPiece_append (inside a List.mem_cons_self) (othersInside b List.mem_cons_self) same
      rw [List.map_cons, List.map_cons, id, value]
      congr 1
      exact ih (fun entry member => inside entry (List.mem_cons_of_mem _ member))
        (fun entry member => othersInside entry (List.mem_cons_of_mem _ member)) (Nat.succ.inj count) rest

theorem mapped_injective {specs others : Specializations} (inside : Inside specs) (othersInside : Inside others)
    (count : specs.entries.length = others.entries.length) (same : specStream specs = specStream others) :
    mapped specs = mapped others := by
  refine pieces_injective inside othersInside count ?_
  exact (List.append_inj same (by simp only [lowFirst_length])).2

theorem policyBits_injective {policy other : Policy} {materialized otherMaterialized : Bool}
    (same : policyBits policy materialized = policyBits other otherMaterialized) :
    policy = other ∧ materialized = otherMaterialized := by
  have bit : ∀ {first second : Bool}, (if first then (1 : UInt8) else 0) = (if second then 1 else 0) → first = second := by
    decide
  simp only [policyBits, List.map_cons, List.map_nil, List.cons.injEq, and_true] at same
  obtain ⟨a, b, c, d, e, f, g, h⟩ := same
  refine ⟨?_, bit c⟩
  cases policy
  cases other
  simp only [Policy.mk.injEq]
  exact ⟨bit a, bit b, bit d, bit e, bit f, bit g, bit h⟩

/-- A pipeline that was built from the shader for one dispatch is the one that another looks for. -/
structure Shares (code : Bytes) (earlier later : Prepared) : Prop where
  code : code = later.code
  entryName : earlier.entryName = later.entryName
  values : mapped earlier.specs = mapped later.specs
  dataSize : earlier.specs.data.length = later.specs.data.length
  policy : earlier.policy = later.policy
  materialized : earlier.specializationMaterialized = later.specializationMaterialized
  layoutCount : earlier.layoutCount = later.layoutCount
  pushSize : earlier.pushSize = later.pushSize

def AliasesBelow (p : Prepared) : Prop :=
  ∀ entry ∈ p.aliases, entry.rewrittenBinding ∉ p.passed → entry.rewrittenBinding < p.setBindingCounts.getD 0 0

/-- A dispatch that shares the pipeline of an earlier one has as many active bindings; the later one has its
aliases below them, and no constant left where the earlier one was built at the second try. -/
def Compatible (driver : Driver) (earlier later : Prepared) : Prop :=
  ∀ build, earlier.build driver = some build → earlier.multiDescriptorSet = false →
    later.multiDescriptorSet = false → Shares build.code earlier later →
      earlier.setBindingCounts = later.setBindingCounts ∧ AliasesBelow later ∧
        (build.retried = true → later.values = fun _ => none)

structure Fits (p : Prepared) (pipeline : Pipeline) : Prop where
  code : pipeline.code = p.code
  entryName : pipeline.entryName = p.entryName
  values : pipeline.values = p.values
  pushSize : pipeline.pushSize = p.pushSize
  flags : pipeline.disableOptimization = p.policy.disablePipelineOptimization
  layout : ∀ writes, p.writes = some writes → ∀ binding ∈ writes, binding.2 < pipeline.layout.getD binding.1 0

section

variable {φ : Type} (env : Environment) (kernels : SafeKernels) (driver : Driver)

/-- A hit fits, and the outcome is the one with an empty cache. -/
structure Faithful (request : Request φ) (dispatch : Dispatch) : Prop where
  hits : ∀ p pipeline, prepare env kernels request = .ok p → dispatch.served = some (.hit pipeline) → Fits p pipeline
  outcome : dispatch.outcome =
    (runVulkanDispatchFd env kernels driver (SlotCache.empty PDOCKER_GPU_PIPELINE_CACHE_SLOTS) request).1.outcome

def preparedOf (requests : List (Request φ)) : List Prepared :=
  requests.filterMap fun request => (prepare env kernels request).toOption

end

theorem Prepared.active_fits (p : Prepared) : ∀ binding ∈ p.active, binding.2 < p.setBindingCounts.getD binding.1 0 := by
  intro binding member
  have inSets := p.inSets binding member
  have count : p.setBindingCounts.getD binding.1 0 =
      ((p.active.filter fun other => other.1 = binding.1).map (·.2 + 1)).foldl max 0 := by
    rw [Prepared.setBindingCounts, List.getD_eq_getElem?_getD, List.getElem?_map, List.getElem?_range inSets]
    rfl
  rw [count]
  refine le_foldl_max (.inr (List.mem_map.mpr ⟨binding, ?_, rfl⟩))
  exact List.mem_filter.mpr ⟨member, decide_eq_true rfl⟩

theorem Prepared.writeAlias_fits {counts : List Nat} {entry : VulkanBindingAlias}
    {before after : List (Nat × Nat)} (below : entry.rewrittenBinding ∉ p.passed → entry.rewrittenBinding < counts.getD 0 0)
    (fits : ∀ binding ∈ before, binding.2 < counts.getD binding.1 0) (written : p.writeAlias before entry = some after) :
    ∀ binding ∈ after, binding.2 < counts.getD binding.1 0 := by
  rw [Prepared.writeAlias] at written
  split at written
  · cases written
  split at written
  · cases written
    exact fits
  rename_i absent
  split at written
  · cases written
  split at written
  · cases written
  cases written
  intro binding member
  rcases List.mem_append.mp member with old | new
  · exact fits binding old
  · cases List.mem_singleton.mp new
    exact below fun passed => absent (List.contains_iff_mem.mpr passed)

theorem Prepared.writes_fit (below : AliasesBelow p) {writes : List (Nat × Nat)}
    (written : p.writes = some writes) : ∀ binding ∈ writes, binding.2 < p.setBindingCounts.getD binding.1 0 := by
  have general : ∀ (aliases : List VulkanBindingAlias) (before : List (Nat × Nat)),
      (∀ entry ∈ aliases, entry.rewrittenBinding ∉ p.passed → entry.rewrittenBinding < p.setBindingCounts.getD 0 0) →
      (∀ binding ∈ before, binding.2 < p.setBindingCounts.getD binding.1 0) →
      aliases.foldlM p.writeAlias before = some writes →
      ∀ binding ∈ writes, binding.2 < p.setBindingCounts.getD binding.1 0 := by
    intro aliases
    induction aliases with
    | nil =>
        intro before _ fits done
        cases done
        exact fits
    | cons entry aliases ih =>
        intro before below fits done
        rw [List.foldlM_cons] at done
        obtain ⟨next, first, later⟩ := Option.bind_eq_some_iff.mp done
        exact ih next (fun other member => below other (List.mem_cons_of_mem _ member))
          (writeAlias_fits (below entry List.mem_cons_self) fits first) later
  exact general p.aliases p.active below p.active_fits written

section

variable {driver : Driver} {earlier later : Prepared} {build : Build}

variable (built : earlier.build driver = some build)

include built

theorem build_spec :
    driver.createsLayouts earlier.setBindingCounts earlier.pushSize = true ∧ driver.createsModule build.code = true ∧
      driver.createsPipeline (earlier.pipeline build) = true ∧
        ((build.retried = false ∧ build.code = earlier.code) ∨
          (build.retried = true ∧ earlier.retried = some build.code)) := by
  rw [Prepared.build] at built
  split at built
  · cases built
  rename_i layouts
  split at built
  · cases built
  rename_i modules
  split at built
  · rename_i accepted
    cases built
    exact ⟨by simpa using layouts, by simpa using modules, accepted, .inl ⟨rfl, rfl⟩⟩
  obtain ⟨code, retried, second⟩ := Option.bind_eq_some_iff.mp built
  split at second
  · rename_i accepted
    cases second
    rw [Bool.and_eq_true] at accepted
    exact ⟨by simpa using layouts, accepted.1, accepted.2, .inr ⟨rfl, retried⟩⟩
  · cases second

theorem build_direct (first : build.retried = false) :
    build.code = earlier.code := by
  rcases (build_spec built).2.2.2 with ⟨-, code⟩ | ⟨again, -⟩
  · exact code
  · cases first.symm.trans again

theorem build_code_hashed : build.code ∈ earlier.hashed := by
  rcases (build_spec built).2.2.2 with ⟨-, code⟩ | ⟨-, retried⟩
  · rw [code]
    exact List.mem_append_left _ List.mem_cons_self
  · exact List.mem_append_right _ (Option.mem_toList.mpr retried)

omit built

theorem shares_of_key {inputs : List Bytes} (distinct : Distinct inputs) (earlierHashed : ∀ x ∈ earlier.hashed, x ∈ inputs)
    (laterHashed : ∀ x ∈ later.hashed, x ∈ inputs) (earlierInside : Inside earlier.specs)
    (laterInside : Inside later.specs) (built : earlier.build driver = some build)
    (same : earlier.keyOf build.code = later.keyOf later.code) : Shares build.code earlier later := by
  have spec : ∀ p : Prepared, specStream p.specs ∈ p.hashed := fun p => by simp [Prepared.hashed]
  have policy : ∀ p : Prepared, policyBits p.policy p.specializationMaterialized ∈ p.hashed := fun p => by
    simp [Prepared.hashed]
  have own : later.code ∈ later.hashed := by simp [Prepared.hashed]
  simp only [Prepared.keyOf, PipelineKey.mk.injEq, pipelineSpecializationHash_eq, vulkanPipelinePolicyHash] at same
  obtain ⟨shaders, specs, policies, -, dataSize, count, layoutCount, pushSize, entryName⟩ := same
  have streams := distinct _ (earlierHashed _ (spec earlier)) _ (laterHashed _ (spec later)) specs
  have bits := distinct _ (earlierHashed _ (policy earlier)) _ (laterHashed _ (policy later)) policies
  exact {
    code := distinct _ (earlierHashed _ (build_code_hashed built)) _ (laterHashed _ own) shaders
    entryName := entryName
    values := mapped_injective earlierInside laterInside count streams
    dataSize := dataSize
    policy := (policyBits_injective bits).1
    materialized := (policyBits_injective bits).2
    layoutCount := layoutCount
    pushSize := pushSize }

theorem pipeline_eq (shares : Shares build.code earlier later) (counts : earlier.setBindingCounts = later.setBindingCounts)
    (direct : build.retried = false → build.code = earlier.code)
    (settled : build.retried = true → later.values = fun _ => none) :
    earlier.pipeline build = later.pipeline ⟨later.code, false⟩ := by
  have values : (if build.retried then fun _ => none else earlier.values) = later.values := by
    cases again : build.retried with
    | true => exact (settled again).symm
    | false =>
        have code := (direct again).symm.trans shares.code
        simp only [Prepared.values, shares.materialized, code, shares.values, Bool.false_eq_true, if_false]
  simp only [Prepared.pipeline, Pipeline.mk.injEq]
  exact ⟨shares.code, shares.entryName, values, shares.pushSize, by rw [shares.policy], counts⟩

theorem build_later (built : earlier.build driver = some build) (shares : Shares build.code earlier later)
    (counts : earlier.setBindingCounts = later.setBindingCounts)
    (settled : build.retried = true → later.values = fun _ => none) :
    later.build driver = some ⟨later.code, false⟩ := by
  obtain ⟨layouts, modules, accepted, -⟩ := build_spec built
  rw [counts, shares.pushSize] at layouts
  rw [shares.code] at modules
  rw [pipeline_eq shares counts (build_direct built) settled] at accepted
  simp only [Prepared.build, layouts, modules, accepted, Bool.not_true, Bool.false_eq_true, if_false, if_true]

end

section

variable {φ : Type} {env : Environment} {kernels : SafeKernels} {driver : Driver}

structure Settled (inputs : List Bytes) (p : Prepared) : Prop where
  hashed : ∀ x ∈ p.hashed, x ∈ inputs
  inside : Inside p.specs

variable {request : Request φ} {cache : PipelineCache} {inputs : List Bytes} {past : List Prepared}
  {requests : List (Request φ)}

theorem fresh_outcome {p : Prepared} (prepared : prepare env kernels request = .ok p) :
    (runVulkanDispatchFd env kernels driver (SlotCache.empty PDOCKER_GPU_PIPELINE_CACHE_SLOTS) request).1.outcome =
      finish driver p ((pipelines driver).fresh p).value := by
  simp only [runVulkanDispatchFd, prepared]
  rcases ((pipelines driver).made_empty [] PDOCKER_GPU_PIPELINE_CACHE_SLOTS).serve_cases with
    ⟨_, _, _, _, _, member, _⟩ | fresh
  · cases member
  · rw [fresh]

theorem dispatch_faithful (distinct : Distinct inputs) (made : (pipelines driver).Made past cache)
    (settled : ∀ p ∈ past, Settled inputs p)
    (own : ∀ p, prepare env kernels request = .ok p → Settled inputs p ∧ ∀ earlier ∈ past, Compatible driver earlier p) :
    Faithful env kernels driver request (runVulkanDispatchFd env kernels driver cache request).1 := by
  cases prepared : prepare env kernels request with
  | error ret =>
      refine ⟨fun p pipeline found => ?_, ?_⟩
      · cases prepared.symm.trans found
      · simp only [runVulkanDispatchFd, prepared]
  | ok p =>
      obtain ⟨mine, compatible⟩ := own p prepared
      have run : (runVulkanDispatchFd env kernels driver cache request).1 =
          ⟨some ((pipelines driver).serve cache p).1, finish driver p ((pipelines driver).serve cache p).1.value⟩ := by
        simp only [runVulkanDispatchFd, prepared]
      rcases made.serve_cases with ⟨key, value, keyed, hit, earlier, member, single, stored⟩ | fresh
      · obtain ⟨build, built, same⟩ := Option.map_eq_some_iff.mp stored
        cases same
        have alone : ∀ {q : Prepared}, ((pipelines driver).key q).isSome → q.multiDescriptorSet = false := by
          intro q some_key
          cases multi : q.multiDescriptorSet with
          | false => rfl
          | true => simp [pipelines, multi] at some_key
        have laterSingle : p.multiDescriptorSet = false := alone (by rw [keyed]; rfl)
        have key_eq : earlier.keyOf build.code = p.keyOf p.code := by
          simp only [pipelines, laterSingle, Bool.false_eq_true, if_false, Option.some.injEq] at keyed
          exact keyed.symm
        have before := settled earlier member
        have shares := shares_of_key distinct before.hashed mine.hashed before.inside mine.inside built key_eq
        obtain ⟨counts, below, constants⟩ := compatible earlier member build built (alone single) laterSingle shares
        have equal := pipeline_eq shares counts (build_direct built) constants
        refine ⟨fun q pipeline found served => ?_, ?_⟩
        · cases prepared.symm.trans found
          rw [run, hit] at served
          cases served
          rw [equal]
          exact ⟨rfl, rfl, rfl, rfl, rfl, fun writes written => Prepared.writes_fit below written⟩
        · have make : (pipelines driver).make p = some (p.keyOf p.code, p.pipeline ⟨p.code, false⟩) := by
            simp only [pipelines, build_later built shares counts constants, Option.map_some]
          rw [run, hit, fresh_outcome prepared, Memo.fresh, make, equal]
          rfl
      · refine ⟨fun q pipeline found served => ?_, ?_⟩
        · rw [run, fresh, Memo.fresh] at served
          split at served <;> cases served
        · rw [run, fresh, fresh_outcome prepared]

theorem dispatches_cons : dispatches env kernels driver cache (request :: requests) =
      (runVulkanDispatchFd env kernels driver cache request).1 ::
        dispatches env kernels driver (runVulkanDispatchFd env kernels driver cache request).2 requests := rfl

theorem dispatches_faithful (distinct : Distinct inputs) (made : (pipelines driver).Made past cache)
    (settled : ∀ p ∈ past, Settled inputs p) (mine : ∀ p ∈ preparedOf env kernels requests, Settled inputs p)
    (earlier : ∀ q ∈ past, ∀ p ∈ preparedOf env kernels requests, Compatible driver q p)
    (compatible : (preparedOf env kernels requests).Pairwise (Compatible driver)) :
    List.Forall₂ (Faithful env kernels driver) requests (dispatches env kernels driver cache requests) := by
  induction requests generalizing past cache with
  | nil => exact .nil
  | cons request requests ih =>
      rw [dispatches_cons]
      cases prepared : prepare env kernels request with
      | error ret =>
          have others : preparedOf env kernels (request :: requests) = preparedOf env kernels requests := by
            rw [preparedOf, List.filterMap_cons, prepared]
            rfl
          rw [others] at mine earlier compatible
          have kept : (runVulkanDispatchFd env kernels driver cache request).2 = cache := by
            simp only [runVulkanDispatchFd, prepared]
          refine .cons (dispatch_faithful distinct made settled fun p found => ?_) ?_
          · cases prepared.symm.trans found
          · rw [kept]
            exact ih made settled mine earlier compatible
      | ok p =>
          have first : preparedOf env kernels (request :: requests) = p :: preparedOf env kernels requests := by
            rw [preparedOf, List.filterMap_cons, prepared]
            rfl
          rw [first] at mine earlier compatible
          obtain ⟨own, later⟩ := List.pairwise_cons.mp compatible
          have after : (runVulkanDispatchFd env kernels driver cache request).2 = ((pipelines driver).serve cache p).2 := by
            simp only [runVulkanDispatchFd, prepared]
          refine .cons (dispatch_faithful distinct made settled fun q found => ?_) ?_
          · cases prepared.symm.trans found
            exact ⟨mine p List.mem_cons_self, fun q member => earlier q member p List.mem_cons_self⟩
          rw [after]
          refine ih made.step ?_ (fun q member => mine q (List.mem_cons_of_mem _ member)) ?_ later
          · exact List.forall_mem_cons.mpr ⟨mine p List.mem_cons_self, settled⟩
          · exact List.forall_mem_cons.mpr
              ⟨own, fun q member r listed => earlier q member r (List.mem_cons_of_mem _ listed)⟩

end

/-- In a run without collisions of hashes whose dispatches are compatible, the cache is not to be noticed. -/
theorem pipeline_cache_sound {φ : Type} (env : Environment) (kernels : SafeKernels) (driver : Driver)
    (requests : List (Request φ)) (distinct : Distinct ((preparedOf env kernels requests).flatMap Prepared.hashed))
    (inside : ∀ p ∈ preparedOf env kernels requests, Inside p.specs)
    (compatible : (preparedOf env kernels requests).Pairwise (Compatible driver)) :
    List.Forall₂ (Faithful env kernels driver) requests
      (dispatches env kernels driver (SlotCache.empty PDOCKER_GPU_PIPELINE_CACHE_SLOTS) requests) :=
  dispatches_faithful distinct ((pipelines driver).made_empty [] _) (List.forall_mem_nil _)
    (fun p member => ⟨fun _ hashed => List.mem_flatMap.mpr ⟨p, member, hashed⟩, inside p member⟩)
    (List.forall_mem_nil _) compatible

section

def twoBuffers : Bytes :=
  ofWords [magic, 65536, 0, 3, 0, 262215, 1, 34, 0, 262215, 1, 33, 0, 262215, 2, 34, 0, 262215, 2, 33, 1]

def passing (number : UInt32) : Command.VulkanDispatchBinding where
  descriptorSet := 0
  binding := number
  offset := 0
  size := 4096
  apiOffset := 0
  apiRange := 0
  apiBufferSize := 0
  apiDescriptorType := 7
  apiDynamic := 0
  apiMemoryOffset := 0
  apiMemorySize := 0
  apiMemoryId := 0
  apiBufferId := 0

def twoBuffersCall (numbers : List UInt32) : DispatchCall Unit where
  shaderFd := ()
  bindingFds := numbers.map fun _ => ()
  bindings := numbers.map passing
  shaderSize := 84
  entryName := mainName
  specializations := []
  specializationData := []
  options := {}
  push := []
  gx := 1
  gy := 1
  gz := 1

def twoBuffersRequest (numbers : List UInt32) : Request Unit where
  call := twoBuffersCall numbers
  named := by change mainName.length < 128; decide
  file := twoBuffers
  allocates _ := true
  gates := none
  transfers := none

def anyDriver : Driver := ⟨fun _ _ => true, fun _ => true, fun _ => true, fun _ _ => true⟩

def unset : Environment := fun _ default => default

def noKernels : SafeKernels := ⟨[], []⟩

end

theorem pipeline_cache_sound_again :
    List.Forall₂ (Faithful unset noKernels anyDriver) [twoBuffersRequest [0, 1], twoBuffersRequest [0, 1]]
      (dispatches unset noKernels anyDriver (SlotCache.empty PDOCKER_GPU_PIPELINE_CACHE_SLOTS)
        [twoBuffersRequest [0, 1], twoBuffersRequest [0, 1]]) := by
  have plain : ∀ p ∈ preparedOf unset noKernels [twoBuffersRequest [0, 1], twoBuffersRequest [0, 1]],
      p.specs.entries = [] ∧ p.aliases = [] ∧ p.retried = none ∧ p.setBindingCounts = [2] := by
    decide +kernel
  refine pipeline_cache_sound _ _ _ _ (by decide +kernel) ?_ ?_
  · intro p member entry listed
    rw [(plain p member).1] at listed
    cases listed
  refine List.Pairwise.imp_of_mem ?_ (List.pairwise_of_forall fun _ _ => trivial)
  intro earlier later first second _ build built _ _ _
  refine ⟨(plain earlier first).2.2.2.trans (plain later second).2.2.2.symm, ?_, fun again => ?_⟩
  · intro entry listed
    rw [(plain later second).2.1] at listed
    cases listed
  · rcases (build_spec built).2.2.2 with ⟨direct, -⟩ | ⟨-, retried⟩
    · cases direct.symm.trans again
    · cases (plain earlier first).2.2.1.symm.trans retried

private def narrows (prepared : Except Int Prepared) (served : Option (Served Pipeline)) : Bool :=
  match prepared, served with
  | .ok p, some (.hit pipeline) => decide (p.writes = some [(0, 0), (0, 1)] ∧ pipeline.layout = [1])
  | _, _ => false

/-- Binding 5 is passed in both dispatches but is not in use; binding 1 is, and is passed in the second one only. -/
theorem cached_layout_misses_binding :
    ¬ ∀ (env : Environment) (kernels : SafeKernels) (driver : Driver) (requests : List (Request Unit)),
      Distinct ((preparedOf env kernels requests).flatMap Prepared.hashed) →
        List.Forall₂ (Faithful env kernels driver) requests
          (dispatches env kernels driver (SlotCache.empty PDOCKER_GPU_PIPELINE_CACHE_SLOTS) requests) := by
  intro sound
  have faithful := sound unset noKernels anyDriver [twoBuffersRequest [0, 5], twoBuffersRequest [0, 1, 5]]
    (by decide +kernel)
  rw [dispatches_cons, dispatches_cons, List.forall₂_cons, List.forall₂_cons] at faithful
  obtain ⟨-, second, -⟩ := faithful
  have facts : narrows (prepare unset noKernels (twoBuffersRequest [0, 1, 5]))
      (runVulkanDispatchFd unset noKernels anyDriver (runVulkanDispatchFd unset noKernels anyDriver
        (SlotCache.empty PDOCKER_GPU_PIPELINE_CACHE_SLOTS) (twoBuffersRequest [0, 5])).2
          (twoBuffersRequest [0, 1, 5])).1.served = true := by decide +kernel
  unfold narrows at facts
  split at facts
  · rename_i p pipeline prepared served
    obtain ⟨writes, layout⟩ := of_decide_eq_true facts
    have below := (second.hits p pipeline prepared served).layout _ writes (0, 1) (List.mem_cons_of_mem _ List.mem_cons_self)
    rw [layout] at below
    exact absurd below (by decide)
  · cases facts

end PDocker.Gpu.Pipelines
