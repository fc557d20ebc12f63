import PDocker.Data.Fnv
import PDocker.Data.SlotCache
import PDocker.Gpu.Bindings
import PDocker.Gpu.Materialize

/-!
# Pipelines of dispatches

What `run_vulkan_dispatch_fd` makes of a shader before a pipeline is looked up, the key under which one is kept, and
what is built where none is found.
-/

set_option autoImplicit false

namespace PDocker.Gpu.Pipelines

open Spirv PDocker.Data
open PDocker.Gpu.Command (DispatchCall Flag VulkanDispatchOptions VulkanDispatchSpecialization
  PDOCKER_GPU_MAX_PUSH_BYTES PDOCKER_GPU_MAX_VULKAN_ENTRY_NAME PDOCKER_GPU_MAX_VULKAN_SPECIALIZATION_ENTRIES
  PDOCKER_GPU_MAX_VULKAN_SPECIALIZATION_BYTES)
open PDocker.Gpu.LocalSize (Specializations patchSpirvLiteralLocalSizeFromSpec)
open PDocker.Gpu.Materialize (materializeSpirvSpecializationConstants constantIds)

abbrev Bytes := List UInt8

def PDOCKER_GPU_MAX_VULKAN_DESCRIPTOR_SETS : Nat := 8
def PDOCKER_GPU_PIPELINE_CACHE_SLOTS : Nat := 256

def words : Bytes → List Word
  | a :: b :: c :: d :: rest =>
      BitVec.ofNat 32 (a.toNat + 256 * (b.toNat + 256 * (c.toNat + 256 * d.toNat))) :: words rest
  | _ => []

def ofWords (code : List Word) : Bytes := code.flatMap fun word => lowFirst 4 word.toNat

def asWords (code : Bytes) : List Word := if code.length % 4 = 0 then words code else []

/-- `env_truthy`, with the default as its second argument. -/
abbrev Environment := String → Bool → Bool

structure SafeKernels where
  q4k : List Word
  q6k : List Word

inductive Tables where
  | materialize
  | rewrite
  | targeted
  | retry

structure Request (φ : Type) where
  call : DispatchCall φ
  named : call.entryName.length < PDOCKER_GPU_MAX_VULKAN_ENTRY_NAME
  file : Bytes
  allocates : Tables → Bool
  gates : Option Int
  transfers : Option Int

structure Policy where
  rewriteDuplicateDescriptors : Bool
  materializeSpecializationConstants : Bool
  disablePipelineOptimization : Bool
  skipUnusedDescriptorTransfers : Bool
  useSpirvDescriptorAccess : Bool
  disableOverlapAliasing : Bool
  strictPassthrough : Bool
deriving DecidableEq

section

variable (env : Environment) (options : VulkanDispatchOptions)

def setting (flag : Flag) (name : String) (default : Bool) : Bool := (options.flags flag).getD (env name default)

def policyOf : Policy :=
  let strict := setting env options .strictPassthrough "PDOCKER_GPU_STRICT_PASSTHROUGH" false
  let staging := strict && setting env options .strictDeviceLocalStaging "PDOCKER_GPU_STRICT_DEVICE_LOCAL_STAGING" false
  { rewriteDuplicateDescriptors := !strict &&
      setting env options .rewriteDuplicateDescriptors "PDOCKER_GPU_REWRITE_DUPLICATE_DESCRIPTOR_BINDINGS" true
    materializeSpecializationConstants := !strict &&
      setting env options .materializeSpecializationConstants
        "PDOCKER_GPU_MATERIALIZE_SPIRV_SPECIALIZATION_CONSTANTS" false
    disablePipelineOptimization :=
      setting env options .disablePipelineOptimization "PDOCKER_GPU_DISABLE_PIPELINE_OPTIMIZATION" false
    skipUnusedDescriptorTransfers := !strict &&
      setting env options .skipUnusedDescriptorTransfers "PDOCKER_GPU_SKIP_UNUSED_DESCRIPTOR_TRANSFERS" true
    useSpirvDescriptorAccess := !(strict && !staging) &&
      setting env options .useSpirvDescriptorAccess "PDOCKER_GPU_USE_SPIRV_DESCRIPTOR_ACCESS" true
    disableOverlapAliasing :=
      setting env options .disableOverlapAliasing "PDOCKER_GPU_DISABLE_OVERLAP_ALIASING" false
    strictPassthrough := strict }

end

structure Code where
  bytes : Bytes
  specializationMaterialized : Bool

def isQ4kMatvecHash (hash : UInt64) : Bool := hash = 0x97482974523e1b0c

def isQ6kMatvecHash (hash : UInt64) : Bool :=
  decide (hash ∈ [0x274f68a67dfef210, 0x1bf751845c5dce75, 0xe38f6a6a906d765c, 0xbefdfb97e9734eb3,
    0x09c4622d92c6acb9, 0x498c69a047eb3b2f, 0xe5cd19682257a368, 0x7ec0292e948c9b41])

namespace Code

variable (code : Code) (specs : Specializations)

def materialize (allocates : Bool) : Code :=
  match materializeSpirvSpecializationConstants (asWords code.bytes) specs allocates with
  | some out => ⟨ofWords out, true⟩
  | none => code

def legalize : Code :=
  if code.bytes.length % 4 = 0 then
    { code with bytes := ofWords (patchSpirvLiteralLocalSizeFromSpec (words code.bytes) specs).2 }
  else code

end Code

structure Rewrites where
  code : Code
  aliases : List VulkanBindingAlias
  layoutCount : Nat

section

variable {φ : Type} (env : Environment) (kernels : SafeKernels) (request : Request φ)

def Request.specs : Specializations := ⟨request.call.specializations, request.call.specializationData⟩

def Request.numbers : List Nat := request.call.bindings.map (·.binding.toNat)

def Request.maxBinding : Nat := request.numbers.foldl max 0

def Request.maxDescriptorSet : Nat := (request.call.bindings.map (·.descriptorSet.toNat)).foldl max 0

def layoutCountOf (maxBinding : Nat) : Nat := (maxBinding + 1) % 2 ^ 32

def rewriteAliases (code : Code) : Except Int Rewrites :=
  if 0 < request.maxDescriptorSet then .error 64
  else
    let r := rewriteDuplicateDescriptorBindings (asWords code.bytes) request.numbers (request.allocates .rewrite)
      request.maxBinding
    if r.ret ≠ 0 then .error 64
    else if PDOCKER_GPU_MAX_VULKAN_BINDINGS < layoutCountOf r.maxBinding then .error 64
    else
      let bytes := if code.bytes.length % 4 = 0 then ofWords r.code else code.bytes
      .ok ⟨{ code with bytes := bytes }, r.aliases, layoutCountOf r.maxBinding⟩

def Rewrites.safeQ4k (r : Rewrites) : Rewrites := { r with code := { r.code with bytes := ofWords kernels.q4k }, aliases := [] }

def Rewrites.safeQ6k (r : Rewrites) : Rewrites := { r with code := { r.code with bytes := ofWords kernels.q6k }, aliases := [] }

def targetKernels (policy : Policy) (r : Rewrites) : Rewrites :=
  let options := request.call.options
  let q4kSafe := !policy.strictPassthrough && setting env options .q4kSafeKernel "PDOCKER_GPU_Q4K_SAFE_KERNEL" false &&
    isQ4kMatvecHash (fnv1a64 r.code.bytes)
  let r := if q4kSafe then r.safeQ4k kernels else r
  let targeted := !policy.materializeSpecializationConstants && !q4kSafe && !policy.strictPassthrough &&
    setting env options .q4kTargetedSpecialization "PDOCKER_GPU_Q4K_TARGETED_SPECIALIZATION" false &&
      isQ4kMatvecHash (fnv1a64 r.code.bytes) && request.specs.valueForId 2 = some 1
  let r := if targeted then { r with code := r.code.materialize request.specs (request.allocates .targeted) } else r
  let q6kSafe := setting env options .q6kSafeKernel "PDOCKER_GPU_Q6K_SAFE_KERNEL" false &&
    isQ6kMatvecHash (fnv1a64 r.code.bytes)
  if q6kSafe then r.safeQ6k kernels else r

def rewriteShader (policy : Policy) (code : Bytes) : Except Int Rewrites :=
  let plain : Code := ⟨code, false⟩
  let constant := if policy.materializeSpecializationConstants then
      plain.materialize request.specs (request.allocates .materialize)
    else plain
  let legal := if env "PDOCKER_GPU_LEGALIZE_WORKGROUP_SIZE_FROM_SPEC" true then constant.legalize request.specs
    else constant
  let aliased := if policy.rewriteDuplicateDescriptors then rewriteAliases request legal
    else .ok ⟨legal, [], layoutCountOf request.maxBinding⟩
  aliased.map (targetKernels env kernels request policy)

def collectSpirvDescriptorBindings (code : List Word) (number : Nat) : Bool :=
  hasMagic code && decide (number < PDOCKER_GPU_MAX_VULKAN_BINDINGS) && (instructions code).any fun inst =>
    inst.op = 71 && decide (4 ≤ inst.count) && inst.operand 2 = 33 && (inst.operand 3).toNat = number

def markOriginal (used : Nat → Bool) (entry : VulkanBindingAlias) : Nat → Bool :=
  if decide (entry.rewrittenBinding < PDOCKER_GPU_MAX_VULKAN_BINDINGS) && used entry.rewrittenBinding &&
      decide (entry.originalBinding < PDOCKER_GPU_MAX_VULKAN_BINDINGS) then
    Function.update used entry.originalBinding true
  else used

def activeBindings (policy : Policy) (r : Rewrites) : List (Nat × Nat) :=
  let used := r.aliases.foldl markOriginal (collectSpirvDescriptorBindings (asWords r.code.bytes))
  (request.call.bindings.filter fun binding => !policy.skipUnusedDescriptorTransfers ||
    decide (binding.binding.toNat < PDOCKER_GPU_MAX_VULKAN_BINDINGS) && used binding.binding.toNat).map
      fun binding => (binding.descriptorSet.toNat, binding.binding.toNat)

theorem le_foldl_max {start number : Nat} {numbers : List Nat} (member : number = start ∨ number ∈ numbers) :
    number ≤ numbers.foldl max start := by
  induction numbers generalizing start number with
  | nil => exact Nat.le_of_eq (member.resolve_right (List.not_mem_nil))
  | cons first numbers ih =>
      rw [List.foldl_cons]
      rcases member with rfl | listed
      · exact Nat.le_trans (Nat.le_max_left _ first) (ih (.inl rfl))
      · rcases List.mem_cons.mp listed with rfl | later
        · exact Nat.le_trans (Nat.le_max_right start _) (ih (.inl rfl))
        · exact ih (.inr later)

theorem activeBindings_inSets {policy : Policy} {r : Rewrites} :
    ∀ binding ∈ activeBindings request policy r, binding.1 < request.maxDescriptorSet + 1 := by
  intro binding member
  obtain ⟨passed, listed, rfl⟩ := List.mem_map.mp member
  exact Nat.lt_succ_of_le (le_foldl_max (.inr (List.mem_map_of_mem (List.mem_of_mem_filter listed))))

end

structure Prepared where
  code : Bytes
  specializationMaterialized : Bool
  entryName : Bytes
  named : entryName.length < PDOCKER_GPU_MAX_VULKAN_ENTRY_NAME
  specs : Specializations
  policy : Policy
  layoutCount : Nat
  pushSize : Nat
  descriptorSetCount : Nat
  /-- the numbers of the bindings that are passed -/
  passed : List Nat
  active : List (Nat × Nat)
  inSets : ∀ binding ∈ active, binding.1 < descriptorSetCount
  aliases : List VulkanBindingAlias
  /-- what the shader becomes where its pipeline is refused -/
  retried : Option Bytes

def mainName : Bytes := [109, 97, 105, 110]

def entryNameOf (name : Bytes) : Bytes :=
  let text := name.takeWhile fun byte => byte ≠ 0
  if text.isEmpty then mainName else text

theorem entryNameOf_short {name : Bytes} (short : name.length < PDOCKER_GPU_MAX_VULKAN_ENTRY_NAME) :
    (entryNameOf name).length < PDOCKER_GPU_MAX_VULKAN_ENTRY_NAME := by
  rw [entryNameOf]
  split
  · decide
  · exact Nat.lt_of_le_of_lt (List.takeWhile_prefix _).length_le short

section

variable {φ : Type} (env : Environment) (kernels : SafeKernels) (request : Request φ)

def invalidMetadata (call : DispatchCall φ) : Bool :=
  call.bindings.isEmpty || decide (PDOCKER_GPU_MAX_VULKAN_BINDINGS < call.bindings.length) || call.shaderSize = 0 ||
    decide (8 * 1024 * 1024 < call.shaderSize.toNat) || decide (PDOCKER_GPU_MAX_PUSH_BYTES < call.push.length) ||
      decide (PDOCKER_GPU_MAX_VULKAN_SPECIALIZATION_ENTRIES < call.specializations.length) ||
        decide (PDOCKER_GPU_MAX_VULKAN_SPECIALIZATION_BYTES < call.specializationData.length)

def invalidSize (binding : Command.VulkanDispatchBinding) : Bool :=
  binding.size = 0 || decide (512 * 1024 * 1024 < binding.size.toNat)

def invalidRange (data : Bytes) (entry : VulkanDispatchSpecialization) : Bool :=
  decide (data.length < (entry.offset.toNat + entry.size.toNat) % 2 ^ 64)

def retryShader (policy : Policy) (code : Code) : Option Bytes :=
  if !request.specs.entries.isEmpty && !code.specializationMaterialized && !policy.strictPassthrough &&
      env "PDOCKER_GPU_RETRY_MATERIALIZE_SPECIALIZATION" false then
    (materializeSpirvSpecializationConstants (asWords code.bytes) request.specs (request.allocates .retry)).map ofWords
  else none

def prepare : Except Int Prepared := do
  let call := request.call
  let policy := policyOf env call.options
  if invalidMetadata call then throw 64
  if call.bindings.any invalidSize then throw 64
  if PDOCKER_GPU_MAX_VULKAN_DESCRIPTOR_SETS ≤ request.maxDescriptorSet then throw 64
  if PDOCKER_GPU_MAX_VULKAN_BINDINGS < layoutCountOf request.maxBinding then throw 64
  if request.file.length < call.shaderSize.toNat then throw (-21)
  let r ← rewriteShader env kernels request policy (request.file.take call.shaderSize.toNat)
  if let some ret := request.gates then throw ret
  let active := activeBindings request policy r
  if active.isEmpty then throw 64
  if let some ret := request.transfers then throw ret
  if call.specializations.any (invalidRange call.specializationData) then throw 64
  if active.any fun binding => decide (PDOCKER_GPU_MAX_VULKAN_BINDINGS ≤ binding.2) then throw 64
  return {
    code := r.code.bytes
    specializationMaterialized := r.code.specializationMaterialized
    entryName := entryNameOf call.entryName
    named := entryNameOf_short request.named
    specs := request.specs
    policy := policy
    layoutCount := r.layoutCount
    pushSize := call.push.length
    descriptorSetCount := request.maxDescriptorSet + 1
    passed := request.numbers
    active := active
    inSets := activeBindings_inSets request
    aliases := r.aliases
    retried := retryShader env request policy r.code }

end

/-- An entry is fed to the hash with its bytes, or where they are not all there, with its offset. -/
def specPiece (data : Bytes) (entry : VulkanDispatchSpecialization) : Bytes :=
  lowFirst 4 entry.constantId.toNat ++ lowFirst 8 entry.size.toNat ++
    if entry.offset.toNat ≤ data.length ∧ entry.size.toNat ≤ data.length - entry.offset.toNat then
      (data.drop entry.offset.toNat).take entry.size.toNat
    else lowFirst 4 entry.offset.toNat

def pipelineSpecializationHash (specs : Specializations) : UInt64 :=
  specs.entries.foldl (fun hash entry => fnv1a64Update hash (specPiece specs.data entry))
    (fnv1a64Update fnvBasis (lowFirst 8 specs.entries.length))

def policyBits (policy : Policy) (specializationMaterialized : Bool) : Bytes :=
  [policy.rewriteDuplicateDescriptors, policy.materializeSpecializationConstants, specializationMaterialized,
    policy.disablePipelineOptimization, policy.skipUnusedDescriptorTransfers, policy.useSpirvDescriptorAccess,
    policy.disableOverlapAliasing, policy.strictPassthrough].map fun bit => if bit then 1 else 0

def vulkanPipelinePolicyHash (policy : Policy) (specializationMaterialized : Bool) : UInt64 :=
  fnv1a64 (policyBits policy specializationMaterialized)

structure PipelineKey where
  shaderHash : UInt64
  specHash : UInt64
  policyHash : UInt64
  shaderSize : Nat
  specializationDataSize : Nat
  specializationCount : Nat
  layoutCount : Nat
  pushSize : Nat
  entryName : Bytes
deriving DecidableEq

/-- The values of a pipeline are those that reach the constants of its shader; its layout has the number of bindings
of each descriptor set. -/
structure Pipeline where
  code : Bytes
  entryName : Bytes
  values : Word → Option Bytes
  pushSize : Nat
  disableOptimization : Bool
  layout : List Nat

/-- What the driver accepts: layouts with the size of the push constants, shader modules, pipelines, and descriptor
sets of layouts from a pool for so many bindings. -/
structure Driver where
  createsLayouts : List Nat → Nat → Bool
  createsModule : Bytes → Bool
  createsPipeline : Pipeline → Bool
  allocatesSets : List Nat → List Nat → Bool

structure Build where
  code : Bytes
  retried : Bool

def mapped (specs : Specializations) : List (UInt32 × Bytes) :=
  specs.entries.map fun entry => (entry.constantId, (specs.data.drop entry.offset.toNat).take entry.size.toNat)

def specialized (code : Bytes) (pairs : List (UInt32 × Bytes)) (id : Word) : Option Bytes :=
  if id ∈ constantIds (instructions (asWords code)) then
    (pairs.find? fun pair => pair.1.toNat = id.toNat).map (·.2)
  else none

namespace Prepared

variable (driver : Driver) (p : Prepared)

def multiDescriptorSet : Bool := decide (1 < p.descriptorSetCount)

def keyOf (code : Bytes) : PipelineKey where
  shaderHash := fnv1a64 code
  specHash := pipelineSpecializationHash p.specs
  policyHash := vulkanPipelinePolicyHash p.policy p.specializationMaterialized
  shaderSize := code.length
  specializationDataSize := p.specs.data.length
  specializationCount := p.specs.entries.length
  layoutCount := p.layoutCount
  pushSize := p.pushSize
  entryName := p.entryName

def setBindingCounts : List Nat :=
  (List.range p.descriptorSetCount).map fun set =>
    ((p.active.filter fun binding => binding.1 = set).map (·.2 + 1)).foldl max 0

def values : Word → Option Bytes :=
  if p.specializationMaterialized then fun _ => none else specialized p.code (mapped p.specs)

def pipeline (build : Build) : Pipeline where
  code := build.code
  entryName := p.entryName
  values := if build.retried then fun _ => none else p.values
  pushSize := p.pushSize
  disableOptimization := p.policy.disablePipelineOptimization
  layout := p.setBindingCounts

def build : Option Build :=
  if !driver.createsLayouts p.setBindingCounts p.pushSize then none
  else if !driver.createsModule p.code then none
  else if driver.createsPipeline (p.pipeline ⟨p.code, false⟩) then some ⟨p.code, false⟩
  else
    p.retried.bind fun code =>
      if driver.createsModule code && driver.createsPipeline (p.pipeline ⟨code, true⟩) then some ⟨code, true⟩ else none

/-- The set and the number of each binding that is written: the active ones, and those of the aliases that are not
passed. -/
def writeAlias (writes : List (Nat × Nat)) (entry : VulkanBindingAlias) : Option (List (Nat × Nat)) :=
  if p.multiDescriptorSet then none
  else if p.passed.contains entry.rewrittenBinding then some writes
  else if PDOCKER_GPU_MAX_VULKAN_BINDINGS ≤ writes.length then none
  else if !p.passed.contains entry.originalBinding then none
  else some (writes ++ [(0, entry.rewrittenBinding)])

def writes : Option (List (Nat × Nat)) := p.aliases.foldlM p.writeAlias p.active

end Prepared

abbrev PipelineCache := SlotCache PipelineKey Pipeline

/-- `find_pipeline_cache_entry` and what is stored; with several descriptor sets the cache is not used. -/
def pipelines (driver : Driver) : Memo Prepared PipelineKey Pipeline where
  key p := if p.multiDescriptorSet then none else some (p.keyOf p.code)
  make p := (p.build driver).map fun build => (p.keyOf build.code, p.pipeline build)

inductive Outcome where
  | refused (ret : Int)
  | dispatched (pipeline : Pipeline) (writes : List (Nat × Nat))

def finish (driver : Driver) (p : Prepared) : Option Pipeline → Outcome
  | none => .refused (-21)
  | some pipeline =>
      if !driver.allocatesSets p.setBindingCounts pipeline.layout then .refused (-21)
      else
        match p.writes with
        | none => .refused 64
        | some writes => .dispatched pipeline writes

structure Dispatch where
  served : Option (Served Pipeline)
  outcome : Outcome

section

variable {φ : Type} (env : Environment) (kernels : SafeKernels) (driver : Driver)

def runVulkanDispatchFd (cache : PipelineCache) (request : Request φ) : Dispatch × PipelineCache :=
  match prepare env kernels request with
  | .error ret => (⟨none, .refused ret⟩, cache)
  | .ok p =>
      let (served, after) := (pipelines driver).serve cache p
      (⟨some served, finish driver p served.value⟩, after)

def dispatches : PipelineCache → List (Request φ) → List Dispatch
  | _, [] => []
  | cache, request :: requests =>
      let (dispatch, after) := runVulkanDispatchFd env kernels driver cache request
      dispatch :: dispatches after requests

end

end PDocker.Gpu.Pipelines
