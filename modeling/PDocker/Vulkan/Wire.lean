import PDocker.Data.Hex
import PDocker.Data.Strtol
import PDocker.Vulkan.Descriptors

/-!
# The dispatch command

`send_generic_vulkan_dispatch_op` up to the message that it hands to `sendmsg`: a line of
words, and the descriptors of the shader and of the bound memory.
-/

set_option autoImplicit false

namespace PDocker.Vulkan.Wire

open PDocker.Data

def PDOCKER_VK_MAX_ENTRY_NAME : Nat := 128
def PDOCKER_VK_MAX_SPECIALIZATION_ENTRIES : Nat := 16
def PDOCKER_VK_MAX_SPECIALIZATION_BYTES : Nat := 256

def commandSize : Nat := 4096

/-- `codeFd` is absent where `code_fd` is negative. -/
structure ShaderModule (φ : Type) where
  codeFd : Option φ
  codeSize : UInt64

structure SpecializationMapEntry where
  constantId : UInt32
  offset : UInt32
  size : UInt64
deriving DecidableEq, Repr

structure Pipeline (φ : Type) where
  shader : Option (ShaderModule φ)
  layout : Option UInt32
  requestedFeatureMask : UInt64
  /-- The name without the zero that ends it -/
  entryName : Bytes
  specializationEntries : List SpecializationMapEntry
  specializationData : Bytes
  specializationTooLarge : Bool
  entryName_length : entryName.length < PDOCKER_VK_MAX_ENTRY_NAME
  entries_length : specializationEntries.length ≤ PDOCKER_VK_MAX_SPECIALIZATION_ENTRIES
  data_length : specializationData.length ≤ PDOCKER_VK_MAX_SPECIALIZATION_BYTES

structure DispatchOp (φ : Type) where
  pipeline : Option (Pipeline φ)
  sets : BoundSets
  x : UInt32
  y : UInt32
  z : UInt32
  pushConstants : Nat → UInt8
  pushConstantSize : UInt32

inductive Errno where
  | einval
  | e2big
  | enametoolong
  /-- An error of the queue -/
  | queue (number : Nat)
deriving DecidableEq, Repr

structure SentBinding (φ : Type) where
  fd : φ
  descriptorSet : UInt32
  binding : UInt32
  offset : UInt64
  size : UInt64
  apiOffset : UInt64
  apiRange : UInt64
  apiBufferSize : UInt64
  apiDescriptorType : UInt32
  apiDynamic : UInt32
  apiMemoryOffset : UInt64
  apiMemorySize : UInt64
  apiMemoryId : UInt64
  apiBufferId : UInt64

/-- The number of `VK_DESCRIPTOR_TYPE_…`. -/
def typeNumber : VkDescriptorType → Nat
  | .sampler => 0
  | .storageBuffer => 7
  | .storageBufferDynamic => 9
  | .other number => number

/-- Handles are the addresses of their objects, and sums wrap. -/
def sentBinding {φ : Type} (fdOf : MemoryId → φ) (b : RequestBinding) : SentBinding φ where
  fd := fdOf b.memory
  descriptorSet := UInt32.ofNat b.descriptorSet
  binding := UInt32.ofNat b.binding
  offset := UInt64.ofNat b.offset
  size := UInt64.ofNat b.size
  apiOffset := UInt64.ofNat b.apiOffset
  apiRange := UInt64.ofNat b.apiRange
  apiBufferSize := UInt64.ofNat b.apiBufferSize
  apiDescriptorType := UInt32.ofNat (typeNumber b.apiDescriptorType)
  apiDynamic := if b.apiDynamic then 1 else 0
  apiMemoryOffset := UInt64.ofNat b.apiMemoryOffset
  apiMemorySize := UInt64.ofNat b.apiMemorySize
  apiMemoryId := UInt64.ofNat b.memory
  apiBufferId := UInt64.ofNat b.apiBuffer

structure Request (φ : Type) where
  shaderFd : φ
  shaderSize : UInt64
  bindings : List (SentBinding φ)
  push : Bytes
  x : UInt32
  y : UInt32
  z : UInt32
  entryName : Bytes
  specializations : List SpecializationMapEntry
  specializationData : Bytes
  requestedFeatureMask : UInt64
  bindings_ne_nil : bindings ≠ []
  bindings_length : bindings.length ≤ PDOCKER_VK_MAX_STORAGE_BUFFERS
  push_length : push.length ≤ PDOCKER_VK_MAX_PUSH_BYTES
  entryName_ne_nil : entryName ≠ []
  entryName_length : entryName.length < PDOCKER_VK_MAX_ENTRY_NAME
  specializations_length : specializations.length ≤ PDOCKER_VK_MAX_SPECIALIZATION_ENTRIES
  data_length : specializationData.length ≤ PDOCKER_VK_MAX_SPECIALIZATION_BYTES

def orOne (count : UInt32) : UInt32 := if count = 0 then 1 else count

def defaultEntry : Bytes := [109, 97, 105, 110]

def entryOr (name : Bytes) : Bytes := if name = [] then defaultEntry else name

theorem entryOr_ne_nil (name : Bytes) : entryOr name ≠ [] := by
  rw [entryOr]
  split
  · exact List.cons_ne_nil _ _
  · assumption

theorem length_entryOr {name : Bytes} (fits : name.length < PDOCKER_VK_MAX_ENTRY_NAME) :
    (entryOr name).length < PDOCKER_VK_MAX_ENTRY_NAME := by
  rw [entryOr]
  split
  · decide
  · exact fits

section

variable {φ : Type}

def request (copyAliasEnabled : Bool) (heap : Heap) (fdOf : MemoryId → φ) (op : DispatchOp φ) :
    Except Errno (Request φ) :=
  match op.pipeline with
  | none => .error .einval
  | some pipeline =>
      match pipeline.shader with
      | none => .error .einval
      | some shader =>
          match shader.codeFd with
          | none => .error .einval
          | some codeFd =>
              let bindings := (requestBindings copyAliasEnabled heap op.sets).map (sentBinding fdOf)
              let pushSize := max op.pushConstantSize.toNat (pipeline.layout.getD 0).toNat
              if shader.codeSize = 0 then .error .einval
              else if fits : PDOCKER_VK_MAX_STORAGE_BUFFERS < bindings.length then .error .e2big
              else if filled : bindings = [] then .error .einval
              else if pushed : PDOCKER_VK_MAX_PUSH_BYTES < pushSize then .error .e2big
              else if pipeline.specializationTooLarge then .error .e2big
              else
                .ok
                  { shaderFd := codeFd
                    shaderSize := shader.codeSize
                    bindings := bindings
                    push := (List.range pushSize).map op.pushConstants
                    x := op.x
                    y := orOne op.y
                    z := orOne op.z
                    entryName := entryOr pipeline.entryName
                    specializations := pipeline.specializationEntries
                    specializationData := pipeline.specializationData
                    requestedFeatureMask := pipeline.requestedFeatureMask
                    bindings_ne_nil := filled
                    bindings_length := Nat.le_of_not_lt fits
                    push_length := by
                      rw [List.length_map, List.length_range]
                      exact Nat.le_of_not_lt pushed
                    entryName_ne_nil := entryOr_ne_nil _
                    entryName_length := length_entryOr pipeline.entryName_length
                    specializations_length := pipeline.entries_length
                    data_length := pipeline.data_length }

end

abbrev Environment := String → Option Text

/-- `strcasecmp(value, word) == 0`, for a word in small letters. -/
def sameLetters (value : Text) (word : String) : Bool := value.map Char.toLower == word.toList

def envTruthyDefault (env : Environment) (name : String) (default : Bool) : Bool :=
  match env name with
  | none => default
  | some [] => default
  | some value => !(value == ['0'] || sameLetters value "false" || sameLetters value "no")

def traceAllocations (env : Environment) : Bool := (env "PDOCKER_VULKAN_ICD_TRACE_ALLOC").isSome

def copyAliasEnabled (env : Environment) : Bool := envTruthyDefault env "PDOCKER_VULKAN_ALIAS_COPIES" false

def sentFlag (env : Environment) (name : String) (default : Bool) : Option Bool :=
  if (env name).isSome then some (envTruthyDefault env name default) else none

def sentBound (env : Environment) (name : String) : Option UInt64 :=
  match env name with
  | none => none
  | some [] => none
  | some value => wholeInteger 10 value

def sentProfile (env : Environment) : Option Bool :=
  if traceAllocations env || envTruthyDefault env "PDOCKER_GPU_DISPATCH_PROFILE_RESPONSE" false then some true
  else none

def decimal (n : Nat) : Text := numeral 10 n

def hexOrDash (bytes : Bytes) : Text := if bytes = [] then ['-'] else hexText bytes

def SpecializationMapEntry.words (entry : SpecializationMapEntry) : List Text :=
  [decimal entry.constantId.toNat, decimal entry.offset.toNat, decimal entry.size.toNat]

def SentBinding.words {φ : Type} (b : SentBinding φ) : List Text :=
  [decimal b.descriptorSet.toNat, decimal b.binding.toNat, decimal b.offset.toNat, decimal b.size.toNat,
    decimal b.apiOffset.toNat, decimal b.apiRange.toNat, decimal b.apiBufferSize.toNat,
    decimal b.apiDescriptorType.toNat, decimal b.apiDynamic.toNat, decimal b.apiMemoryOffset.toNat,
    decimal b.apiMemorySize.toNat, decimal b.apiMemoryId.toNat, decimal b.apiBufferId.toNat]

def bit (value : Bool) : Text := if value then ['1'] else ['0']

def flagWord (env : Environment) (name tag : String) (default : Bool) : List Text :=
  (sentFlag env name default).toList.map fun value => tag.toList ++ bit value

def boundWord (env : Environment) (name tag : String) : List Text :=
  (sentBound env name).toList.map fun value => tag.toList ++ decimal value.toNat

def optionWords (env : Environment) : List Text :=
  List.flatten
    [flagWord env "PDOCKER_GPU_WRITEONLY_DIRTY_PROBE" "dirty_probe=" false,
      flagWord env "PDOCKER_GPU_WRITEONLY_DIRTY_WRITEBACK" "dirty_writeback=" false,
      flagWord env "PDOCKER_GPU_WRITEONLY_BUFFER_CACHE" "writeonly_cache=" false,
      flagWord env "PDOCKER_GPU_MUTABLE_BUFFER_CACHE" "mutable_cache=" true,
      boundWord env "PDOCKER_GPU_MUTABLE_BUFFER_CACHE_MAX_BYTES" "mutable_cache_max=",
      flagWord env "PDOCKER_GPU_RESIDENT_CACHE" "resident_cache=" true,
      boundWord env "PDOCKER_GPU_RESIDENT_CACHE_MIN_BYTES" "resident_cache_min=",
      boundWord env "PDOCKER_GPU_WRITEONLY_DIRTY_PROBE_MIN_BYTES" "dirty_probe_min=",
      ((sentProfile env).toList.map fun value => "profile=".toList ++ bit value),
      flagWord env "PDOCKER_GPU_STRICT_PASSTHROUGH" "strict_passthrough=" false,
      flagWord env "PDOCKER_GPU_STRICT_DEVICE_LOCAL_STAGING" "strict_device_local_staging=" false,
      flagWord env "PDOCKER_GPU_REWRITE_DUPLICATE_DESCRIPTOR_BINDINGS" "rewrite_duplicate_descriptors=" true,
      flagWord env "PDOCKER_GPU_MATERIALIZE_DESCRIPTOR_ALIASES" "materialize_descriptor_aliases=" false,
      flagWord env "PDOCKER_GPU_MATERIALIZE_SPIRV_SPECIALIZATION_CONSTANTS" "materialize_specialization=" true,
      flagWord env "PDOCKER_GPU_DISABLE_PIPELINE_OPTIMIZATION" "disable_pipeline_optimization=" true,
      flagWord env "PDOCKER_GPU_SKIP_UNUSED_DESCRIPTOR_TRANSFERS" "skip_unused_descriptor_transfers=" true,
      flagWord env "PDOCKER_GPU_USE_SPIRV_DESCRIPTOR_ACCESS" "use_spirv_descriptor_access=" true,
      flagWord env "PDOCKER_GPU_DISABLE_OVERLAP_ALIASING" "disable_overlap_aliasing=" false,
      flagWord env "PDOCKER_GPU_CPU_ORACLE" "cpu_oracle=" false,
      flagWord env "PDOCKER_GPU_Q6K_ORACLE_WRITEBACK" "q6k_oracle_writeback=" false,
      flagWord env "PDOCKER_GPU_Q6K_SAFE_KERNEL" "q6k_safe_kernel=" false,
      flagWord env "PDOCKER_GPU_Q4K_SAFE_KERNEL" "q4k_safe_kernel=" false,
      flagWord env "PDOCKER_GPU_Q4K_TARGETED_SPECIALIZATION" "q4k_targeted_specialization=" false,
      flagWord env "PDOCKER_VULKAN_DISABLE_8BIT_STORAGE" "disable_storage8=" false,
      flagWord env "PDOCKER_VULKAN_DISABLE_16BIT_STORAGE" "disable_storage16=" false,
      flagWord env "PDOCKER_VULKAN_DISABLE_SUBGROUP_ARITHMETIC" "disable_subgroup_arithmetic=" false]

def headWords {φ : Type} (r : Request φ) : List Text :=
  [decimal r.shaderSize.toNat, decimal r.bindings.length, decimal r.push.length,
    decimal r.x.toNat, decimal r.y.toNat, decimal r.z.toNat,
    hexOrDash r.push, hexOrDash r.entryName,
    decimal r.specializations.length, decimal r.specializationData.length, hexOrDash r.specializationData]

def maskWord (mask : UInt64) : Text := "requested_feature_mask=".toList ++ decimal mask.toNat

/-- What is appended to the command, call of `snprintf` after call. -/
def pieces {φ : Type} (env : Environment) (r : Request φ) : List Text :=
  ("VULKAN_DISPATCH_V4".toList ++ separated ' ' (headWords r)) ::
    ((r.specializations.map fun entry => separated ' ' entry.words) ++
      (r.bindings.map fun b => separated ' ' b.words) ++
      ((optionWords env).map fun word => separated ' ' [word]) ++
      [separated ' ' [maskWord r.requestedFeatureMask]])

def append (command piece : Text) : Except Errno Text :=
  if commandSize ≤ command.length + piece.length then .error .enametoolong else .ok (command ++ piece)

def commandText {φ : Type} (env : Environment) (r : Request φ) : Except Errno Text :=
  match (pieces env r).foldlM append [] with
  | .error errno => .error errno
  | .ok command =>
      if commandSize ≤ command.length + 2 then .error .enametoolong else .ok (command ++ ['\n'])

structure Message (φ : Type) where
  text : Text
  fds : List φ

/-- `connect_queue`, and what comes of a message on the connected socket. -/
structure Queue (φ : Type) where
  connectQueue : Except Errno Unit
  transfer : Message φ → Except Errno Unit

/-- What a call returns, and the message it has passed to `sendmsg`. -/
structure Sending (φ : Type) where
  returned : Except Errno Unit
  sent : Option (Message φ)

def sendGenericVulkanDispatchOp {φ : Type} (env : Environment) (queue : Queue φ) (heap : Heap)
    (fdOf : MemoryId → φ) (op : DispatchOp φ) : Sending φ :=
  match request (copyAliasEnabled env) heap fdOf op with
  | .error errno => ⟨.error errno, none⟩
  | .ok r =>
      match commandText env r with
      | .error errno => ⟨.error errno, none⟩
      | .ok text =>
          match queue.connectQueue with
          | .error errno => ⟨.error errno, none⟩
          | .ok () =>
              let message := { text := text, fds := r.shaderFd :: r.bindings.map (·.fd) }
              ⟨queue.transfer message, some message⟩

end PDocker.Vulkan.Wire
