import PDocker.Data.Hex
import PDocker.Data.Strtol

/-!
# Reading a dispatch command

`recv_command_with_fds`, and the branch of `serve_socket` for `VULKAN_DISPATCH_V2`, `V3` and
`V4` up to the call of `run_vulkan_dispatch_fd`.
-/

set_option autoImplicit false

namespace PDocker.Gpu.Command

open PDocker.Data

def PDOCKER_GPU_MAX_PASSED_FDS : Nat := 24
def PDOCKER_GPU_MAX_COMMAND_BYTES : Nat := 4096
def PDOCKER_GPU_MAX_VULKAN_BINDINGS : Nat := 16
def PDOCKER_GPU_MAX_PUSH_BYTES : Nat := 256
def PDOCKER_GPU_MAX_VULKAN_ENTRY_NAME : Nat := 128
def PDOCKER_GPU_MAX_VULKAN_SPECIALIZATION_ENTRIES : Nat := 16
def PDOCKER_GPU_MAX_VULKAN_SPECIALIZATION_BYTES : Nat := 256

structure Received (φ : Type) where
  cmd : Text
  passedFds : List φ

/-- One `recvmsg`: the text is cut where the line ends. -/
def recvCommandWithFds {φ : Type} (text : Text) (fds : List φ) : Received φ where
  cmd := (text.take (PDOCKER_GPU_MAX_COMMAND_BYTES - 1)).takeWhile fun char =>
    char ≠ '\x00' ∧ char ≠ '\r' ∧ char ≠ '\n'
  passedFds := fds.take PDOCKER_GPU_MAX_PASSED_FDS

structure VulkanDispatchSpecialization where
  constantId : UInt32
  offset : UInt32
  size : UInt64
deriving DecidableEq, Repr

structure VulkanDispatchBinding where
  descriptorSet : UInt32
  binding : UInt32
  offset : Int
  size : UInt64
  apiOffset : Int
  apiRange : UInt64
  apiBufferSize : UInt64
  apiDescriptorType : UInt32
  apiDynamic : Int
  apiMemoryOffset : Int
  apiMemorySize : UInt64
  apiMemoryId : UInt64
  apiBufferId : UInt64
deriving DecidableEq, Repr

inductive Flag where
  | dirtyProbe
  | dirtyWriteback
  | writeonlyBufferCache
  | mutableBufferCache
  | residentCache
  | profileResponse
  | rewriteDuplicateDescriptors
  | materializeDescriptorAliases
  | materializeSpecializationConstants
  | disablePipelineOptimization
  | skipUnusedDescriptorTransfers
  | useSpirvDescriptorAccess
  | strictPassthrough
  | strictDeviceLocalStaging
  | disableOverlapAliasing
  | cpuOracle
  | q6kOracleWriteback
  | q6kSafeKernel
  | q4kSafeKernel
  | q4kTargetedSpecialization
deriving DecidableEq, Repr

inductive Bound where
  | dirtyProbeMinBytes
  | mutableBufferCacheMaxBytes
  | residentCacheMinBytes
deriving DecidableEq, Repr

/-- The options that have no `has_` field -/
inductive Switch where
  | disableStorage8
  | disableStorage16
  | disableSubgroupArithmetic
deriving DecidableEq, Repr

/-- A field of `flags` and `bounds` is present where its `has_` field is set. -/
structure VulkanDispatchOptions where
  flags : Flag → Option Bool := fun _ => none
  bounds : Bound → Option UInt64 := fun _ => none
  switches : Switch → Bool := fun _ => false
  requestedFeatureMask : Option UInt64 := none

structure DispatchCall (φ : Type) where
  shaderFd : φ
  bindingFds : List φ
  bindings : List VulkanDispatchBinding
  shaderSize : UInt64
  entryName : Bytes
  specializations : List VulkanDispatchSpecialization
  specializationData : Bytes
  options : VulkanDispatchOptions
  push : Bytes
  gx : UInt32
  gy : UInt32
  gz : UInt32

/-- `strcasecmp(value, word) == 0`, for a word in small letters. -/
def sameLetters (value : Text) (word : String) : Bool := value.map Char.toLower == word.toList

def isOn (value : Text) : Bool :=
  value == ['1'] || sameLetters value "true" || sameLetters value "yes" || sameLetters value "on"

def isOff (value : Text) : Bool :=
  value == ['0'] || sameLetters value "false" || sameLetters value "no" || sameLetters value "off"

def readFlag (flag : Flag) (options : VulkanDispatchOptions) (value : Text) : Option VulkanDispatchOptions :=
  if isOn value then some { options with flags := Function.update options.flags flag (some true) }
  else if isOff value then some { options with flags := Function.update options.flags flag (some false) }
  else none

def readBound (bound : Bound) (options : VulkanDispatchOptions) (value : Text) : Option VulkanDispatchOptions :=
  (wholeInteger 10 value).map fun parsed =>
    { options with bounds := Function.update options.bounds bound (some parsed) }

def readSwitch (switch : Switch) (options : VulkanDispatchOptions) (value : Text) : Option VulkanDispatchOptions :=
  some { options with switches := Function.update options.switches switch (isOn value) }

def readFeatureMask (options : VulkanDispatchOptions) (value : Text) : Option VulkanDispatchOptions :=
  (wholeInteger 0 value).map fun parsed => { options with requestedFeatureMask := some parsed }

def optionReaders : List (String × (VulkanDispatchOptions → Text → Option VulkanDispatchOptions)) :=
  [("dirty_probe=", readFlag .dirtyProbe),
   ("dirty_writeback=", readFlag .dirtyWriteback),
   ("dirty_probe_min=", readBound .dirtyProbeMinBytes),
   ("writeonly_cache=", readFlag .writeonlyBufferCache),
   ("mutable_cache=", readFlag .mutableBufferCache),
   ("mutable_cache_max=", readBound .mutableBufferCacheMaxBytes),
   ("resident_cache=", readFlag .residentCache),
   ("resident_cache_min=", readBound .residentCacheMinBytes),
   ("profile=", readFlag .profileResponse),
   ("rewrite_duplicate_descriptors=", readFlag .rewriteDuplicateDescriptors),
   ("materialize_descriptor_aliases=", readFlag .materializeDescriptorAliases),
   ("materialize_specialization=", readFlag .materializeSpecializationConstants),
   ("disable_pipeline_optimization=", readFlag .disablePipelineOptimization),
   ("skip_unused_descriptor_transfers=", readFlag .skipUnusedDescriptorTransfers),
   ("use_spirv_descriptor_access=", readFlag .useSpirvDescriptorAccess),
   ("strict_passthrough=", readFlag .strictPassthrough),
   ("strict_device_local_staging=", readFlag .strictDeviceLocalStaging),
   ("disable_overlap_aliasing=", readFlag .disableOverlapAliasing),
   ("cpu_oracle=", readFlag .cpuOracle),
   ("q6k_oracle_writeback=", readFlag .q6kOracleWriteback),
   ("q6k_safe_kernel=", readFlag .q6kSafeKernel),
   ("q4k_safe_kernel=", readFlag .q4kSafeKernel),
   ("q4k_targeted_specialization=", readFlag .q4kTargetedSpecialization),
   ("disable_storage8=", readSwitch .disableStorage8),
   ("disable_storage16=", readSwitch .disableStorage16),
   ("disable_subgroup_arithmetic=", readSwitch .disableSubgroupArithmetic),
   ("requested_feature_mask=", readFeatureMask)]

def readOption (options : VulkanDispatchOptions) (token : Text) :
    List (String × (VulkanDispatchOptions → Text → Option VulkanDispatchOptions)) → Option VulkanDispatchOptions
  | [] => none
  | (tag, reader) :: readers =>
      if tag.toList.isPrefixOf token then reader options (token.drop tag.toList.length)
      else readOption options token readers

def parseVulkanDispatchOption (options : VulkanDispatchOptions) (token : Text) : Option VulkanDispatchOptions :=
  readOption options token optionReaders

/-! ## Words -/

/-- The tokens that `strtok_r` has still to give. -/
abbrev Reader := StateT (List Text) Option

def token : Reader Text
  | [] => none
  | word :: words => some (word, words)

def tokenOr (default : Text) : Reader Text
  | [] => some (default, [])
  | word :: words => some (word, words)

def require (condition : Bool) : Reader Unit := if condition then pure () else fun _ => none

def repeated {α : Type} (read : Reader α) : Nat → Reader (List α)
  | 0 => pure []
  | count + 1 => do
      let first ← read
      let rest ← repeated read count
      pure (first :: rest)

def hexDecode (hex : Text) (outSize : Nat) : Option Bytes :=
  if hex.length % 2 ≠ 0 ∨ outSize < hex.length / 2 then none else hexBytes hex

def readBytes (hex : Text) (size outSize : Nat) : Reader Bytes :=
  if 0 < size then
    match hexDecode hex outSize with
    | none => fun _ => none
    | some bytes => do
        require (decide (bytes.length = size))
        pure bytes
  else do
    require (hex == ['-'])
    pure []

def readEntryName (hex : Text) : Reader Bytes :=
  if hex == ['-'] then pure [109, 97, 105, 110]
  else
    match hexDecode hex (PDOCKER_GPU_MAX_VULKAN_ENTRY_NAME - 1) with
    | none => fun _ => none
    | some bytes => do
        require (decide (0 < bytes.length))
        pure bytes

def readSpecialization : Reader VulkanDispatchSpecialization := do
  let constantId ← token
  let offset ← token
  let size ← token
  pure { constantId := strtoul32 constantId, offset := strtoul32 offset, size := strtoull 10 size }

inductive DispatchVersion where
  | v2
  | v3
  | v4
deriving DecidableEq, Repr

/-- A token that only some versions have; its field is zero in the others. -/
def tokenIf (present : Bool) : Reader Text := if present then token else pure ['0']

def readBinding (version : DispatchVersion) : Reader VulkanDispatchBinding := do
  let descriptorSet ← tokenIf (version = .v4)
  let binding ← token
  let offset ← token
  let size ← token
  let apiOffset ← token
  let apiRange ← token
  let apiBufferSize ← token
  let apiDescriptorType ← token
  let apiDynamic ← token
  let apiMemoryOffset ← token
  let apiMemorySize ← tokenIf (version ≠ .v2)
  let apiMemoryId ← tokenIf (version ≠ .v2)
  let apiBufferId ← tokenIf (version ≠ .v2)
  pure
    { descriptorSet := strtoul32 descriptorSet
      binding := strtoul32 binding
      offset := strtoll offset
      size := strtoull 10 size
      apiOffset := strtoll apiOffset
      apiRange := strtoull 10 apiRange
      apiBufferSize := strtoull 10 apiBufferSize
      apiDescriptorType := strtoul32 apiDescriptorType
      apiDynamic := strtol32 apiDynamic
      apiMemoryOffset := strtoll apiMemoryOffset
      apiMemorySize := strtoull 10 apiMemorySize
      apiMemoryId := strtoull 10 apiMemoryId
      apiBufferId := strtoull 10 apiBufferId }

def readOptions : Reader VulkanDispatchOptions := fun words =>
  (words.foldlM parseVulkanDispatchOption {}).map fun options => (options, [])

structure Head where
  shaderSize : UInt64
  bindingCount : Nat
  pushSize : Nat
  gx : UInt32
  gy : UInt32
  gz : UInt32
  pushHex : Text
  entryHex : Text
  specializationCount : Nat
  specializationDataSize : Nat
  specializationHex : Text

def readHead : Reader Head := do
  let shaderSize ← tokenOr ['0']
  let bindingCount ← tokenOr ['0']
  let pushSize ← tokenOr ['0']
  let gx ← tokenOr ['0']
  let gy ← tokenOr ['0']
  let gz ← tokenOr ['0']
  let pushHex ← tokenOr ['-']
  let entryHex ← tokenOr ['-']
  let specializationCount ← tokenOr ['0']
  let specializationDataSize ← tokenOr ['0']
  let specializationHex ← tokenOr ['-']
  pure
    { shaderSize := strtoull 10 shaderSize
      bindingCount := (strtoull 10 bindingCount).toNat
      pushSize := (strtoull 10 pushSize).toNat
      gx := strtoul32 gx
      gy := strtoul32 gy
      gz := strtoul32 gz
      pushHex
      entryHex
      specializationCount := (strtoull 10 specializationCount).toNat
      specializationDataSize := (strtoull 10 specializationDataSize).toNat
      specializationHex }

def Head.inBounds (head : Head) (fdCount : Nat) : Bool :=
  decide (head.bindingCount ≠ 0 ∧ head.bindingCount ≤ PDOCKER_GPU_MAX_VULKAN_BINDINGS ∧
    head.pushSize ≤ PDOCKER_GPU_MAX_PUSH_BYTES ∧
    head.specializationCount ≤ PDOCKER_GPU_MAX_VULKAN_SPECIALIZATION_ENTRIES ∧
    head.specializationDataSize ≤ PDOCKER_GPU_MAX_VULKAN_SPECIALIZATION_BYTES ∧
    1 + head.bindingCount ≤ fdCount)

def readBody {φ : Type} (version : DispatchVersion) (shaderFd : φ) (bindingFds : List φ) (head : Head) :
    Reader (DispatchCall φ) := do
  require (head.inBounds (bindingFds.length + 1))
  let push ← readBytes head.pushHex head.pushSize PDOCKER_GPU_MAX_PUSH_BYTES
  let entryName ← readEntryName head.entryHex
  let specializationData ←
    readBytes head.specializationHex head.specializationDataSize PDOCKER_GPU_MAX_VULKAN_SPECIALIZATION_BYTES
  let specializations ← repeated readSpecialization head.specializationCount
  let bindings ← repeated (readBinding version) head.bindingCount
  let options ← readOptions
  pure
    { shaderFd
      bindingFds := bindingFds.take head.bindingCount
      bindings
      shaderSize := head.shaderSize
      entryName
      specializations
      specializationData
      options
      push
      gx := head.gx
      gy := head.gy
      gz := head.gz }

/-- `none` for an invalid command. Without descriptors there are too few of them. -/
def readDispatch {φ : Type} (version : DispatchVersion) (passedFds : List φ) : Reader (DispatchCall φ) := do
  let head ← readHead
  match passedFds with
  | [] => fun _ => none
  | shaderFd :: bindingFds => readBody version shaderFd bindingFds head

/-- What the loop of `serve_socket` makes of a line. -/
inductive Outcome (φ : Type) where
  | run (call : DispatchCall φ)
  | invalid
  /-- A command of another kind -/
  | other

def dispatchVersion (cmd : Text) : Option DispatchVersion :=
  if "VULKAN_DISPATCH_V2 ".toList.isPrefixOf cmd then some .v2
  else if "VULKAN_DISPATCH_V3 ".toList.isPrefixOf cmd then some .v3
  else if "VULKAN_DISPATCH_V4 ".toList.isPrefixOf cmd then some .v4
  else none

def serveCommand {φ : Type} (received : Received φ) : Outcome φ :=
  match dispatchVersion received.cmd with
  | none => .other
  | some version =>
      match readDispatch version received.passedFds (tokens ' ' (received.cmd.drop 19)) with
      | none => .invalid
      | some (call, _) => .run call

end PDocker.Gpu.Command
