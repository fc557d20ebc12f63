import PDocker.Gpu.Command
import PDocker.Vulkan.Wire

/-!
# The dispatch command read back

What the executor reads of a command is what the driver wrote, except for an offset that does
not fit the type the executor keeps it in.
-/

set_option autoImplicit false

namespace PDocker.Gpu.Command

open PDocker.Data
open PDocker.Vulkan (Heap MemoryId)
open PDocker.Vulkan.Wire hiding sameLetters

variable {φ : Type}

def sentSpecialization (entry : SpecializationMapEntry) : VulkanDispatchSpecialization where
  constantId := entry.constantId
  offset := entry.offset
  size := entry.size

def sentBindingValues (b : SentBinding φ) : VulkanDispatchBinding where
  descriptorSet := b.descriptorSet
  binding := b.binding
  offset := b.offset.toNat
  size := b.size
  apiOffset := b.apiOffset.toNat
  apiRange := b.apiRange
  apiBufferSize := b.apiBufferSize
  apiDescriptorType := b.apiDescriptorType
  apiDynamic := b.apiDynamic.toNat
  apiMemoryOffset := b.apiMemoryOffset.toNat
  apiMemorySize := b.apiMemorySize
  apiMemoryId := b.apiMemoryId
  apiBufferId := b.apiBufferId

def sentFlagOf (env : Environment) : Flag → Option Bool
  | .dirtyProbe => sentFlag env "PDOCKER_GPU_WRITEONLY_DIRTY_PROBE" false
  | .dirtyWriteback => sentFlag env "PDOCKER_GPU_WRITEONLY_DIRTY_WRITEBACK" false
  | .writeonlyBufferCache => sentFlag env "PDOCKER_GPU_WRITEONLY_BUFFER_CACHE" false
  | .mutableBufferCache => sentFlag env "PDOCKER_GPU_MUTABLE_BUFFER_CACHE" true
  | .residentCache => sentFlag env "PDOCKER_GPU_RESIDENT_CACHE" true
  | .profileResponse => sentProfile env
  | .rewriteDuplicateDescriptors => sentFlag env "PDOCKER_GPU_REWRITE_DUPLICATE_DESCRIPTOR_BINDINGS" true
  | .materializeDescriptorAliases => sentFlag env "PDOCKER_GPU_MATERIALIZE_DESCRIPTOR_ALIASES" false
  | .materializeSpecializationConstants =>
      sentFlag env "PDOCKER_GPU_MATERIALIZE_SPIRV_SPECIALIZATION_CONSTANTS" true
  | .disablePipelineOptimization => sentFlag env "PDOCKER_GPU_DISABLE_PIPELINE_OPTIMIZATION" true
  | .skipUnusedDescriptorTransfers => sentFlag env "PDOCKER_GPU_SKIP_UNUSED_DESCRIPTOR_TRANSFERS" true
  | .useSpirvDescriptorAccess => sentFlag env "PDOCKER_GPU_USE_SPIRV_DESCRIPTOR_ACCESS" true
  | .strictPassthrough => sentFlag env "PDOCKER_GPU_STRICT_PASSTHROUGH" false
  | .strictDeviceLocalStaging => sentFlag env "PDOCKER_GPU_STRICT_DEVICE_LOCAL_STAGING" false
  | .disableOverlapAliasing => sentFlag env "PDOCKER_GPU_DISABLE_OVERLAP_ALIASING" false
  | .cpuOracle => sentFlag env "PDOCKER_GPU_CPU_ORACLE" false
  | .q6kOracleWriteback => sentFlag env "PDOCKER_GPU_Q6K_ORACLE_WRITEBACK" false
  | .q6kSafeKernel => sentFlag env "PDOCKER_GPU_Q6K_SAFE_KERNEL" false
  | .q4kSafeKernel => sentFlag env "PDOCKER_GPU_Q4K_SAFE_KERNEL" false
  | .q4kTargetedSpecialization => sentFlag env "PDOCKER_GPU_Q4K_TARGETED_SPECIALIZATION" false

def sentBoundOf (env : Environment) : Bound → Option UInt64
  | .dirtyProbeMinBytes => sentBound env "PDOCKER_GPU_WRITEONLY_DIRTY_PROBE_MIN_BYTES"
  | .mutableBufferCacheMaxBytes => sentBound env "PDOCKER_GPU_MUTABLE_BUFFER_CACHE_MAX_BYTES"
  | .residentCacheMinBytes => sentBound env "PDOCKER_GPU_RESIDENT_CACHE_MIN_BYTES"

def sentSwitchOf (env : Environment) : Switch → Option Bool
  | .disableStorage8 => sentFlag env "PDOCKER_VULKAN_DISABLE_8BIT_STORAGE" false
  | .disableStorage16 => sentFlag env "PDOCKER_VULKAN_DISABLE_16BIT_STORAGE" false
  | .disableSubgroupArithmetic => sentFlag env "PDOCKER_VULKAN_DISABLE_SUBGROUP_ARITHMETIC" false

def sentOptions (env : Environment) (mask : UInt64) : VulkanDispatchOptions where
  flags := sentFlagOf env
  bounds := sentBoundOf env
  switches := fun switch => (sentSwitchOf env switch).getD false
  requestedFeatureMask := some mask

def sentCall (env : Environment) (r : Request φ) : DispatchCall φ where
  shaderFd := r.shaderFd
  bindingFds := r.bindings.map (·.fd)
  bindings := r.bindings.map sentBindingValues
  shaderSize := r.shaderSize
  entryName := r.entryName
  specializations := r.specializations.map sentSpecialization
  specializationData := r.specializationData
  options := sentOptions env r.requestedFeatureMask
  push := r.push
  gx := r.x
  gy := r.y
  gz := r.z

/-! ## Options -/

inductive Assignment where
  | flag (flag : Flag) (value : Bool)
  | bound (bound : Bound) (value : UInt64)
  | switch (switch : Switch) (value : Bool)
  | featureMask (value : UInt64)

def Flag.tag : Flag → String
  | .dirtyProbe => "dirty_probe="
  | .dirtyWriteback => "dirty_writeback="
  | .writeonlyBufferCache => "writeonly_cache="
  | .mutableBufferCache => "mutable_cache="
  | .residentCache => "resident_cache="
  | .profileResponse => "profile="
  | .rewriteDuplicateDescriptors => "rewrite_duplicate_descriptors="
  | .materializeDescriptorAliases => "materialize_descriptor_aliases="
  | .materializeSpecializationConstants => "materialize_specialization="
  | .disablePipelineOptimization => "disable_pipeline_optimization="
  | .skipUnusedDescriptorTransfers => "skip_unused_descriptor_transfers="
  | .useSpirvDescriptorAccess => "use_spirv_descriptor_access="
  | .strictPassthrough => "strict_passthrough="
  | .strictDeviceLocalStaging => "strict_device_local_staging="
  | .disableOverlapAliasing => "disable_overlap_aliasing="
  | .cpuOracle => "cpu_oracle="
  | .q6kOracleWriteback => "q6k_oracle_writeback="
  | .q6kSafeKernel => "q6k_safe_kernel="
  | .q4kSafeKernel => "q4k_safe_kernel="
  | .q4kTargetedSpecialization => "q4k_targeted_specialization="

def Bound.tag : Bound → String
  | .dirtyProbeMinBytes => "dirty_probe_min="
  | .mutableBufferCacheMaxBytes => "mutable_cache_max="
  | .residentCacheMinBytes => "resident_cache_min="

def Switch.tag : Switch → String
  | .disableStorage8 => "disable_storage8="
  | .disableStorage16 => "disable_storage16="
  | .disableSubgroupArithmetic => "disable_subgroup_arithmetic="

namespace Assignment

def word : Assignment → Text
  | .flag name value => name.tag.toList ++ bit value
  | .bound name value => name.tag.toList ++ decimal value.toNat
  | .switch name value => name.tag.toList ++ bit value
  | .featureMask value => maskWord value

def apply (options : VulkanDispatchOptions) : Assignment → VulkanDispatchOptions
  | .flag name value => { options with flags := Function.update options.flags name (some value) }
  | .bound name value => { options with bounds := Function.update options.bounds name (some value) }
  | .switch name value => { options with switches := Function.update options.switches name value }
  | .featureMask value => { options with requestedFeatureMask := some value }

end Assignment

variable (flag : Flag) (switch : Switch) (bound : Bound) (options : VulkanDispatchOptions)

theorem readFlag_bit (options : VulkanDispatchOptions) (value : Bool) :
    readFlag flag options (bit value) = some ((Assignment.flag flag value).apply options) := by
  cases value <;> rfl

theorem readSwitch_bit (options : VulkanDispatchOptions) (value : Bool) :
    readSwitch switch options (bit value) = some ((Assignment.switch switch value).apply options) := by
  cases value <;> rfl

theorem readBound_decimal (options : VulkanDispatchOptions) (value : UInt64) :
    readBound bound options (decimal value.toNat) = some ((Assignment.bound bound value).apply options) := by
  rw [readBound, decimal, wholeInteger_numeral (.inl rfl)]
  rfl

theorem readFeatureMask_decimal (value : UInt64) :
    readFeatureMask options (decimal value.toNat) = some ((Assignment.featureMask value).apply options) := by
  rw [readFeatureMask, decimal, wholeInteger_numeral (.inr rfl)]
  rfl

def ClosedTag (tag : Text) : Prop := tag.getLast? = some '=' ∧ '=' ∉ tag.dropLast

instance (tag : Text) : Decidable (ClosedTag tag) := inferInstanceAs (Decidable (_ ∧ _))

variable {left right text : Text} {reader : VulkanDispatchOptions → Text → Option VulkanDispatchOptions}
  {env : Environment} {bytes : Bytes} {outSize : Nat} {r : Request φ}

theorem ClosedTag.unique {value : Text} (closedLeft : ClosedTag left)
    (closedRight : ClosedTag right) (pre : left <+: right ++ value) : left = right := by
  have split (tag : Text) (closed : ClosedTag tag) : tag = tag.dropLast ++ ['='] :=
    (List.dropLast_append_getLast? '=' closed.1).symm
  obtain ⟨rest, same⟩ := pre
  rw [split left closedLeft, split right closedRight] at same ⊢
  simp only [List.append_assoc, List.singleton_append] at same
  have parts := congrArg (firstPart '=') same
  rw [firstPart_append closedLeft.2, firstPart_append closedRight.2] at parts
  rw [parts]

theorem readOption_of_mem {readers : List (String × (VulkanDispatchOptions → Text → Option VulkanDispatchOptions))}
    {tag : String}
    (closed : ∀ row ∈ readers, ClosedTag row.1.toList) (distinct : (readers.map fun row => row.1.toList).Nodup)
    (member : (tag, reader) ∈ readers) (options : VulkanDispatchOptions) (value : Text) :
    readOption options (tag.toList ++ value) readers = reader options value := by
  induction readers with
  | nil => exact absurd member List.not_mem_nil
  | cons row readers ih =>
      rw [List.map_cons, List.nodup_cons] at distinct
      have closedTag : ClosedTag tag.toList := closed _ member
      rw [List.forall_mem_cons] at closed
      rw [readOption]
      rcases List.mem_cons.mp member with rfl | later
      · rw [if_pos (List.isPrefixOf_iff_prefix.mpr (List.prefix_append _ _)), List.drop_left]
      rw [if_neg, ih closed.2 distinct.2 later]
      intro pre
      have same := closed.1.unique closedTag (List.isPrefixOf_iff_prefix.mp pre)
      exact distinct.1 (List.mem_map.mpr ⟨_, later, same.symm⟩)

theorem closed_optionReaders : ∀ row ∈ optionReaders, ClosedTag row.1.toList := by decide

theorem nodup_optionReaders : (optionReaders.map fun row => row.1.toList).Nodup := by decide

theorem parse_of_mem {tag : String}
    (member : (tag, reader) ∈ optionReaders) (options : VulkanDispatchOptions) (value : Text) :
    parseVulkanDispatchOption options (tag.toList ++ value) = reader options value :=
  readOption_of_mem closed_optionReaders nodup_optionReaders member options value

theorem mem_flag : (flag.tag, readFlag flag) ∈ optionReaders := by
  cases flag <;> simp only [optionReaders, Flag.tag, List.mem_cons, Prod.mk.injEq, true_or, or_true]

theorem mem_bound : (bound.tag, readBound bound) ∈ optionReaders := by
  cases bound <;> simp only [optionReaders, Bound.tag, List.mem_cons, Prod.mk.injEq, true_or, or_true]

theorem mem_switch : (switch.tag, readSwitch switch) ∈ optionReaders := by
  cases switch <;> simp only [optionReaders, Switch.tag, List.mem_cons, Prod.mk.injEq, true_or, or_true]

theorem mem_featureMask : ("requested_feature_mask=", readFeatureMask) ∈ optionReaders := by
  simp only [optionReaders, List.mem_cons, or_true, true_or]

theorem parse_word (assignment : Assignment) :
    parseVulkanDispatchOption options assignment.word = some (assignment.apply options) := by
  cases assignment with
  | flag flag value => exact (parse_of_mem (mem_flag flag) options _).trans (readFlag_bit flag options value)
  | bound bound value => exact (parse_of_mem (mem_bound bound) options _).trans (readBound_decimal bound options value)
  | switch switch value => exact (parse_of_mem (mem_switch switch) options _).trans (readSwitch_bit switch options value)
  | featureMask value => exact (parse_of_mem mem_featureMask options _).trans (readFeatureMask_decimal options value)

theorem parse_words (assignments : List Assignment) :
    (assignments.map Assignment.word).foldlM parseVulkanDispatchOption options =
      some (assignments.foldl Assignment.apply options) := by
  induction assignments generalizing options with
  | nil => rfl
  | cons assignment assignments ih =>
      rw [List.map_cons, List.foldlM_cons, parse_word]
      exact ih _

/-! The value that the last assignment gives to an option. -/

namespace Assignment

def flagValue (name : Flag) : Assignment → Option (Option Bool)
  | .flag other value => if other = name then some (some value) else none
  | _ => none

def boundValue (name : Bound) : Assignment → Option (Option UInt64)
  | .bound other value => if other = name then some (some value) else none
  | _ => none

def switchValue (name : Switch) : Assignment → Option Bool
  | .switch other value => if other = name then some value else none
  | _ => none

def maskValue : Assignment → Option (Option UInt64)
  | .featureMask value => some (some value)
  | _ => none

theorem update_getD {α β : Type} [DecidableEq α] (f : α → β) (other position : α) (value : β) :
    Function.update f other value position = (if other = position then some value else none).getD (f position) := by
  by_cases same : other = position
  · rw [if_pos same, same, Function.update_self]
    rfl
  · rw [if_neg same, Function.update_of_ne (Ne.symm same)]
    rfl

theorem flags_apply (name : Flag) (options : VulkanDispatchOptions) (assignment : Assignment) :
    (assignment.apply options).flags name = (assignment.flagValue name).getD (options.flags name) := by
  cases assignment with
  | flag other value => exact update_getD ..
  | bound | switch | featureMask => rfl

theorem bounds_apply (name : Bound) (options : VulkanDispatchOptions) (assignment : Assignment) :
    (assignment.apply options).bounds name = (assignment.boundValue name).getD (options.bounds name) := by
  cases assignment with
  | bound other value => exact update_getD ..
  | flag | switch | featureMask => rfl

theorem switches_apply (name : Switch) (options : VulkanDispatchOptions) (assignment : Assignment) :
    (assignment.apply options).switches name = (assignment.switchValue name).getD (options.switches name) := by
  cases assignment with
  | switch other value => exact update_getD ..
  | flag | bound | featureMask => rfl

theorem mask_apply (options : VulkanDispatchOptions) (assignment : Assignment) :
    (assignment.apply options).requestedFeatureMask = assignment.maskValue.getD options.requestedFeatureMask := by
  cases assignment <;> rfl

end Assignment

theorem foldl_last {σ α β : Type} {step : σ → α → σ} {read : σ → β} {value : α → Option β}
    (updates : ∀ state each, read (step state each) = (value each).getD (read state)) (state : σ)
    (list : List α) : read (list.foldl step state) = ((list.filterMap value).getLast?).getD (read state) := by
  induction list generalizing state with
  | nil => rfl
  | cons each list ih =>
      rw [List.foldl_cons, ih, updates, List.filterMap_cons]
      cases value each with
      | none => rfl
      | some now =>
          cases list.filterMap value with
          | nil => rfl
          | cons next more => simp only [List.getLast?_cons, Option.getD_some]

inductive Field where
  | flag (flag : Flag)
  | bound (bound : Bound)
  | switch (switch : Switch)
  | featureMask
deriving DecidableEq

def fields : List Field :=
  [.flag .dirtyProbe, .flag .dirtyWriteback, .flag .writeonlyBufferCache, .flag .mutableBufferCache,
    .bound .mutableBufferCacheMaxBytes, .flag .residentCache, .bound .residentCacheMinBytes,
    .bound .dirtyProbeMinBytes, .flag .profileResponse, .flag .strictPassthrough,
    .flag .strictDeviceLocalStaging, .flag .rewriteDuplicateDescriptors, .flag .materializeDescriptorAliases,
    .flag .materializeSpecializationConstants, .flag .disablePipelineOptimization,
    .flag .skipUnusedDescriptorTransfers, .flag .useSpirvDescriptorAccess, .flag .disableOverlapAliasing,
    .flag .cpuOracle, .flag .q6kOracleWriteback, .flag .q6kSafeKernel, .flag .q4kSafeKernel,
    .flag .q4kTargetedSpecialization, .switch .disableStorage8, .switch .disableStorage16,
    .switch .disableSubgroupArithmetic, .featureMask]

def Field.words (env : Environment) (mask : UInt64) : Field → List Text
  | .flag name => (sentFlagOf env name).toList.map fun value => name.tag.toList ++ bit value
  | .bound name => (sentBoundOf env name).toList.map fun value => name.tag.toList ++ decimal value.toNat
  | .switch name => (sentSwitchOf env name).toList.map fun value => name.tag.toList ++ bit value
  | .featureMask => [maskWord mask]

def assigned (env : Environment) (mask : UInt64) : Field → List Assignment
  | .flag flag => (sentFlagOf env flag).toList.map (Assignment.flag flag)
  | .bound bound => (sentBoundOf env bound).toList.map (Assignment.bound bound)
  | .switch switch => (sentSwitchOf env switch).toList.map (Assignment.switch switch)
  | .featureMask => [.featureMask mask]

theorem words_assigned (env : Environment) (mask : UInt64) (field : Field) :
    (assigned env mask field).map Assignment.word = field.words env mask := by
  cases field with
  | flag | bound | switch => exact List.map_map
  | featureMask => rfl

theorem optionWords_eq (env : Environment) (mask : UInt64) :
    optionWords env ++ [maskWord mask] = (fields.flatMap (assigned env mask)).map Assignment.word := by
  rw [List.map_flatMap, optionWords, ← List.flatten_concat]
  simp only [words_assigned]
  rfl

theorem flatMap_single {α β : Type} [DecidableEq α] {keys : List α} {key : α} (distinct : keys.Nodup)
    (member : key ∈ keys) (list : List β) : (keys.flatMap fun each => if each = key then list else []) = list := by
  induction keys with
  | nil => exact absurd member List.not_mem_nil
  | cons first keys ih =>
      rw [List.nodup_cons] at distinct
      rw [List.flatMap_cons]
      rcases List.mem_cons.mp member with rfl | later
      · have others : (keys.flatMap fun each => if each = key then list else []) = [] :=
          List.flatMap_eq_nil_iff.mpr fun each inside =>
            if_neg fun same : each = key => distinct.1 (same ▸ inside)
        rw [if_pos rfl, others, List.append_nil]
      · rw [if_neg fun same : first = key => distinct.1 (same ▸ later), List.nil_append, ih distinct.2 later]

theorem nodup_fields : fields.Nodup := by decide

theorem mem_fields (field : Field) : field ∈ fields := by
  cases field with
  | flag flag => cases flag <;> decide
  | bound bound => cases bound <;> decide
  | switch switch => cases switch <;> decide
  | featureMask => decide

theorem read_assignments {β : Type} (read : VulkanDispatchOptions → β) {value : Assignment → Option β}
    (updates : ∀ options assignment, read (Assignment.apply options assignment) =
      (value assignment).getD (read options))
    {mask : UInt64} {field : Field} {given : List β}
    (sent : ∀ each, (assigned env mask each).filterMap value = if each = field then given else []) :
    read ((fields.flatMap (assigned env mask)).foldl Assignment.apply {}) = given.getLast?.getD (read {}) := by
  rw [foldl_last updates, List.filterMap_flatMap]
  simp only [sent]
  rw [flatMap_single nodup_fields (mem_fields field)]

theorem filterMap_toList {α β γ : Type} (sent : Option α) (make : α → β) (value : β → Option γ) :
    (sent.toList.map make).filterMap value = (sent.bind fun each => value (make each)).toList := by
  cases sent with
  | none => rfl
  | some each =>
      cases found : value (make each) <;> simp [found]

theorem filterMap_flag (env : Environment) (mask : UInt64) (flag : Flag) (field : Field) :
    (assigned env mask field).filterMap (Assignment.flagValue flag) =
      if field = .flag flag then ((sentFlagOf env flag).map some).toList else [] := by
  cases field with
  | flag other =>
      rw [assigned, filterMap_toList]
      by_cases same : other = flag
      · subst same
        simp only [Assignment.flagValue, if_true]
        cases sentFlagOf env other <;> rfl
      · rw [if_neg fun equal => same (Field.flag.inj equal)]
        simp only [Assignment.flagValue, if_neg same]
        cases sentFlagOf env other <;> rfl
  | bound other =>
      rw [assigned, filterMap_toList, if_neg nofun]
      cases sentBoundOf env other <;> rfl
  | switch other =>
      rw [assigned, filterMap_toList, if_neg nofun]
      cases sentSwitchOf env other <;> rfl
  | featureMask => rfl

theorem filterMap_bound (env : Environment) (mask : UInt64) (bound : Bound) (field : Field) :
    (assigned env mask field).filterMap (Assignment.boundValue bound) =
      if field = .bound bound then ((sentBoundOf env bound).map some).toList else [] := by
  cases field with
  | flag other =>
      rw [assigned, filterMap_toList, if_neg nofun]
      cases sentFlagOf env other <;> rfl
  | bound other =>
      rw [assigned, filterMap_toList]
      by_cases same : other = bound
      · subst same
        simp only [Assignment.boundValue, if_true]
        cases sentBoundOf env other <;> rfl
      · rw [if_neg fun equal => same (Field.bound.inj equal)]
        simp only [Assignment.boundValue, if_neg same]
        cases sentBoundOf env other <;> rfl
  | switch other =>
      rw [assigned, filterMap_toList, if_neg nofun]
      cases sentSwitchOf env other <;> rfl
  | featureMask => rfl

theorem filterMap_switch (env : Environment) (mask : UInt64) (switch : Switch) (field : Field) :
    (assigned env mask field).filterMap (Assignment.switchValue switch) =
      if field = .switch switch then (sentSwitchOf env switch).toList else [] := by
  cases field with
  | flag other =>
      rw [assigned, filterMap_toList, if_neg nofun]
      cases sentFlagOf env other <;> rfl
  | bound other =>
      rw [assigned, filterMap_toList, if_neg nofun]
      cases sentBoundOf env other <;> rfl
  | switch other =>
      rw [assigned, filterMap_toList]
      by_cases same : other = switch
      · subst same
        simp only [Assignment.switchValue, if_true]
        cases sentSwitchOf env other <;> rfl
      · rw [if_neg fun equal => same (Field.switch.inj equal)]
        simp only [Assignment.switchValue, if_neg same]
        cases sentSwitchOf env other <;> rfl
  | featureMask => rfl

theorem filterMap_featureMask (env : Environment) (mask : UInt64) (field : Field) :
    (assigned env mask field).filterMap Assignment.maskValue =
      if field = .featureMask then [some mask] else [] := by
  cases field with
  | flag other =>
      rw [assigned, filterMap_toList, if_neg nofun]
      cases sentFlagOf env other <;> rfl
  | bound other =>
      rw [assigned, filterMap_toList, if_neg nofun]
      cases sentBoundOf env other <;> rfl
  | switch other =>
      rw [assigned, filterMap_toList, if_neg nofun]
      cases sentSwitchOf env other <;> rfl
  | featureMask => rfl

theorem foldl_assigned (env : Environment) (mask : UInt64) :
    (fields.flatMap (assigned env mask)).foldl Assignment.apply {} = sentOptions env mask := by
  have flags : ((fields.flatMap (assigned env mask)).foldl Assignment.apply {}).flags = sentFlagOf env := by
    funext flag
    refine (read_assignments (fun options => options.flags flag) (fun options each => each.flags_apply flag options)
      (filterMap_flag env mask flag)).trans ?_
    cases sentFlagOf env flag <;> rfl
  have bounds : ((fields.flatMap (assigned env mask)).foldl Assignment.apply {}).bounds = sentBoundOf env := by
    funext bound
    refine (read_assignments (fun options => options.bounds bound) (fun options each => each.bounds_apply bound options)
      (filterMap_bound env mask bound)).trans ?_
    cases sentBoundOf env bound <;> rfl
  have switches : ((fields.flatMap (assigned env mask)).foldl Assignment.apply {}).switches =
      fun switch => (sentSwitchOf env switch).getD false := by
    funext switch
    refine (read_assignments (fun options => options.switches switch) (fun options each => each.switches_apply switch options)
      (filterMap_switch env mask switch)).trans ?_
    cases sentSwitchOf env switch <;> rfl
  have featureMask : ((fields.flatMap (assigned env mask)).foldl Assignment.apply {}).requestedFeatureMask =
      some mask :=
    read_assignments (fun options => options.requestedFeatureMask) (fun options each => each.mask_apply options)
      (filterMap_featureMask env mask)
  rw [sentOptions, ← flags, ← bounds, ← switches, ← featureMask]

theorem readOptions_sent (env : Environment) (mask : UInt64) :
    readOptions (optionWords env ++ [maskWord mask]) = some (sentOptions env mask, []) := by
  rw [readOptions, optionWords_eq, parse_words, foldl_assigned]
  rfl

/-- What the executor keeps of a binding: offsets are cut at the largest `off_t`. -/
def keptBinding (b : SentBinding φ) : VulkanDispatchBinding :=
  { sentBindingValues b with
    offset := min (2 ^ 63 - 1) b.offset.toNat
    apiOffset := min (2 ^ 63 - 1) b.apiOffset.toNat
    apiMemoryOffset := min (2 ^ 63 - 1) b.apiMemoryOffset.toNat }

def FileOffsets (b : SentBinding φ) : Prop :=
  b.offset.toNat < 2 ^ 63 ∧ b.apiOffset.toNat < 2 ^ 63 ∧ b.apiMemoryOffset.toNat < 2 ^ 63

instance (b : SentBinding φ) : Decidable (FileOffsets b) := inferInstanceAs (Decidable (_ ∧ _ ∧ _))

theorem keptBinding_eq_iff (b : SentBinding φ) : keptBinding b = sentBindingValues b ↔ FileOffsets b := by
  rw [keptBinding, FileOffsets, VulkanDispatchBinding.mk.injEq]
  simp only [sentBindingValues, true_and, and_true]
  omega

theorem strtol32_numeral (n : UInt32) (small : n.toNat < 2 ^ 31) : strtol32 (numeral 10 n.toNat) = n.toNat := by
  rw [strtol32, strtoll_numeral, min_eq_right (by omega)]
  exact Int.bmod_eq_of_le (by omega) (by omega)

theorem readSpecialization_words (entry : SpecializationMapEntry) (rest : List Text) :
    readSpecialization (entry.words ++ rest) = some (sentSpecialization entry, rest) := by
  change some (VulkanDispatchSpecialization.mk (strtoul32 (decimal entry.constantId.toNat))
    (strtoul32 (decimal entry.offset.toNat)) (strtoull 10 (decimal entry.size.toNat)), rest) = _
  simp only [decimal, strtoul32_numeral, strtoull_numeral, sentSpecialization]

def BitMark (b : SentBinding φ) : Prop := b.apiDynamic.toNat < 2 ^ 31

instance (b : SentBinding φ) : Decidable (BitMark b) := inferInstanceAs (Decidable (_ < _))

theorem readBinding_words {b : SentBinding φ} (mark : BitMark b) (rest : List Text) :
    readBinding .v4 (b.words ++ rest) = some (keptBinding b, rest) := by
  change some (VulkanDispatchBinding.mk (strtoul32 (decimal b.descriptorSet.toNat))
    (strtoul32 (decimal b.binding.toNat)) (strtoll (decimal b.offset.toNat)) (strtoull 10 (decimal b.size.toNat))
    (strtoll (decimal b.apiOffset.toNat)) (strtoull 10 (decimal b.apiRange.toNat))
    (strtoull 10 (decimal b.apiBufferSize.toNat)) (strtoul32 (decimal b.apiDescriptorType.toNat))
    (strtol32 (decimal b.apiDynamic.toNat)) (strtoll (decimal b.apiMemoryOffset.toNat))
    (strtoull 10 (decimal b.apiMemorySize.toNat)) (strtoull 10 (decimal b.apiMemoryId.toNat))
    (strtoull 10 (decimal b.apiBufferId.toNat)), rest) = _
  simp only [decimal, strtoul32_numeral, strtoull_numeral, strtoll_numeral, strtol32_numeral _ mark, keptBinding,
    sentBindingValues]

theorem repeated_words {α β : Type} {read : Reader β} {words : α → List Text} {value : α → β} (list : List α)
    (reads : ∀ each ∈ list, ∀ rest, read (words each ++ rest) = some (value each, rest)) (rest : List Text) :
    repeated read list.length (list.flatMap words ++ rest) = some (list.map value, rest) := by
  induction list with
  | nil => rfl
  | cons first list ih =>
      rw [List.forall_mem_cons] at reads
      rw [List.flatMap_cons, List.append_assoc]
      change (read (words first ++ (list.flatMap words ++ rest)) >>= fun found =>
        repeated read list.length found.2 >>= fun more => some (found.1 :: more.1, more.2)) = _
      rw [reads.1]
      change (repeated read list.length (list.flatMap words ++ rest) >>= fun more =>
        some (value first :: more.1, more.2)) = _
      rw [ih reads.2]
      rfl

theorem hexDecode_hexText (fits : bytes.length ≤ outSize) :
    hexDecode (hexText bytes) outSize = some bytes := by
  rw [hexDecode, length_hexText, if_neg (by omega), hexBytes_hexText]

theorem readBytes_sent (fits : bytes.length ≤ outSize) :
    readBytes (hexOrDash bytes) bytes.length outSize = pure bytes := by
  rw [readBytes, hexOrDash]
  by_cases empty : bytes = []
  · subst empty
    rfl
  · rw [if_neg empty, if_pos (List.length_pos_iff.mpr empty), hexDecode_hexText fits]
    simp only [require, decide_true, if_true, pure_bind]

theorem dash_ne_hexText (bytes : Bytes) : hexText bytes ≠ ['-'] := by
  intro same
  have even := congrArg List.length same
  rw [length_hexText, List.length_singleton] at even
  omega

theorem readEntryName_sent {name : Bytes} (filled : name ≠ [])
    (fits : name.length < PDOCKER_GPU_MAX_VULKAN_ENTRY_NAME) : readEntryName (hexOrDash name) = pure name := by
  rw [readEntryName, hexOrDash, if_neg filled, if_neg fun same => dash_ne_hexText name (eq_of_beq same),
    hexDecode_hexText (Nat.le_sub_one_of_lt fits)]
  simp only [require, decide_eq_true (List.length_pos_iff.mpr filled), if_true, pure_bind]

def allWords (env : Environment) (r : Request φ) : List Text :=
  headWords r ++ (r.specializations.flatMap SpecializationMapEntry.words ++
    (r.bindings.flatMap SentBinding.words ++ (optionWords env ++ [maskWord r.requestedFeatureMask])))

def keptCall (env : Environment) (r : Request φ) : DispatchCall φ :=
  { sentCall env r with bindings := r.bindings.map keptBinding }

theorem strtoull_length {length bound : Nat} (short : length ≤ bound) (small : bound < 2 ^ 64) :
    (strtoull 10 (decimal length)).toNat = length := by
  have narrow : (UInt64.ofNat length).toNat = length := by
    rw [UInt64.toNat_ofNat']
    exact Nat.mod_eq_of_lt (Nat.lt_of_le_of_lt short small)
  rw [decimal, ← narrow, strtoull_numeral, narrow]

def sentHead (r : Request φ) : Head where
  shaderSize := r.shaderSize
  bindingCount := r.bindings.length
  pushSize := r.push.length
  gx := r.x
  gy := r.y
  gz := r.z
  pushHex := hexOrDash r.push
  entryHex := hexOrDash r.entryName
  specializationCount := r.specializations.length
  specializationDataSize := r.specializationData.length
  specializationHex := hexOrDash r.specializationData

theorem readHead_sent (r : Request φ) (rest : List Text) :
    readHead (headWords r ++ rest) = some (sentHead r, rest) := by
  change some (Head.mk (strtoull 10 (decimal r.shaderSize.toNat)) (strtoull 10 (decimal r.bindings.length)).toNat
    (strtoull 10 (decimal r.push.length)).toNat (strtoul32 (decimal r.x.toNat)) (strtoul32 (decimal r.y.toNat))
    (strtoul32 (decimal r.z.toNat)) (hexOrDash r.push) (hexOrDash r.entryName)
    (strtoull 10 (decimal r.specializations.length)).toNat
    (strtoull 10 (decimal r.specializationData.length)).toNat (hexOrDash r.specializationData), rest) = _
  rw [strtoull_length r.bindings_length (by decide), strtoull_length r.push_length (by decide),
    strtoull_length r.specializations_length (by decide), strtoull_length r.data_length (by decide)]
  simp only [decimal, strtoull_numeral, strtoul32_numeral, sentHead]

theorem bind_some {α β : Type} {read : Reader α} {next : α → Reader β} {words rest : List Text} {value : α}
    (reads : read words = some (value, rest)) : (read >>= next) words = next value rest := by
  change (read words >>= fun found => next found.1 found.2) = _
  rw [reads]
  rfl

theorem inBounds_sent (r : Request φ) : (sentHead r).inBounds ((r.bindings.map (·.fd)).length + 1) = true := by
  refine decide_eq_true ⟨?_, r.bindings_length, r.push_length, r.specializations_length, r.data_length, ?_⟩
  · exact Nat.ne_of_gt (List.length_pos_iff.mpr r.bindings_ne_nil)
  · rw [List.length_map, sentHead]
    exact Nat.le_of_eq (Nat.add_comm _ _)

theorem readDispatch_sent (env : Environment) (marks : ∀ b ∈ r.bindings, BitMark b) :
    readDispatch .v4 (r.shaderFd :: r.bindings.map (·.fd)) (allWords env r) = some (keptCall env r, []) := by
  rw [readDispatch, allWords, bind_some (readHead_sent r _)]
  have all : (r.bindings.map (·.fd)).take r.bindings.length = r.bindings.map (·.fd) :=
    List.take_of_length_le (Nat.le_of_eq (List.length_map _))
  have push : readBytes (hexOrDash r.push) r.push.length PDOCKER_GPU_MAX_PUSH_BYTES = pure r.push :=
    readBytes_sent r.push_length
  have data : readBytes (hexOrDash r.specializationData) r.specializationData.length
      PDOCKER_GPU_MAX_VULKAN_SPECIALIZATION_BYTES = pure r.specializationData := readBytes_sent r.data_length
  change readBody .v4 r.shaderFd (r.bindings.map (·.fd)) (sentHead r) _ = _
  rw [readBody, require, if_pos (inBounds_sent r), pure_bind]
  simp only [sentHead]
  rw [push, pure_bind, readEntryName_sent r.entryName_ne_nil r.entryName_length, pure_bind, data, pure_bind,
    bind_some (repeated_words r.specializations (fun each _ rest => readSpecialization_words each rest) _),
    bind_some (repeated_words r.bindings (fun each member rest => readBinding_words (marks each member) rest) _),
    bind_some (readOptions_sent env r.requestedFeatureMask), all]
  rfl

def Printable (word : Text) : Prop := word ≠ [] ∧ ∀ char ∈ word, 33 ≤ char.toNat

instance (word : Text) : Decidable (Printable word) :=
  decidable_of_iff (word ≠ [] ∧ word.all (fun char => decide (33 ≤ char.toNat)) = true) <| by
    simp only [Printable, List.all_eq_true, decide_eq_true_eq]

theorem Printable.append (plainLeft : Printable left) (plainRight : Printable right) :
    Printable (left ++ right) :=
  ⟨List.append_ne_nil_of_left_ne_nil plainLeft.1 _,
    fun _ member => (List.mem_append.mp member).elim (plainLeft.2 _) (plainRight.2 _)⟩

theorem printable_decimal (n : Nat) : Printable (decimal n) := by
  refine ⟨List.ne_nil_of_length_pos (@length_numeral_pos 10 n), fun char member => ?_⟩
  have bounds := digit_facts (isDigit_of_mem (by decide) (by decide) member)
  omega

theorem printable_hexOrDash (bytes : Bytes) : Printable (hexOrDash bytes) := by
  rw [hexOrDash]
  split
  · decide
  rename_i filled
  refine ⟨fun empty => filled (hexText_eq_nil_iff.mp empty), fun char member => ?_⟩
  have digit : digitValue char < 16 := of_decide_eq_true (isDigit_of_mem_hexText member)
  rw [digitValue] at digit
  split at digit
  · omega
  · split at digit
    · omega
    · split at digit <;> omega

theorem printable_bit (value : Bool) : Printable (bit value) := by
  cases value <;> decide

theorem printable_word (assignment : Assignment) : Printable assignment.word := by
  cases assignment with
  | flag flag value =>
      refine Printable.append ?_ (printable_bit value)
      cases flag <;> decide
  | bound bound value =>
      refine Printable.append ?_ (printable_decimal _)
      cases bound <;> decide
  | switch switch value =>
      refine Printable.append ?_ (printable_bit value)
      cases switch <;> decide
  | featureMask value => exact Printable.append (by decide) (printable_decimal _)

theorem printable_allWords (env : Environment) (r : Request φ) : ∀ word ∈ allWords env r, Printable word := by
  intro word member
  rw [allWords, optionWords_eq, List.mem_append, List.mem_append, List.mem_append] at member
  rcases member with head | entry | b | option
  · simp only [headWords, List.mem_cons, List.not_mem_nil, or_false] at head
    rcases head with rfl | rfl | rfl | rfl | rfl | rfl | rfl | rfl | rfl | rfl | rfl
    all_goals first | exact printable_decimal _ | exact printable_hexOrDash _
  · obtain ⟨each, -, inside⟩ := List.mem_flatMap.mp entry
    obtain ⟨n, rfl⟩ : ∃ n, word = decimal n := by
      simp only [SpecializationMapEntry.words, List.mem_cons, List.not_mem_nil, or_false] at inside
      rcases inside with rfl | rfl | rfl <;> exact ⟨_, rfl⟩
    exact printable_decimal n
  · obtain ⟨each, -, inside⟩ := List.mem_flatMap.mp b
    obtain ⟨n, rfl⟩ : ∃ n, word = decimal n := by
      simp only [SentBinding.words, List.mem_cons, List.not_mem_nil, or_false] at inside
      rcases inside with rfl | rfl | rfl | rfl | rfl | rfl | rfl | rfl | rfl | rfl | rfl | rfl | rfl <;>
        exact ⟨_, rfl⟩
    exact printable_decimal n
  · obtain ⟨assignment, -, rfl⟩ := List.mem_map.mp option
    exact printable_word assignment

theorem foldlM_append {pieces : List Text} {start command : Text}
    (fits : pieces.foldlM append start = .ok command) : command = start ++ pieces.flatten := by
  induction pieces generalizing start with
  | nil =>
      obtain rfl := Except.ok.inj fits
      exact (List.append_nil _).symm
  | cons piece pieces ih =>
      rw [List.foldlM_cons, append] at fits
      split at fits
      · exact nomatch fits
      · rw [ih fits, List.flatten_cons, List.append_assoc]

theorem flatten_separated (words : List Text) : (words.map fun word => separated ' ' [word]).flatten = separated ' ' words := by
  induction words with
  | nil => rfl
  | cons word words ih =>
      rw [List.map_cons, List.flatten_cons, ih]
      exact (separated_append ' ' [word] words).symm

theorem flatten_map_separated {α : Type} (list : List α) (words : α → List Text) :
    (list.map fun each => separated ' ' (words each)).flatten = separated ' ' (list.flatMap words) := by
  induction list with
  | nil => rfl
  | cons first list ih =>
      rw [List.map_cons, List.flatten_cons, ih, List.flatMap_cons, separated_append]

theorem flatten_pieces (env : Environment) (r : Request φ) :
    (pieces env r).flatten = "VULKAN_DISPATCH_V4".toList ++ separated ' ' (allWords env r) := by
  rw [pieces, List.flatten_cons, List.flatten_append, List.flatten_append, List.flatten_append, flatten_map_separated,
    flatten_map_separated, flatten_separated, List.flatten_singleton, allWords]
  simp only [separated_append, List.append_assoc]

theorem commandText_eq (written : commandText env r = .ok text) :
    ∃ line, line = "VULKAN_DISPATCH_V4".toList ++ separated ' ' (allWords env r) ∧ text = line ++ ['\n'] ∧
      line.length + 2 < commandSize := by
  rw [commandText] at written
  split at written
  · exact nomatch written
  rename_i command fits
  split at written
  · exact nomatch written
  rename_i short
  obtain rfl := Except.ok.inj written
  refine ⟨command, ?_, rfl, Nat.lt_of_not_le short⟩
  rw [foldlM_append fits, List.nil_append, flatten_pieces]

theorem mem_separated {words : List Text} (plain : ∀ word ∈ words, Printable word) {char : Char}
    (member : char ∈ separated ' ' words) : 32 ≤ char.toNat := by
  obtain ⟨word, inside, member⟩ := List.mem_flatMap.mp member
  rcases List.mem_cons.mp member with rfl | member
  · decide
  · exact Nat.le_of_succ_le ((plain word inside).2 char member)

theorem received_line {line : Text} (fits : line.length + 2 < commandSize) (plain : ∀ char ∈ line, 32 ≤ char.toNat)
    (fds : List φ) : (recvCommandWithFds (line ++ ['\n']) fds).cmd = line := by
  have whole : (line ++ ['\n']).take (PDOCKER_GPU_MAX_COMMAND_BYTES - 1) = line ++ ['\n'] := by
    refine List.take_of_length_le ?_
    rw [List.length_append, List.length_singleton]
    exact Nat.le_of_lt (Nat.lt_sub_of_add_lt fits)
  rw [recvCommandWithFds, whole, List.takeWhile_append_of_pos]
  · exact List.append_nil _
  · intro char member
    have bound := plain char member
    refine decide_eq_true ⟨?_, ?_, ?_⟩ <;> rintro rfl <;> exact absurd bound (by decide)

theorem serveCommand_sent (written : commandText env r = .ok text) (marks : ∀ b ∈ r.bindings, BitMark b) :
    serveCommand (recvCommandWithFds text (r.shaderFd :: r.bindings.map (·.fd))) = .run (keptCall env r) := by
  obtain ⟨line, spelled, rfl, short⟩ := commandText_eq written
  have plainWords := printable_allWords env r
  have plain : ∀ char ∈ line, 32 ≤ char.toNat := by
    intro char member
    rw [spelled, List.mem_append] at member
    rcases member with name | rest
    · have plainName : Printable "VULKAN_DISPATCH_V4".toList := by decide
      exact Nat.le_of_succ_le (plainName.2 char name)
    · exact mem_separated plainWords rest
  have fds : (recvCommandWithFds (line ++ ['\n']) (r.shaderFd :: r.bindings.map (·.fd))).passedFds =
      r.shaderFd :: r.bindings.map (·.fd) := by
    refine List.take_of_length_le ?_
    rw [List.length_cons, List.length_map]
    exact Nat.le_trans (Nat.succ_le_succ r.bindings_length) (by decide)
  obtain ⟨first, words, listed⟩ : ∃ first words, allWords env r = first :: words := ⟨_, _, rfl⟩
  have behind : line.drop 19 = first ++ separated ' ' words := by
    rw [spelled, listed]
    rfl
  have version : dispatchVersion line = some .v4 := by
    rw [spelled, listed]
    rfl
  have split : tokens ' ' (line.drop 19) = allWords env r := by
    rw [behind, listed]
    refine tokens_separated fun word member => ?_
    have printable := plainWords word (listed ▸ member)
    exact ⟨printable.1, fun space => absurd (printable.2 _ space) (by decide)⟩
  rw [serveCommand, received_line short plain, version, fds]
  simp only [split, readDispatch_sent env marks]

theorem bitMark_sentBinding (fdOf : MemoryId → φ) (b : Vulkan.RequestBinding) : BitMark (sentBinding fdOf b) := by
  rw [BitMark]
  change (if b.apiDynamic then (1 : UInt32) else 0).toNat < 2 ^ 31
  cases b.apiDynamic <;> decide

theorem request_bindings {copyAliasEnabled : Bool} {heap : Heap} {fdOf : MemoryId → φ} {op : DispatchOp φ}
    (made : request copyAliasEnabled heap fdOf op = .ok r) :
    r.bindings = (Vulkan.requestBindings copyAliasEnabled heap op.sets).map (sentBinding fdOf) := by
  rw [request] at made
  split at made
  · exact nomatch made
  split at made
  · exact nomatch made
  split at made
  · exact nomatch made
  simp only at made
  split_ifs at made
  injection made with same
  rw [← same]

theorem keptCall_eq_iff (env : Environment) (r : Request φ) :
    keptCall env r = sentCall env r ↔ ∀ b ∈ r.bindings, FileOffsets b := by
  have bindings : keptCall env r = sentCall env r ↔ r.bindings.map keptBinding = r.bindings.map sentBindingValues := by
    constructor
    · intro same
      exact congrArg DispatchCall.bindings same
    · intro same
      rw [keptCall, same]
      rfl
  rw [bindings, List.map_inj_left]
  exact forall₂_congr fun b _ => keptBinding_eq_iff b

/-- Either nothing is sent and an error returned, or the executor runs the dispatch with the
values of the driver, as long as these keep to file offsets. -/
theorem sendGenericVulkanDispatchOp_readBack (env : Environment) (queue : Queue φ) (heap : Heap)
    (fdOf : MemoryId → φ) (op : DispatchOp φ) :
    (∃ errno, sendGenericVulkanDispatchOp env queue heap fdOf op = ⟨.error errno, none⟩) ∨
      ∃ r message, request (copyAliasEnabled env) heap fdOf op = .ok r ∧
        (sendGenericVulkanDispatchOp env queue heap fdOf op).sent = some message ∧
        (serveCommand (recvCommandWithFds message.text message.fds) = .run (sentCall env r) ↔
          ∀ b ∈ r.bindings, FileOffsets b) := by
  rw [sendGenericVulkanDispatchOp]
  cases made : request (copyAliasEnabled env) heap fdOf op with
  | error errno => exact .inl ⟨errno, rfl⟩
  | ok r =>
      cases written : commandText env r with
      | error errno => exact .inl ⟨errno, by simp only [written]⟩
      | ok text =>
          cases connected : queue.connectQueue with
          | error errno => exact .inl ⟨errno, by simp only [written]⟩
          | ok connection =>
              have marks : ∀ b ∈ r.bindings, BitMark b := by
                rw [request_bindings made]
                exact List.forall_mem_map.mpr fun b _ => bitMark_sentBinding fdOf b
              refine .inr ⟨r, ⟨text, _⟩, rfl, by simp only [written]; rfl, ?_⟩
              rw [serveCommand_sent written marks, Outcome.run.injEq, keptCall_eq_iff]

/-! A buffer that begins at the offset `2 ^ 63` of its memory is read as one that begins one
byte before. -/

def farHeap : Heap where
  memories := fun _ => some ⟨2 ^ 63 + 4096, true⟩
  buffers := fun _ => some ⟨4096, some 0, 2 ^ 63, []⟩
  bytes := fun _ _ => 0

def farOp : DispatchOp Nat where
  pipeline :=
    some
      { shader := some ⟨some 3, 64⟩
        layout := none
        requestedFeatureMask := 0
        entryName := []
        specializationEntries := []
        specializationData := []
        specializationTooLarge := false
        entryName_length := by decide
        entries_length := by decide
        data_length := by decide }
  sets := fun set =>
    if set = 0 then
      some fun slot => if slot = 0 then ⟨some 0, 0, 4096, .storageBuffer, false⟩ else {}
    else none
  x := 1
  y := 1
  z := 1
  pushConstants := fun _ => 0
  pushConstantSize := 0

def openQueue : Queue Nat := ⟨.ok (), fun _ => .ok ()⟩

def farRequest : Request Nat where
  shaderFd := 3
  shaderSize := 64
  bindings := [⟨4, 0, 0, 9223372036854775808, 4096, 0, 4096, 4096, 7, 0, 9223372036854775808, 9223372036854779904, 0, 0⟩]
  push := []
  x := 1
  y := 1
  z := 1
  entryName := defaultEntry
  specializations := []
  specializationData := []
  requestedFeatureMask := 0
  bindings_ne_nil := by decide
  bindings_length := by decide
  push_length := by decide
  entryName_ne_nil := by decide
  entryName_length := by decide
  specializations_length := by decide
  data_length := by decide

theorem request_farOp : request false farHeap (fun _ => 4) farOp = .ok farRequest := rfl

set_option maxRecDepth 4096 in
theorem commandText_farRequest : (commandText (fun _ => none) farRequest).isOk = true := by decide

theorem far_offset_misread :
    ∃ message call,
      (sendGenericVulkanDispatchOp (fun _ => none) openQueue farHeap (fun _ => 4) farOp).sent = some message ∧
      serveCommand (recvCommandWithFds message.text message.fds) = .run call ∧
      farRequest.bindings.map (fun b => (b.offset.toNat : Int)) = [2 ^ 63] ∧
      call.bindings.map (·.offset) = [2 ^ 63 - 1] ∧ call ≠ sentCall (fun _ => none) farRequest := by
  cases written : commandText (fun _ => none) farRequest with
  | error errno =>
      have sent := commandText_farRequest
      rw [written] at sent
      exact nomatch sent
  | ok text =>
      refine ⟨⟨text, [3, 4]⟩, keptCall (fun _ => none) farRequest, ?_, serveCommand_sent written (by decide), by decide,
        by decide, ?_⟩
      · have made : request (copyAliasEnabled fun _ => none) farHeap (fun _ => 4) farOp = .ok farRequest :=
          request_farOp
        rw [sendGenericVulkanDispatchOp, made]
        simp only [written]
        rfl
      · intro same
        exact absurd ((keptCall_eq_iff _ farRequest).mp same) (by decide)

end PDocker.Gpu.Command
