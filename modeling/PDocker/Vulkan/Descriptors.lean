import PDocker.Vulkan.Memory

/-!
# Descriptor sets

A set keeps sixteen slots. A write or a copy of an array element goes to the slot whose number
is the binding plus the element, and binding a set to a command buffer copies its slots and
moves the dynamic ones by the offsets given with the call.
-/

set_option autoImplicit false

namespace PDocker.Vulkan

abbrev SetId := Nat

/-- `sampler` is the type of a slot that nothing has written: its number is zero. -/
inductive VkDescriptorType where
  | sampler
  | storageBuffer
  | storageBufferDynamic
  | other (number : Nat)
deriving DecidableEq, Repr

structure DescriptorBinding where
  buffer : Option BufferId := none
  offset : Nat := 0
  range : Nat := 0
  descriptorType : VkDescriptorType := .sampler
  dynamic : Bool := false
deriving DecidableEq, Repr

/-- `storage_buffers`, by slot number; the slots from sixteen on are never written. -/
abbrev DescriptorSet := Nat → DescriptorBinding

/-- `bound_set_snapshots` with `bound_set_used`. -/
abbrev BoundSets := Nat → Option DescriptorSet

def DescriptorSet.fresh : DescriptorSet := fun _ => {}

structure DescriptorBufferInfo where
  buffer : BufferId
  offset : Nat
  range : Nat
deriving DecidableEq, Repr

/-- `descriptorCount` is the length of `bufferInfo`. -/
structure WriteDescriptorSet where
  dstSet : SetId
  dstBinding : Nat
  dstArrayElement : Nat
  descriptorType : VkDescriptorType
  bufferInfo : List DescriptorBufferInfo
deriving Repr

structure CopyDescriptorSet where
  srcSet : SetId
  srcBinding : Nat
  srcArrayElement : Nat
  dstSet : SetId
  dstBinding : Nat
  dstArrayElement : Nat
  descriptorCount : Nat
deriving Repr

def VkDescriptorType.isStorage (type : VkDescriptorType) : Bool :=
  type = .storageBuffer || type = .storageBufferDynamic

def writtenBinding (type : VkDescriptorType) (info : DescriptorBufferInfo) : DescriptorBinding :=
  ⟨some info.buffer, info.offset, info.range, type, type = .storageBufferDynamic⟩

def writeSlots (type : VkDescriptorType) : Nat → List DescriptorBufferInfo → DescriptorSet → DescriptorSet
  | _, [], set => set
  | binding, info :: infos, set =>
      writeSlots type (binding + 1) infos
        (if binding < PDOCKER_VK_MAX_STORAGE_BUFFERS then
          Function.update set binding (writtenBinding type info)
        else set)

def writeDescriptor (sets : SetId → Option DescriptorSet) (w : WriteDescriptorSet) :
    SetId → Option DescriptorSet :=
  match sets w.dstSet with
  | none => sets
  | some set =>
      if w.descriptorType.isStorage then
        Function.update sets w.dstSet
          (some (writeSlots w.descriptorType (w.dstBinding + w.dstArrayElement) w.bufferInfo set))
      else sets

def copySlot (c : CopyDescriptorSet) (sets : SetId → Option DescriptorSet) (j : Nat) :
    SetId → Option DescriptorSet :=
  match sets c.srcSet, sets c.dstSet with
  | some src, some dst =>
      if PDOCKER_VK_MAX_STORAGE_BUFFERS ≤ c.srcBinding + c.srcArrayElement + j ∨
          PDOCKER_VK_MAX_STORAGE_BUFFERS ≤ c.dstBinding + c.dstArrayElement + j then sets
      else
        Function.update sets c.dstSet
          (some (Function.update dst (c.dstBinding + c.dstArrayElement + j)
            (src (c.srcBinding + c.srcArrayElement + j))))
  | _, _ => sets

def copyDescriptor (sets : SetId → Option DescriptorSet) (c : CopyDescriptorSet) :
    SetId → Option DescriptorSet :=
  (List.range c.descriptorCount).foldl (copySlot c) sets

def vkUpdateDescriptorSets (sets : SetId → Option DescriptorSet) (writes : List WriteDescriptorSet)
    (copies : List CopyDescriptorSet) : SetId → Option DescriptorSet :=
  copies.foldl copyDescriptor (writes.foldl writeDescriptor sets)

def DescriptorBinding.movedBy (slot : DescriptorBinding) (dynamicOffset : Nat) : DescriptorBinding :=
  { slot with offset := slot.offset + dynamicOffset }

def rebaseSlot (dynamicOffsets : List Nat) (state : DescriptorSet × Nat) (binding : Nat) :
    DescriptorSet × Nat :=
  if (state.1 binding).dynamic then
    (Function.update state.1 binding ((state.1 binding).movedBy (dynamicOffsets.getD state.2 0)),
      state.2 + 1)
  else state

def rebaseSet (dynamicOffsets : List Nat) (set : DescriptorSet) (dynamicIndex : Nat) :
    DescriptorSet × Nat :=
  (List.range PDOCKER_VK_MAX_STORAGE_BUFFERS).foldl (rebaseSlot dynamicOffsets) (set, dynamicIndex)

/-- The sets from `targetSet` on; the set handles may be null. -/
def bindSets (sets : SetId → Option DescriptorSet) (dynamicOffsets : List Nat) :
    Nat → List (Option SetId) → Nat → BoundSets → BoundSets
  | _, [], _, bound => bound
  | targetSet, handle :: handles, dynamicIndex, bound =>
      if PDOCKER_VK_MAX_DESCRIPTOR_SETS ≤ targetSet then bound
      else
        match handle.bind sets with
        | none => bindSets sets dynamicOffsets (targetSet + 1) handles dynamicIndex bound
        | some set =>
            let rebased := rebaseSet dynamicOffsets set dynamicIndex
            bindSets sets dynamicOffsets (targetSet + 1) handles rebased.2
              (Function.update bound targetSet (some rebased.1))

def descriptorBindingSize (heap : Heap) (binding : DescriptorBinding) : Nat :=
  match binding.buffer.bind heap.buffers with
  | none => 0
  | some buffer =>
      if buffer.size < binding.offset then 0
      else if binding.range = VK_WHOLE_SIZE then buffer.size - binding.offset
      else min binding.range (buffer.size - binding.offset)

structure RequestBinding where
  descriptorSet : Nat
  binding : Nat
  memory : MemoryId
  offset : Nat
  size : Nat
  apiOffset : Nat
  apiRange : Nat
  apiBufferSize : Nat
  apiDescriptorType : VkDescriptorType
  apiDynamic : Bool
  apiMemoryOffset : Nat
  apiMemorySize : Nat
  apiBuffer : BufferId
deriving DecidableEq, Repr

/-- `none` where the slot is skipped. -/
def requestBinding (copyAliasEnabled : Bool) (heap : Heap) (set : Nat) (slot : Nat)
    (binding : DescriptorBinding) : Option RequestBinding :=
  match binding.buffer with
  | none => none
  | some id =>
      match heap.buffers id with
      | none => none
      | some buffer =>
          match buffer.memory with
          | none => none
          | some memory =>
              let bytes := descriptorBindingSize heap binding
              if bytes = 0 then none
              else
                let inMemory := (memory, buffer.memoryOffset + binding.offset)
                let dispatched :=
                  if copyAliasEnabled then
                    (resolveCopyAlias buffer binding.offset bytes).getD inMemory
                  else inMemory
                some
                  { descriptorSet := set
                    binding := slot
                    memory := dispatched.1
                    offset := dispatched.2
                    size := bytes
                    apiOffset := binding.offset
                    apiRange := binding.range
                    apiBufferSize := buffer.size
                    apiDescriptorType := binding.descriptorType
                    apiDynamic := binding.dynamic
                    apiMemoryOffset := buffer.memoryOffset
                    apiMemorySize := ((heap.memories dispatched.1).map (·.size)).getD 0
                    apiBuffer := id }

def requestBindings (copyAliasEnabled : Bool) (heap : Heap) (bound : BoundSets) : List RequestBinding :=
  (List.range PDOCKER_VK_MAX_DESCRIPTOR_SETS).flatMap fun set =>
    match bound set with
    | none => []
    | some slots =>
        (List.range PDOCKER_VK_MAX_STORAGE_BUFFERS).filterMap fun slot =>
          requestBinding copyAliasEnabled heap set slot (slots slot)

@[simp] theorem requestBinding_fresh (copyAliasEnabled : Bool) (heap : Heap) (set slot : Nat) :
    requestBinding copyAliasEnabled heap set slot {} = none := rfl

end PDocker.Vulkan
