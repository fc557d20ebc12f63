import PDocker.Vulkan.Descriptors

/-!
# Command buffers

Recording appends to three bounded arrays: the copies, the dispatches and the ordered list that
refers to them. `vkQueueSubmit` replays the ordered list.
-/

set_option autoImplicit false

namespace PDocker.Vulkan

open Regions

structure ShaderModule where
  codeSize : Nat
  codeFd : Int
deriving DecidableEq, Repr

structure SpecializationMapEntry where
  constantId : Nat
  offset : Nat
  size : Nat
deriving DecidableEq, Repr

structure Pipeline where
  shader : Option ShaderModule
  layout : Option Nat
  localSizeX : Nat
  entryName : String
  specializationEntries : List SpecializationMapEntry
  specializationData : List UInt8
  specializationTooLarge : Bool
deriving DecidableEq, Repr

structure DispatchOp where
  pipeline : Option Pipeline
  sets : BoundSets
  x : Nat
  y : Nat
  z : Nat
  pushConstants : Nat → UInt8
  pushConstantSize : Nat

/-- The index is one into `copyOps` or `dispatchOps`. -/
inductive CommandOp where
  | copy (index : Nat)
  | fill (buffer : BufferId) (offset size : Nat) (data : UInt32)
  | update (buffer : BufferId) (offset : Nat) (payload : List UInt8)
  | dispatch (index : Nat)
  | barrier
deriving DecidableEq

structure CommandBuffer where
  pipeline : Option Pipeline
  boundSets : BoundSets
  copyOps : List CopyOp
  dispatchOps : List DispatchOp
  commandOps : List CommandOp
  dispatchX : Nat
  dispatchY : Nat
  dispatchZ : Nat
  pushConstants : Nat → UInt8
  pushConstantSize : Nat
  hasDispatch : Bool
  unsupportedDescriptorSetLayout : Bool

/-- What `vkBeginCommandBuffer` leaves of any command buffer. -/
def vkBeginCommandBuffer : CommandBuffer where
  pipeline := none
  boundSets _ := none
  copyOps := []
  dispatchOps := []
  commandOps := []
  dispatchX := 0
  dispatchY := 0
  dispatchZ := 0
  pushConstants _ := 0
  pushConstantSize := 0
  hasDispatch := false
  unsupportedDescriptorSetLayout := false

namespace CommandBuffer

def appendCommandOp (cmd : CommandBuffer) (op : CommandOp) : CommandBuffer :=
  if PDOCKER_VK_MAX_COMMAND_OPS ≤ cmd.commandOps.length then cmd
  else { cmd with commandOps := cmd.commandOps ++ [op] }

def vkCmdBindPipeline (cmd : CommandBuffer) (pipeline : Option Pipeline) : CommandBuffer :=
  { cmd with pipeline := pipeline }

/-- `sets` is what the handles hold when the call is made. -/
def vkCmdBindDescriptorSets (cmd : CommandBuffer) (sets : SetId → Option DescriptorSet) (firstSet : Nat)
    (handles : List (Option SetId)) (dynamicOffsets : List Nat) : CommandBuffer :=
  if handles = [] then cmd
  else
    { cmd with
      unsupportedDescriptorSetLayout :=
        cmd.unsupportedDescriptorSetLayout ||
          decide (PDOCKER_VK_MAX_DESCRIPTOR_SETS < firstSet + handles.length)
      boundSets := bindSets sets dynamicOffsets firstSet handles 0 cmd.boundSets }

def overwrite (bytes : Nat → UInt8) (offset : Nat) (values : List UInt8) : Nat → UInt8 :=
  fun position =>
    if offset ≤ position ∧ position < offset + values.length then values.getD (position - offset) 0
    else bytes position

def vkCmdPushConstants (cmd : CommandBuffer) (offset : Nat) (values : List UInt8) : CommandBuffer :=
  if PDOCKER_VK_MAX_PUSH_BYTES ≤ offset then cmd
  else
    let kept := values.take (PDOCKER_VK_MAX_PUSH_BYTES - offset)
    { cmd with
      pushConstants := overwrite cmd.pushConstants offset kept
      pushConstantSize := max cmd.pushConstantSize (offset + kept.length) }

def vkCmdDispatch (cmd : CommandBuffer) (x y z : Nat) : CommandBuffer :=
  let cmd := { cmd with dispatchX := x, dispatchY := y, dispatchZ := z, hasDispatch := true }
  if cmd.dispatchOps.length < PDOCKER_VK_MAX_DISPATCH_OPS then
    let op : DispatchOp :=
      { pipeline := cmd.pipeline
        sets := cmd.boundSets
        x := x
        y := y
        z := z
        pushConstants := cmd.pushConstants
        pushConstantSize := max cmd.pushConstantSize ((cmd.pipeline.bind (·.layout)).getD 0) }
    appendCommandOp { cmd with dispatchOps := cmd.dispatchOps ++ [op] } (.dispatch cmd.dispatchOps.length)
  else cmd

def vkCmdPipelineBarrier (cmd : CommandBuffer) : CommandBuffer := cmd.appendCommandOp .barrier

def copyRegion (src dst : BufferId) (cmd : CommandBuffer) (region : VkBufferCopy) : CommandBuffer :=
  if cmd.copyOps.length < PDOCKER_VK_MAX_COPY_OPS then
    appendCommandOp { cmd with copyOps := cmd.copyOps ++ [⟨src, dst, region⟩] } (.copy cmd.copyOps.length)
  else cmd

def bound (heap : Heap) (id : BufferId) : Option VkBuffer :=
  (heap.buffers id).filter (·.memory.isSome)

def vkCmdCopyBuffer (heap : Heap) (cmd : CommandBuffer) (src dst : BufferId)
    (regions : List VkBufferCopy) : CommandBuffer :=
  match bound heap src, bound heap dst with
  | some _, some _ => regions.foldl (copyRegion src dst) cmd
  | _, _ => cmd

def vkCmdFillBuffer (heap : Heap) (cmd : CommandBuffer) (dst : BufferId) (offset size : Nat)
    (data : UInt32) : CommandBuffer :=
  match bound heap dst with
  | none => cmd
  | some buffer =>
      let available := bufferAvailable heap buffer offset
      let bytes := min (if size = VK_WHOLE_SIZE then available else size) available
      if bytes = 0 then cmd else cmd.appendCommandOp (.fill dst offset bytes data)

/-- `allocated` is the outcome of the call's `malloc`. -/
def vkCmdUpdateBuffer (heap : Heap) (cmd : CommandBuffer) (dst : BufferId) (offset : Nat)
    (data : List UInt8) (allocated : Bool) : CommandBuffer :=
  match bound heap dst with
  | none => cmd
  | some buffer =>
      let payload := data.take (bufferAvailable heap buffer offset)
      if (bufferPtr heap buffer offset payload.length).isNone ∨ payload = [] then cmd
      else if allocated then cmd.appendCommandOp (.update dst offset payload)
      else cmd

end CommandBuffer

inductive Call where
  | bindPipeline (pipeline : Option Pipeline)
  | bindDescriptorSets (sets : SetId → Option DescriptorSet) (firstSet : Nat)
      (handles : List (Option SetId)) (dynamicOffsets : List Nat)
  | pushConstants (offset : Nat) (values : List UInt8)
  | dispatch (x y z : Nat)
  | pipelineBarrier
  | copyBuffer (src dst : BufferId) (regions : List VkBufferCopy)
  | fillBuffer (dst : BufferId) (offset size : Nat) (data : UInt32)
  | updateBuffer (dst : BufferId) (offset : Nat) (data : List UInt8) (allocated : Bool)

def CommandBuffer.record (heap : Heap) (cmd : CommandBuffer) : Call → CommandBuffer
  | .bindPipeline pipeline => cmd.vkCmdBindPipeline pipeline
  | .bindDescriptorSets sets firstSet handles dynamicOffsets =>
      cmd.vkCmdBindDescriptorSets sets firstSet handles dynamicOffsets
  | .pushConstants offset values => cmd.vkCmdPushConstants offset values
  | .dispatch x y z => cmd.vkCmdDispatch x y z
  | .pipelineBarrier => cmd.vkCmdPipelineBarrier
  | .copyBuffer src dst regions => cmd.vkCmdCopyBuffer heap src dst regions
  | .fillBuffer dst offset size data => cmd.vkCmdFillBuffer heap dst offset size data
  | .updateBuffer dst offset data allocated => cmd.vkCmdUpdateBuffer heap dst offset data allocated

structure Request where
  shader : ShaderModule
  bindings : List RequestBinding
  pushSize : Nat
  push : List UInt8
  x : Nat
  y : Nat
  z : Nat
  entryName : String
  specializationEntries : List SpecializationMapEntry
  specializationData : List UInt8

inductive Errno where
  | einval
  | e2big
  /-- The queue cannot be reached, the command is too long, or the executor's answer is not valid. -/
  | transmission
deriving DecidableEq, Repr

def orOne (count : Nat) : Nat := if count = 0 then 1 else count

/-- The request that `send_generic_vulkan_dispatch_op` makes of a dispatch. -/
def dispatchRequest (copyAliasEnabled : Bool) (heap : Heap) (op : DispatchOp) : Except Errno Request :=
  match op.pipeline with
  | none => .error .einval
  | some pipeline =>
      match pipeline.shader with
      | none => .error .einval
      | some shader =>
          let bindings := requestBindings copyAliasEnabled heap op.sets
          let pushSize := max op.pushConstantSize (pipeline.layout.getD 0)
          if shader.codeFd < 0 ∨ shader.codeSize = 0 then .error .einval
          else if PDOCKER_VK_MAX_STORAGE_BUFFERS < bindings.length then .error .e2big
          else if bindings = [] then .error .einval
          else if PDOCKER_VK_MAX_PUSH_BYTES < pushSize then .error .e2big
          else if pipeline.specializationTooLarge then .error .e2big
          else
            .ok
              { shader := shader
                bindings := bindings
                pushSize := pushSize
                push := (List.range pushSize).map op.pushConstants
                x := op.x
                y := orOne op.y
                z := orOne op.z
                entryName := if pipeline.entryName = "" then "main" else pipeline.entryName
                specializationEntries := pipeline.specializationEntries
                specializationData := pipeline.specializationData }

structure Executor where
  answers : Request → Memory MemoryId UInt8 → Bool
  kernel : Request → Memory MemoryId UInt8 → Memory MemoryId UInt8
  vectorAdd : Nat → MemoryId → MemoryId → MemoryId → Memory MemoryId UInt8 →
    Option (Memory MemoryId UInt8)

/-- The executor dispatches one group where a count is zero. -/
def Executor.run (executor : Executor) (request : Request) (bytes : Memory MemoryId UInt8) :
    Memory MemoryId UInt8 :=
  executor.kernel
    { request with x := orOne request.x, y := orOne request.y, z := orOne request.z } bytes

def sendGenericVulkanDispatchOp (executor : Executor) (copyAliasEnabled : Bool) (op : DispatchOp)
    (heap : Heap) : Except Errno Heap :=
  match dispatchRequest copyAliasEnabled heap op with
  | .error errno => .error errno
  | .ok request =>
      if executor.answers request heap.bytes then
        .ok { heap with bytes := executor.run request heap.bytes }
      else .error .transmission

inductive VkResult where
  | success
  | featureNotPresent
  | memoryMapFailed
  | deviceLost
deriving DecidableEq, Repr

def VkResult.andThen (result : VkResult × Heap) (next : Heap → VkResult × Heap) : VkResult × Heap :=
  match result.1 with
  | .success => next result.2
  | _ => result

def DispatchOp.hasShader (op : DispatchOp) : Bool :=
  (op.pipeline.bind (·.shader)).any fun shader => decide (4 < shader.codeSize)

def submitDispatch (executor : Executor) (copyAliasEnabled : Bool) (op : DispatchOp) (heap : Heap) :
    VkResult × Heap :=
  match sendGenericVulkanDispatchOp executor copyAliasEnabled op heap with
  | .ok heap => (.success, heap)
  | .error _ => (.featureNotPresent, heap)

def replayCommandOp (executor : Executor) (copyAliasEnabled : Bool) (cmd : CommandBuffer) (op : CommandOp)
    (heap : Heap) : VkResult × Heap :=
  match op with
  | .copy index =>
      match cmd.copyOps[index]? with
      | none => (.success, heap)
      | some op => (.success, executeRecordedCopyOp copyAliasEnabled heap op)
  | .fill buffer offset size data => (.success, executeRecordedFillOp heap buffer offset size data)
  | .update buffer offset payload => (.success, executeRecordedUpdateOp heap buffer offset payload)
  | .dispatch index =>
      match cmd.dispatchOps[index]? with
      | none => (.success, heap)
      | some op =>
          if op.hasShader then submitDispatch executor copyAliasEnabled op heap
          else (.featureNotPresent, heap)
  | .barrier => (.success, heap)

def replayCommandOps (executor : Executor) (copyAliasEnabled : Bool) (cmd : CommandBuffer) :
    List CommandOp → Heap → VkResult × Heap
  | [], heap => (.success, heap)
  | op :: ops, heap =>
      VkResult.andThen (replayCommandOp executor copyAliasEnabled cmd op heap)
        (replayCommandOps executor copyAliasEnabled cmd ops)

def submitDispatches (executor : Executor) (copyAliasEnabled : Bool) :
    List DispatchOp → Heap → VkResult × Heap
  | [], heap => (.success, heap)
  | op :: ops, heap =>
      VkResult.andThen (submitDispatch executor copyAliasEnabled op heap)
        (submitDispatches executor copyAliasEnabled ops)

def CommandBuffer.lastDispatch (cmd : CommandBuffer) : DispatchOp where
  pipeline := cmd.pipeline
  sets := cmd.boundSets
  x := cmd.dispatchX
  y := cmd.dispatchY
  z := cmd.dispatchZ
  pushConstants := cmd.pushConstants
  pushConstantSize := cmd.pushConstantSize

def legacyMemory (heap : Heap) (set : DescriptorSet) (slot : Nat) : Option MemoryId :=
  ((set slot).buffer.bind heap.buffers).bind (·.memory)

def submitVectorAdd (executor : Executor) (cmd : CommandBuffer) (heap : Heap) : VkResult × Heap :=
  match cmd.boundSets 0 with
  | none => (.featureNotPresent, heap)
  | some set =>
      if (set 0).buffer.isNone ∨ (set 1).buffer.isNone ∨ (set 2).buffer.isNone then
        (.featureNotPresent, heap)
      else
        match legacyMemory heap set 0, legacyMemory heap set 1, legacyMemory heap set 2 with
        | some a, some b, some out =>
            let floats (slot : Nat) := descriptorBindingSize heap (set slot) / 4
            let n := min (min (floats 0) (floats 1)) (floats 2)
            let dispatched := cmd.dispatchX * (cmd.pipeline.map (·.localSizeX)).getD 0
            let n := if dispatched = 0 then n else min n dispatched
            match executor.vectorAdd n a b out heap.bytes with
            | some bytes => (.success, { heap with bytes := bytes })
            | none => (.deviceLost, heap)
        | _, _, _ => (.memoryMapFailed, heap)

def submitUnordered (executor : Executor) (copyAliasEnabled : Bool) (cmd : CommandBuffer) (heap : Heap) :
    VkResult × Heap :=
  let heap := cmd.copyOps.foldl (executeRecordedCopyOp copyAliasEnabled) heap
  if !cmd.hasDispatch then (.success, heap)
  else if !cmd.dispatchOps.isEmpty && cmd.dispatchOps.all (·.hasShader) then
    submitDispatches executor copyAliasEnabled cmd.dispatchOps heap
  else if cmd.lastDispatch.hasShader then
    submitDispatch executor copyAliasEnabled cmd.lastDispatch heap
  else submitVectorAdd executor cmd heap

def submitCommandBuffer (executor : Executor) (copyAliasEnabled : Bool) (cmd : CommandBuffer)
    (heap : Heap) : VkResult × Heap :=
  if cmd.unsupportedDescriptorSetLayout then (.featureNotPresent, heap)
  else if cmd.commandOps = [] then submitUnordered executor copyAliasEnabled cmd heap
  else replayCommandOps executor copyAliasEnabled cmd cmd.commandOps heap

def vkQueueSubmit (executor : Executor) (copyAliasEnabled : Bool) : List CommandBuffer → Heap → VkResult × Heap
  | [], heap => (.success, heap)
  | cmd :: cmds, heap =>
      VkResult.andThen (submitCommandBuffer executor copyAliasEnabled cmd heap)
        (vkQueueSubmit executor copyAliasEnabled cmds)

end PDocker.Vulkan
