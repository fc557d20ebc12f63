import Mathlib.Data.List.FinRange
import PDocker.Vulkan.Memory

/-!
# Ranges in 64 bits

The sizes and offsets of the driver as the machine words that they are: what is created, bound, recorded and
submitted, and every range of a memory object that is read, written or sent on the way.
-/

set_option autoImplicit false

namespace PDocker.Vulkan.Ranges

abbrev DeviceSize := BitVec 64

def wholeSize : DeviceSize := BitVec.allOnes 64
def requirementAlignment : DeviceSize := 16
def maxPushBytes : BitVec 32 := 256

structure CopyAlias where
  srcMemory : Nat
  srcOffset : DeviceSize
  dstOffset : DeviceSize
  size : DeviceSize

structure Buffer where
  size : DeviceSize
  requirementsSize : DeviceSize
  memory : Option Nat
  memoryOffset : DeviceSize
  aliases : List CopyAlias

structure Heap where
  memories : List DeviceSize
  buffers : List Buffer

structure Access where
  buffer : Nat
  memory : Nat
  offset : DeviceSize
  length : DeviceSize

/-- What happens to memory objects, with the heap before the command, and to the array of push constants. -/
inductive Event where
  | access (heap : Heap) (access : Access)
  | pushWrite (offset length : BitVec 32)
  | pushRead (length : BitVec 32)

structure Config where
  maxBufferSize : DeviceSize
  copyAliasEnabled : Bool

def alignDeviceSize (value alignment : DeviceSize) : DeviceSize :=
  if alignment = 0 then value
  else if value % alignment = 0 then value
  else value + alignment - value % alignment

namespace Heap

variable (heap : Heap)

def setBuffer (id : Nat) (buffer : Buffer) : Heap := { heap with buffers := heap.buffers.set id buffer }

def vkCreateBuffer (config : Config) (size : DeviceSize) : Heap :=
  if size = 0 ∨ config.maxBufferSize < size then heap
  else
    { heap with
      buffers := heap.buffers ++ [⟨size, alignDeviceSize size requirementAlignment, none, 0, []⟩] }

/-- `maps` says whether the file can be made and mapped. -/
def vkAllocateMemory (config : Config) (size : DeviceSize) (maps : Bool) : Heap :=
  if size = 0 ∨ config.maxBufferSize < size ∨ maps = false then heap
  else { heap with memories := heap.memories ++ [size] }

def vkBindBufferMemory (id memory : Nat) (memoryOffset : DeviceSize) : Heap :=
  match heap.buffers[id]?, heap.memories[memory]? with
  | some buffer, some size =>
      let needed :=
        if buffer.requirementsSize = 0 then alignDeviceSize buffer.size requirementAlignment
        else buffer.requirementsSize
      if memoryOffset % requirementAlignment ≠ 0 ∨ size < memoryOffset ∨ size - memoryOffset < needed then heap
      else heap.setBuffer id { buffer with memory := some memory, memoryOffset := memoryOffset }
  | _, _ => heap

def bufferAvailable (buffer : Buffer) (offset : DeviceSize) : DeviceSize :=
  match buffer.memory.bind (heap.memories[·]?) with
  | none => 0
  | some size =>
      if buffer.size < offset then 0
      else
        let absolute := buffer.memoryOffset + offset
        if size < absolute then 0
        else if size - absolute < buffer.size - offset then size - absolute
        else buffer.size - offset

def bufferPtr (id : Nat) (offset bytes : DeviceSize) : Option (Nat × DeviceSize) :=
  match heap.buffers[id]? with
  | none => none
  | some buffer =>
      match buffer.memory with
      | none => none
      | some memory =>
          if heap.bufferAvailable buffer offset < bytes then none else some (memory, buffer.memoryOffset + offset)

end Heap

def rangesOverlap (aOffset aSize bOffset bSize : DeviceSize) : Bool :=
  if aSize = 0 ∨ bSize = 0 then false
  else decide (aOffset < bOffset + bSize) && decide (bOffset < aOffset + aSize)

def CopyAlias.covers (entry : CopyAlias) (offset size : DeviceSize) : Bool :=
  !decide (offset < entry.dstOffset) && !decide (entry.size < offset - entry.dstOffset) &&
    !decide (entry.size - (offset - entry.dstOffset) < size)

def resolveCopyAlias (buffer : Buffer) (offset size : DeviceSize) : Option (Nat × DeviceSize) :=
  (buffer.aliases.find? (·.covers offset size)).map fun entry =>
    (entry.srcMemory, entry.srcOffset + (offset - entry.dstOffset))

def remainingAliases (aliases : List CopyAlias) (offset size : DeviceSize) : List CopyAlias :=
  aliases.filter fun entry => !rangesOverlap offset size entry.dstOffset entry.size

namespace Heap

variable (heap : Heap)

def invalidateCopyAliases (id : Nat) (offset size : DeviceSize) : Heap :=
  match heap.buffers[id]? with
  | none => heap
  | some buffer => heap.setBuffer id { buffer with aliases := remainingAliases buffer.aliases offset size }

def addCopyAlias (id : Nat) (entry : CopyAlias) : Heap :=
  match heap.buffers[id]? with
  | none => heap
  | some buffer =>
      if entry.size = 0 then heap
      else
        let kept := remainingAliases buffer.aliases entry.dstOffset entry.size
        let room := if PDOCKER_VK_MAX_COPY_ALIASES ≤ kept.length then kept.drop 1 else kept
        heap.setBuffer id { buffer with aliases := room ++ [entry] }

def copyAliasCandidate (config : Config) (memory : Nat) : Bool :=
  config.copyAliasEnabled &&
    (heap.memories[memory]?).any fun size => decide (PDOCKER_VK_ALIAS_MIN_SOURCE_BYTES ≤ size.toNat)

end Heap

/-! ## Command buffers -/

structure Slot where
  buffer : Option Nat := none
  offset : DeviceSize := 0
  range : DeviceSize := 0
  dynamic : Bool := false

abbrev Slots := Fin 16 → Slot
abbrev Bound := Fin 8 → Option Slots

structure Pipeline where
  shader : Option Nat
  layoutPush : Option (BitVec 32)
  specializationTooLarge : Bool

structure CopyOp where
  src : Nat
  dst : Nat
  srcOffset : DeviceSize
  dstOffset : DeviceSize
  size : DeviceSize

structure DispatchOp where
  pipeline : Option Pipeline
  bound : Bound
  pushConstantSize : BitVec 32

inductive CommandOp where
  | copy (index : Nat)
  | fill (buffer : Nat) (offset size : DeviceSize)
  | update (buffer : Nat) (offset size : DeviceSize)
  | dispatch (index : Nat)
  | barrier

structure CommandBuffer where
  pipeline : Option Pipeline := none
  bound : Bound := fun _ => none
  copyOps : List CopyOp := []
  dispatchOps : List DispatchOp := []
  commandOps : List CommandOp := []
  pushConstantSize : BitVec 32 := 0
  dispatchX : BitVec 32 := 0
  hasDispatch : Bool := false
  unsupportedDescriptorSetLayout : Bool := false

structure State where
  heap : Heap
  sets : List Slots
  commands : List CommandBuffer

def State.initial : State := ⟨⟨[], []⟩, [], []⟩

def maxPush (size : BitVec 32) (layout : Option (BitVec 32)) : BitVec 32 :=
  match layout with
  | none => size
  | some push => if size < push then push else size

/-- The dynamic slots take the offsets of the call in their order, from the `start`th on. -/
def rebase (slots : Slots) (dynamicOffsets : List (BitVec 32)) (start : Nat) : Slots := fun binding =>
  let slot := slots binding
  if slot.dynamic = false then slot
  else
    let before := (List.finRange 16).countP fun other => decide (other < binding) && (slots other).dynamic
    match dynamicOffsets[start + before]? with
    | none => slot
    | some add => { slot with offset := slot.offset + add.setWidth 64 }

def dynamicCount (slots : Slots) : Nat := (List.finRange 16).countP fun binding => (slots binding).dynamic

/-- The loop over the sets of a call, of which the first is number `setI`. -/
def bindSets (firstSet : BitVec 32) (dynamicOffsets : List (BitVec 32)) :
    BitVec 32 → Nat → List (Option Slots) → Bound → Bound
  | _, _, [], bound => bound
  | setI, dynamicIndex, handle :: handles, bound =>
      if inside : (firstSet + setI).toNat < 8 then
        match handle with
        | none => bindSets firstSet dynamicOffsets (setI + 1) dynamicIndex handles bound
        | some slots =>
            bindSets firstSet dynamicOffsets (setI + 1) (dynamicIndex + dynamicCount slots) handles
              (Function.update bound ⟨(firstSet + setI).toNat, inside⟩ (some (rebase slots dynamicOffsets dynamicIndex)))
      else bound

namespace CommandBuffer

variable (cmd : CommandBuffer)

def appendCommandOp (op : CommandOp) : CommandBuffer :=
  if PDOCKER_VK_MAX_COMMAND_OPS ≤ cmd.commandOps.length then cmd
  else { cmd with commandOps := cmd.commandOps ++ [op] }

def vkCmdBindDescriptorSets (firstSet : BitVec 32) (handles : List (Option Slots))
    (dynamicOffsets : List (BitVec 32)) : CommandBuffer :=
  if handles = [] then cmd
  else
    { cmd with
      unsupportedDescriptorSetLayout := cmd.unsupportedDescriptorSetLayout ||
        decide (8 < firstSet + BitVec.ofNat 32 handles.length)
      bound := bindSets firstSet dynamicOffsets 0 0 handles cmd.bound }

/-- The array is written from `offset` on; the sums are of 32 bits. -/
def vkCmdPushConstants (offset size : BitVec 32) : CommandBuffer × List Event :=
  if maxPushBytes ≤ offset then (cmd, [])
  else
    let size := if maxPushBytes < offset + size then maxPushBytes - offset else size
    let high := if cmd.pushConstantSize < offset + size then offset + size else cmd.pushConstantSize
    ({ cmd with pushConstantSize := high }, [.pushWrite offset size])

def vkCmdDispatch (x : BitVec 32) : CommandBuffer :=
  let noted : CommandBuffer := { cmd with dispatchX := x, hasDispatch := true }
  if cmd.dispatchOps.length < PDOCKER_VK_MAX_DISPATCH_OPS then
    let op : DispatchOp :=
      { pipeline := cmd.pipeline
        bound := cmd.bound
        pushConstantSize := maxPush cmd.pushConstantSize (cmd.pipeline.bind (·.layoutPush)) }
    let recorded : CommandBuffer := { noted with dispatchOps := cmd.dispatchOps ++ [op] }
    recorded.appendCommandOp (.dispatch cmd.dispatchOps.length)
  else noted

def vkCmdCopyBuffer (heap : Heap) (op : CopyOp) : CommandBuffer :=
  match (heap.buffers[op.src]?).bind (·.memory), (heap.buffers[op.dst]?).bind (·.memory) with
  | some _, some _ =>
      if cmd.copyOps.length < PDOCKER_VK_MAX_COPY_OPS then
        let recorded : CommandBuffer := { cmd with copyOps := cmd.copyOps ++ [op] }
        recorded.appendCommandOp (.copy cmd.copyOps.length)
      else cmd
  | _, _ => cmd

def vkCmdFillBuffer (heap : Heap) (dst : Nat) (offset size : DeviceSize) : CommandBuffer :=
  match heap.buffers[dst]? with
  | none => cmd
  | some buffer =>
      if buffer.memory = none then cmd
      else
        let available := heap.bufferAvailable buffer offset
        let asked := if size = wholeSize then available else size
        let bytes := if available < asked then available else asked
        if bytes = 0 then cmd else cmd.appendCommandOp (.fill dst offset bytes)

def vkCmdUpdateBuffer (heap : Heap) (dst : Nat) (offset dataSize : DeviceSize) (allocates : Bool) : CommandBuffer :=
  match heap.buffers[dst]? with
  | none => cmd
  | some buffer =>
      let available := heap.bufferAvailable buffer offset
      let bytes := if dataSize < available then dataSize else available
      if (heap.bufferPtr dst offset bytes).isNone ∨ bytes = 0 ∨ allocates = false then cmd
      else cmd.appendCommandOp (.update dst offset bytes)

end CommandBuffer

/-! ## Execution -/

structure Outcome where
  heap : Heap
  events : List Event
  proceeds : Bool

namespace Heap

variable (heap : Heap)

def executeRecordedCopyOp (config : Config) (op : CopyOp) : Heap × List Event :=
  match heap.bufferPtr op.dst op.dstOffset op.size, heap.bufferPtr op.src op.srcOffset op.size,
      heap.buffers[op.src]? with
  | some dst, some src, some buffer =>
      let source := (resolveCopyAlias buffer op.srcOffset op.size).getD src
      if heap.copyAliasCandidate config source.1 then
        (heap.addCopyAlias op.dst ⟨source.1, source.2, op.dstOffset, op.size⟩, [])
      else
        (heap.invalidateCopyAliases op.dst op.dstOffset op.size,
          -- nothing is touched where there is nothing to move
          if op.size = 0 then []
          else [.access heap ⟨op.src, src.1, src.2, op.size⟩, .access heap ⟨op.dst, dst.1, dst.2, op.size⟩])
  | _, _, _ => (heap, [])

def executeWrite (id : Nat) (offset size length : DeviceSize) : Heap × List Event :=
  if size = 0 then (heap, [])
  else
    match heap.bufferPtr id offset size with
    | none => (heap, [])
    | some pointer =>
        (heap.invalidateCopyAliases id offset size, [.access heap ⟨id, pointer.1, pointer.2, length⟩])

def executeRecordedFillOp (id : Nat) (offset size : DeviceSize) : Heap × List Event :=
  heap.executeWrite id offset size (size / 4 * 4)

def executeRecordedUpdateOp (id : Nat) (offset size : DeviceSize) : Heap × List Event :=
  heap.executeWrite id offset size size

def descriptorBindingSize (slot : Slot) : DeviceSize :=
  match slot.buffer.bind (heap.buffers[·]?) with
  | none => 0
  | some buffer =>
      if buffer.size < slot.offset then 0
      else
        let available := buffer.size - slot.offset
        if slot.range = wholeSize then available
        else if slot.range < available then slot.range
        else available

def sentBinding (config : Config) (slot : Slot) : Option Access :=
  match slot.buffer with
  | none => none
  | some id =>
      match heap.buffers[id]? with
      | none => none
      | some buffer =>
          match buffer.memory with
          | none => none
          | some memory =>
              let bytes := heap.descriptorBindingSize slot
              if bytes = 0 then none
              else
                let own := (memory, buffer.memoryOffset + slot.offset)
                let place := if config.copyAliasEnabled then (resolveCopyAlias buffer slot.offset bytes).getD own else own
                some ⟨id, place.1, place.2, bytes⟩

def sentBindings (config : Config) (bound : Bound) : List Access :=
  (List.finRange 8).flatMap fun set =>
    match bound set with
    | none => []
    | some slots => (List.finRange 16).filterMap fun binding => heap.sentBinding config (slots binding)

def sendGenericVulkanDispatchOp (config : Config) (op : DispatchOp) : Option (List Event) :=
  match op.pipeline with
  | none => none
  | some pipeline =>
      if pipeline.shader.getD 0 = 0 then none
      else
        let bindings := heap.sentBindings config op.bound
        let push := maxPush op.pushConstantSize pipeline.layoutPush
        if PDOCKER_VK_MAX_STORAGE_BUFFERS < bindings.length ∨ bindings.length = 0 then none
        else if maxPushBytes < push then none
        else if pipeline.specializationTooLarge then none
        else some (bindings.map (.access heap) ++ [.pushRead push])

end Heap

def DispatchOp.hasShader (op : DispatchOp) : Bool :=
  op.pipeline.any fun pipeline => pipeline.shader.any fun size => decide (4 < size)

/-- `answers` says whether the executor reports success. -/
def submitDispatch (config : Config) (heap : Heap) (op : DispatchOp) (answers : Bool) : Outcome :=
  match heap.sendGenericVulkanDispatchOp config op with
  | none => ⟨heap, [], false⟩
  | some events => ⟨heap, events, answers⟩

def replayCommandOp (config : Config) (cmd : CommandBuffer) (answers : Nat → Bool) (heap : Heap) :
    CommandOp → Outcome
  | .copy index =>
      match cmd.copyOps[index]? with
      | none => ⟨heap, [], true⟩
      | some op => ⟨(heap.executeRecordedCopyOp config op).1, (heap.executeRecordedCopyOp config op).2, true⟩
  | .fill id offset size =>
      ⟨(heap.executeRecordedFillOp id offset size).1, (heap.executeRecordedFillOp id offset size).2, true⟩
  | .update id offset size =>
      ⟨(heap.executeRecordedUpdateOp id offset size).1, (heap.executeRecordedUpdateOp id offset size).2, true⟩
  | .dispatch index =>
      match cmd.dispatchOps[index]? with
      | none => ⟨heap, [], true⟩
      | some op => if op.hasShader then submitDispatch config heap op (answers index) else ⟨heap, [], false⟩
  | .barrier => ⟨heap, [], true⟩

def replayCommandOps (config : Config) (cmd : CommandBuffer) (answers : Nat → Bool) :
    Heap → List CommandOp → Heap × List Event
  | heap, [] => (heap, [])
  | heap, op :: ops =>
      let outcome := replayCommandOp config cmd answers heap op
      if outcome.proceeds then
        let rest := replayCommandOps config cmd answers outcome.heap ops
        (rest.1, outcome.events ++ rest.2)
      else (outcome.heap, outcome.events)

def submitDispatches (config : Config) (answers : Nat → Bool) (heap : Heap) : Nat → List DispatchOp → List Event
  | _, [] => []
  | index, op :: ops =>
      match heap.sendGenericVulkanDispatchOp config op with
      | none => []
      | some events =>
          if answers index then events ++ submitDispatches config answers heap (index + 1) ops else events

def submitVectorAdd (heap : Heap) (cmd : CommandBuffer) : List Event :=
  match cmd.bound 0 with
  | none => []
  | some slots =>
      let memoryOf (slot : Slot) : Option (Nat × Nat) :=
        slot.buffer.bind fun id => ((heap.buffers[id]?).bind (·.memory)).map fun memory => (id, memory)
      match memoryOf (slots 0), memoryOf (slots 1), memoryOf (slots 2) with
      | some a, some b, some out =>
          let floats (slot : Slot) : Nat := (heap.descriptorBindingSize slot).toNat / 4
          let smallest := min (min (floats (slots 0)) (floats (slots 1))) (floats (slots 2))
          let count :=
            if cmd.dispatchX = 0 ∨ cmd.pipeline.isNone then smallest else min smallest (cmd.dispatchX.toNat * 128)
          [a, b, out].map fun place => .access heap ⟨place.1, place.2, 0, BitVec.ofNat 64 (count * 4)⟩
      | _, _, _ => []

def submitUnordered (config : Config) (answers : Nat → Bool) (heap : Heap) (cmd : CommandBuffer) :
    Heap × List Event :=
  let copied := cmd.copyOps.foldl (fun (done : Heap × List Event) op =>
    ((done.1.executeRecordedCopyOp config op).1, done.2 ++ (done.1.executeRecordedCopyOp config op).2)) (heap, [])
  if !cmd.hasDispatch then copied
  else
    let single : DispatchOp := ⟨cmd.pipeline, cmd.bound, cmd.pushConstantSize⟩
    let sent :=
      if cmd.dispatchOps ≠ [] ∧ cmd.dispatchOps.all (·.hasShader) then
        submitDispatches config answers copied.1 0 cmd.dispatchOps
      else if single.hasShader then (copied.1.sendGenericVulkanDispatchOp config single).getD []
      else submitVectorAdd copied.1 cmd
    (copied.1, copied.2 ++ sent)

def vkQueueSubmit (config : Config) (answers : Nat → Bool) (heap : Heap) (cmd : CommandBuffer) : Heap × List Event :=
  if cmd.unsupportedDescriptorSetLayout then (heap, [])
  else if cmd.commandOps ≠ [] then replayCommandOps config cmd answers heap cmd.commandOps
  else submitUnordered config answers heap cmd

inductive Call where
  | createBuffer (size : DeviceSize)
  | allocateMemory (size : DeviceSize) (maps : Bool)
  | bindBufferMemory (buffer memory : Nat) (memoryOffset : DeviceSize)
  | allocateDescriptorSet
  | writeDescriptor (set : Nat) (binding : BitVec 32) (slot : Slot)
  | copyDescriptor (src dst : Nat) (srcBinding dstBinding : BitVec 32)
  | allocateCommandBuffer
  | beginCommandBuffer (cmd : Nat)
  | bindPipeline (cmd : Nat) (pipeline : Option Pipeline)
  | bindDescriptorSets (cmd : Nat) (firstSet : BitVec 32) (sets : List Nat) (dynamicOffsets : List (BitVec 32))
  | pushConstants (cmd : Nat) (offset size : BitVec 32)
  | dispatch (cmd : Nat) (x : BitVec 32)
  | copyBuffer (cmd : Nat) (op : CopyOp)
  | fillBuffer (cmd dst : Nat) (offset size : DeviceSize)
  | updateBuffer (cmd dst : Nat) (offset dataSize : DeviceSize) (allocates : Bool)
  | pipelineBarrier (cmd : Nat)
  | queueSubmit (cmd : Nat) (answers : Nat → Bool)

namespace State

variable (state : State)

def record (id : Nat) (change : CommandBuffer → CommandBuffer × List Event) : State × List Event :=
  match state.commands[id]? with
  | none => (state, [])
  | some cmd => ({ state with commands := state.commands.set id (change cmd).1 }, (change cmd).2)

def writeDescriptor (set : Nat) (binding : BitVec 32) (slot : Slot) : State :=
  match state.sets[set]? with
  | none => state
  | some slots =>
      if inside : binding.toNat < 16 then
        { state with sets := state.sets.set set (Function.update slots ⟨binding.toNat, inside⟩ slot) }
      else state

def copyDescriptor (src dst : Nat) (srcBinding dstBinding : BitVec 32) : State :=
  match state.sets[src]? with
  | none => state
  | some slots =>
      if inside : srcBinding.toNat < 16 then state.writeDescriptor dst dstBinding (slots ⟨srcBinding.toNat, inside⟩)
      else state

def step (config : Config) : Call → State × List Event
  | .createBuffer size => ({ state with heap := state.heap.vkCreateBuffer config size }, [])
  | .allocateMemory size maps => ({ state with heap := state.heap.vkAllocateMemory config size maps }, [])
  | .bindBufferMemory buffer memory memoryOffset =>
      ({ state with heap := state.heap.vkBindBufferMemory buffer memory memoryOffset }, [])
  | .allocateDescriptorSet => ({ state with sets := state.sets ++ [fun _ => {}] }, [])
  | .writeDescriptor set binding slot => (state.writeDescriptor set binding slot, [])
  | .copyDescriptor src dst srcBinding dstBinding => (state.copyDescriptor src dst srcBinding dstBinding, [])
  | .allocateCommandBuffer => ({ state with commands := state.commands ++ [{}] }, [])
  | .beginCommandBuffer cmd => state.record cmd fun _ => ({}, [])
  | .bindPipeline cmd pipeline => state.record cmd fun now => ({ now with pipeline := pipeline }, [])
  | .bindDescriptorSets cmd firstSet sets dynamicOffsets =>
      state.record cmd fun now =>
        (now.vkCmdBindDescriptorSets firstSet (sets.map (state.sets[·]?)) dynamicOffsets, [])
  | .pushConstants cmd offset size => state.record cmd fun now => now.vkCmdPushConstants offset size
  | .dispatch cmd x => state.record cmd fun now => (now.vkCmdDispatch x, [])
  | .copyBuffer cmd op => state.record cmd fun now => (now.vkCmdCopyBuffer state.heap op, [])
  | .fillBuffer cmd dst offset size => state.record cmd fun now => (now.vkCmdFillBuffer state.heap dst offset size, [])
  | .updateBuffer cmd dst offset dataSize allocates =>
      state.record cmd fun now => (now.vkCmdUpdateBuffer state.heap dst offset dataSize allocates, [])
  | .pipelineBarrier cmd => state.record cmd fun now => (now.appendCommandOp .barrier, [])
  | .queueSubmit cmd answers =>
      match state.commands[cmd]? with
      | none => (state, [])
      | some now =>
          let submitted := vkQueueSubmit config answers state.heap now
          ({ state with heap := submitted.1 }, submitted.2)

def run (config : Config) : State → List Call → State × List Event
  | state, [] => (state, [])
  | state, call :: calls =>
      let next := state.step config call
      let rest := run config next.1 calls
      (rest.1, next.2 ++ rest.2)

end State

def InBuffer (heap : Heap) (access : Access) : Prop :=
  ∃ buffer, heap.buffers[access.buffer]? = some buffer ∧ buffer.memory = some access.memory ∧
    buffer.memoryOffset.toNat ≤ access.offset.toNat ∧
      access.offset.toNat + access.length.toNat ≤ buffer.memoryOffset.toNat + buffer.size.toNat

def InAlias (heap : Heap) (access : Access) : Prop :=
  ∃ buffer, heap.buffers[access.buffer]? = some buffer ∧ ∃ entry ∈ buffer.aliases,
    entry.srcMemory = access.memory ∧ entry.srcOffset.toNat ≤ access.offset.toNat ∧
      access.offset.toNat + access.length.toNat ≤ entry.srcOffset.toNat + entry.size.toNat

/-- The sums are those of natural numbers: nothing wraps. -/
structure Access.Safe (heap : Heap) (access : Access) : Prop where
  object : ∃ size, heap.memories[access.memory]? = some size ∧
    access.offset.toNat + access.length.toNat ≤ size.toNat
  place : InBuffer heap access ∨ InAlias heap access

def Event.Safe : Event → Prop
  | .access heap range => range.Safe heap
  | .pushWrite offset length => offset.toNat + length.toNat ≤ PDOCKER_VK_MAX_PUSH_BYTES
  | .pushRead length => length.toNat ≤ PDOCKER_VK_MAX_PUSH_BYTES

def Call.Representable : Call → Prop
  | .createBuffer size => size.toNat + 16 ≤ 2 ^ 64
  | .pushConstants _ offset size => PDOCKER_VK_MAX_PUSH_BYTES ≤ offset.toNat ∨ offset.toNat + size.toNat < 2 ^ 32
  | _ => True

def CopyAlias.Within (memories : List DeviceSize) (entry : CopyAlias) : Prop :=
  ∃ size, memories[entry.srcMemory]? = some size ∧ entry.srcOffset.toNat + entry.size.toNat ≤ size.toNat

structure Buffer.Within (memories : List DeviceSize) (buffer : Buffer) : Prop where
  requirement : buffer.size.toNat ≤ buffer.requirementsSize.toNat
  bound : ∀ memory, buffer.memory = some memory → ∃ size, memories[memory]? = some size ∧
    buffer.memoryOffset.toNat + buffer.size.toNat ≤ size.toNat
  aliases : ∀ entry ∈ buffer.aliases, entry.Within memories

def Heap.Bounded (heap : Heap) : Prop := ∀ buffer ∈ heap.buffers, buffer.Within heap.memories

theorem alignDeviceSize_ge {size : DeviceSize} (room : size.toNat + 16 ≤ 2 ^ 64) :
    size.toNat ≤ (alignDeviceSize size requirementAlignment).toNat := by
  rw [alignDeviceSize, if_neg (by decide)]
  split
  · exact Nat.le_refl _
  rename_i uneven
  have rest : (size % requirementAlignment).toNat = size.toNat % 16 := BitVec.toNat_umod
  have positive : size.toNat % 16 ≠ 0 := fun zero => uneven (BitVec.eq_of_toNat_eq (rest.trans zero))
  have fits : size.toNat + 16 < 2 ^ 64 := by
    refine Nat.lt_of_le_of_ne room fun full => positive ?_
    omega
  have sum : (size + requirementAlignment).toNat = size.toNat + 16 := by
    rw [BitVec.toNat_add]
    exact Nat.mod_eq_of_lt fits
  have below : size % requirementAlignment ≤ size + requirementAlignment := by
    rw [BitVec.le_def, rest, sum]
    omega
  rw [BitVec.toNat_sub_of_le below, rest, sum]
  omega

variable {memories : List DeviceSize}

theorem CopyAlias.Within.more {entry : CopyAlias} (within : entry.Within memories)
    (more : List DeviceSize) : entry.Within (memories ++ more) := by
  obtain ⟨size, there, fits⟩ := within
  refine ⟨size, ?_, fits⟩
  rw [List.getElem?_append_left (List.getElem?_eq_some_iff.mp there).1, there]

theorem Buffer.Within.more {buffer : Buffer} (within : buffer.Within memories)
    (more : List DeviceSize) : buffer.Within (memories ++ more) where
  requirement := within.requirement
  bound := by
    intro memory same
    obtain ⟨size, there, fits⟩ := within.bound memory same
    refine ⟨size, ?_, fits⟩
    rw [List.getElem?_append_left (List.getElem?_eq_some_iff.mp there).1, there]
  aliases := fun entry member => (within.aliases entry member).more more

section

variable {config : Config} {heap : Heap} {id : Nat} {offset bytes length : DeviceSize}

variable {buffer : Buffer} {memories : List DeviceSize} {memory : Nat} {pointer : Nat × DeviceSize} {slot : Slot}

variable (bounded : heap.Bounded)

include bounded

theorem Heap.Bounded.setBuffer (within : buffer.Within heap.memories) :
    (heap.setBuffer id buffer).Bounded := by
  intro other member
  rcases List.mem_or_eq_of_mem_set member with there | rfl
  · exact bounded other there
  · exact within

theorem Heap.Bounded.create {size : DeviceSize} (room : size.toNat + 16 ≤ 2 ^ 64) :
    (heap.vkCreateBuffer config size).Bounded := by
  rw [Heap.vkCreateBuffer]
  split
  · exact bounded
  intro buffer member
  rcases List.mem_append.mp member with there | new
  · exact bounded buffer there
  · rw [List.mem_singleton.mp new]
    exact ⟨alignDeviceSize_ge room, nofun, nofun⟩

theorem Heap.Bounded.allocate (size : DeviceSize) (maps : Bool) :
    (heap.vkAllocateMemory config size maps).Bounded := by
  rw [Heap.vkAllocateMemory]
  split
  · exact bounded
  · exact fun buffer member => (bounded buffer member).more [size]

theorem Heap.Bounded.bind (id memory : Nat) (memoryOffset : DeviceSize) :
    (heap.vkBindBufferMemory id memory memoryOffset).Bounded := by
  rw [Heap.vkBindBufferMemory]
  split
  · rename_i buffer size there object
    have within := bounded buffer (List.mem_of_getElem? there)
    have enough : buffer.size.toNat ≤ (if buffer.requirementsSize = 0 then
        alignDeviceSize buffer.size requirementAlignment else buffer.requirementsSize).toNat := by
      split
      · rename_i zero
        have none := within.requirement
        rw [zero] at none
        exact Nat.le_trans none (Nat.zero_le _)
      · exact within.requirement
    generalize (if buffer.requirementsSize = 0 then alignDeviceSize buffer.size requirementAlignment
      else buffer.requirementsSize) = needed at enough
    simp only
    split
    · exact bounded
    rename_i fits
    refine bounded.setBuffer ⟨within.requirement, ?_, within.aliases⟩
    intro other same
    cases same
    refine ⟨size, object, ?_⟩
    simp only [not_or, BitVec.not_lt] at fits
    obtain ⟨-, offsetFits, neededFits⟩ := fits
    rw [BitVec.le_def, BitVec.toNat_sub_of_le offsetFits] at neededFits
    rw [BitVec.le_def] at offsetFits
    change memoryOffset.toNat + buffer.size.toNat ≤ size.toNat
    omega
  · exact bounded

omit bounded

theorem remaining_within {aliases : List CopyAlias}
    (within : ∀ entry ∈ aliases, entry.Within memories) (offset size : DeviceSize) :
    ∀ entry ∈ remainingAliases aliases offset size, entry.Within memories :=
  fun entry member => within entry (List.mem_filter.mp member).1

theorem Heap.Bounded.invalidate (bounded : heap.Bounded) (id : Nat) (offset size : DeviceSize) :
    (heap.invalidateCopyAliases id offset size).Bounded := by
  rw [Heap.invalidateCopyAliases]
  split
  · exact bounded
  · rename_i buffer there
    have within := bounded buffer (List.mem_of_getElem? there)
    exact bounded.setBuffer ⟨within.requirement, within.bound, remaining_within within.aliases offset size⟩

theorem Heap.Bounded.alias (bounded : heap.Bounded) (id : Nat) {entry : CopyAlias}
    (new : entry.size ≠ 0 → entry.Within heap.memories) : (heap.addCopyAlias id entry).Bounded := by
  rw [Heap.addCopyAlias]
  split
  · exact bounded
  rename_i buffer there
  have within := bounded buffer (List.mem_of_getElem? there)
  split
  · exact bounded
  rename_i filled
  refine bounded.setBuffer ⟨within.requirement, within.bound, ?_⟩
  intro other member
  have kept := remaining_within within.aliases entry.dstOffset entry.size
  rcases List.mem_append.mp member with old | last
  · split at old
    · exact kept other (List.mem_of_mem_drop old)
    · exact kept other old
  · rw [List.mem_singleton.mp last]
    exact new filled

theorem Buffer.Within.range (within : buffer.Within memories)
    (bound : buffer.memory = some memory) (fits : offset.toNat + length.toNat ≤ buffer.size.toNat) :
    ∃ size, memories[memory]? = some size ∧
      (buffer.memoryOffset + offset).toNat = buffer.memoryOffset.toNat + offset.toNat ∧
        buffer.memoryOffset.toNat + offset.toNat + length.toNat ≤ size.toNat := by
  obtain ⟨size, object, whole⟩ := within.bound memory bound
  refine ⟨size, object, ?_, by omega⟩
  have small := size.isLt
  rw [BitVec.toNat_add, Nat.mod_eq_of_lt (by omega)]

theorem own_safe (bounded : heap.Bounded) (there : heap.buffers[id]? = some buffer)
    (bound : buffer.memory = some memory) (fits : offset.toNat + length.toNat ≤ buffer.size.toNat) :
    Access.Safe heap ⟨id, memory, buffer.memoryOffset + offset, length⟩ := by
  obtain ⟨size, object, sum, inside⟩ := (bounded buffer (List.mem_of_getElem? there)).range bound fits
  refine ⟨⟨size, object, ?_⟩, .inl ⟨buffer, there, bound, ?_, ?_⟩⟩
  · change (buffer.memoryOffset + offset).toNat + length.toNat ≤ size.toNat
    rw [sum]
    exact inside
  · change buffer.memoryOffset.toNat ≤ (buffer.memoryOffset + offset).toNat
    rw [sum]
    exact Nat.le_add_right _ _
  · change (buffer.memoryOffset + offset).toNat + length.toNat ≤ _
    rw [sum]
    omega

theorem bufferAvailable_fits (bytesFit : ¬ heap.bufferAvailable buffer offset < bytes)
    (some_bytes : bytes ≠ 0) : offset.toNat + bytes.toNat ≤ buffer.size.toNat := by
  have positive : 0 < bytes.toNat := Nat.pos_of_ne_zero fun zero => some_bytes (BitVec.eq_of_toNat_eq zero)
  rw [BitVec.lt_def, Nat.not_lt, Heap.bufferAvailable] at bytesFit
  split at bytesFit
  · exact absurd (Nat.lt_of_lt_of_le positive bytesFit) (Nat.lt_irrefl _)
  split at bytesFit
  · exact absurd (Nat.lt_of_lt_of_le positive bytesFit) (Nat.lt_irrefl _)
  rename_i inside
  simp only at bytesFit
  have below : offset ≤ buffer.size := BitVec.not_lt.mp inside
  have room : bytes.toNat ≤ (buffer.size - offset).toNat := by
    split at bytesFit
    · exact absurd (Nat.lt_of_lt_of_le positive bytesFit) (Nat.lt_irrefl _)
    split at bytesFit
    · rename_i less
      exact Nat.le_trans bytesFit (Nat.le_of_lt (BitVec.lt_def.mp less))
    · exact bytesFit
  rw [BitVec.toNat_sub_of_le below] at room
  rw [BitVec.le_def] at below
  omega

theorem bufferPtr_spec (found : heap.bufferPtr id offset bytes = some pointer) :
    ∃ buffer, heap.buffers[id]? = some buffer ∧ buffer.memory = some pointer.1 ∧
      pointer.2 = buffer.memoryOffset + offset ∧ ¬ heap.bufferAvailable buffer offset < bytes := by
  rw [Heap.bufferPtr] at found
  split at found
  · cases found
  rename_i buffer there
  split at found
  · cases found
  rename_i memory bound
  split at found
  · cases found
  · rename_i enough
    cases found
    exact ⟨buffer, there, bound, rfl, enough⟩

theorem bufferPtr_safe (bounded : heap.Bounded)
    (found : heap.bufferPtr id offset bytes = some pointer) (some_bytes : bytes ≠ 0)
    (less : length.toNat ≤ bytes.toNat) : Access.Safe heap ⟨id, pointer.1, pointer.2, length⟩ := by
  obtain ⟨buffer, there, bound, place, enough⟩ := bufferPtr_spec found
  have fits := bufferAvailable_fits enough some_bytes
  rw [place]
  exact own_safe bounded there bound (by omega)

theorem resolveCopyAlias_spec (bounded : heap.Bounded) (there : heap.buffers[id]? = some buffer)
    {place : Nat × DeviceSize} (resolved : resolveCopyAlias buffer offset bytes = some place) :
    Access.Safe heap ⟨id, place.1, place.2, bytes⟩ := by
  obtain ⟨entry, found, rfl⟩ := Option.map_eq_some_iff.mp resolved
  have member := List.mem_of_find?_eq_some found
  have covers := List.find?_some found
  simp only [CopyAlias.covers, Bool.and_eq_true, Bool.not_eq_true', decide_eq_false_iff_not, BitVec.not_lt] at covers
  obtain ⟨⟨above, delta⟩, rest⟩ := covers
  obtain ⟨size, object, fits⟩ := (bounded buffer (List.mem_of_getElem? there)).aliases entry member
  have small := size.isLt
  rw [BitVec.le_def, BitVec.toNat_sub_of_le delta] at rest
  rw [BitVec.le_def] at delta
  have sum : (entry.srcOffset + (offset - entry.dstOffset)).toNat =
      entry.srcOffset.toNat + (offset - entry.dstOffset).toNat := by
    rw [BitVec.toNat_add, Nat.mod_eq_of_lt (by omega)]
  refine ⟨⟨size, object, ?_⟩, .inr ⟨buffer, there, entry, member, rfl, ?_, ?_⟩⟩
  · change (entry.srcOffset + (offset - entry.dstOffset)).toNat + bytes.toNat ≤ size.toNat
    omega
  · change entry.srcOffset.toNat ≤ (entry.srcOffset + (offset - entry.dstOffset)).toNat
    omega
  · change (entry.srcOffset + (offset - entry.dstOffset)).toNat + bytes.toNat ≤ _
    omega

/-! ## Commands -/

def Fine (done : Heap × List Event) : Prop := done.1.Bounded ∧ ∀ event ∈ done.2, event.Safe

theorem fine_still (bounded : heap.Bounded) : Fine (heap, []) := ⟨bounded, List.forall_mem_nil _⟩

theorem executeRecordedCopyOp_fine (bounded : heap.Bounded) (op : CopyOp) :
    Fine (heap.executeRecordedCopyOp config op) := by
  rw [Heap.executeRecordedCopyOp]
  split
  · rename_i dst src buffer dstFound srcFound there
    simp only
    split
    · refine ⟨bounded.alias op.dst fun filled => ?_, List.forall_mem_nil _⟩
      have safe : Access.Safe heap ⟨op.src, ((resolveCopyAlias buffer op.srcOffset op.size).getD src).1,
          ((resolveCopyAlias buffer op.srcOffset op.size).getD src).2, op.size⟩ := by
        cases resolved : resolveCopyAlias buffer op.srcOffset op.size with
        | none => exact bufferPtr_safe bounded srcFound filled (Nat.le_refl _)
        | some place => exact resolveCopyAlias_spec bounded there resolved
      exact safe.object
    · refine ⟨bounded.invalidate _ _ _, ?_⟩
      split
      · exact List.forall_mem_nil _
      rename_i filled
      have read := bufferPtr_safe bounded srcFound filled (Nat.le_refl _)
      have write := bufferPtr_safe bounded dstFound filled (Nat.le_refl _)
      intro event member
      rcases List.mem_cons.mp member with rfl | last
      · exact read
      · rw [List.mem_singleton.mp last]
        exact write
  · exact fine_still bounded

theorem executeWrite_fine (bounded : heap.Bounded) (less : length.toNat ≤ bytes.toNat) :
    Fine (heap.executeWrite id offset bytes length) := by
  rw [Heap.executeWrite]
  split
  · exact fine_still bounded
  rename_i filled
  split
  · exact fine_still bounded
  rename_i pointer found
  refine ⟨bounded.invalidate _ _ _, ?_⟩
  intro event member
  rw [List.mem_singleton.mp member]
  exact bufferPtr_safe bounded found filled less

theorem words_le (size : DeviceSize) : (size / 4 * 4).toNat ≤ size.toNat := by
  have quotient : (size / 4).toNat = size.toNat / 4 := BitVec.toNat_udiv
  have small := size.isLt
  have product : (size / 4 * 4).toNat = size.toNat / 4 * 4 := by
    rw [BitVec.toNat_mul, quotient]
    exact Nat.mod_eq_of_lt (by change size.toNat / 4 * 4 < 2 ^ 64; omega)
  omega

theorem descriptorBindingSize_fits (named : slot.buffer = some id)
    (there : heap.buffers[id]? = some buffer) (filled : heap.descriptorBindingSize slot ≠ 0) :
    slot.offset.toNat + (heap.descriptorBindingSize slot).toNat ≤ buffer.size.toNat := by
  simp only [Heap.descriptorBindingSize, named, Option.bind_some, there] at filled ⊢
  split
  · rename_i outside
    rw [if_pos outside] at filled
    exact absurd rfl filled
  rename_i inside
  have below : slot.offset ≤ buffer.size := BitVec.not_lt.mp inside
  have rest : (buffer.size - slot.offset).toNat = buffer.size.toNat - slot.offset.toNat :=
    BitVec.toNat_sub_of_le below
  rw [BitVec.le_def] at below
  split
  · omega
  split
  · rename_i less
    rw [BitVec.lt_def] at less
    omega
  · omega

theorem sentBinding_safe (bounded : heap.Bounded) {access : Access}
    (sent : heap.sentBinding config slot = some access) : access.Safe heap := by
  rw [Heap.sentBinding] at sent
  split at sent
  · cases sent
  rename_i id named
  split at sent
  · cases sent
  rename_i buffer there
  split at sent
  · cases sent
  rename_i memory bound
  simp only at sent
  split at sent
  · cases sent
  rename_i filled
  cases sent
  have own : Access.Safe heap ⟨id, memory, buffer.memoryOffset + slot.offset, heap.descriptorBindingSize slot⟩ :=
    own_safe bounded there bound (descriptorBindingSize_fits named there filled)
  split
  · cases resolved : resolveCopyAlias buffer slot.offset (heap.descriptorBindingSize slot) with
    | none => exact own
    | some place => exact resolveCopyAlias_spec bounded there resolved
  · exact own

theorem sendGeneric_safe (bounded : heap.Bounded) {op : DispatchOp} {events : List Event}
    (sent : heap.sendGenericVulkanDispatchOp config op = some events) : ∀ event ∈ events, event.Safe := by
  rw [Heap.sendGenericVulkanDispatchOp] at sent
  split at sent
  · cases sent
  split at sent
  · cases sent
  simp only at sent
  split at sent
  · cases sent
  split at sent
  · cases sent
  rename_i push
  split at sent
  · cases sent
  cases sent
  intro event member
  rcases List.mem_append.mp member with range | last
  · obtain ⟨access, listed, rfl⟩ := List.mem_map.mp range
    rw [Heap.sentBindings, List.mem_flatMap] at listed
    obtain ⟨set, -, listed⟩ := listed
    split at listed
    · cases listed
    · obtain ⟨binding, -, found⟩ := List.mem_filterMap.mp listed
      exact sentBinding_safe bounded found
  · rw [List.mem_singleton.mp last]
    rw [BitVec.not_lt, BitVec.le_def] at push
    exact push

theorem replayCommandOp_fine (bounded : heap.Bounded) (cmd : CommandBuffer) (answers : Nat → Bool) (op : CommandOp) :
    Fine ((replayCommandOp config cmd answers heap op).heap, (replayCommandOp config cmd answers heap op).events) := by
  cases op with
  | copy index =>
      rw [replayCommandOp]
      split
      · exact fine_still bounded
      · exact executeRecordedCopyOp_fine bounded _
  | fill id offset size => exact executeWrite_fine bounded (words_le size)
  | update id offset size => exact executeWrite_fine bounded (Nat.le_refl _)
  | dispatch index =>
      rw [replayCommandOp]
      split
      · exact fine_still bounded
      split
      · rw [submitDispatch]
        split
        · exact fine_still bounded
        · rename_i sent
          exact ⟨bounded, sendGeneric_safe bounded sent⟩
      · exact fine_still bounded
  | barrier => exact fine_still bounded

theorem replayCommandOps_fine (bounded : heap.Bounded) (cmd : CommandBuffer) (answers : Nat → Bool)
    (ops : List CommandOp) : Fine (replayCommandOps config cmd answers heap ops) := by
  induction ops generalizing heap with
  | nil => exact fine_still bounded
  | cons op ops ih =>
      obtain ⟨after, safe⟩ := @replayCommandOp_fine config heap bounded cmd answers op
      rw [replayCommandOps]
      simp only
      split
      · obtain ⟨last, rest⟩ := ih after
        exact ⟨last, List.forall_mem_append.mpr ⟨safe, rest⟩⟩
      · exact ⟨after, safe⟩

def CommandBuffer.Ordered (cmd : CommandBuffer) : Prop :=
  cmd.commandOps = [] → cmd.copyOps = [] ∧ cmd.dispatchOps = [] ∧ cmd.hasDispatch = false

theorem vkQueueSubmit_fine (bounded : heap.Bounded) {cmd : CommandBuffer} (ordered : cmd.Ordered)
    (answers : Nat → Bool) : Fine (vkQueueSubmit config answers heap cmd) := by
  rw [vkQueueSubmit]
  split
  · exact fine_still bounded
  split
  · exact replayCommandOps_fine bounded cmd answers _
  rename_i empty
  obtain ⟨copies, -, noDispatch⟩ := ordered (not_not.mp empty)
  rw [submitUnordered, copies, noDispatch]
  exact fine_still bounded

end

namespace CommandBuffer

variable {cmd : CommandBuffer}

theorem appendCommandOp_ordered (op : CommandOp) : (cmd.appendCommandOp op).Ordered := by
  rw [appendCommandOp]
  split
  · rename_i full
    intro empty
    rw [empty] at full
    exact absurd full (by decide)
  · intro empty
    exact absurd empty (by simp)

variable (ordered : cmd.Ordered)

include ordered

theorem vkCmdDispatch_ordered (x : BitVec 32) : (cmd.vkCmdDispatch x).Ordered := by
  rw [vkCmdDispatch]
  split
  · exact appendCommandOp_ordered _
  rename_i full
  intro empty
  obtain ⟨-, noDispatches, -⟩ := ordered empty
  rw [noDispatches] at full
  exact absurd (by decide) full

theorem vkCmdCopyBuffer_ordered (heap : Heap) (op : CopyOp) :
    (cmd.vkCmdCopyBuffer heap op).Ordered := by
  rw [vkCmdCopyBuffer]
  split
  · split
    · exact appendCommandOp_ordered _
    · exact ordered
  · exact ordered

theorem vkCmdFillBuffer_ordered (heap : Heap) (dst : Nat) (offset size : DeviceSize) :
    (cmd.vkCmdFillBuffer heap dst offset size).Ordered := by
  rw [vkCmdFillBuffer]
  split
  · exact ordered
  split
  · exact ordered
  simp only
  generalize (if heap.bufferAvailable _ offset < _ then _ else _ : DeviceSize) = bytes
  split
  · exact ordered
  · exact appendCommandOp_ordered _

theorem vkCmdUpdateBuffer_ordered (heap : Heap) (dst : Nat) (offset dataSize : DeviceSize)
    (allocates : Bool) : (cmd.vkCmdUpdateBuffer heap dst offset dataSize allocates).Ordered := by
  rw [vkCmdUpdateBuffer]
  split
  · exact ordered
  simp only
  generalize (if dataSize < _ then dataSize else _ : DeviceSize) = bytes
  split
  · exact ordered
  · exact appendCommandOp_ordered _

theorem vkCmdBindDescriptorSets_ordered (firstSet : BitVec 32) (handles : List (Option Slots))
    (dynamicOffsets : List (BitVec 32)) : (cmd.vkCmdBindDescriptorSets firstSet handles dynamicOffsets).Ordered := by
  rw [vkCmdBindDescriptorSets]
  split
  · exact ordered
  · exact ordered

theorem vkCmdPushConstants_ordered (offset size : BitVec 32) :
    (cmd.vkCmdPushConstants offset size).1.Ordered := by
  rw [vkCmdPushConstants]
  split
  · exact ordered
  · exact ordered

omit ordered

theorem vkCmdPushConstants_safe_iff (cmd : CommandBuffer) (offset size : BitVec 32) :
    (∀ event ∈ (cmd.vkCmdPushConstants offset size).2, event.Safe) ↔
      PDOCKER_VK_MAX_PUSH_BYTES ≤ offset.toNat ∨ offset.toNat + size.toNat < 2 ^ 32 := by
  have limit : maxPushBytes.toNat = 256 := rfl
  have bytes : PDOCKER_VK_MAX_PUSH_BYTES = 256 := rfl
  have offsetSmall := offset.isLt
  have sizeSmall := size.isLt
  rw [vkCmdPushConstants, bytes]
  by_cases outside : maxPushBytes ≤ offset
  · rw [if_pos outside]
    rw [BitVec.le_def, limit] at outside
    exact iff_of_true (List.forall_mem_nil _) (.inl outside)
  rw [if_neg outside]
  have inside : offset < maxPushBytes := BitVec.not_le.mp outside
  rw [BitVec.le_def, limit] at outside
  simp only [List.forall_mem_singleton, Event.Safe, bytes]
  by_cases high : maxPushBytes < offset + size
  · rw [if_pos high]
    have rest : (maxPushBytes - offset).toNat = 256 - offset.toNat :=
      BitVec.toNat_sub_of_le (BitVec.le_of_lt inside)
    rw [BitVec.lt_def, limit, BitVec.toNat_add] at high
    refine iff_of_true (by omega) (.inr ?_)
    by_contra wraps
    have sum : (offset.toNat + size.toNat) % 2 ^ 32 = offset.toNat + size.toNat - 2 ^ 32 := by omega
    omega
  · rw [if_neg high]
    rw [BitVec.lt_def, limit, BitVec.toNat_add] at high
    constructor
    · intro fits
      omega
    rintro (far | fits)
    · omega
    · rw [Nat.mod_eq_of_lt fits] at high
      omega

end CommandBuffer

structure State.Sound (state : State) : Prop where
  heap : state.heap.Bounded
  commands : ∀ cmd ∈ state.commands, cmd.Ordered

theorem initial_sound : State.initial.Sound := ⟨List.forall_mem_nil _, List.forall_mem_nil _⟩

namespace State

variable {config : Config} {state : State}

variable (sound : state.Sound)

include sound

theorem Sound.record {id : Nat} {change : CommandBuffer → CommandBuffer × List Event}
    (ordered : ∀ cmd : CommandBuffer, cmd.Ordered → (change cmd).1.Ordered)
    (safe : ∀ cmd, ∀ event ∈ (change cmd).2, event.Safe) :
    (state.record id change).1.Sound ∧ ∀ event ∈ (state.record id change).2, event.Safe := by
  rw [State.record]
  split
  · exact ⟨sound, List.forall_mem_nil _⟩
  rename_i cmd there
  refine ⟨⟨sound.heap, fun other member => ?_⟩, safe cmd⟩
  rcases List.mem_or_eq_of_mem_set member with old | rfl
  · exact sound.commands other old
  · exact ordered cmd (sound.commands cmd (List.mem_of_getElem? there))

theorem Sound.heapOnly {heap : Heap} (bounded : heap.Bounded) :
    Sound { state with heap := heap } := ⟨bounded, sound.commands⟩

theorem Sound.writeDescriptor (set : Nat) (binding : BitVec 32) (slot : Slot) :
    (state.writeDescriptor set binding slot).Sound := by
  rw [State.writeDescriptor]
  split
  · exact sound
  · split
    · exact ⟨sound.heap, sound.commands⟩
    · exact sound

theorem Sound.copyDescriptor (src dst : Nat) (srcBinding dstBinding : BitVec 32) :
    (state.copyDescriptor src dst srcBinding dstBinding).Sound := by
  rw [State.copyDescriptor]
  split
  · exact sound
  · split
    · exact sound.writeDescriptor _ _ _
    · exact sound

omit sound

theorem Sound.step (sound : state.Sound) {call : Call} (representable : call.Representable) :
    (state.step config call).1.Sound ∧ ∀ event ∈ (state.step config call).2, event.Safe := by
  have silent : ∀ _ : CommandBuffer, ∀ event ∈ ([] : List Event), event.Safe := fun _ => List.forall_mem_nil _
  cases call with
  | createBuffer size => exact ⟨sound.heapOnly (sound.heap.create representable), List.forall_mem_nil _⟩
  | allocateMemory size maps => exact ⟨sound.heapOnly (sound.heap.allocate size maps), List.forall_mem_nil _⟩
  | bindBufferMemory buffer memory memoryOffset =>
      exact ⟨sound.heapOnly (sound.heap.bind buffer memory memoryOffset), List.forall_mem_nil _⟩
  | allocateDescriptorSet => exact ⟨⟨sound.heap, sound.commands⟩, List.forall_mem_nil _⟩
  | writeDescriptor set binding slot => exact ⟨sound.writeDescriptor set binding slot, List.forall_mem_nil _⟩
  | copyDescriptor src dst srcBinding dstBinding =>
      exact ⟨sound.copyDescriptor src dst srcBinding dstBinding, List.forall_mem_nil _⟩
  | allocateCommandBuffer =>
      refine ⟨⟨sound.heap, fun cmd member => ?_⟩, List.forall_mem_nil _⟩
      rcases List.mem_append.mp member with old | new
      · exact sound.commands cmd old
      · rw [List.mem_singleton.mp new]
        exact fun _ => ⟨rfl, rfl, rfl⟩
  | beginCommandBuffer cmd => exact sound.record (fun _ _ _ => ⟨rfl, rfl, rfl⟩) silent
  | bindPipeline cmd pipeline => exact sound.record (fun _ ordered => ordered) silent
  | bindDescriptorSets cmd firstSet sets dynamicOffsets =>
      exact sound.record (fun _ ordered => CommandBuffer.vkCmdBindDescriptorSets_ordered ordered _ _ _) silent
  | pushConstants cmd offset size =>
      exact sound.record (fun _ ordered => CommandBuffer.vkCmdPushConstants_ordered ordered offset size)
        fun now => (CommandBuffer.vkCmdPushConstants_safe_iff now offset size).mpr representable
  | dispatch cmd x => exact sound.record (fun _ ordered => CommandBuffer.vkCmdDispatch_ordered ordered x) silent
  | copyBuffer cmd op =>
      exact sound.record (fun _ ordered => CommandBuffer.vkCmdCopyBuffer_ordered ordered state.heap op) silent
  | fillBuffer cmd dst offset size =>
      exact sound.record (fun _ ordered => CommandBuffer.vkCmdFillBuffer_ordered ordered state.heap dst offset size)
        silent
  | updateBuffer cmd dst offset dataSize allocates =>
      exact sound.record (fun _ ordered =>
        CommandBuffer.vkCmdUpdateBuffer_ordered ordered state.heap dst offset dataSize allocates) silent
  | pipelineBarrier cmd => exact sound.record (fun _ _ => CommandBuffer.appendCommandOp_ordered _) silent
  | queueSubmit cmd answers =>
      simp only [State.step]
      split
      · exact ⟨sound, List.forall_mem_nil _⟩
      rename_i now there
      obtain ⟨bounded, safe⟩ := @vkQueueSubmit_fine config state.heap sound.heap now
        (sound.commands now (List.mem_of_getElem? there)) answers
      exact ⟨sound.heapOnly bounded, safe⟩

theorem Sound.run (sound : state.Sound) {calls : List Call} (representable : ∀ call ∈ calls, call.Representable) :
    ∀ event ∈ (state.run config calls).2, event.Safe := by
  induction calls generalizing state with
  | nil => exact List.forall_mem_nil _
  | cons call calls ih =>
      rw [List.forall_mem_cons] at representable
      obtain ⟨next, safe⟩ := @Sound.step config state sound call representable.1
      rw [State.run]
      exact List.forall_mem_append.mpr ⟨safe, ih next representable.2⟩

end State

/-- In a run in which every size and every range of push constants is representable, every range is safe. -/
theorem ranges_safe (config : Config) (calls : List Call) (representable : ∀ call ∈ calls, call.Representable) :
    ∀ event ∈ (State.initial.run config calls).2, event.Safe :=
  initial_sound.run representable

private def anySize : Config := ⟨BitVec.allOnes 64, true⟩

/-- A buffer of a memory object, filled from its middle on. -/
theorem ranges_safe_fill : (State.initial.run anySize [.createBuffer 64, .allocateMemory 80 true,
    .bindBufferMemory 0 0 16, .allocateCommandBuffer, .fillBuffer 0 0 32 wholeSize, .pushConstants 0 200 100,
    .queueSubmit 0 fun _ => true]).2.Forall Event.Safe :=
  List.forall_iff_forall_mem.mpr (ranges_safe anySize _ (by
    simp only [List.forall_mem_cons, List.not_mem_nil, false_implies, implies_true, Call.Representable]
    decide))

private def wrappedPush : List Call := [.allocateCommandBuffer, .pushConstants 0 200 (BitVec.ofNat 32 (2 ^ 32 - 100))]

private def wrappedSize : List Call :=
  [.createBuffer (BitVec.allOnes 64), .allocateMemory 16 true, .bindBufferMemory 0 0 0, .allocateDescriptorSet,
    .writeDescriptor 0 0 ⟨some 0, 0, wholeSize, false⟩, .allocateCommandBuffer,
    .bindPipeline 0 (some ⟨some 64, none, false⟩), .bindDescriptorSets 0 0 [0] [], .dispatch 0 1,
    .queueSubmit 0 fun _ => true]

private def overruns : Event → Bool
  | .access heap range =>
      decide (heap.memories[range.memory]? = some 16) && decide (16 < range.offset.toNat + range.length.toNat)
  | _ => false

private theorem unsafe_of_overruns {event : Event} (overrun : overruns event = true) : ¬ event.Safe := by
  cases event with
  | access heap range =>
      simp only [overruns, Bool.and_eq_true, decide_eq_true_eq] at overrun
      obtain ⟨object, beyond⟩ := overrun
      intro safe
      obtain ⟨size, same, fits⟩ := safe.object
      cases object.symm.trans same
      exact absurd beyond (Nat.not_lt.mpr fits)
  | pushWrite => cases overrun
  | pushRead => cases overrun

theorem wrapped_ranges_unsafe : (∃ event ∈ (State.initial.run anySize wrappedPush).2, ¬ event.Safe) ∧
      ∃ event ∈ (State.initial.run anySize wrappedSize).2, ¬ event.Safe := by
  constructor
  · refine ⟨.pushWrite 200 (BitVec.ofNat 32 (2 ^ 32 - 100)), List.mem_singleton.mpr rfl, ?_⟩
    exact (by decide : ¬ 200 + (2 ^ 32 - 100) ≤ PDOCKER_VK_MAX_PUSH_BYTES)
  · have sent : (State.initial.run anySize wrappedSize).2.any overruns = true := by decide +kernel
    obtain ⟨event, member, overrun⟩ := List.any_eq_true.mp sent
    exact ⟨event, member, unsafe_of_overruns overrun⟩

end PDocker.Vulkan.Ranges
