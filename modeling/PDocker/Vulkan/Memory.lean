import PDocker.Data.Regions

/-!
# Memory objects, buffers and copy aliases

The objects of the driver behind their handles. A buffer lies in a memory object at an
offset; with copy aliasing on it may also promise that a part of it reads as a part of
another memory object.
-/

set_option autoImplicit false

namespace PDocker.Vulkan

open Regions

abbrev MemoryId := Nat
abbrev BufferId := Nat

def PDOCKER_VK_MAX_STORAGE_BUFFERS : Nat := 16
def PDOCKER_VK_MAX_DESCRIPTOR_SETS : Nat := 8
def PDOCKER_VK_MAX_PUSH_BYTES : Nat := 256
def PDOCKER_VK_MAX_COPY_OPS : Nat := 64
def PDOCKER_VK_MAX_DISPATCH_OPS : Nat := 128
def PDOCKER_VK_MAX_COMMAND_OPS : Nat := 256
def PDOCKER_VK_MAX_COPY_ALIASES : Nat := 128
def PDOCKER_VK_ALIAS_MIN_SOURCE_BYTES : Nat := 64 * 1024 * 1024
def VK_WHOLE_SIZE : Nat := 2 ^ 64 - 1

structure VkMemory where
  size : Nat
  hostVisible : Bool
deriving DecidableEq, Repr

/-- An entry of `aliases`; nothing ever clears its `valid`, so it is not kept. -/
structure CopyAlias where
  srcMemory : MemoryId
  srcOffset : Nat
  dstOffset : Nat
  size : Nat
deriving DecidableEq, Repr

structure VkBuffer where
  size : Nat
  memory : Option MemoryId
  memoryOffset : Nat
  aliases : List CopyAlias
deriving DecidableEq, Repr

structure Heap where
  memories : MemoryId → Option VkMemory
  buffers : BufferId → Option VkBuffer
  bytes : Memory MemoryId UInt8

namespace Heap

def store (heap : Heap) (region : Region MemoryId) (value : Nat → UInt8) : Heap :=
  { heap with bytes := heap.bytes.store region value }

def setAliases (heap : Heap) (buffer : BufferId) (aliases : List CopyAlias) : Heap :=
  { heap with
    buffers := fun id =>
      if id = buffer then (heap.buffers buffer).map ({ · with aliases := aliases }) else heap.buffers id }

variable (heap : Heap)

@[simp] theorem store_buffers (region : Region MemoryId) (value : Nat → UInt8) :
    (heap.store region value).buffers = heap.buffers := rfl

end Heap

def bufferAvailable (heap : Heap) (buffer : VkBuffer) (offset : Nat) : Nat :=
  match buffer.memory.bind heap.memories with
  | none => 0
  | some memory =>
      if buffer.size < offset then 0
      else if memory.size < buffer.memoryOffset + offset then 0
      else min (memory.size - (buffer.memoryOffset + offset)) (buffer.size - offset)

def bufferPtr (heap : Heap) (buffer : VkBuffer) (offset bytes : Nat) : Option (Region MemoryId) :=
  match buffer.memory with
  | none => none
  | some memory =>
      if bufferAvailable heap buffer offset < bytes then none
      else some ⟨memory, buffer.memoryOffset + offset, bytes⟩

def rangesOverlap (aOffset aSize bOffset bSize : Nat) : Bool :=
  if aSize = 0 ∨ bSize = 0 then false
  else decide (aOffset < bOffset + bSize) && decide (bOffset < aOffset + aSize)

def CopyAlias.covers (entry : CopyAlias) (offset size : Nat) : Bool :=
  decide (entry.dstOffset ≤ offset) && decide (offset - entry.dstOffset ≤ entry.size) &&
    decide (size ≤ entry.size - (offset - entry.dstOffset))

def resolveCopyAlias (buffer : VkBuffer) (offset size : Nat) : Option (MemoryId × Nat) :=
  (buffer.aliases.find? (·.covers offset size)).map fun entry =>
    (entry.srcMemory, entry.srcOffset + (offset - entry.dstOffset))

def remainingAliases (aliases : List CopyAlias) (offset size : Nat) : List CopyAlias :=
  aliases.filter fun entry => !rangesOverlap offset size entry.dstOffset entry.size

def invalidateCopyAliases (heap : Heap) (id : BufferId) (offset size : Nat) : Heap :=
  match heap.buffers id with
  | none => heap
  | some buffer => heap.setAliases id (remainingAliases buffer.aliases offset size)

def addCopyAlias (heap : Heap) (id : BufferId) (dstOffset size : Nat) (srcMemory : MemoryId)
    (srcOffset : Nat) : Heap :=
  match heap.buffers id with
  | none => heap
  | some dst =>
      if size = 0 then heap
      else
        let kept := remainingAliases dst.aliases dstOffset size
        -- A full table loses its oldest alias.
        let room := if PDOCKER_VK_MAX_COPY_ALIASES ≤ kept.length then kept.drop 1 else kept
        heap.setAliases id (room ++ [⟨srcMemory, srcOffset, dstOffset, size⟩])

def copyAliasCandidate (copyAliasEnabled : Bool) (heap : Heap) (srcMemory : MemoryId) : Bool :=
  copyAliasEnabled &&
    (heap.memories srcMemory).any fun memory => decide (PDOCKER_VK_ALIAS_MIN_SOURCE_BYTES ≤ memory.size)

structure VkBufferCopy where
  srcOffset : Nat
  dstOffset : Nat
  size : Nat
deriving DecidableEq, Repr

structure CopyOp where
  src : BufferId
  dst : BufferId
  region : VkBufferCopy
deriving DecidableEq, Repr

def executeRecordedCopyOp (copyAliasEnabled : Bool) (heap : Heap) (op : CopyOp) : Heap :=
  match heap.buffers op.src, heap.buffers op.dst with
  | some src, some dst =>
      match bufferPtr heap dst op.region.dstOffset op.region.size,
        bufferPtr heap src op.region.srcOffset op.region.size with
      | some dstPtr, some srcPtr =>
          let source :=
            (resolveCopyAlias src op.region.srcOffset op.region.size).getD (srcPtr.object, srcPtr.offset)
          if copyAliasCandidate copyAliasEnabled heap source.1 then
            addCopyAlias heap op.dst op.region.dstOffset op.region.size source.1 source.2
          else
            (invalidateCopyAliases heap op.dst op.region.dstOffset op.region.size).store dstPtr
              fun index => heap.bytes srcPtr.object (srcPtr.offset + index)
      | _, _ => heap
  | _, _ => heap

def wordByte (data : UInt32) (index : Nat) : UInt8 :=
  (data >>> (8 * UInt32.ofNat (index % 4))).toUInt8

def executeRecordedFillOp (heap : Heap) (id : BufferId) (offset size : Nat) (data : UInt32) : Heap :=
  match heap.buffers id with
  | none => heap
  | some buffer =>
      if size = 0 then heap
      else
        match bufferPtr heap buffer offset size with
        | none => heap
        | some ptr =>
            (invalidateCopyAliases heap id offset size).store { ptr with size := 4 * (size / 4) }
              (wordByte data)

def executeRecordedUpdateOp (heap : Heap) (id : BufferId) (offset : Nat) (payload : List UInt8) : Heap :=
  match heap.buffers id with
  | none => heap
  | some buffer =>
      if payload.length = 0 then heap
      else
        match bufferPtr heap buffer offset payload.length with
        | none => heap
        | some ptr =>
            (invalidateCopyAliases heap id offset payload.length).store ptr fun index => payload.getD index 0

def Heap.NoAliases (heap : Heap) : Prop :=
  ∀ id buffer, heap.buffers id = some buffer → buffer.aliases = []

@[simp] theorem copyAliasCandidate_disabled (heap : Heap) (memory : MemoryId) :
    copyAliasCandidate false heap memory = false := rfl

theorem invalidateCopyAliases_none {heap : Heap} (noAliases : heap.NoAliases) (id : BufferId)
    (offset size : Nat) : invalidateCopyAliases heap id offset size = heap := by
  cases found : heap.buffers id with
  | none => simp only [invalidateCopyAliases, found]
  | some buffer =>
      have empty := noAliases id buffer found
      simp only [invalidateCopyAliases, found, remainingAliases, empty, List.filter_nil]
      refine congrArg (Heap.mk heap.memories · heap.bytes) ?_
      funext other
      by_cases same : other = id
      · subst same
        rw [if_pos rfl, found, Option.map_some, ← empty]
      · rw [if_neg same]

end PDocker.Vulkan
