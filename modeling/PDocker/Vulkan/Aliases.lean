import PDocker.Vulkan.Commands

/-!
# Copy aliases

Calls that create, change, alias and observe the memory of buffers, with copy aliasing on or
off. What an alias stands for can differ from what a copy would have left; `Stale` follows where.
-/

set_option autoImplicit false

namespace PDocker.Vulkan

open Regions

/-! ## Calls and what they observe -/

abbrev Shader := List (List UInt8) → List (Nat → Option UInt8)

inductive MemoryCall where
  | allocateMemory (id : MemoryId) (size : Nat) (hostVisible : Bool)
  | freeMemory (id : MemoryId)
  | createBuffer (id : BufferId) (size : Nat)
  | bindBufferMemory (id : BufferId) (memory : MemoryId) (offset : Nat)
  | destroyBuffer (id : BufferId)
  | hostWrite (memory : MemoryId) (offset : Nat) (values : List UInt8)
  | hostRead (memory : MemoryId) (offset size : Nat)
  | copy (op : CopyOp)
  | fill (buffer : BufferId) (offset size : Nat) (data : UInt32)
  | update (buffer : BufferId) (offset : Nat) (payload : List UInt8)
  | dispatch (sets : BoundSets) (shader : Shader)

structure BufferRange where
  buffer : BufferId
  offset : Nat
  size : Nat
deriving DecidableEq, Repr

def coveringAlias (buffer : VkBuffer) (offset size : Nat) : Option CopyAlias :=
  buffer.aliases.find? (·.covers offset size)

def ownRegion (heap : Heap) (range : BufferRange) : Region MemoryId :=
  match heap.buffers range.buffer with
  | none => ⟨0, 0, 0⟩
  | some buffer =>
      match buffer.memory with
      | none => ⟨0, 0, 0⟩
      | some memory => ⟨memory, buffer.memoryOffset + range.offset, range.size⟩

def rangeAlias (heap : Heap) (range : BufferRange) : Option CopyAlias :=
  (heap.buffers range.buffer).bind fun buffer => coveringAlias buffer range.offset range.size

def readRegion (copyAliasEnabled : Bool) (heap : Heap) (range : BufferRange) : Region MemoryId :=
  if copyAliasEnabled then
    match rangeAlias heap range with
    | some entry => ⟨entry.srcMemory, entry.srcOffset + (range.offset - entry.dstOffset), range.size⟩
    | none => ownRegion heap range
  else ownRegion heap range

def RequestBinding.range (binding : RequestBinding) : BufferRange :=
  ⟨binding.apiBuffer, binding.apiOffset, binding.size⟩

def RequestBinding.region (binding : RequestBinding) : Region MemoryId :=
  ⟨binding.memory, binding.offset, binding.size⟩

/-- The host's pointer from `vkMapMemory` reaches the range. -/
def mapped (heap : Heap) (memory : MemoryId) (offset size : Nat) : Bool :=
  (heap.memories memory).any fun object => object.hostVisible && decide (offset + size ≤ object.size)

def copyPointers (heap : Heap) (op : CopyOp) : Bool :=
  ((heap.buffers op.src).bind fun src => bufferPtr heap src op.region.srcOffset op.region.size).isSome &&
    ((heap.buffers op.dst).bind fun dst => bufferPtr heap dst op.region.dstOffset op.region.size).isSome

def CopyOp.srcRange (op : CopyOp) : BufferRange := ⟨op.src, op.region.srcOffset, op.region.size⟩

def CopyOp.dstRange (op : CopyOp) : BufferRange := ⟨op.dst, op.region.dstOffset, op.region.size⟩

def applyWrites (bytes : Memory MemoryId UInt8) (regions : List (Region MemoryId))
    (writes : List (Nat → Option UInt8)) : Memory MemoryId UInt8 :=
  (regions.zip writes).foldl (fun bytes entry => bytes.patch entry.1 entry.2) bytes

namespace Heap

def step (copyAliasEnabled : Bool) (heap : Heap) : MemoryCall → Heap
  | .allocateMemory id size hostVisible =>
      { heap with
        memories := Function.update heap.memories id (some ⟨size, hostVisible⟩)
        bytes := Function.update heap.bytes id fun _ => 0 }
  | .freeMemory id => { heap with memories := Function.update heap.memories id none }
  | .createBuffer id size =>
      { heap with buffers := Function.update heap.buffers id (some ⟨size, none, 0, []⟩) }
  | .bindBufferMemory id memory offset =>
      { heap with
        buffers := Function.update heap.buffers id
          ((heap.buffers id).map ({ · with memory := some memory, memoryOffset := offset })) }
  | .destroyBuffer id => { heap with buffers := Function.update heap.buffers id none }
  | .hostWrite memory offset values =>
      if mapped heap memory offset values.length then
        heap.store ⟨memory, offset, values.length⟩ fun index => values.getD index 0
      else heap
  | .hostRead .. => heap
  | .copy op => executeRecordedCopyOp copyAliasEnabled heap op
  | .fill buffer offset size data => executeRecordedFillOp heap buffer offset size data
  | .update buffer offset payload => executeRecordedUpdateOp heap buffer offset payload
  | .dispatch sets shader =>
      let regions := (requestBindings copyAliasEnabled heap sets).map (·.region)
      { heap with bytes := applyWrites heap.bytes regions (shader (regions.map heap.bytes.load)) }

def observed (copyAliasEnabled : Bool) (heap : Heap) : MemoryCall → List (List UInt8)
  | .hostRead memory offset size =>
      if mapped heap memory offset size then [heap.bytes.load ⟨memory, offset, size⟩] else []
  | .copy op =>
      if copyPointers heap op then [heap.bytes.load (readRegion copyAliasEnabled heap op.srcRange)] else []
  | .dispatch sets _ =>
      (requestBindings copyAliasEnabled heap sets).map fun binding => heap.bytes.load binding.region
  | _ => []

def observations (copyAliasEnabled : Bool) : Heap → List MemoryCall → List (List (List UInt8))
  | _, [] => []
  | heap, call :: calls =>
      heap.observed copyAliasEnabled call :: observations copyAliasEnabled (heap.step copyAliasEnabled call) calls

def empty : Heap := ⟨fun _ => none, fun _ => none, fun _ _ => 0⟩

end Heap

/-- Where the driver's bytes may not be those of a run without aliases: in memory, and through an
alias of a buffer. -/
structure Stale where
  memory : MemoryId → Nat → Bool
  through : BufferId → CopyAlias → Nat → Bool

def aliasTarget (heap : Heap) (id : BufferId) (entry : CopyAlias) (index : Nat) : Option (MemoryId × Nat) :=
  (heap.buffers id).bind fun buffer => buffer.memory.map fun memory =>
    (memory, buffer.memoryOffset + entry.dstOffset + index)

def touched (region : Region MemoryId) (written : Nat → Bool) (memory : MemoryId) (position : Nat) : Bool :=
  decide (region.Holds memory position) && written (position - region.offset)

namespace Stale

def none : Stale := ⟨fun _ _ => false, fun _ _ _ => false⟩

def patched (stale : Stale) (heap : Heap) (meant actual : Region MemoryId) (written : Nat → Bool)
    (route : Option (BufferId × CopyAlias)) : Stale where
  memory object position :=
    if meant = actual then stale.memory object position && !touched meant written object position
    else
      stale.memory object position || touched meant written object position ||
        touched actual written object position
  through id entry index :=
    stale.through id entry index || (decide (route ≠ some (id, entry)) &&
        ((aliasTarget heap id entry index).any (fun target => touched meant written target.1 target.2) ||
          touched actual written entry.srcMemory (entry.srcOffset + index)))

def aliased (stale : Stale) (heap : Heap) (target : Region MemoryId) (id : BufferId) (entry : CopyAlias) :
    Stale where
  memory object position := stale.memory object position || touched target (fun _ => true) object position
  through id' entry' index :=
    if (id', entry') = (id, entry) then false
    else
      stale.through id' entry' index ||
        (aliasTarget heap id' entry' index).any fun place => touched target (fun _ => true) place.1 place.2

def ofWrite (stale : Stale) (heap : Heap) (range : BufferRange) (write : Nat → Option UInt8) : Stale :=
  stale.patched heap (ownRegion heap range) (readRegion true heap range) (fun index => (write index).isSome)
    ((rangeAlias heap range).map fun entry => (range.buffer, entry))

def ofStore (stale : Stale) (heap : Heap) (range : BufferRange) (size : Nat) : Stale :=
  if ((heap.buffers range.buffer).bind fun buffer => bufferPtr heap buffer range.offset range.size).isSome then
    stale.patched heap { ownRegion heap range with size := size } { ownRegion heap range with size := size }
      (fun _ => true) .none
  else stale

def step (stale : Stale) (heap : Heap) : MemoryCall → Stale
  | .allocateMemory id _ _ =>
      { memory object position := stale.memory object position && decide (object ≠ id)
        through buffer entry index :=
          stale.through buffer entry index || decide (entry.srcMemory = id) ||
            (aliasTarget heap buffer entry index).any fun target => decide (target.1 = id) }
  | .freeMemory id =>
      { stale with
        through buffer entry index := stale.through buffer entry index || decide (entry.srcMemory = id) }
  | .bindBufferMemory id _ _ =>
      { stale with through buffer entry index := stale.through buffer entry index || decide (buffer = id) }
  | .createBuffer .. | .destroyBuffer .. | .hostRead .. => stale
  | .hostWrite memory offset values =>
      if mapped heap memory offset values.length then
        stale.patched heap ⟨memory, offset, values.length⟩ ⟨memory, offset, values.length⟩ (fun _ => true) .none
      else stale
  | .copy op =>
      if !copyPointers heap op then stale
      else
        let source := readRegion true heap op.srcRange
        if copyAliasCandidate true heap source.object then
          if op.region.size = 0 then stale
          else
            stale.aliased heap (ownRegion heap op.dstRange) op.dst
              ⟨source.object, source.offset, op.region.dstOffset, op.region.size⟩
        else
          stale.patched heap (ownRegion heap op.dstRange) (ownRegion heap op.dstRange) (fun _ => true) .none
  | .fill buffer offset size _ =>
      if size = 0 then stale else stale.ofStore heap ⟨buffer, offset, size⟩ (4 * (size / 4))
  | .update buffer offset payload =>
      if payload.length = 0 then stale
      else stale.ofStore heap ⟨buffer, offset, payload.length⟩ payload.length
  | .dispatch sets shader =>
      let bindings := requestBindings true heap sets
      ((bindings.map (·.range)).zip (shader (bindings.map fun binding => heap.bytes.load binding.region))).foldl
        (fun stale entry => stale.ofWrite heap entry.1 entry.2) stale

def fresh (stale : Stale) (heap : Heap) (range : BufferRange) : Bool :=
  (List.range range.size).all fun index =>
    match rangeAlias heap range with
    | some entry => !stale.through range.buffer entry (range.offset - entry.dstOffset + index)
    | .none => !stale.memory (ownRegion heap range).object ((ownRegion heap range).offset + index)

def Observable (stale : Stale) (heap : Heap) : MemoryCall → Prop
  | .hostRead memory offset size =>
      mapped heap memory offset size = true → ∀ index < size, stale.memory memory (offset + index) = false
  | .copy op => copyPointers heap op = true → stale.fresh heap op.srcRange = true
  | .dispatch sets _ => ∀ binding ∈ requestBindings true heap sets, stale.fresh heap binding.range = true
  | _ => True

instance (stale : Stale) (heap : Heap) : (call : MemoryCall) → Decidable (stale.Observable heap call)
  | .hostRead memory offset size =>
      inferInstanceAs (Decidable (mapped heap memory offset size = true →
        ∀ index < size, stale.memory memory (offset + index) = false))
  | .copy op => inferInstanceAs (Decidable (copyPointers heap op = true → stale.fresh heap op.srcRange = true))
  | .dispatch sets _ =>
      inferInstanceAs (Decidable (∀ binding ∈ requestBindings true heap sets,
        stale.fresh heap binding.range = true))
  | .allocateMemory .. | .freeMemory .. | .createBuffer .. | .bindBufferMemory .. | .destroyBuffer ..
  | .hostWrite .. | .fill .. | .update .. => isTrue trivial

def ObservableAlong : Stale → Heap → List MemoryCall → Prop
  | _, _, [] => True
  | stale, heap, call :: calls =>
      stale.Observable heap call ∧ ObservableAlong (stale.step heap call) (heap.step true call) calls

instance decidableObservableAlong : (stale : Stale) → (heap : Heap) → (calls : List MemoryCall) →
    Decidable (ObservableAlong stale heap calls)
  | _, _, [] => isTrue trivial
  | stale, heap, call :: calls =>
      have := decidableObservableAlong (stale.step heap call) (heap.step true call) calls
      inferInstanceAs (Decidable (stale.Observable heap call ∧
        ObservableAlong (stale.step heap call) (heap.step true call) calls))

end Stale

end PDocker.Vulkan
