import PDocker.Data.Regions
import PDocker.Gpu.Accesses

/-!
# Dispatches on files

`run_vulkan_dispatch_fd` stages the ranges of a dispatch in buffers, one for each group of
overlapping ranges, and writes the ranges back binding by binding.
-/

set_option autoImplicit false

namespace PDocker.Gpu

open Regions

abbrev FileId := Nat

structure VulkanDispatchBinding where
  file : FileId
  binding : Nat
  offset : Nat
  size : Nat
deriving DecidableEq, Repr

/-- The bindings below `count`, the options that matter and what the shader's code declares. -/
structure DispatchRequest where
  count : Nat
  binding : Nat → VulkanDispatchBinding
  skipUnusedDescriptorTransfers : Bool
  useSpirvDescriptorAccess : Bool
  mutableCacheEnabled : Bool
  mutableCacheMaxBytes : Nat
  shaderUsedBindings : Nat → Bool
  shaderBindingAccess : Nat → SpirvDescriptorAccess

namespace DispatchRequest

variable (request : DispatchRequest)

def number (i : Nat) : Nat := (request.binding i).binding

def active (i : Nat) : Bool :=
  decide (i < request.count) && (!request.skipUnusedDescriptorTransfers ||
      decide (request.number i < 16) && request.shaderUsedBindings (request.number i))

def accessUnknown (i : Nat) : Bool :=
  !request.useSpirvDescriptorAccess || decide (16 ≤ request.number i)

def readNeeded (i : Nat) : Bool :=
  request.active i && (request.accessUnknown i || (request.shaderBindingAccess (request.number i)).readable)

def writeNeeded (i : Nat) : Bool :=
  request.active i && (request.accessUnknown i || (request.shaderBindingAccess (request.number i)).writable)

def file (i : Nat) : FileId := (request.binding i).file
def start (i : Nat) : Nat := (request.binding i).offset
def size (i : Nat) : Nat := (request.binding i).size

def range (i : Nat) : Region FileId := ⟨request.file i, request.start i, request.size i⟩

def overlaps (i j : Nat) : Bool :=
  decide (request.file i = request.file j) &&
    (decide (request.start i < request.start j + request.size j) &&
      decide (request.start j < request.start i + request.size i))

def firstOverlap (i : Nat) : Option Nat :=
  if request.active i then (List.range i).find? fun j => request.active j && request.overlaps i j else none

/-- The inner loop, when binding `i` overlaps `j`. -/
def mergeReps (reps : Nat → Nat) (i j : Nat) : Nat → Nat :=
  let oldRep := reps i
  let newRep := if reps j < oldRep then reps j else oldRep
  (List.range request.count).foldl
    (fun reps k => if reps k = oldRep ∨ reps k = reps j then Function.update reps k newRep else reps) reps

def aliasStep (reps : Nat → Nat) (i : Nat) : Nat → Nat :=
  match request.firstOverlap i with
  | none => reps
  | some j => request.mergeReps reps i j

def bindingAliasRep : Nat → Nat := (List.range request.count).foldl request.aliasStep id

def members (rep : Nat) : List Nat :=
  (List.range request.count).filter fun i => request.active i && decide (request.bindingAliasRep i = rep)

def groupBase (rep : Nat) : Nat := (request.members rep).foldl (fun base i => min base (request.start i)) (request.start rep)

def groupEnd (rep : Nat) : Nat :=
  (request.members rep).foldl (fun last i => max last (request.start i + request.size i))
    (request.start rep + request.size rep)

def groupReadNeeded (rep : Nat) : Bool := request.readNeeded rep || (request.members rep).any request.readNeeded

def gpuOffset (i : Nat) : Nat := request.start i - request.groupBase (request.bindingAliasRep i)

def leads (i : Nat) : Bool := request.active i && decide (request.bindingAliasRep i = i)

end DispatchRequest

structure MutableBufferCacheEntry where
  valid : Bool := false
  scratch : Bool := false
  file : FileId := 0
  offset : Nat := 0
  size : Nat := 0
  binding : Nat := 0
  hits : Nat := 0
deriving DecidableEq, Repr

def PDOCKER_GPU_MUTABLE_BUFFER_CACHE_SLOTS : Nat := 32

abbrev MutableBufferCache := Nat → MutableBufferCacheEntry

inductive BufferRef where
  | temporary (i : Nat)
  | slot (k : Nat)
deriving DecidableEq, Repr

def findMutableBufferCacheEntry (cache : MutableBufferCache) (key : VulkanDispatchBinding) : Option Nat :=
  (List.range PDOCKER_GPU_MUTABLE_BUFFER_CACHE_SLOTS).find? fun k =>
    (cache k).valid && !(cache k).scratch && decide ((cache k).file = key.file) &&
      decide ((cache k).offset = key.offset) && decide ((cache k).size = key.size) &&
      decide ((cache k).binding = key.binding)

def selectMutableBufferCacheSlot (cache : MutableBufferCache) : Nat :=
  match (List.range PDOCKER_GPU_MUTABLE_BUFFER_CACHE_SLOTS).find? fun k => !(cache k).valid with
  | some k => k
  | none =>
      (List.range PDOCKER_GPU_MUTABLE_BUFFER_CACHE_SLOTS).foldl
        (fun victim k => if (cache k).hits < (cache victim).hits then k else victim) 0

namespace DispatchRequest

variable (request : DispatchRequest)

def groupBinding (rep : Nat) : VulkanDispatchBinding :=
  { request.binding rep with
    offset := request.groupBase rep
    size := request.groupEnd rep - request.groupBase rep }

/-- Where `acquire_dispatch_buffer` puts a group; `creates` says whether a buffer for a slot can be
created. -/
def acquireDispatchBuffer (creates : Bool) (cache : MutableBufferCache) (rep : Nat) :
    BufferRef × MutableBufferCache :=
  let group := request.groupBinding rep
  if request.groupReadNeeded rep && request.mutableCacheEnabled &&
      decide (0 < request.mutableCacheMaxBytes) && decide (0 < group.size) &&
      decide (group.size ≤ request.mutableCacheMaxBytes) then
    match findMutableBufferCacheEntry cache group with
    | some k => (.slot k, Function.update cache k { cache k with hits := (cache k).hits + 1 })
    | none =>
        let k := selectMutableBufferCacheSlot cache
        if creates then
          (.slot k, Function.update cache k ⟨true, false, group.file, group.offset, group.size, group.binding, 1⟩)
        else (.temporary rep, Function.update cache k {})
  else (.temporary rep, cache)

def acquireAll (creates : Nat → Bool) (cache : MutableBufferCache) : (Nat → BufferRef) × MutableBufferCache :=
  (List.range request.count).foldl
    (fun acquired i =>
      if request.leads i then
        let (buffer, cache) := request.acquireDispatchBuffer (creates i) acquired.2 i
        (Function.update acquired.1 i buffer, cache)
      else acquired)
    (.temporary, cache)

def vkBuffer (creates : Nat → Bool) (cache : MutableBufferCache) (i : Nat) : BufferRef :=
  (request.acquireAll creates cache).1 (request.bindingAliasRep i)

def uploaded (files : Memory FileId UInt8) (fresh : Nat → Nat → UInt8) (rep position : Nat) : UInt8 :=
  if request.groupReadNeeded rep then files (request.file rep) (request.groupBase rep + position)
  else fresh rep position

end DispatchRequest

/-- From the bytes of the readable ranges to the bytes written in each range. -/
abbrev DispatchShader := (Nat → List UInt8) → Nat → Nat → Option UInt8

namespace DispatchRequest

variable (request : DispatchRequest)

def contents {ι : Type} (memory : Memory ι UInt8) (region : Nat → Region ι) (i : Nat) : List UInt8 :=
  if request.readNeeded i then memory.load (region i) else []

def inPlace (shader : DispatchShader) (files : Memory FileId UInt8) : Memory FileId UInt8 :=
  files.patches request.count request.range (shader (request.contents files request.range))

def bufferRange (creates : Nat → Bool) (cache : MutableBufferCache) (i : Nat) : Region BufferRef :=
  ⟨request.vkBuffer creates cache i, request.gpuOffset i, request.size i⟩

def upload (creates : Nat → Bool) (cache : MutableBufferCache) (fresh : Nat → Nat → UInt8)
    (files : Memory FileId UInt8) : Memory BufferRef UInt8 :=
  Memory.patches (fun _ _ => 0) request.count
    (fun i => ⟨request.vkBuffer creates cache i, 0, (request.groupBinding i).size⟩)
    fun i position => if request.leads i then some (request.uploaded files fresh i position) else none

def writeBack (creates : Nat → Bool) (cache : MutableBufferCache) (buffers : Memory BufferRef UInt8)
    (files : Memory FileId UInt8) : Memory FileId UInt8 :=
  files.patches request.count request.range fun i position =>
    if request.writeNeeded i then
      some (buffers (request.vkBuffer creates cache i) (request.gpuOffset i + position))
    else none

/-- `reads` are the outcomes of the uploads; without an active binding the dispatch is refused. -/
def runVulkanDispatchFd (creates reads : Nat → Bool) (cache : MutableBufferCache) (fresh : Nat → Nat → UInt8)
    (shader : DispatchShader) (files : Memory FileId UInt8) : Option (Memory FileId UInt8) :=
  let indices := List.range request.count
  if !indices.any request.active then none
  else if indices.any fun i => request.leads i && request.groupReadNeeded i && !reads i then none
  else
    let buffers := request.upload creates cache fresh files
    let written := buffers.patches request.count (request.bufferRange creates cache)
      (shader (request.contents buffers (request.bufferRange creates cache)))
    some (request.writeBack creates cache written files)

end DispatchRequest

end PDocker.Gpu
