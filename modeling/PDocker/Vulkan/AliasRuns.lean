import PDocker.Vulkan.Aliases
import Mathlib.Data.List.Basic

/-!
# Runs with and without copy aliases

The two heaps are kept side by side: they agree outside the stale bytes, and every alias leads to
the bytes that the other heap has at its target.
-/

set_option autoImplicit false

namespace PDocker.Vulkan

open Regions

/-- The first heap is what the second would be without aliases, but for stale bytes. -/
structure Pictures (stale : Stale) (off on : Heap) : Prop where
  memories : off.memories = on.memories
  buffers : ∀ id, off.buffers id = (on.buffers id).map ({ · with aliases := [] })
  direct : ∀ object position, stale.memory object position = false →
    off.bytes object position = on.bytes object position
  promised : ∀ id buffer memory entry, on.buffers id = some buffer → buffer.memory = some memory →
    entry ∈ buffer.aliases → ∀ index < entry.size, stale.through id entry index = false →
    off.bytes memory (buffer.memoryOffset + entry.dstOffset + index) =
        on.bytes entry.srcMemory (entry.srcOffset + index) ∧
      copyAliasCandidate true on entry.srcMemory = true

variable {object : MemoryId} {position size : Nat} {region : Region MemoryId} {bytes : Memory MemoryId UInt8}
  {write : Nat → Option UInt8} {buffer : VkBuffer} {heap : Heap} {range : BufferRange} {binding : RequestBinding}
  {copyAliasEnabled : Bool}

theorem touched_iff {written : Nat → Bool} : touched region written object position = true ↔
      region.Holds object position ∧ written (position - region.offset) = true := by
  rw [touched, Bool.and_eq_true, decide_eq_true_eq]

theorem patch_untouched (untouched : touched region (fun index => (write index).isSome) object position = false) :
    bytes.patch region write object position = bytes object position := by
  rw [Memory.patch_eq]
  split
  · next held =>
      have nothing : write (position - region.offset) = none := by
        rw [← Option.not_isSome_iff_eq_none]
        intro written
        rw [touched_iff.mpr ⟨held, written⟩] at untouched
        cases untouched
      rw [nothing, Option.getD_none]
  · rfl

theorem patch_touched {bytes' : Memory MemoryId UInt8}
    (wasTouched : touched region (fun index => (write index).isSome) object position = true) :
    bytes.patch region write object position = bytes'.patch region write object position := by
  obtain ⟨held, written⟩ := touched_iff.mp wasTouched
  obtain ⟨value, found⟩ := Option.isSome_iff_exists.mp written
  rw [Memory.patch_eq, Memory.patch_eq, if_pos held, if_pos held, found, Option.getD_some, Option.getD_some]

namespace Pictures

variable {stale : Stale} {off on : Heap} (pictures : Pictures stale off on)
include pictures

theorem noAliases : off.NoAliases := by
  intro id buffer found
  rw [pictures.buffers id] at found
  obtain ⟨original, _, rfl⟩ := Option.map_eq_some_iff.mp found
  rfl

theorem ownRegion_eq (range : BufferRange) : ownRegion off range = ownRegion on range := by
  rw [ownRegion, ownRegion, pictures.buffers range.buffer]
  cases on.buffers range.buffer with
  | none => rfl
  | some buffer => rfl

theorem bufferPtr_eq (buffer : VkBuffer) (offset size : Nat) :
    bufferPtr off { buffer with aliases := [] } offset size = bufferPtr on buffer offset size := by
  unfold bufferPtr bufferAvailable
  rw [pictures.memories]

theorem pointer_eq (id : BufferId) (offset size : Nat) :
    ((off.buffers id).bind fun buffer => bufferPtr off buffer offset size) =
      (on.buffers id).bind fun buffer => bufferPtr on buffer offset size := by
  rw [pictures.buffers id]
  cases on.buffers id with
  | none => rfl
  | some buffer => exact pictures.bufferPtr_eq buffer offset size

theorem copyPointers_eq (op : CopyOp) : copyPointers off op = copyPointers on op := by
  rw [copyPointers, copyPointers, pictures.pointer_eq, pictures.pointer_eq]

theorem patched {meant actual : Region MemoryId} {route : Option (BufferId × CopyAlias)}
    (write : Nat → Option UInt8) (sameSize : meant.size = actual.size)
    (routed : ∀ id entry, route = some (id, entry) → ∀ buffer memory, on.buffers id = some buffer →
      buffer.memory = some memory → ∃ delta, meant.object = memory ∧
        meant.offset = buffer.memoryOffset + entry.dstOffset + delta ∧
        actual.object = entry.srcMemory ∧ actual.offset = entry.srcOffset + delta) :
    Pictures (stale.patched on meant actual (fun index => (write index).isSome) route)
      { off with bytes := off.bytes.patch meant write }
      { on with bytes := on.bytes.patch actual write } where
  memories := pictures.memories
  buffers := pictures.buffers
  direct object position clean := by
    simp only [Stale.patched] at clean
    split at clean
    · next same =>
        subst same
        cases wasTouched : touched meant (fun index => (write index).isSome) object position with
        | true => exact patch_touched wasTouched
        | false =>
            rw [wasTouched, Bool.not_false, Bool.and_true] at clean
            dsimp only
            rw [patch_untouched wasTouched, patch_untouched wasTouched]
            exact pictures.direct object position clean
    · rw [Bool.or_eq_false_iff, Bool.or_eq_false_iff] at clean
      obtain ⟨⟨before, meantUntouched⟩, actualUntouched⟩ := clean
      dsimp only
      rw [patch_untouched meantUntouched, patch_untouched actualUntouched]
      exact pictures.direct object position before
  promised id buffer memory entry found inMemory member index small clean := by
    simp only [Stale.patched, Bool.or_eq_false_iff, Bool.and_eq_false_iff] at clean
    obtain ⟨before, still⟩ := clean
    obtain ⟨promise, candidate⟩ := pictures.promised id buffer memory entry found inMemory member index small before
    refine ⟨?_, candidate⟩
    rcases still with theRoute | ⟨meantUntouched, actualUntouched⟩
    · have isRoute : route = some (id, entry) := by
        by_contra another
        rw [decide_eq_true another] at theRoute
        cases theRoute
      obtain ⟨delta, meantObject, meantOffset, actualObject, actualOffset⟩ :=
        routed id entry isRoute buffer memory found inMemory
      have meantHeld : meant.Holds memory (buffer.memoryOffset + entry.dstOffset + index) ↔
          delta ≤ index ∧ index < delta + meant.size := by
        rw [Region.Holds, meantObject, meantOffset, eq_self_iff_true, true_and]
        omega
      have actualHeld : actual.Holds entry.srcMemory (entry.srcOffset + index) ↔
          delta ≤ index ∧ index < delta + meant.size := by
        rw [Region.Holds, actualObject, actualOffset, ← sameSize, eq_self_iff_true, true_and]
        omega
      dsimp only
      rw [Memory.patch_eq, Memory.patch_eq]
      by_cases inside : delta ≤ index ∧ index < delta + meant.size
      · rw [if_pos (meantHeld.mpr inside), if_pos (actualHeld.mpr inside), promise, meantOffset, actualOffset,
          Nat.add_sub_add_left, Nat.add_sub_add_left]
      · rw [if_neg (mt meantHeld.mp inside), if_neg (mt actualHeld.mp inside), promise]
    · rw [aliasTarget, found, Option.bind_some, inMemory, Option.map_some, Option.any_some] at meantUntouched
      dsimp only
      rw [patch_untouched meantUntouched, patch_untouched actualUntouched, promise]

variable {aliases : List CopyAlias} {id : BufferId}

theorem fewer (fewer : ∀ buffer, on.buffers id = some buffer → ∀ entry ∈ aliases, entry ∈ buffer.aliases) :
    Pictures stale off (on.setAliases id aliases) where
  memories := pictures.memories
  buffers other := by
    rw [pictures.buffers other, Heap.setAliases]
    dsimp only
    split
    · next same =>
        subst same
        rw [Option.map_map]
        rfl
    · rfl
  direct := pictures.direct
  promised other buffer memory entry found inMemory member index small clean := by
    rw [Heap.setAliases] at found
    dsimp only at found
    split at found
    · next same =>
        subst same
        obtain ⟨original, originalFound, rfl⟩ := Option.map_eq_some_iff.mp found
        exact pictures.promised other original memory entry originalFound inMemory
          (fewer original originalFound entry member) index small clean
    · exact pictures.promised other buffer memory entry found inMemory member index small clean

theorem invalidated (id : BufferId) (offset size : Nat) :
    Pictures stale off (invalidateCopyAliases on id offset size) := by
  unfold invalidateCopyAliases
  split
  · exact pictures
  next buffer found =>
    refine pictures.fewer fun other otherFound entry member => ?_
    rw [found] at otherFound
    cases otherFound
    exact (List.mem_filter.mp member).1

theorem aliased {buffer : VkBuffer} {memory : MemoryId}
    {entry : CopyAlias} (found : on.buffers id = some buffer) (inMemory : buffer.memory = some memory)
    (kept : ∀ other ∈ aliases, other ∈ buffer.aliases) {target source : Region MemoryId}
    (targetIs : target = ⟨memory, buffer.memoryOffset + entry.dstOffset, entry.size⟩)
    (moved : ∀ index < entry.size, off.bytes source.object (source.offset + index) =
      on.bytes entry.srcMemory (entry.srcOffset + index))
    (candidate : copyAliasCandidate true on entry.srcMemory = true) :
    Pictures (stale.aliased on target id entry) { off with bytes := off.bytes.move target source }
      (on.setAliases id (aliases ++ [entry])) where
  memories := pictures.memories
  buffers other := by
    rw [Heap.setAliases]
    dsimp only
    rw [pictures.buffers other]
    split
    · next same =>
        subst same
        rw [Option.map_map]
        rfl
    · rfl
  direct object position clean := by
    simp only [Stale.aliased, Bool.or_eq_false_iff] at clean
    obtain ⟨before, untouched⟩ := clean
    have outside : ¬target.Holds object position := fun held => by
      rw [touched_iff.mpr ⟨held, rfl⟩] at untouched
      cases untouched
    dsimp only [Memory.move]
    rw [Memory.store_outside outside]
    exact pictures.direct object position before
  promised other buffer' memory' entry' found' inMemory' member index small clean := by
    have isNew : (other, entry') = (id, entry) →
        off.bytes.move target source memory' (buffer'.memoryOffset + entry'.dstOffset + index) =
          on.bytes entry'.srcMemory (entry'.srcOffset + index) ∧
        copyAliasCandidate true on entry'.srcMemory = true := by
      rintro ⟨⟩
      rw [Heap.setAliases] at found'
      dsimp only at found'
      rw [if_pos rfl, found] at found'
      cases found'
      rw [inMemory] at inMemory'
      cases inMemory'
      have held : target.Holds memory (buffer.memoryOffset + entry.dstOffset + index) := by
        rw [targetIs]
        exact Region.holds_at small
      refine ⟨?_, candidate⟩
      rw [Memory.move, Memory.store_inside held, ← moved index small, targetIs, Nat.add_sub_cancel_left]
    have isOld : (other, entry') ≠ (id, entry) → ∀ original, on.buffers other = some original →
        original.memory = some memory' → original.memoryOffset = buffer'.memoryOffset →
        entry' ∈ original.aliases →
        off.bytes.move target source memory' (buffer'.memoryOffset + entry'.dstOffset + index) =
          on.bytes entry'.srcMemory (entry'.srcOffset + index) ∧
        copyAliasCandidate true on entry'.srcMemory = true := by
      intro another original originalFound originalMemory sameOffset originalMember
      simp only [Stale.aliased, if_neg another, Bool.or_eq_false_iff] at clean
      obtain ⟨before, untouched⟩ := clean
      rw [aliasTarget, originalFound, Option.bind_some, originalMemory, Option.map_some, Option.any_some,
        sameOffset] at untouched
      have outside : ¬target.Holds memory' (buffer'.memoryOffset + entry'.dstOffset + index) := fun held => by
        rw [touched_iff.mpr ⟨held, rfl⟩] at untouched
        cases untouched
      rw [Memory.move, Memory.store_outside outside, ← sameOffset]
      exact pictures.promised other original memory' entry' originalFound originalMemory originalMember index
        small before
    by_cases another : (other, entry') = (id, entry)
    · exact isNew another
    rw [Heap.setAliases] at found'
    dsimp only at found'
    split at found'
    · next same =>
        subst same
        rw [found] at found'
        cases found'
        have old : entry' ∈ aliases := (List.mem_append.mp member).resolve_right fun last =>
          another (Prod.ext rfl (List.mem_singleton.mp last))
        exact isOld another buffer found inMemory' rfl (kept entry' old)
    · exact isOld another buffer' found' inMemory' rfl member

end Pictures

def Placed (heap : Heap) (range : BufferRange) : Prop :=
  ∃ buffer memory, heap.buffers range.buffer = some buffer ∧ buffer.memory = some memory

theorem ownRegion_placed {memory : MemoryId}
    (found : heap.buffers range.buffer = some buffer) (inMemory : buffer.memory = some memory) :
    ownRegion heap range = ⟨memory, buffer.memoryOffset + range.offset, range.size⟩ := by
  rw [ownRegion, found]
  dsimp only
  rw [inMemory]

theorem readRegion_placed {heap : Heap} {range : BufferRange} {buffer : VkBuffer} {memory : MemoryId}
    (found : heap.buffers range.buffer = some buffer) (inMemory : buffer.memory = some memory)
    (copyAliasEnabled : Bool) :
    readRegion copyAliasEnabled heap range =
      let place := if copyAliasEnabled then
          (resolveCopyAlias buffer range.offset range.size).getD (memory, buffer.memoryOffset + range.offset)
        else (memory, buffer.memoryOffset + range.offset)
      ⟨place.1, place.2, range.size⟩ := by
  have through : rangeAlias heap range = coveringAlias buffer range.offset range.size := by
    rw [rangeAlias, found]
    rfl
  rw [readRegion, through, ownRegion_placed found inMemory, resolveCopyAlias]
  unfold coveringAlias
  cases copyAliasEnabled with
  | false => rfl
  | true => cases buffer.aliases.find? (·.covers range.offset range.size) <;> rfl

theorem Placed.ownRegion_size (placed : Placed heap range) :
    (ownRegion heap range).size = range.size := by
  obtain ⟨buffer, memory, found, inMemory⟩ := placed
  rw [ownRegion_placed found inMemory]

theorem Placed.readRegion_size (placed : Placed heap range)
    (copyAliasEnabled : Bool) : (readRegion copyAliasEnabled heap range).size = range.size := by
  unfold readRegion
  split
  · split
    · rfl
    · exact placed.ownRegion_size
  · exact placed.ownRegion_size

theorem rangeAlias_some {entry : CopyAlias} (through : rangeAlias heap range = some entry) :
    ∃ buffer, heap.buffers range.buffer = some buffer ∧ entry ∈ buffer.aliases ∧
      entry.dstOffset ≤ range.offset ∧ range.offset - entry.dstOffset + range.size ≤ entry.size := by
  obtain ⟨buffer, found, covering⟩ := Option.bind_eq_some_iff.mp through
  have covers := List.find?_some covering
  rw [CopyAlias.covers, Bool.and_eq_true, Bool.and_eq_true, decide_eq_true_eq, decide_eq_true_eq,
    decide_eq_true_eq] at covers
  exact ⟨buffer, found, List.mem_of_find?_eq_some covering, covers.1.1, by omega⟩

theorem Stale.fresh_iff {stale : Stale} {heap : Heap} {range : BufferRange} :
    stale.fresh heap range = true ↔ ∀ index < range.size,
      match rangeAlias heap range with
      | some entry => stale.through range.buffer entry (range.offset - entry.dstOffset + index) = false
      | .none => stale.memory (ownRegion heap range).object ((ownRegion heap range).offset + index) = false := by
  rw [Stale.fresh, List.all_eq_true]
  refine forall_congr' fun index => ?_
  rw [List.mem_range]
  cases rangeAlias heap range with
  | none | some entry => simp only [Bool.not_eq_true']

namespace Pictures

variable {stale : Stale} {off on : Heap} (pictures : Pictures stale off on)
include pictures

variable {range : BufferRange}

theorem read_eq (placed : Placed on range) (fresh : stale.fresh on range = true)
    {index : Nat} (small : index < range.size) :
    off.bytes (ownRegion on range).object ((ownRegion on range).offset + index) =
      on.bytes (readRegion true on range).object ((readRegion true on range).offset + index) := by
  have here := Stale.fresh_iff.mp fresh index small
  rw [readRegion, if_pos rfl]
  cases through : rangeAlias on range with
  | none =>
      simp only [through] at here
      exact pictures.direct _ _ here
  | some entry =>
      simp only [through] at here
      obtain ⟨buffer, found, member, above, inside⟩ := rangeAlias_some through
      obtain ⟨buffer', memory, found', inMemory⟩ := placed
      rw [found] at found'
      cases found'
      have promise := (pictures.promised range.buffer buffer memory entry found inMemory member
        (range.offset - entry.dstOffset + index) (by omega) here).1
      have place : buffer.memoryOffset + entry.dstOffset + (range.offset - entry.dstOffset + index) =
          buffer.memoryOffset + range.offset + index := by omega
      rw [place, ← Nat.add_assoc] at promise
      rw [ownRegion_placed found inMemory]
      exact promise

theorem load_eq (placed : Placed on range) (fresh : stale.fresh on range = true) :
    off.bytes.load (ownRegion on range) = on.bytes.load (readRegion true on range) := by
  have sameSize : (ownRegion on range).size = (readRegion true on range).size := by
    rw [placed.ownRegion_size, placed.readRegion_size]
  refine List.ext_getElem (by rw [Memory.load, Memory.load, List.length_ofFn, List.length_ofFn, sameSize]) ?_
  intro index small small'
  rw [Memory.load, List.length_ofFn, placed.ownRegion_size] at small
  simp only [Memory.load, List.getElem_ofFn]
  exact pictures.read_eq placed fresh small

end Pictures

theorem bufferPtr_some {offset : Nat} (pointer : bufferPtr heap buffer offset size = some region) :
    ∃ memory, buffer.memory = some memory ∧ region = ⟨memory, buffer.memoryOffset + offset, size⟩ := by
  unfold bufferPtr at pointer
  split at pointer
  · cases pointer
  next memory inMemory =>
    split at pointer
    · cases pointer
    · exact ⟨memory, inMemory, (Option.some.inj pointer).symm⟩

theorem ownRegion_of_pointer (pointer : ((heap.buffers range.buffer).bind fun buffer =>
      bufferPtr heap buffer range.offset range.size) = some region) :
    Placed heap range ∧ ownRegion heap range = region := by
  obtain ⟨buffer, found, pointer⟩ := Option.bind_eq_some_iff.mp pointer
  obtain ⟨memory, inMemory, rfl⟩ := bufferPtr_some pointer
  exact ⟨⟨buffer, memory, found, inMemory⟩, ownRegion_placed found inMemory⟩

theorem executeRecordedCopyOp_eq (copyAliasEnabled : Bool) (heap : Heap) (op : CopyOp) :
    executeRecordedCopyOp copyAliasEnabled heap op = if copyPointers heap op then
        if copyAliasCandidate copyAliasEnabled heap (readRegion true heap op.srcRange).object then
          addCopyAlias heap op.dst op.region.dstOffset op.region.size
            (readRegion true heap op.srcRange).object (readRegion true heap op.srcRange).offset
        else
          (invalidateCopyAliases heap op.dst op.region.dstOffset op.region.size).store
            (ownRegion heap op.dstRange) fun index =>
              heap.bytes (ownRegion heap op.srcRange).object ((ownRegion heap op.srcRange).offset + index)
      else heap := by
  unfold executeRecordedCopyOp copyPointers
  cases srcFound : heap.buffers op.src with
  | none => rfl
  | some src =>
      cases dstFound : heap.buffers op.dst with
      | none => simp
      | some dst =>
          dsimp only [Option.bind_some]
          rcases Option.eq_none_or_eq_some (bufferPtr heap dst op.region.dstOffset op.region.size) with
            dstPtr | ⟨target, dstPtr⟩
          · simp [dstPtr]
          rcases Option.eq_none_or_eq_some (bufferPtr heap src op.region.srcOffset op.region.size) with
            srcPtr | ⟨source, srcPtr⟩
          · simp [srcPtr, dstPtr]
          have dstOwn : ownRegion heap op.dstRange = target :=
            (ownRegion_of_pointer (Option.bind_eq_some_iff.mpr ⟨dst, dstFound, dstPtr⟩)).2
          have srcOwn : ownRegion heap op.srcRange = source :=
            (ownRegion_of_pointer (Option.bind_eq_some_iff.mpr ⟨src, srcFound, srcPtr⟩)).2
          have resolved : (resolveCopyAlias src op.region.srcOffset op.region.size).getD
              (source.object, source.offset) =
                ((readRegion true heap op.srcRange).object, (readRegion true heap op.srcRange).offset) := by
            obtain ⟨memory, inMemory, rfl⟩ := bufferPtr_some srcPtr
            have srcRangeFound : heap.buffers op.srcRange.buffer = some src := srcFound
            rw [readRegion_placed srcRangeFound inMemory]
            rfl
          simp only [dstPtr, srcPtr, resolved, dstOwn, srcOwn, Option.isSome_some, Bool.and_self, ↓reduceIte]

theorem store_invalidateCopyAliases (heap : Heap) (id : BufferId) (offset size : Nat)
    (region : Region MemoryId) (value : Nat → UInt8) :
    (invalidateCopyAliases heap id offset size).store region value =
      invalidateCopyAliases (heap.store region value) id offset size := by
  unfold invalidateCopyAliases
  rw [Heap.store_buffers]
  split <;> rfl

theorem addCopyAlias_eq {id : BufferId} {dst : VkBuffer} (found : heap.buffers id = some dst)
    (nonempty : size ≠ 0) (dstOffset : Nat) (srcMemory : MemoryId) (srcOffset : Nat) :
    ∃ kept, (∀ entry ∈ kept, entry ∈ dst.aliases) ∧
      addCopyAlias heap id dstOffset size srcMemory srcOffset =
        heap.setAliases id (kept ++ [⟨srcMemory, srcOffset, dstOffset, size⟩]) := by
  rw [addCopyAlias, found]
  dsimp only
  rw [if_neg nonempty]
  refine ⟨_, fun entry member => ?_, rfl⟩
  split at member
  · exact (List.mem_filter.mp (List.mem_of_mem_drop member)).1
  · exact (List.mem_filter.mp member).1

theorem copyPointers_placed {op : CopyOp} (pointers : copyPointers heap op = true) :
    Placed heap op.srcRange ∧ Placed heap op.dstRange := by
  rw [copyPointers, Bool.and_eq_true] at pointers
  obtain ⟨source, srcPtr⟩ := Option.isSome_iff_exists.mp pointers.1
  obtain ⟨target, dstPtr⟩ := Option.isSome_iff_exists.mp pointers.2
  exact ⟨(ownRegion_of_pointer srcPtr).1, (ownRegion_of_pointer dstPtr).1⟩

namespace Pictures

variable {stale : Stale} {off on : Heap} (pictures : Pictures stale off on)
include pictures

theorem stored (region : Region MemoryId) {value value' : Nat → UInt8}
    (same : ∀ index < region.size, value index = value' index) :
    Pictures (stale.patched on region region (fun _ => true) none) (off.store region value)
      (on.store region value') := by
  have both := @Pictures.patched stale off on pictures region region none (fun index => some (value' index)) rfl
    fun _ _ route => nomatch route
  rw [Heap.store, Heap.store, Memory.store_congr same]
  exact both

theorem copied {op : CopyOp} (observable : stale.Observable on (.copy op)) :
    Pictures (stale.step on (.copy op)) (off.step false (.copy op)) (on.step true (.copy op)) := by
  rw [Heap.step, Heap.step, executeRecordedCopyOp_eq, executeRecordedCopyOp_eq, pictures.copyPointers_eq,
    Stale.step]
  by_cases pointers : copyPointers on op = true
  · obtain ⟨srcPlaced, dstPlaced⟩ := copyPointers_placed pointers
    have fresh := observable pointers
    simp only [pointers, ↓reduceIte, copyAliasCandidate_disabled, Bool.false_eq_true, Bool.not_true,
      invalidateCopyAliases_none pictures.noAliases, pictures.ownRegion_eq]
    by_cases candidate : copyAliasCandidate true on (readRegion true on op.srcRange).object = true
    · simp only [candidate, ↓reduceIte]
      obtain ⟨dst, memory, found, inMemory⟩ := dstPlaced
      have dstFound : on.buffers op.dst = some dst := found
      by_cases empty : op.region.size = 0
      · have nothing : (ownRegion on op.dstRange).size = 0 :=
          (Placed.ownRegion_size ⟨dst, memory, found, inMemory⟩).trans empty
        rw [if_pos empty, Heap.store, Memory.store_empty nothing, addCopyAlias, dstFound]
        dsimp only
        rw [if_pos empty]
        exact pictures
      · obtain ⟨kept, sublist, added⟩ := addCopyAlias_eq dstFound empty op.region.dstOffset
          (readRegion true on op.srcRange).object (readRegion true on op.srcRange).offset
        rw [if_neg empty, added]
        exact pictures.aliased found inMemory sublist (ownRegion_placed found inMemory)
          (fun index small => pictures.read_eq srcPlaced fresh small) candidate
    · simp only [candidate, Bool.false_eq_true, ↓reduceIte]
      rw [store_invalidateCopyAliases]
      refine Pictures.invalidated (pictures.stored _ fun index small => ?_) _ _ _
      rw [dstPlaced.ownRegion_size] at small
      have read := pictures.read_eq srcPlaced fresh small
      cases through : rangeAlias on op.srcRange with
      | none =>
          rw [readRegion, if_pos rfl, through] at read
          exact read
      | some entry =>
          have clean := Stale.fresh_iff.mp fresh index small
          simp only [through] at clean
          obtain ⟨buffer, found, member, above, inside⟩ := rangeAlias_some through
          obtain ⟨buffer', memory, found', inMemory⟩ := srcPlaced
          rw [found] at found'
          cases found'
          have promise := (pictures.promised _ buffer memory entry found inMemory member _
            (by have : index < op.srcRange.size := small; omega) clean).2
          rw [readRegion, if_pos rfl, through] at candidate
          exact absurd promise candidate
  · simp only [pointers, Bool.false_eq_true, ↓reduceIte, Bool.not_false]
    exact pictures

end Pictures

def hasPointer (heap : Heap) (range : BufferRange) : Bool :=
  ((heap.buffers range.buffer).bind fun buffer => bufferPtr heap buffer range.offset range.size).isSome

theorem executeRecordedFillOp_eq (heap : Heap) (id : BufferId) (offset size : Nat) (data : UInt32) :
    executeRecordedFillOp heap id offset size data = if size = 0 then heap
      else if hasPointer heap ⟨id, offset, size⟩ then
        (invalidateCopyAliases heap id offset size).store
          { ownRegion heap ⟨id, offset, size⟩ with size := 4 * (size / 4) } (wordByte data)
      else heap := by
  unfold executeRecordedFillOp hasPointer
  cases found : heap.buffers id with
  | none => simp
  | some buffer =>
      dsimp only [Option.bind_some]
      rcases Option.eq_none_or_eq_some (bufferPtr heap buffer offset size) with ptr | ⟨region, ptr⟩
      · simp [ptr]
      · have own : ownRegion heap ⟨id, offset, size⟩ = region :=
          (ownRegion_of_pointer (Option.bind_eq_some_iff.mpr ⟨buffer, found, ptr⟩)).2
        simp only [ptr, own, Option.isSome_some, ↓reduceIte]

theorem executeRecordedUpdateOp_eq (heap : Heap) (id : BufferId) (offset : Nat) (payload : List UInt8) :
    executeRecordedUpdateOp heap id offset payload = if payload.length = 0 then heap
      else if hasPointer heap ⟨id, offset, payload.length⟩ then
        (invalidateCopyAliases heap id offset payload.length).store
          (ownRegion heap ⟨id, offset, payload.length⟩) fun index => payload.getD index 0
      else heap := by
  unfold executeRecordedUpdateOp hasPointer
  cases found : heap.buffers id with
  | none => simp
  | some buffer =>
      dsimp only [Option.bind_some]
      rcases Option.eq_none_or_eq_some (bufferPtr heap buffer offset payload.length) with ptr | ⟨region, ptr⟩
      · simp [ptr]
      · have own : ownRegion heap ⟨id, offset, payload.length⟩ = region :=
          (ownRegion_of_pointer (Option.bind_eq_some_iff.mpr ⟨buffer, found, ptr⟩)).2
        simp only [ptr, own, Option.isSome_some, ↓reduceIte]

namespace Pictures

variable {stale : Stale} {off on : Heap} (pictures : Pictures stale off on)
include pictures

theorem hasPointer_eq (range : BufferRange) : hasPointer off range = hasPointer on range := by
  rw [hasPointer, hasPointer, pictures.pointer_eq]

theorem storedTo (id : BufferId) (offset size : Nat) (region : Region MemoryId) (value : Nat → UInt8) :
    Pictures (stale.patched on region region (fun _ => true) none)
      ((invalidateCopyAliases off id offset size).store region value)
      ((invalidateCopyAliases on id offset size).store region value) := by
  rw [invalidateCopyAliases_none pictures.noAliases, store_invalidateCopyAliases]
  exact (pictures.stored region fun _ _ => rfl).invalidated id offset size

theorem filled (id : BufferId) (offset size : Nat) (data : UInt32) :
    Pictures (stale.step on (.fill id offset size data)) (off.step false (.fill id offset size data))
      (on.step true (.fill id offset size data)) := by
  rw [Heap.step, Heap.step, executeRecordedFillOp_eq, executeRecordedFillOp_eq, pictures.hasPointer_eq,
    pictures.ownRegion_eq, Stale.step]
  by_cases empty : size = 0
  · rw [if_pos empty, if_pos empty, if_pos empty]
    exact pictures
  rw [if_neg empty, if_neg empty, if_neg empty, Stale.ofStore]
  cases pointer : hasPointer on ⟨id, offset, size⟩ with
  | true =>
      rw [hasPointer] at pointer
      rw [if_pos rfl, if_pos rfl, if_pos pointer]
      exact pictures.storedTo id offset size _ (wordByte data)
  | false =>
      rw [hasPointer] at pointer
      rw [if_neg Bool.false_ne_true, if_neg Bool.false_ne_true, if_neg (by rw [pointer]; exact Bool.false_ne_true)]
      exact pictures

theorem updated (id : BufferId) (offset : Nat) (payload : List UInt8) :
    Pictures (stale.step on (.update id offset payload)) (off.step false (.update id offset payload))
      (on.step true (.update id offset payload)) := by
  rw [Heap.step, Heap.step, executeRecordedUpdateOp_eq, executeRecordedUpdateOp_eq, pictures.hasPointer_eq,
    pictures.ownRegion_eq, Stale.step]
  by_cases empty : payload.length = 0
  · rw [if_pos empty, if_pos empty, if_pos empty]
    exact pictures
  rw [if_neg empty, if_neg empty, if_neg empty, Stale.ofStore]
  cases pointer : hasPointer on ⟨id, offset, payload.length⟩ with
  | true =>
      rw [hasPointer] at pointer
      rw [if_pos rfl, if_pos rfl, if_pos pointer]
      obtain ⟨region, ptr⟩ := Option.isSome_iff_exists.mp pointer
      have whole : { ownRegion on ⟨id, offset, payload.length⟩ with size := payload.length } =
          ownRegion on ⟨id, offset, payload.length⟩ := by
        have sized := (ownRegion_of_pointer ptr).1.ownRegion_size
        exact congrArg (Region.mk _ _) sized.symm
      rw [whole]
      exact pictures.storedTo id offset payload.length _ _
  | false =>
      rw [hasPointer] at pointer
      rw [if_neg Bool.false_ne_true, if_neg Bool.false_ne_true, if_neg (by rw [pointer]; exact Bool.false_ne_true)]
      exact pictures

theorem mapped_eq (memory : MemoryId) (offset size : Nat) :
    mapped off memory offset size = mapped on memory offset size := by
  rw [mapped, mapped, pictures.memories]

theorem hostWritten (memory : MemoryId) (offset : Nat) (values : List UInt8) :
    Pictures (stale.step on (.hostWrite memory offset values))
      (off.step false (.hostWrite memory offset values)) (on.step true (.hostWrite memory offset values)) := by
  rw [Heap.step, Heap.step, pictures.mapped_eq, Stale.step]
  split
  · exact pictures.stored _ fun _ _ => rfl
  · exact pictures

theorem allocated (id : MemoryId) (size : Nat) (hostVisible : Bool) :
    Pictures (stale.step on (.allocateMemory id size hostVisible))
      (off.step false (.allocateMemory id size hostVisible))
      (on.step true (.allocateMemory id size hostVisible)) where
  memories := congrArg (Function.update · id _) pictures.memories
  buffers := pictures.buffers
  direct object position clean := by
    rw [Stale.step] at clean
    by_cases same : object = id
    · subst same
      simp only [Heap.step, Function.update_self]
    · simp only [same, not_false_eq_true, ne_eq, decide_true, Bool.and_true] at clean
      simp only [Heap.step, Function.update_of_ne same]
      exact pictures.direct object position clean
  promised buffer object memory entry found inMemory member index small clean := by
    simp only [Stale.step, Bool.or_eq_false_iff, decide_eq_false_iff_not] at clean
    obtain ⟨⟨before, otherSource⟩, otherTarget⟩ := clean
    obtain ⟨promise, candidate⟩ :=
      pictures.promised buffer object memory entry found inMemory member index small before
    have otherMemory : memory ≠ id := by
      have target : aliasTarget on buffer entry index =
          some (memory, object.memoryOffset + entry.dstOffset + index) := by
        rw [aliasTarget, show on.buffers buffer = some object from found, Option.bind_some, inMemory]
        rfl
      rw [target, Option.any_some, decide_eq_false_iff_not] at otherTarget
      exact otherTarget
    constructor
    · simp only [Heap.step, Function.update_of_ne otherMemory, Function.update_of_ne otherSource]
      exact promise
    · simp only [copyAliasCandidate, Heap.step, Function.update_of_ne otherSource] at candidate ⊢
      exact candidate

theorem freed (id : MemoryId) :
    Pictures (stale.step on (.freeMemory id)) (off.step false (.freeMemory id)) (on.step true (.freeMemory id)) where
  memories := congrArg (Function.update · id _) pictures.memories
  buffers := pictures.buffers
  direct := pictures.direct
  promised buffer object memory entry found inMemory member index small clean := by
    simp only [Stale.step, Bool.or_eq_false_iff, decide_eq_false_iff_not] at clean
    obtain ⟨before, otherSource⟩ := clean
    obtain ⟨promise, candidate⟩ :=
      pictures.promised buffer object memory entry found inMemory member index small before
    refine ⟨promise, ?_⟩
    simp only [copyAliasCandidate, Heap.step, Function.update_of_ne otherSource] at candidate ⊢
    exact candidate

theorem replaced (id : BufferId) {buffer : Option VkBuffer} (bare : ∀ new, buffer = some new → new.aliases = []) :
    Pictures stale { off with buffers := Function.update off.buffers id buffer }
      { on with buffers := Function.update on.buffers id buffer } where
  memories := pictures.memories
  buffers other := by
    by_cases same : other = id
    · subst same
      simp only [Function.update_self]
      cases buffer with
      | none => rfl
      | some new => rw [Option.map_some, ← bare new rfl]
    · simp only [Function.update_of_ne same, pictures.buffers other]
  direct := pictures.direct
  promised other object memory entry found inMemory member index small clean := by
    by_cases same : other = id
    · subst same
      simp only [Function.update_self] at found
      rw [bare object found] at member
      cases member
    · simp only [Function.update_of_ne same] at found
      exact pictures.promised other object memory entry found inMemory member index small clean

theorem created (id : BufferId) (size : Nat) :
    Pictures (stale.step on (.createBuffer id size)) (off.step false (.createBuffer id size))
      (on.step true (.createBuffer id size)) :=
  pictures.replaced id fun _ made => by cases made; rfl

theorem destroyed (id : BufferId) :
    Pictures (stale.step on (.destroyBuffer id)) (off.step false (.destroyBuffer id))
      (on.step true (.destroyBuffer id)) :=
  pictures.replaced id nofun

theorem bound (id : BufferId) (memory : MemoryId) (offset : Nat) :
    Pictures (stale.step on (.bindBufferMemory id memory offset))
      (off.step false (.bindBufferMemory id memory offset)) (on.step true (.bindBufferMemory id memory offset)) where
  memories := pictures.memories
  buffers other := by
    by_cases same : other = id
    · subst same
      simp only [Heap.step, Function.update_self, pictures.buffers other, Option.map_map]
      rfl
    · simp only [Heap.step, Function.update_of_ne same, pictures.buffers other]
  direct := pictures.direct
  promised other object memory' entry found inMemory member index small clean := by
    simp only [Stale.step, Bool.or_eq_false_iff, decide_eq_false_iff_not] at clean
    obtain ⟨before, another⟩ := clean
    simp only [Heap.step, Function.update_of_ne another] at found
    exact pictures.promised other object memory' entry found inMemory member index small before

end Pictures

theorem requestBinding_region {set slot : Nat} {descriptor : DescriptorBinding}
    (sent : requestBinding copyAliasEnabled heap set slot descriptor = some binding) :
    Placed heap binding.range ∧ binding.region = readRegion copyAliasEnabled heap binding.range := by
  unfold requestBinding at sent
  split at sent
  · cases sent
  next id _ =>
    split at sent
    · cases sent
    next buffer found =>
      split at sent
      · cases sent
      next memory inMemory =>
        dsimp only at sent
        split at sent
        · cases sent
        cases sent
        exact ⟨⟨buffer, memory, found, inMemory⟩,
          (@readRegion_placed heap ⟨id, descriptor.offset, descriptorBindingSize heap descriptor⟩ buffer
            memory found inMemory copyAliasEnabled).symm⟩

theorem requestBinding_range {off on : Heap} {stale : Stale} (pictures : Pictures stale off on)
    (set slot : Nat) (descriptor : DescriptorBinding) :
    (requestBinding false off set slot descriptor).map (·.range) =
      (requestBinding true on set slot descriptor).map (·.range) := by
  have sameSize : descriptorBindingSize off descriptor = descriptorBindingSize on descriptor := by
    unfold descriptorBindingSize
    cases descriptor.buffer with
    | none => rfl
    | some id =>
        rw [Option.bind_some, Option.bind_some, pictures.buffers id]
        cases on.buffers id <;> rfl
  unfold requestBinding
  cases descriptor.buffer with
  | none => rfl
  | some id =>
      dsimp only
      rw [pictures.buffers id, sameSize]
      cases on.buffers id with
      | none => rfl
      | some buffer =>
          dsimp only [Option.map_some]
          cases buffer.memory with
          | none => rfl
          | some memory =>
              dsimp only
              split <;> rfl

theorem mem_requestBindings {sets : BoundSets} (member : binding ∈ requestBindings copyAliasEnabled heap sets) :
    Placed heap binding.range ∧ binding.region = readRegion copyAliasEnabled heap binding.range := by
  obtain ⟨set, _, inSet⟩ := List.mem_flatMap.mp member
  cases held : sets set with
  | none =>
      rw [held] at inSet
      cases inSet
  | some slots =>
      rw [held] at inSet
      obtain ⟨slot, _, sent⟩ := List.mem_filterMap.mp inSet
      exact requestBinding_region sent

theorem requestBindings_range {off on : Heap} {stale : Stale} (pictures : Pictures stale off on)
    (sets : BoundSets) :
    (requestBindings false off sets).map (·.range) = (requestBindings true on sets).map (·.range) := by
  unfold requestBindings
  rw [List.map_flatMap, List.map_flatMap]
  refine List.flatMap_congr fun set _ => ?_
  cases sets set with
  | none => rfl
  | some slots =>
      dsimp only
      rw [List.map_filterMap, List.map_filterMap]
      exact List.filterMap_congr fun slot _ => requestBinding_range pictures set slot (slots slot)

theorem requestBindings_region (copyAliasEnabled : Bool) (heap : Heap) (sets : BoundSets) :
    (requestBindings copyAliasEnabled heap sets).map (·.region) =
      ((requestBindings copyAliasEnabled heap sets).map (·.range)).map (readRegion copyAliasEnabled heap) := by
  rw [List.map_map]
  exact List.map_congr_left fun binding member => (mem_requestBindings member).2

namespace Pictures

variable {stale : Stale} {off on : Heap}

theorem written {ranges : List BufferRange} (placed : ∀ range ∈ ranges, Placed on range) :
    ∀ {stale : Stale} {offBytes onBytes : Memory MemoryId UInt8} {writes : List (Nat → Option UInt8)},
      Pictures stale { off with bytes := offBytes } { on with bytes := onBytes } →
      Pictures ((ranges.zip writes).foldl (fun stale entry => stale.ofWrite on entry.1 entry.2) stale)
        { off with bytes := applyWrites offBytes (ranges.map (ownRegion on)) writes }
        { on with bytes := applyWrites onBytes (ranges.map (readRegion true on)) writes } := by
  induction ranges with
  | nil => exact fun pictures => pictures
  | cons range ranges ih =>
      intro stale offBytes onBytes writes pictures
      cases writes with
      | nil => exact pictures
      | cons write writes =>
          have here := placed range List.mem_cons_self
          refine ih (fun other member => placed other (List.mem_cons_of_mem _ member)) ?_
          refine pictures.patched write ?_ ?_
          · rw [here.ownRegion_size, here.readRegion_size]
          intro id entry route buffer memory found inMemory
          obtain ⟨_, through, same⟩ := Option.map_eq_some_iff.mp route
          cases same
          obtain ⟨buffer', found', _, above, _⟩ := rangeAlias_some through
          have rangeFound : on.buffers range.buffer = some buffer := found
          rw [rangeFound] at found'
          cases found'
          refine ⟨range.offset - entry.dstOffset, ?_⟩
          have own : ownRegion on range = ⟨memory, buffer.memoryOffset + range.offset, range.size⟩ :=
            ownRegion_placed rangeFound inMemory
          have read : readRegion true on range =
              ⟨entry.srcMemory, entry.srcOffset + (range.offset - entry.dstOffset), range.size⟩ := by
            rw [readRegion, if_pos rfl, show rangeAlias on range = some entry from through]
          dsimp only at above
          dsimp only
          rw [own, read]
          exact ⟨rfl, by dsimp only; omega, rfl, rfl⟩

theorem dispatched (pictures : Pictures stale off on) {sets : BoundSets} {shader : Shader}
    (observable : stale.Observable on (.dispatch sets shader)) :
    off.observed false (.dispatch sets shader) = on.observed true (.dispatch sets shader) ∧
      Pictures (stale.step on (.dispatch sets shader)) (off.step false (.dispatch sets shader))
        (on.step true (.dispatch sets shader)) := by
  have placed : ∀ range ∈ (requestBindings true on sets).map (·.range), Placed on range := by
    intro range member
    obtain ⟨binding, among, rfl⟩ := List.mem_map.mp member
    exact (mem_requestBindings among).1
  have fresh : ∀ range ∈ (requestBindings true on sets).map (·.range), stale.fresh on range = true := by
    intro range member
    obtain ⟨binding, among, rfl⟩ := List.mem_map.mp member
    exact observable binding among
  have offRegions : (requestBindings false off sets).map (·.region) =
      ((requestBindings true on sets).map (·.range)).map (ownRegion on) := by
    rw [requestBindings_region, requestBindings_range pictures]
    exact List.map_congr_left fun range _ => pictures.ownRegion_eq range
  have contents : ((requestBindings false off sets).map (·.region)).map off.bytes.load =
      ((requestBindings true on sets).map (·.region)).map on.bytes.load := by
    rw [offRegions, requestBindings_region true]
    refine List.map_map.trans (Eq.trans ?_ List.map_map.symm)
    exact List.map_congr_left fun range member => pictures.load_eq (placed range member) (fresh range member)
  constructor
  · rw [List.map_map, List.map_map] at contents
    exact contents
  have onContents : (requestBindings true on sets).map (fun binding => on.bytes.load binding.region) =
      ((requestBindings true on sets).map (·.region)).map on.bytes.load := by rw [List.map_map]; rfl
  simp only [Heap.step, Stale.step]
  rw [contents, onContents, offRegions, requestBindings_region true]
  exact written placed pictures

end Pictures

namespace Pictures

variable {stale : Stale} {off on : Heap} (pictures : Pictures stale off on)
include pictures

theorem hostRead_eq {memory : MemoryId} {offset size : Nat}
    (observable : stale.Observable on (.hostRead memory offset size)) :
    off.observed false (.hostRead memory offset size) = on.observed true (.hostRead memory offset size) := by
  rw [Heap.observed, Heap.observed, pictures.mapped_eq]
  split
  · next inMap =>
      have same : off.bytes.load ⟨memory, offset, size⟩ = on.bytes.load ⟨memory, offset, size⟩ := by
        refine congrArg List.ofFn (funext fun index => ?_)
        exact pictures.direct memory (offset + index) (observable inMap index index.isLt)
      rw [same]
  · rfl

theorem copy_eq {op : CopyOp} (observable : stale.Observable on (.copy op)) :
    off.observed false (.copy op) = on.observed true (.copy op) := by
  rw [Heap.observed, Heap.observed, pictures.copyPointers_eq]
  split
  · next pointers =>
      have own : readRegion false off op.srcRange = ownRegion on op.srcRange := by
        rw [readRegion, if_neg Bool.false_ne_true, pictures.ownRegion_eq]
      rw [own, pictures.load_eq (copyPointers_placed pointers).1 (observable pointers)]
  · rfl

theorem step {call : MemoryCall} (observable : stale.Observable on call) :
    off.observed false call = on.observed true call ∧
      Pictures (stale.step on call) (off.step false call) (on.step true call) := by
  cases call with
  | allocateMemory id size hostVisible => exact ⟨rfl, pictures.allocated id size hostVisible⟩
  | freeMemory id => exact ⟨rfl, pictures.freed id⟩
  | createBuffer id size => exact ⟨rfl, pictures.created id size⟩
  | bindBufferMemory id memory offset => exact ⟨rfl, pictures.bound id memory offset⟩
  | destroyBuffer id => exact ⟨rfl, pictures.destroyed id⟩
  | hostWrite memory offset values => exact ⟨rfl, pictures.hostWritten memory offset values⟩
  | hostRead memory offset size => exact ⟨pictures.hostRead_eq observable, pictures⟩
  | copy op => exact ⟨pictures.copy_eq observable, pictures.copied observable⟩
  | fill buffer offset size data => exact ⟨rfl, pictures.filled buffer offset size data⟩
  | update buffer offset payload => exact ⟨rfl, pictures.updated buffer offset payload⟩
  | dispatch sets shader => exact pictures.dispatched observable

theorem run {calls : List MemoryCall} (observable : stale.ObservableAlong on calls) :
    off.observations false calls = on.observations true calls := by
  induction calls generalizing stale off on with
  | nil => rfl
  | cons call calls ih =>
      obtain ⟨here, later⟩ := observable
      obtain ⟨same, after⟩ := pictures.step here
      rw [Heap.observations, Heap.observations, same, ih after later]

end Pictures

theorem Pictures.empty : Pictures .none .empty .empty where
  memories := rfl
  buffers _ := rfl
  direct _ _ _ := rfl
  promised _ _ _ _ found := nomatch found

/-- Copy aliasing is unobservable in a run in which nothing stale is observed. -/
theorem aliases_unobservable {calls : List MemoryCall}
    (observable : Stale.ObservableAlong .none .empty calls) :
    Heap.observations true .empty calls = Heap.observations false .empty calls :=
  (Pictures.empty.run observable).symm

def aliasedCopy : List MemoryCall :=
  [.allocateMemory 0 PDOCKER_VK_ALIAS_MIN_SOURCE_BYTES true, .allocateMemory 1 16 true,
    .createBuffer 0 16, .createBuffer 1 16, .bindBufferMemory 0 0 0, .bindBufferMemory 1 1 0,
    .hostWrite 0 0 [7], .copy ⟨0, 1, ⟨0, 0, 4⟩⟩]

def incremented : MemoryCall :=
  .dispatch (fun set => if set = 0 then
        some fun slot => if slot = 0 then { buffer := some 1, offset := 0, range := 4 } else {}
      else none)
    fun contents => contents.map fun bytes index => (bytes[index]?).map (· + 1)

theorem aliases_unobservable_dispatched :
    Heap.observations true .empty (aliasedCopy ++ [incremented, incremented]) =
      Heap.observations false .empty (aliasedCopy ++ [incremented, incremented]) :=
  aliases_unobservable (by decide +kernel)

/-- The host does not find in the target's memory what was copied. -/
theorem alias_observed : ¬∀ calls : List MemoryCall,
      Heap.observations true .empty calls = Heap.observations false .empty calls := by
  intro unobservable
  have here := unobservable (aliasedCopy ++ [.hostRead 1 0 1])
  revert here
  decide +kernel

end PDocker.Vulkan
