import PDocker.Vulkan.Descriptors
import Mathlib.Data.List.Sort
import Mathlib.Data.List.Range

/-!
# Descriptor sets by their layouts

What a set holds, by binding and array element, as its layout declares them: writes and copies
continue from one declared descriptor to the next, and binding consumes an offset for each
dynamic descriptor of the layout. The slots of `PDocker.Vulkan.Descriptors` agree with it while
each array fits between its binding and the next.
-/

set_option autoImplicit false

namespace PDocker.Vulkan

structure LayoutBinding where
  descriptorCount : Nat
  dynamic : Bool
deriving DecidableEq, Repr

abbrev SetLayout := Nat → LayoutBinding

abbrev Position := Nat × Nat

def slotOf (position : Position) : Nat := position.1 + position.2

namespace SetLayout

def positions (layout : SetLayout) : List Position :=
  (List.range PDOCKER_VK_MAX_STORAGE_BUFFERS).flatMap fun binding =>
    (List.range (layout binding).descriptorCount).map fun element => (binding, element)

def dynamicPositions (layout : SetLayout) : List Position :=
  layout.positions.filter fun position => (layout position.1).dynamic

def positionsFrom (layout : SetLayout) (start : Position) (count : Nat) : List Position :=
  (layout.positions.dropWhile fun position => decide (position ≠ start)).take count

def descriptorType (layout : SetLayout) (position : Position) : VkDescriptorType :=
  if (layout position.1).dynamic then .storageBufferDynamic else .storageBuffer

def Packed (layout : SetLayout) : Prop :=
  ∀ binding < PDOCKER_VK_MAX_STORAGE_BUFFERS, 0 < (layout binding).descriptorCount →
    binding + (layout binding).descriptorCount ≤ PDOCKER_VK_MAX_STORAGE_BUFFERS ∧
    ∀ next < PDOCKER_VK_MAX_STORAGE_BUFFERS, binding < next → 0 < (layout next).descriptorCount →
      binding + (layout binding).descriptorCount ≤ next

def Straight (layout : SetLayout) (start : Position) (count : Nat) : Prop :=
  (layout.positionsFrom start count).map slotOf = List.range' (slotOf start) count

instance (layout : SetLayout) : Decidable layout.Packed :=
  inferInstanceAs (Decidable (∀ binding < PDOCKER_VK_MAX_STORAGE_BUFFERS, _))

instance (layout : SetLayout) (start : Position) (count : Nat) :
    Decidable (layout.Straight start count) :=
  inferInstanceAs (Decidable (_ = _))

end SetLayout

structure ReferenceSet where
  layout : SetLayout
  content : Position → Option DescriptorBufferInfo

namespace ReferenceSet

def put (set : ReferenceSet) (position : Position) (info : Option DescriptorBufferInfo) : ReferenceSet :=
  { set with content := Function.update set.content position info }

def write (set : ReferenceSet) (start : Position) (infos : List DescriptorBufferInfo) : ReferenceSet :=
  ((set.layout.positionsFrom start infos.length).zip infos).foldl
    (fun set entry => set.put entry.1 (some entry.2)) set

def rebased (set : ReferenceSet) (dynamicOffsets : List Nat) : ReferenceSet :=
  { set with
    content := fun position =>
      (set.content position).map fun info =>
        if (set.layout position.1).dynamic then
          { info with
            offset := info.offset + dynamicOffsets.getD (set.layout.dynamicPositions.idxOf position) 0 }
        else info }

def binding (set : ReferenceSet) (position : Position) : DescriptorBinding :=
  match set.content position with
  | none => {}
  | some info => writtenBinding (set.layout.descriptorType position) info

end ReferenceSet

def referenceWrite (sets : SetId → Option ReferenceSet) (w : WriteDescriptorSet) :
    SetId → Option ReferenceSet :=
  match sets w.dstSet with
  | none => sets
  | some set =>
      Function.update sets w.dstSet (some (set.write (w.dstBinding, w.dstArrayElement) w.bufferInfo))

def referenceCopyOne (src dst : SetId) (sets : SetId → Option ReferenceSet)
    (entry : Position × Position) : SetId → Option ReferenceSet :=
  match sets src, sets dst with
  | some source, some target =>
      Function.update sets dst (some (target.put entry.2 (source.content entry.1)))
  | _, _ => sets

def referenceCopy (sets : SetId → Option ReferenceSet) (c : CopyDescriptorSet) :
    SetId → Option ReferenceSet :=
  match sets c.srcSet, sets c.dstSet with
  | some source, some target =>
      ((source.layout.positionsFrom (c.srcBinding, c.srcArrayElement) c.descriptorCount).zip
        (target.layout.positionsFrom (c.dstBinding, c.dstArrayElement) c.descriptorCount)).foldl
          (referenceCopyOne c.srcSet c.dstSet) sets
  | _, _ => sets

def referenceUpdate (sets : SetId → Option ReferenceSet) (writes : List WriteDescriptorSet)
    (copies : List CopyDescriptorSet) : SetId → Option ReferenceSet :=
  copies.foldl referenceCopy (writes.foldl referenceWrite sets)

def referenceBind (sets : SetId → Option ReferenceSet) :
    Nat → List SetId → List Nat → (Nat → Option ReferenceSet) → Nat → Option ReferenceSet
  | _, [], _, bound => bound
  | targetSet, handle :: handles, dynamicOffsets, bound =>
      match sets handle with
      | none => referenceBind sets (targetSet + 1) handles dynamicOffsets bound
      | some set =>
          referenceBind sets (targetSet + 1) handles
            (dynamicOffsets.drop set.layout.dynamicPositions.length)
            (Function.update bound targetSet (some (set.rebased dynamicOffsets)))

def referenceBindings (copyAliasEnabled : Bool) (heap : Heap) (bound : Nat → Option ReferenceSet) :
    List RequestBinding :=
  (List.range PDOCKER_VK_MAX_DESCRIPTOR_SETS).flatMap fun set =>
    match bound set with
    | none => []
    | some reference =>
        reference.layout.positions.filterMap fun position =>
          requestBinding copyAliasEnabled heap set (slotOf position) (reference.binding position)

variable {layout : SetLayout}

variable {position : Position} {set : ReferenceSet} {id : SetId} {references : SetId → Option ReferenceSet}
  {sets : SetId → Option DescriptorSet} {c : CopyDescriptorSet}

theorem mem_positions : position ∈ layout.positions ↔
      position.1 < PDOCKER_VK_MAX_STORAGE_BUFFERS ∧ position.2 < (layout position.1).descriptorCount := by
  obtain ⟨binding, element⟩ := position
  simp [SetLayout.positions]

theorem positionsFrom_mem {start : Position} {count : Nat}
    (member : position ∈ layout.positionsFrom start count) : position ∈ layout.positions :=
  (List.dropWhile_sublist _).subset (List.mem_of_mem_take member)

namespace SetLayout.Packed

variable (packed : layout.Packed)
include packed

theorem slot_lt {position : Position} (declared : position ∈ layout.positions) :
    slotOf position < PDOCKER_VK_MAX_STORAGE_BUFFERS := by
  obtain ⟨low, element⟩ := mem_positions.mp declared
  have fits := (packed position.1 low (by omega)).1
  simp only [slotOf]
  omega

variable {left right : Position}

theorem slot_lt_slot (leftDeclared : left ∈ layout.positions)
    (rightDeclared : right ∈ layout.positions) (before : left.1 < right.1) :
    slotOf left < slotOf right := by
  obtain ⟨leftLow, leftElement⟩ := mem_positions.mp leftDeclared
  obtain ⟨rightLow, rightElement⟩ := mem_positions.mp rightDeclared
  have apart := (packed left.1 leftLow (by omega)).2 right.1 rightLow before (by omega)
  simp only [slotOf]
  omega

theorem slot_injective (leftDeclared : left ∈ layout.positions)
    (rightDeclared : right ∈ layout.positions) (same : slotOf left = slotOf right) : left = right := by
  have notBefore : ¬left.1 < right.1 := fun before =>
    (packed.slot_lt_slot leftDeclared rightDeclared before).ne same
  have notAfter : ¬right.1 < left.1 := fun after =>
    (packed.slot_lt_slot rightDeclared leftDeclared after).ne same.symm
  simp only [slotOf] at same
  exact Prod.ext (by omega) (by omega)

theorem slots_sorted : (layout.positions.map slotOf).Pairwise (· < ·) := by
  rw [List.pairwise_map, SetLayout.positions, List.pairwise_flatMap]
  constructor
  · intro binding _
    rw [List.pairwise_map]
    exact List.pairwise_lt_range.imp fun before => by simpa only [slotOf] using by omega
  refine List.Pairwise.imp_of_mem ?_ List.pairwise_lt_range
  intro left right leftLow rightLow before first firstMember second secondMember
  obtain ⟨element, small, rfl⟩ := List.mem_map.mp firstMember
  obtain ⟨element', small', rfl⟩ := List.mem_map.mp secondMember
  refine packed.slot_lt_slot (mem_positions.mpr ⟨?_, ?_⟩) (mem_positions.mpr ⟨?_, ?_⟩) before
  · exact List.mem_range.mp leftLow
  · exact List.mem_range.mp small
  · exact List.mem_range.mp rightLow
  · exact List.mem_range.mp small'

end SetLayout.Packed

structure Mirrors (slots : DescriptorSet) (set : ReferenceSet) : Prop where
  packed : set.layout.Packed
  declared : ∀ position ∈ set.layout.positions, slots (slotOf position) = set.binding position
  unused : ∀ slot, (∀ position ∈ set.layout.positions, slotOf position ≠ slot) → slots slot = {}

theorem Mirrors.fresh (packed : layout.Packed) : Mirrors .fresh ⟨layout, fun _ => none⟩ where
  packed := packed
  declared _ _ := rfl
  unused _ _ := rfl

theorem ReferenceSet.put_binding_other (set : ReferenceSet) {other : Position}
    (info : Option DescriptorBufferInfo) (distinct : other ≠ position) :
    (set.put position info).binding other = set.binding other := by
  simp only [ReferenceSet.binding, ReferenceSet.put, Function.update_of_ne distinct]

theorem Mirrors.put {slots : DescriptorSet} (mirrors : Mirrors slots set) (declared : position ∈ set.layout.positions)
    (info : Option DescriptorBufferInfo) :
    Mirrors (Function.update slots (slotOf position) ((set.put position info).binding position))
      (set.put position info) where
  packed := mirrors.packed
  declared other member := by
    by_cases same : other = position
    · rw [same, Function.update_self]
    · have distinct : slotOf other ≠ slotOf position := fun equal =>
        same (mirrors.packed.slot_injective member declared equal)
      rw [Function.update_of_ne distinct, mirrors.declared other member, set.put_binding_other info same]
  unused slot outside := by
    rw [Function.update_of_ne (outside position declared).symm, mirrors.unused slot outside]


/-! ## Updates -/

theorem ReferenceSet.put_binding (set : ReferenceSet) (position : Position)
    (info : DescriptorBufferInfo) :
    (set.put position (some info)).binding position =
      writtenBinding (set.layout.descriptorType position) info := by
  simp only [ReferenceSet.binding, ReferenceSet.put, Function.update_self]

theorem Mirrors.writeSlots {type : VkDescriptorType} (infos : List DescriptorBufferInfo) :
    ∀ {slots : DescriptorSet} {set : ReferenceSet} {positions : List Position} {base : Nat},
      Mirrors slots set → positions.map slotOf = List.range' base infos.length →
      (∀ position ∈ positions, position ∈ set.layout.positions ∧
        set.layout.descriptorType position = type) →
      Mirrors (Vulkan.writeSlots type base infos slots)
        ((positions.zip infos).foldl (fun set entry => set.put entry.1 (some entry.2)) set) := by
  induction infos with
  | nil =>
      intro slots set positions base mirrors consecutive _
      rw [List.zip_nil_right]
      exact mirrors
  | cons info infos ih =>
      intro slots set positions base mirrors consecutive typed
      cases positions with
      | nil => cases consecutive
      | cons position positions =>
          rw [List.length_cons, List.range'_succ, List.map_cons, List.cons.injEq] at consecutive
          obtain ⟨here, after⟩ := consecutive
          obtain ⟨declared, same⟩ := typed position List.mem_cons_self
          have low : base < PDOCKER_VK_MAX_STORAGE_BUFFERS := here ▸ mirrors.packed.slot_lt declared
          have put := mirrors.put declared (some info)
          rw [here, set.put_binding, same] at put
          rw [Vulkan.writeSlots, if_pos low, List.zip_cons_cons, List.foldl_cons]
          exact ih put after fun other member => typed other (List.mem_cons_of_mem _ member)

def MirrorsAll (sets : Nat → Option DescriptorSet) (references : Nat → Option ReferenceSet) : Prop :=
  ∀ id, Option.Rel Mirrors (sets id) (references id)

theorem MirrorsAll.update {sets : Nat → Option DescriptorSet} {references : Nat → Option ReferenceSet}
    (mirrors : MirrorsAll sets references) (id : Nat) {slots : Option DescriptorSet}
    {set : Option ReferenceSet} (here : Option.Rel Mirrors slots set) :
    MirrorsAll (Function.update sets id slots) (Function.update references id set) := by
  intro other
  by_cases same : other = id
  · rw [same, Function.update_self, Function.update_self]
    exact here
  · rw [Function.update_of_ne same, Function.update_of_ne same]
    exact mirrors other

def layoutsOf (references : SetId → Option ReferenceSet) (id : SetId) : Option SetLayout :=
  (references id).map (·.layout)

theorem layoutsOf_update {set' : ReferenceSet} (found : references id = some set) (same : set'.layout = set.layout) :
    layoutsOf (Function.update references id (some set')) = layoutsOf references := by
  funext other
  by_cases equal : other = id
  · simp only [layoutsOf, equal, Function.update_self, found, Option.map_some, same]
  · simp only [layoutsOf, Function.update_of_ne equal]

theorem layoutsOf_some (known : layoutsOf references id = some layout) :
    ∃ set, references id = some set ∧ set.layout = layout :=
  Option.map_eq_some_iff.mp known

def WriteValid (layouts : SetId → Option SetLayout) (w : WriteDescriptorSet) : Prop :=
  w.descriptorType.isStorage = true ∧ ∃ layout, layouts w.dstSet = some layout ∧
    (layout.positionsFrom (w.dstBinding, w.dstArrayElement) w.bufferInfo.length).length =
      w.bufferInfo.length ∧
    ∀ position ∈ layout.positionsFrom (w.dstBinding, w.dstArrayElement) w.bufferInfo.length,
      layout.descriptorType position = w.descriptorType

def WriteStraight (layouts : SetId → Option SetLayout) (w : WriteDescriptorSet) : Prop :=
  ∀ layout, layouts w.dstSet = some layout →
    layout.Straight (w.dstBinding, w.dstArrayElement) w.bufferInfo.length

/-- Both layouts have the descriptors that the copy names, of the same types. -/
def CopyValid (layouts : SetId → Option SetLayout) (c : CopyDescriptorSet) : Prop :=
  ∃ source target, layouts c.srcSet = some source ∧ layouts c.dstSet = some target ∧
    (source.positionsFrom (c.srcBinding, c.srcArrayElement) c.descriptorCount).length =
      c.descriptorCount ∧
    (target.positionsFrom (c.dstBinding, c.dstArrayElement) c.descriptorCount).map
        target.descriptorType =
      (source.positionsFrom (c.srcBinding, c.srcArrayElement) c.descriptorCount).map
        source.descriptorType

def CopyStraight (layouts : SetId → Option SetLayout) (c : CopyDescriptorSet) : Prop :=
  (∀ layout, layouts c.srcSet = some layout →
    layout.Straight (c.srcBinding, c.srcArrayElement) c.descriptorCount) ∧
  ∀ layout, layouts c.dstSet = some layout →
    layout.Straight (c.dstBinding, c.dstArrayElement) c.descriptorCount

theorem ReferenceSet.write_layout (set : ReferenceSet) (start : Position)
    (infos : List DescriptorBufferInfo) : (set.write start infos).layout = set.layout := by
  refine List.foldlRecOn _ _ (motive := fun now : ReferenceSet => now.layout = set.layout) rfl ?_
  intro now same entry _
  exact same

theorem writeDescriptor_mirrors (mirrors : MirrorsAll sets references)
    {w : WriteDescriptorSet} (valid : WriteValid (layoutsOf references) w)
    (straight : WriteStraight (layoutsOf references) w) :
    MirrorsAll (writeDescriptor sets w) (referenceWrite references w) ∧
      layoutsOf (referenceWrite references w) = layoutsOf references := by
  obtain ⟨storage, layout, known, _, typed⟩ := valid
  obtain ⟨set, found, rfl⟩ := layoutsOf_some known
  have related := mirrors w.dstSet
  rw [found] at related
  generalize held : sets w.dstSet = slots at related
  cases related with
  | some related =>
      have written := related.writeSlots w.bufferInfo (straight _ known) fun position member =>
        ⟨positionsFrom_mem member, typed position member⟩
      simp only [writeDescriptor, held, storage, ↓reduceIte, referenceWrite, found]
      exact ⟨mirrors.update w.dstSet (.some written), layoutsOf_update found (set.write_layout _ _)⟩

theorem copySlot_mirrors {source target : ReferenceSet} {j : Nat} {origin place : Position}
    (mirrors : MirrorsAll sets references)
    (sourceKnown : references c.srcSet = some source) (targetKnown : references c.dstSet = some target)
    (originDeclared : origin ∈ source.layout.positions) (placeDeclared : place ∈ target.layout.positions)
    (originSlot : slotOf origin = c.srcBinding + c.srcArrayElement + j)
    (placeSlot : slotOf place = c.dstBinding + c.dstArrayElement + j)
    (sameType : target.layout.descriptorType place = source.layout.descriptorType origin) :
    MirrorsAll (copySlot c sets j) (referenceCopyOne c.srcSet c.dstSet references (origin, place)) ∧
      layoutsOf (referenceCopyOne c.srcSet c.dstSet references (origin, place)) = layoutsOf references := by
  have sourceRelated := mirrors c.srcSet
  have targetRelated := mirrors c.dstSet
  rw [sourceKnown] at sourceRelated
  rw [targetKnown] at targetRelated
  generalize sourceHeld : sets c.srcSet = sourceSlots at sourceRelated
  generalize targetHeld : sets c.dstSet = targetSlots at targetRelated
  cases sourceRelated with
  | some sourceRelated =>
      cases targetRelated with
      | some targetRelated =>
          have low := sourceRelated.packed.slot_lt originDeclared
          have low' := targetRelated.packed.slot_lt placeDeclared
          have copied : (target.put place (source.content origin)).binding place = source.binding origin := by
            simp only [ReferenceSet.binding, ReferenceSet.put, Function.update_self, sameType]
          have put := targetRelated.put placeDeclared (source.content origin)
          rw [copied, ← sourceRelated.declared origin originDeclared, originSlot, placeSlot] at put
          rw [originSlot] at low
          rw [placeSlot] at low'
          have within : ¬(PDOCKER_VK_MAX_STORAGE_BUFFERS ≤ c.srcBinding + c.srcArrayElement + j ∨
              PDOCKER_VK_MAX_STORAGE_BUFFERS ≤ c.dstBinding + c.dstArrayElement + j) := by omega
          simp only [copySlot, sourceHeld, targetHeld, if_neg within, referenceCopyOne, sourceKnown,
            targetKnown]
          exact ⟨mirrors.update c.dstSet (.some put), layoutsOf_update targetKnown rfl⟩

theorem copySlots_mirrors {sourceLayout targetLayout : SetLayout} (count : Nat) :
    ∀ {j : Nat} {origins places : List Position} {sets : SetId → Option DescriptorSet}
      {references : SetId → Option ReferenceSet}, MirrorsAll sets references →
      layoutsOf references c.srcSet = some sourceLayout →
      layoutsOf references c.dstSet = some targetLayout →
      origins.map slotOf = List.range' (c.srcBinding + c.srcArrayElement + j) count →
      places.map slotOf = List.range' (c.dstBinding + c.dstArrayElement + j) count →
      places.map targetLayout.descriptorType = origins.map sourceLayout.descriptorType →
      (∀ position ∈ origins, position ∈ sourceLayout.positions) →
      (∀ position ∈ places, position ∈ targetLayout.positions) →
      MirrorsAll ((List.range' j count).foldl (copySlot c) sets)
          ((origins.zip places).foldl (referenceCopyOne c.srcSet c.dstSet) references) ∧
        layoutsOf ((origins.zip places).foldl (referenceCopyOne c.srcSet c.dstSet) references) =
          layoutsOf references := by
  induction count with
  | zero =>
      intro j origins places sets references mirrors _ _ originSlots _ _ _ _
      have none : origins = [] := List.map_eq_nil_iff.mp originSlots
      rw [none, List.zip_nil_left]
      exact ⟨mirrors, rfl⟩
  | succ count ih =>
      intro j origins places sets references mirrors sourceKnown targetKnown originSlots placeSlots types
        originDeclared placesDeclared
      obtain ⟨source, sourceFound, sourceLayoutIs⟩ := layoutsOf_some sourceKnown
      obtain ⟨target, targetFound, targetLayoutIs⟩ := layoutsOf_some targetKnown
      cases origins with
      | nil => cases originSlots
      | cons origin origins =>
          cases places with
          | nil => cases placeSlots
          | cons place places =>
              rw [List.range'_succ, List.map_cons, List.cons.injEq] at originSlots placeSlots
              rw [List.map_cons, List.map_cons, List.cons.injEq] at types
              obtain ⟨stepped, kept⟩ := copySlot_mirrors mirrors sourceFound targetFound
                (sourceLayoutIs ▸ originDeclared origin List.mem_cons_self)
                (targetLayoutIs ▸ placesDeclared place List.mem_cons_self) originSlots.1 placeSlots.1
                (by rw [sourceLayoutIs, targetLayoutIs]; exact types.1)
              obtain ⟨rest, keptAll⟩ := ih (j := j + 1) stepped (by rw [kept]; exact sourceKnown)
                (by rw [kept]; exact targetKnown) originSlots.2 placeSlots.2 types.2
                (fun position member => originDeclared position (List.mem_cons_of_mem _ member))
                (fun position member => placesDeclared position (List.mem_cons_of_mem _ member))
              rw [List.range'_succ, List.foldl_cons, List.zip_cons_cons, List.foldl_cons]
              exact ⟨rest, keptAll.trans kept⟩

theorem copyDescriptor_mirrors (mirrors : MirrorsAll sets references) (valid : CopyValid (layoutsOf references) c)
    (straight : CopyStraight (layoutsOf references) c) :
    MirrorsAll (copyDescriptor sets c) (referenceCopy references c) ∧
      layoutsOf (referenceCopy references c) = layoutsOf references := by
  obtain ⟨sourceLayout, targetLayout, sourceKnown, targetKnown, _, types⟩ := valid
  obtain ⟨source, sourceFound, rfl⟩ := layoutsOf_some sourceKnown
  obtain ⟨target, targetFound, rfl⟩ := layoutsOf_some targetKnown
  simp only [copyDescriptor, referenceCopy, sourceFound, targetFound, List.range_eq_range']
  exact copySlots_mirrors c.descriptorCount mirrors sourceKnown targetKnown
    (straight.1 _ sourceKnown) (straight.2 _ targetKnown) types (fun _ => positionsFrom_mem)
    fun _ => positionsFrom_mem

theorem foldl_mirrors {Entry : Type}
    (code : (SetId → Option DescriptorSet) → Entry → SetId → Option DescriptorSet)
    (reference : (SetId → Option ReferenceSet) → Entry → SetId → Option ReferenceSet)
    (layouts : SetId → Option SetLayout) (entries : List Entry)
    (keeps : ∀ entry ∈ entries, ∀ sets references, MirrorsAll sets references →
      layoutsOf references = layouts →
      MirrorsAll (code sets entry) (reference references entry) ∧
        layoutsOf (reference references entry) = layouts) :
    ∀ {sets references}, MirrorsAll sets references → layoutsOf references = layouts →
      MirrorsAll (entries.foldl code sets) (entries.foldl reference references) ∧
        layoutsOf (entries.foldl reference references) = layouts := by
  induction entries with
  | nil => exact fun mirrors known => ⟨mirrors, known⟩
  | cons entry entries ih =>
      intro sets references mirrors known
      obtain ⟨next, nextKnown⟩ := keeps entry List.mem_cons_self _ _ mirrors known
      exact ih (fun other member => keeps other (List.mem_cons_of_mem _ member)) next nextKnown

theorem vkUpdateDescriptorSets_mirrors (mirrors : MirrorsAll sets references)
    {writes : List WriteDescriptorSet} {copies : List CopyDescriptorSet}
    (writesValid : ∀ w ∈ writes, WriteValid (layoutsOf references) w ∧ WriteStraight (layoutsOf references) w)
    (copiesValid : ∀ c ∈ copies, CopyValid (layoutsOf references) c ∧ CopyStraight (layoutsOf references) c) :
    MirrorsAll (vkUpdateDescriptorSets sets writes copies) (referenceUpdate references writes copies) := by
  obtain ⟨written, known⟩ := foldl_mirrors writeDescriptor referenceWrite (layoutsOf references) writes
    (fun w member sets' references' mirrors' known => by
      obtain ⟨valid, straight⟩ := writesValid w member
      rw [← known] at valid straight ⊢
      exact writeDescriptor_mirrors mirrors' valid straight) mirrors rfl
  exact (foldl_mirrors copyDescriptor referenceCopy (layoutsOf references) copies
    (fun c member sets' references' mirrors' known' => by
      obtain ⟨valid, straight⟩ := copiesValid c member
      rw [← known'] at valid straight ⊢
      exact copyDescriptor_mirrors mirrors' valid straight) written known).1

end PDocker.Vulkan
