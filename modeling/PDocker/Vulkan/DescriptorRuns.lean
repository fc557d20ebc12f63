import PDocker.Vulkan.Layouts

/-!
# Runs of descriptor calls

Binding consumes the dynamic offsets in slot order, which is the order of the layout while every
dynamic descriptor is written. A run of plain calls sends with a dispatch what the layouts ask for.
-/

set_option autoImplicit false

namespace PDocker.Vulkan

def DescriptorSet.isDynamic (slots : DescriptorSet) (slot : Nat) : Bool := (slots slot).dynamic

theorem rebaseSlot_foldl (dynamicOffsets : List Nat) (passed : List Nat) (distinct : passed.Nodup) :
    ∀ (slots : DescriptorSet) (index : Nat), passed.foldl (rebaseSlot dynamicOffsets) (slots, index) =
        (fun slot =>
          if slot ∈ passed ∧ slots.isDynamic slot = true then
            (slots slot).movedBy
              (dynamicOffsets.getD (index + (passed.filter slots.isDynamic).idxOf slot) 0)
          else slots slot,
        index + (passed.filter slots.isDynamic).length) := by
  induction passed with
  | nil => intro slots index; simp
  | cons first passed ih =>
      intro slots index
      obtain ⟨notAgain, distinct⟩ := List.nodup_cons.mp distinct
      rw [List.foldl_cons]
      by_cases dynamic : slots.isDynamic first = true
      · generalize next : Function.update slots first
          ((slots first).movedBy (dynamicOffsets.getD index 0)) = slots'
        have moved : rebaseSlot dynamicOffsets (slots, index) first = (slots', index + 1) :=
          next ▸ if_pos dynamic
        have others : ∀ slot, slot ≠ first → slots' slot = slots slot := fun slot distinct =>
          next ▸ Function.update_of_ne distinct _ _
        have sameDynamic : passed.filter (DescriptorSet.isDynamic slots') = passed.filter slots.isDynamic :=
          List.filter_congr fun slot member => by
            simp only [DescriptorSet.isDynamic, others slot (fun same => notAgain (same ▸ member))]
        rw [moved, ih distinct, sameDynamic, List.filter_cons_of_pos dynamic, List.length_cons]
        refine Prod.ext (funext fun slot => ?_) (by dsimp only; omega)
        by_cases here : slot = first
        · subst here
          simp [notAgain, dynamic, ← next]
        have kept := others slot here
        have place : index + 1 + (passed.filter slots.isDynamic).idxOf slot =
            index + ((passed.filter slots.isDynamic).idxOf slot + 1) := by omega
        simp only [DescriptorSet.isDynamic] at place ⊢
        simp only [kept, List.mem_cons, here, false_or, List.idxOf_cons_ne _ (Ne.symm here),
          Nat.succ_eq_add_one, place]
      · have still : rebaseSlot dynamicOffsets (slots, index) first = (slots, index) := if_neg dynamic
        rw [still, ih distinct, List.filter_cons_of_neg dynamic]
        refine Prod.ext (funext fun slot => ?_) rfl
        by_cases here : slot = first
        · subst here
          simp [notAgain, dynamic]
        · simp only [List.mem_cons, here, false_or]

theorem idxOf_map_of_injective_on {positions : List Position} {position : Position}
    (injective : ∀ other ∈ positions, slotOf other = slotOf position → other = position) :
    (positions.map slotOf).idxOf (slotOf position) = positions.idxOf position := by
  induction positions with
  | nil => rfl
  | cons first positions ih =>
      rw [List.map_cons]
      by_cases here : first = position
      · rw [here, List.idxOf_cons_self, List.idxOf_cons_self]
      have distinct : slotOf first ≠ slotOf position := fun same =>
        here (injective first List.mem_cons_self same)
      rw [List.idxOf_cons_ne _ distinct, List.idxOf_cons_ne _ here,
        ih fun other member => injective other (List.mem_cons_of_mem _ member)]

def ReferenceSet.dynamicWritten (set : ReferenceSet) : List Bool :=
  set.layout.dynamicPositions.map fun position => (set.content position).isSome

def WrittenFirst (written : List Bool) : Prop :=
  written.Pairwise fun earlier later => later = true → earlier = true

instance (written : List Bool) : Decidable (WrittenFirst written) :=
  inferInstanceAs (Decidable (List.Pairwise _ _))

theorem idxOf_filter_of_first {κ : Type} [BEq κ] [LawfulBEq κ] (held : κ → Bool) {keys : List κ} {key : κ}
    (first : keys.Pairwise fun earlier later => held later = true → held earlier = true)
    (member : key ∈ keys) (holds : held key = true) :
    (keys.filter held).idxOf key = keys.idxOf key := by
  induction keys with
  | nil => cases member
  | cons front keys ih =>
      obtain ⟨before, first⟩ := List.pairwise_cons.mp first
      by_cases here : front = key
      · subst here
        rw [List.filter_cons_of_pos holds, List.idxOf_cons_self, List.idxOf_cons_self]
      · have later : key ∈ keys := (List.mem_cons.mp member).resolve_left (Ne.symm here)
        rw [List.filter_cons_of_pos (before key later holds)]
        simp only [List.idxOf_cons, beq_eq_false_iff_ne.mpr here, cond_false, ih first later]

theorem ReferenceSet.binding_dynamic (set : ReferenceSet) (position : Position) :
    (set.binding position).dynamic = true ↔
      (set.layout position.1).dynamic = true ∧ (set.content position).isSome = true := by
  cases found : set.content position with
  | none => simp [ReferenceSet.binding, found]
  | some info =>
      by_cases dynamic : (set.layout position.1).dynamic = true <;>
        simp [ReferenceSet.binding, found, writtenBinding, SetLayout.descriptorType, dynamic]

theorem ReferenceSet.rebased_binding (set : ReferenceSet) (dynamicOffsets : List Nat)
    (position : Position) :
    (set.rebased dynamicOffsets).binding position =
      if (set.layout position.1).dynamic = true ∧ (set.content position).isSome = true then
        (set.binding position).movedBy
          (dynamicOffsets.getD (set.layout.dynamicPositions.idxOf position) 0)
      else set.binding position := by
  cases found : set.content position with
  | none => simp [ReferenceSet.binding, ReferenceSet.rebased, found]
  | some info =>
      by_cases dynamic : (set.layout position.1).dynamic = true <;>
        simp [ReferenceSet.binding, ReferenceSet.rebased, found, writtenBinding, dynamic,
          SetLayout.descriptorType, DescriptorBinding.movedBy]

namespace Mirrors

variable {slots : DescriptorSet} {set : ReferenceSet} (mirrors : Mirrors slots set)
include mirrors

theorem isDynamic_slotOf {position : Position} (declared : position ∈ set.layout.positions) :
    slots.isDynamic (slotOf position) = true ↔
      (set.layout position.1).dynamic = true ∧ (set.content position).isSome = true := by
  rw [DescriptorSet.isDynamic, mirrors.declared position declared, set.binding_dynamic]

theorem dynamicSlots : (List.range PDOCKER_VK_MAX_STORAGE_BUFFERS).filter slots.isDynamic =
      (set.layout.dynamicPositions.filter fun position => (set.content position).isSome).map slotOf := by
  have sorted : ((set.layout.dynamicPositions.filter fun position =>
      (set.content position).isSome).map slotOf).Pairwise (· < ·) :=
    mirrors.packed.slots_sorted.sublist ((List.filter_sublist.trans List.filter_sublist).map slotOf)
  refine (List.pairwise_lt_range.filter _).eq_of_mem_iff sorted fun slot => ?_
  rw [List.mem_filter, List.mem_range, List.mem_map]
  constructor
  · rintro ⟨_, dynamic⟩
    by_contra nowhere
    have outside : ∀ position ∈ set.layout.positions, slotOf position ≠ slot := by
      rintro position declared rfl
      obtain ⟨itsType, written⟩ := (mirrors.isDynamic_slotOf declared).mp dynamic
      exact nowhere ⟨position,
        List.mem_filter.mpr ⟨List.mem_filter.mpr ⟨declared, itsType⟩, written⟩, rfl⟩
    rw [DescriptorSet.isDynamic, mirrors.unused slot outside] at dynamic
    cases dynamic
  · rintro ⟨position, member, rfl⟩
    obtain ⟨member, written⟩ := List.mem_filter.mp member
    obtain ⟨declared, dynamic⟩ := List.mem_filter.mp member
    exact ⟨mirrors.packed.slot_lt declared, (mirrors.isDynamic_slotOf declared).mpr ⟨dynamic, written⟩⟩

theorem rebased (first : WrittenFirst set.dynamicWritten) (dynamicOffsets : List Nat) {index used : Nat}
    (aligned : index = used ∨ ∀ written ∈ set.dynamicWritten, written = false) :
    Mirrors (rebaseSet dynamicOffsets slots index).1 (set.rebased (dynamicOffsets.drop used)) := by
  rw [rebaseSet, rebaseSlot_foldl dynamicOffsets _ List.nodup_range, mirrors.dynamicSlots]
  refine ⟨mirrors.packed, fun position declared => ?_, fun slot outside => ?_⟩
  · rw [set.rebased_binding, ← mirrors.declared position declared]
    have low := List.mem_range.mpr (mirrors.packed.slot_lt declared)
    simp only [low, true_and, mirrors.isDynamic_slotOf declared, List.getD_eq_getElem?_getD,
      List.getElem?_drop]
    by_cases consumes : (set.layout position.1).dynamic = true ∧ (set.content position).isSome = true
    · have member : position ∈ set.layout.dynamicPositions := List.mem_filter.mpr ⟨declared, consumes.1⟩
      have same : index = used := aligned.resolve_right fun none =>
        Bool.false_ne_true ((none _ (List.mem_map_of_mem member)).symm.trans consumes.2)
      have place : ((set.layout.dynamicPositions.filter fun position =>
          (set.content position).isSome).map slotOf).idxOf (slotOf position) =
            set.layout.dynamicPositions.idxOf position :=
        (idxOf_map_of_injective_on fun other taken => mirrors.packed.slot_injective
          (List.mem_of_mem_filter (List.mem_of_mem_filter taken)) declared).trans
            (idxOf_filter_of_first _ (List.pairwise_map.mp first) member consumes.2)
      rw [if_pos consumes, if_pos consumes, same, place]
    · rw [if_neg consumes, if_neg consumes]
  · have still : ¬slots.isDynamic slot = true := by
      rw [DescriptorSet.isDynamic, mirrors.unused slot outside]
      exact Bool.false_ne_true
    simp only [still, and_false, Bool.false_eq_true, ↓reduceIte]
    exact mirrors.unused slot outside

theorem rebased_index (dynamicOffsets : List Nat) (index : Nat) :
    (rebaseSet dynamicOffsets slots index).2 = index + (set.dynamicWritten.filter id).length := by
  rw [rebaseSet, rebaseSlot_foldl dynamicOffsets _ List.nodup_range, mirrors.dynamicSlots,
    ReferenceSet.dynamicWritten, List.filter_map, List.length_map, List.length_map]
  rfl

end Mirrors

def dynamicWrittenOf (references : SetId → Option ReferenceSet) (handles : List SetId) : List Bool :=
  handles.flatMap fun handle => (references handle).elim [] ReferenceSet.dynamicWritten

theorem bindSets_mirrors {sets : SetId → Option DescriptorSet}
    {references : SetId → Option ReferenceSet} (mirrors : MirrorsAll sets references)
    (dynamicOffsets : List Nat) (handles : List SetId) :
    ∀ (index used : Nat) {targetSet : Nat} {bound : BoundSets} {referenceBound : Nat → Option ReferenceSet},
      MirrorsAll bound referenceBound →
      targetSet + handles.length ≤ PDOCKER_VK_MAX_DESCRIPTOR_SETS →
      (∀ handle ∈ handles, (references handle).isSome) →
      WrittenFirst (dynamicWrittenOf references handles) →
      (index = used ∨ ∀ written ∈ dynamicWrittenOf references handles, written = false) →
      MirrorsAll (bindSets sets dynamicOffsets targetSet (handles.map some) index bound)
        (referenceBind references targetSet handles (dynamicOffsets.drop used) referenceBound) := by
  induction handles with
  | nil => exact fun _ _ _ _ _ boundMirrors _ _ _ _ => boundMirrors
  | cons handle handles ih =>
      intro index used targetSet bound referenceBound boundMirrors fits known first aligned
      obtain ⟨set, found⟩ := Option.isSome_iff_exists.mp (known handle List.mem_cons_self)
      have flags : dynamicWrittenOf references (handle :: handles) =
          set.dynamicWritten ++ dynamicWrittenOf references handles := by
        rw [dynamicWrittenOf, List.flatMap_cons, found]
        rfl
      rw [flags] at first aligned
      obtain ⟨here, rest, across⟩ := List.pairwise_append.mp first
      rw [List.length_cons] at fits
      have low : ¬PDOCKER_VK_MAX_DESCRIPTOR_SETS ≤ targetSet := by omega
      have related := mirrors handle
      rw [found] at related
      generalize held : sets handle = slots at related
      cases related with
      | some related =>
          have alignedHere : index = used ∨ ∀ written ∈ set.dynamicWritten, written = false :=
            aligned.imp_right fun none written member => none written (List.mem_append_left _ member)
          have snapshot := related.rebased here dynamicOffsets alignedHere
          have consumed := related.rebased_index dynamicOffsets index
          simp only [List.map_cons, bindSets, if_neg low, Option.bind_some, held, referenceBind, found,
            List.drop_drop]
          refine ih _ _ (boundMirrors.update targetSet (.some snapshot)) (by omega)
            (fun other member => known other (List.mem_cons_of_mem _ member)) rest ?_
          by_cases complete : ∀ written ∈ set.dynamicWritten, written = true
          · have all : set.dynamicWritten.filter id = set.dynamicWritten :=
              List.filter_eq_self.mpr complete
            rw [consumed, all, ReferenceSet.dynamicWritten, List.length_map]
            exact aligned.imp (congrArg (· + _)) fun none written member =>
              none written (List.mem_append_right _ member)
          · push Not at complete
            obtain ⟨missing, member, unwritten⟩ := complete
            exact .inr fun written later => Bool.eq_false_iff.mpr fun isWritten =>
              unwritten (across missing member written later isWritten)

theorem Mirrors.requestBindings {slots : DescriptorSet} {set : ReferenceSet} (mirrors : Mirrors slots set)
    (copyAliasEnabled : Bool) (heap : Heap) (number : Nat) :
    ((List.range PDOCKER_VK_MAX_STORAGE_BUFFERS).filterMap fun slot =>
        requestBinding copyAliasEnabled heap number slot (slots slot)) =
      set.layout.positions.filterMap fun position =>
        requestBinding copyAliasEnabled heap number (slotOf position) (set.binding position) := by
  have slotsUsed : (List.range PDOCKER_VK_MAX_STORAGE_BUFFERS).filter
      (fun slot => decide (slot ∈ set.layout.positions.map slotOf)) =
        set.layout.positions.map slotOf := by
    refine (List.pairwise_lt_range.filter _).eq_of_mem_iff mirrors.packed.slots_sorted fun slot => ?_
    rw [List.mem_filter, List.mem_range, decide_eq_true_eq, and_iff_right_iff_imp]
    intro used
    obtain ⟨position, declared, rfl⟩ := List.mem_map.mp used
    exact mirrors.packed.slot_lt declared
  have asked : (set.layout.positions.map slotOf).filterMap
      (fun slot => requestBinding copyAliasEnabled heap number slot (slots slot)) =
        set.layout.positions.filterMap fun position =>
          requestBinding copyAliasEnabled heap number (slotOf position) (set.binding position) := by
    rw [List.filterMap_map]
    refine List.filterMap_congr fun position declared => ?_
    simp only [Function.comp_apply, mirrors.declared position declared]
  rw [← asked, ← slotsUsed, List.filterMap_filter]
  refine List.filterMap_congr fun slot _ => ?_
  by_cases used : slot ∈ set.layout.positions.map slotOf
  · simp only [used, decide_true, ↓reduceIte]
  have outside : ∀ position ∈ set.layout.positions, slotOf position ≠ slot := fun position declared same =>
    used (List.mem_map.mpr ⟨position, declared, same⟩)
  simp only [used, decide_false, Bool.false_eq_true, ↓reduceIte, mirrors.unused slot outside,
    requestBinding_fresh]

theorem requestBindings_eq {bound : BoundSets} {referenceBound : Nat → Option ReferenceSet}
    (mirrors : MirrorsAll bound referenceBound) (copyAliasEnabled : Bool) (heap : Heap) :
    Vulkan.requestBindings copyAliasEnabled heap bound =
      referenceBindings copyAliasEnabled heap referenceBound := by
  refine List.flatMap_congr fun number _ => ?_
  have related := mirrors number
  generalize bound number = slots at related
  generalize referenceBound number = set at related
  cases related with
  | none => rfl
  | some related => exact related.requestBindings copyAliasEnabled heap number

/-! ## Runs -/

inductive DescriptorCall where
  | allocate (set : SetId) (layout : SetLayout)
  | free (set : SetId)
  | update (writes : List WriteDescriptorSet) (copies : List CopyDescriptorSet)
  | begin
  | bind (firstSet : Nat) (handles : List SetId) (dynamicOffsets : List Nat)

structure Descriptors where
  sets : SetId → Option DescriptorSet
  bound : BoundSets

structure ReferenceDescriptors where
  sets : SetId → Option ReferenceSet
  bound : Nat → Option ReferenceSet

def Descriptors.initial : Descriptors := ⟨fun _ => none, fun _ => none⟩

def ReferenceDescriptors.initial : ReferenceDescriptors := ⟨fun _ => none, fun _ => none⟩

def Descriptors.step (now : Descriptors) : DescriptorCall → Descriptors
  | .allocate set _ => { now with sets := Function.update now.sets set (some .fresh) }
  | .free set => { now with sets := Function.update now.sets set none }
  | .update writes copies => { now with sets := vkUpdateDescriptorSets now.sets writes copies }
  | .begin => { now with bound := fun _ => none }
  | .bind firstSet handles dynamicOffsets =>
      { now with
        bound := bindSets now.sets dynamicOffsets firstSet (handles.map some) 0 now.bound }

def ReferenceDescriptors.step (now : ReferenceDescriptors) : DescriptorCall → ReferenceDescriptors
  | .allocate set layout =>
      { now with sets := Function.update now.sets set (some ⟨layout, fun _ => none⟩) }
  | .free set => { now with sets := Function.update now.sets set none }
  | .update writes copies => { now with sets := referenceUpdate now.sets writes copies }
  | .begin => { now with bound := fun _ => none }
  | .bind firstSet handles dynamicOffsets =>
      { now with bound := referenceBind now.sets firstSet handles dynamicOffsets now.bound }

namespace ReferenceDescriptors

/-- The call is used as the interface prescribes. -/
def Valid (now : ReferenceDescriptors) : DescriptorCall → Prop
  | .allocate _ _ => True
  | .free _ => True
  | .update writes copies =>
      (∀ w ∈ writes, WriteValid (layoutsOf now.sets) w) ∧ ∀ c ∈ copies, CopyValid (layoutsOf now.sets) c
  | .begin => True
  | .bind firstSet handles dynamicOffsets =>
      firstSet + handles.length ≤ PDOCKER_VK_MAX_DESCRIPTOR_SETS ∧
        (∀ handle ∈ handles, (now.sets handle).isSome) ∧
        dynamicOffsets.length = (handles.map fun handle =>
          ((layoutsOf now.sets handle).elim 0 fun layout => layout.dynamicPositions.length)).sum

/-- Arrays fit between their bindings, updates meet no gap, and no dynamic descriptor that is bound
unwritten comes before a written one. -/
def Plain (now : ReferenceDescriptors) : DescriptorCall → Prop
  | .allocate _ layout => layout.Packed
  | .free _ => True
  | .update writes copies =>
      (∀ w ∈ writes, WriteStraight (layoutsOf now.sets) w) ∧
        ∀ c ∈ copies, CopyStraight (layoutsOf now.sets) c
  | .begin => True
  | .bind _ handles _ => WrittenFirst (dynamicWrittenOf now.sets handles)

def Along (property : ReferenceDescriptors → DescriptorCall → Prop) :
    ReferenceDescriptors → List DescriptorCall → Prop
  | _, [] => True
  | now, call :: calls => property now call ∧ Along property (now.step call) calls

end ReferenceDescriptors

structure Descriptors.Mirrors (code : Descriptors) (reference : ReferenceDescriptors) : Prop where
  sets : MirrorsAll code.sets reference.sets
  bound : MirrorsAll code.bound reference.bound

theorem Descriptors.Mirrors.step {code : Descriptors} {reference : ReferenceDescriptors}
    (mirrors : code.Mirrors reference) {call : DescriptorCall} (valid : reference.Valid call)
    (plain : reference.Plain call) : (code.step call).Mirrors (reference.step call) := by
  cases call with
  | allocate set layout =>
      exact ⟨mirrors.sets.update set (.some (Vulkan.Mirrors.fresh plain)), mirrors.bound⟩
  | free set => exact ⟨mirrors.sets.update set .none, mirrors.bound⟩
  | update writes copies =>
      refine ⟨vkUpdateDescriptorSets_mirrors mirrors.sets (fun w member => ?_) fun c member => ?_,
        mirrors.bound⟩
      · exact ⟨valid.1 w member, plain.1 w member⟩
      · exact ⟨valid.2 c member, plain.2 c member⟩
  | begin => exact ⟨mirrors.sets, fun _ => .none⟩
  | bind firstSet handles dynamicOffsets =>
      refine ⟨mirrors.sets, ?_⟩
      exact bindSets_mirrors mirrors.sets dynamicOffsets handles 0 0 mirrors.bound valid.1 valid.2.1 plain
        (.inl rfl)

theorem Descriptors.Mirrors.run {calls : List DescriptorCall} :
    ∀ {code : Descriptors} {reference : ReferenceDescriptors}, code.Mirrors reference →
      reference.Along ReferenceDescriptors.Valid calls →
      reference.Along ReferenceDescriptors.Plain calls →
      (calls.foldl Descriptors.step code).Mirrors (calls.foldl ReferenceDescriptors.step reference) := by
  induction calls with
  | nil => exact fun mirrors _ _ => mirrors
  | cons call calls ih =>
      exact fun mirrors valid plain => ih (mirrors.step valid.1 plain.1) valid.2 plain.2

/-- In a run of valid calls that are plain, a dispatch is sent each descriptor of the bound sets
under a slot of its own, with the buffer, offset and range the layouts prescribe. -/
theorem descriptors_sent_faithfully (calls : List DescriptorCall)
    (valid : ReferenceDescriptors.initial.Along ReferenceDescriptors.Valid calls)
    (plain : ReferenceDescriptors.initial.Along ReferenceDescriptors.Plain calls) :
    (∀ copyAliasEnabled heap,
      Vulkan.requestBindings copyAliasEnabled heap (calls.foldl Descriptors.step .initial).bound =
        referenceBindings copyAliasEnabled heap
          (calls.foldl ReferenceDescriptors.step .initial).bound) ∧
      ∀ number set, (calls.foldl ReferenceDescriptors.step .initial).bound number = some set →
        ∀ left ∈ set.layout.positions, ∀ right ∈ set.layout.positions,
          slotOf left = slotOf right → left = right := by
  have start : Descriptors.initial.Mirrors .initial := ⟨fun _ => .none, fun _ => .none⟩
  have mirrors := start.run valid plain
  refine ⟨fun copyAliasEnabled heap => requestBindings_eq mirrors.bound copyAliasEnabled heap, ?_⟩
  intro number set found left leftDeclared right rightDeclared
  have related := mirrors.bound number
  rw [found] at related
  generalize (calls.foldl Descriptors.step .initial).bound number = slots at related
  cases related with
  | some related => exact related.packed.slot_injective leftDeclared rightDeclared

section Example

private def crowded : SetLayout := fun binding =>
  if binding = 0 then ⟨2, false⟩ else if binding = 1 then ⟨1, false⟩ else ⟨0, false⟩

private def spaced : SetLayout := fun binding =>
  if binding = 0 then ⟨1, true⟩ else if binding = 2 then ⟨2, false⟩ else ⟨0, false⟩

private def threeBuffers : Heap where
  memories _ := some ⟨64, true⟩
  buffers id := some ⟨16, some 0, 16 * id, []⟩
  bytes _ _ := 0

private def spacedCalls : List DescriptorCall :=
  [.allocate 0 spaced, .allocate 1 spaced, .update [⟨0, 0, 0, .storageBufferDynamic, [⟨0, 4, 8⟩]⟩,
      ⟨0, 2, 0, .storageBuffer, [⟨1, 0, 8⟩, ⟨2, 0, 8⟩]⟩] [⟨0, 0, 0, 1, 0, 0, 1⟩],
    .bind 0 [0, 1] [4, 8]]

private theorem spaced_packed : spaced.Packed := by decide

theorem descriptors_sent_faithfully_spaced :
    Vulkan.requestBindings false threeBuffers (spacedCalls.foldl Descriptors.step .initial).bound =
      referenceBindings false threeBuffers
        (spacedCalls.foldl ReferenceDescriptors.step .initial).bound :=
  (descriptors_sent_faithfully spacedCalls ⟨trivial, trivial,
      ⟨List.forall_mem_cons.mpr ⟨⟨rfl, _, rfl, by decide, by decide⟩,
          List.forall_mem_singleton.mpr ⟨rfl, _, rfl, by decide, by decide⟩⟩,
        List.forall_mem_singleton.mpr ⟨_, _, rfl, rfl, by decide, by decide⟩⟩,
      ⟨by decide, by decide, by decide⟩, trivial⟩
    ⟨spaced_packed, spaced_packed,
      ⟨List.forall_mem_cons.mpr ⟨fun _ known => Option.some.inj known ▸ by decide,
          List.forall_mem_singleton.mpr fun _ known => Option.some.inj known ▸ by decide⟩,
        List.forall_mem_singleton.mpr
          ⟨fun _ known => Option.some.inj known ▸ by decide, fun _ known => Option.some.inj known ▸ by decide⟩⟩,
      by unfold ReferenceDescriptors.Plain; decide, trivial⟩).1 false threeBuffers

theorem descriptors_collide : ¬∀ heap (calls : List DescriptorCall),
      ReferenceDescriptors.initial.Along ReferenceDescriptors.Valid calls →
        Vulkan.requestBindings false heap (calls.foldl Descriptors.step .initial).bound =
          referenceBindings false heap (calls.foldl ReferenceDescriptors.step .initial).bound := by
  intro faithful
  have sent := faithful threeBuffers
    [.allocate 0 crowded, .update [⟨0, 0, 0, .storageBuffer, [⟨0, 0, 8⟩, ⟨1, 0, 8⟩]⟩] [],
      .update [⟨0, 1, 0, .storageBuffer, [⟨2, 0, 8⟩]⟩] [], .bind 0 [0] []]
    ⟨trivial, ⟨List.forall_mem_singleton.mpr ⟨rfl, _, rfl, by decide, by decide⟩, List.forall_mem_nil _⟩,
      ⟨List.forall_mem_singleton.mpr ⟨rfl, _, rfl, by decide, by decide⟩, List.forall_mem_nil _⟩,
      ⟨by decide, by decide, by decide⟩, trivial⟩
  revert sent
  decide

end Example

end PDocker.Vulkan
