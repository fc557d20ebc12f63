import PDocker.Spirv.Interface

/-!
# Descriptor accesses

`collect_spirv_descriptor_accesses` decides from the decorations which bindings a shader
may load from and store to. What it reports as not accessed is neither uploaded nor
written back.
-/

set_option autoImplicit false

namespace PDocker.Gpu

open Spirv

structure SpirvDescriptorAccess where
  used : Bool
  readable : Bool
  writable : Bool
deriving DecidableEq

structure AccessTables where
  bindingById : Word → Int
  pointerTargetById : Word → Int
  variableTypeById : Word → Int
  nonReadable : Word → Bool
  nonWritable : Word → Bool
  typeNonReadable : Word → Bool
  typeNonWritable : Word → Bool

def AccessTables.empty : AccessTables where
  bindingById := fun _ => -1
  pointerTargetById := fun _ => -1
  variableTypeById := fun _ => -1
  nonReadable := fun _ => false
  nonWritable := fun _ => false
  typeNonReadable := fun _ => false
  typeNonWritable := fun _ => false

def AccessTables.note (bound : Nat) (t : AccessTables) (inst : Inst) : AccessTables :=
  if inst.Is opDecorate 3 then
    let target := inst.operand 1
    let decoration := inst.operand 2
    if target.toNat < bound then
      if decoration = decorationBinding ∧ 4 ≤ inst.count then
        { t with bindingById := Function.update t.bindingById target (inst.operand 3).toInt }
      else if decoration = decorationNonWritable then
        { t with nonWritable := Function.update t.nonWritable target true }
      else if decoration = decorationNonReadable then
        { t with nonReadable := Function.update t.nonReadable target true }
      else t
    else t
  else if inst.Is opMemberDecorate 4 then
    let target := inst.operand 1
    let decoration := inst.operand 3
    if target.toNat < bound then
      if decoration = decorationNonWritable then
        { t with typeNonWritable := Function.update t.typeNonWritable target true }
      else if decoration = decorationNonReadable then
        { t with typeNonReadable := Function.update t.typeNonReadable target true }
      else t
    else t
  else if inst.Is opTypePointer 4 then
    let resultId := inst.operand 1
    let pointeeType := inst.operand 3
    if resultId.toNat < bound ∧ pointeeType.toNat < bound then
      { t with pointerTargetById := Function.update t.pointerTargetById resultId pointeeType.toInt }
    else t
  else if inst.Is opVariable 4 then
    let resultType := inst.operand 1
    let resultId := inst.operand 2
    if resultId.toNat < bound ∧ resultType.toNat < bound then
      { t with variableTypeById := Function.update t.variableTypeById resultId resultType.toInt }
    else t
  else t

def AccessTables.pointee (bound : Nat) (t : AccessTables) (id : Word) : Option Word :=
  let variableType := t.variableTypeById id
  if 0 ≤ variableType ∧ variableType < bound then
    let pointeeType := t.pointerTargetById (BitVec.ofInt 32 variableType)
    if 0 ≤ pointeeType ∧ pointeeType < bound then some (BitVec.ofInt 32 pointeeType) else none
  else none

def AccessTables.isNonReadable (bound : Nat) (t : AccessTables) (id : Word) : Bool :=
  t.nonReadable id || (t.pointee bound id).any t.typeNonReadable

def AccessTables.isNonWritable (bound : Nat) (t : AccessTables) (id : Word) : Bool :=
  t.nonWritable id || (t.pointee bound id).any t.typeNonWritable

def AccessTables.report (bound accessCount : Nat) (t : AccessTables) (accesses : Nat → SpirvDescriptorAccess)
    (id : Nat) : Nat → SpirvDescriptorAccess :=
  let word : Word := BitVec.ofNat 32 id
  let binding := t.bindingById word
  if binding < 0 ∨ (accessCount : Int) ≤ binding then accesses
  else
    let access := accesses binding.toNat
    Function.update accesses binding.toNat
      ⟨true, access.readable || !t.isNonReadable bound word, access.writable || !t.isNonWritable bound word⟩

def noAccess : Nat → SpirvDescriptorAccess := fun _ => ⟨false, false, false⟩

def accessTables (code : List Word) : AccessTables :=
  (instructions code).foldl (AccessTables.note (bound code)) .empty

/-- The entries below `accessCount`; `allocates` says whether the tables can be allocated. -/
def collectSpirvDescriptorAccesses (code : List Word) (accessCount : Nat) (allocates : Bool) :
    Nat → SpirvDescriptorAccess :=
  if !hasMagic code then noAccess
  else if bound code = 0 ∨ 65536 < bound code then noAccess
  else if !allocates then noAccess
  else (List.range (bound code)).foldl ((accessTables code).report (bound code) accessCount) noAccess

def SpirvDescriptorAccess.allows (access : SpirvDescriptorAccess) : AccessKind → Bool
  | .load => access.readable
  | .store => access.writable

def putEntry {α β : Type} [DecidableEq α] (table : α → β) : Option (α × β) → α → β
  | some (key, value) => Function.update table key value
  | none => table

theorem foldl_entry {σ α β : Type} [DecidableEq α] {step : σ → Inst → σ} {table : σ → α → β}
    {entry : Inst → Option (α × β)}
    (puts : ∀ s inst, table (step s inst) = putEntry (table s) (entry inst))
    (insts : List Inst) (s : σ) (id : α) :
    (∃ inst ∈ insts, entry inst = some (id, table (insts.foldl step s) id)) ∨
      (∀ inst ∈ insts, ∀ value, entry inst ≠ some (id, value)) ∧ table (insts.foldl step s) id = table s id := by
  induction insts generalizing s with
  | nil => exact .inr ⟨nofun, rfl⟩
  | cons inst insts ih =>
      rw [List.foldl_cons]
      rcases ih (step s inst) with ⟨later, member, last⟩ | ⟨absent, same⟩
      · exact .inl ⟨later, List.mem_cons_of_mem _ member, last⟩
      rw [same, puts]
      cases own : entry inst with
      | none =>
          refine .inr ⟨?_, rfl⟩
          intro other member value
          rcases List.mem_cons.mp member with rfl | later
          · rw [own]
            exact nofun
          · exact absent other later value
      | some pair =>
          obtain ⟨key, value⟩ := pair
          by_cases this : id = key
          · subst this
            refine .inl ⟨inst, List.mem_cons_self, ?_⟩
            simp only [own, putEntry, Function.update_self]
          refine .inr ⟨?_, Function.update_of_ne this _ _⟩
          intro other member value
          rcases List.mem_cons.mp member with rfl | later
          · rw [own]
            exact fun same => this (congrArg Prod.fst (Option.some.inj same)).symm
          · exact absent other later value

namespace AccessTables

variable (bound : Nat)

def bindingEntry (inst : Inst) : Option (Word × Int) :=
  if inst.Is opDecorate 3 ∧ (inst.operand 1).toNat < bound ∧ inst.operand 2 = decorationBinding ∧ 4 ≤ inst.count then
    some (inst.operand 1, (inst.operand 3).toInt)
  else none

def decorationEntry (decoration : Word) (inst : Inst) : Option (Word × Bool) :=
  if inst.Is opDecorate 3 ∧ (inst.operand 1).toNat < bound ∧ inst.operand 2 = decoration then
    some (inst.operand 1, true)
  else none

def memberEntry (decoration : Word) (inst : Inst) : Option (Word × Bool) :=
  if inst.Is opMemberDecorate 4 ∧ (inst.operand 1).toNat < bound ∧ inst.operand 3 = decoration then
    some (inst.operand 1, true)
  else none

def pointerEntry (inst : Inst) : Option (Word × Int) :=
  if inst.Is opTypePointer 4 ∧ (inst.operand 1).toNat < bound ∧ (inst.operand 3).toNat < bound then
    some (inst.operand 1, (inst.operand 3).toInt)
  else none

def variableEntry (inst : Inst) : Option (Word × Int) :=
  if inst.Is opVariable 4 ∧ (inst.operand 2).toNat < bound ∧ (inst.operand 1).toNat < bound then
    some (inst.operand 2, (inst.operand 1).toInt)
  else none

variable (t : AccessTables)

variable (inst : Inst)

include inst

theorem note_bindingById : (t.note bound inst).bindingById =
    putEntry t.bindingById (bindingEntry bound inst) := by
  simp only [putEntry, note, bindingEntry]
  grind

theorem note_nonWritable : (t.note bound inst).nonWritable =
    putEntry t.nonWritable (decorationEntry bound decorationNonWritable inst) := by
  simp only [putEntry, note, decorationEntry, decorationNonWritable, decorationBinding]
  grind

theorem note_nonReadable : (t.note bound inst).nonReadable =
    putEntry t.nonReadable (decorationEntry bound decorationNonReadable inst) := by
  simp only [putEntry, note, decorationEntry, decorationNonReadable, decorationNonWritable, decorationBinding]
  grind

theorem note_typeNonWritable : (t.note bound inst).typeNonWritable =
    putEntry t.typeNonWritable (memberEntry bound decorationNonWritable inst) := by
  simp only [putEntry, note, memberEntry, decorationNonWritable, Inst.Is, opDecorate, opMemberDecorate]
  grind

theorem note_typeNonReadable : (t.note bound inst).typeNonReadable =
    putEntry t.typeNonReadable (memberEntry bound decorationNonReadable inst) := by
  simp only [putEntry, note, memberEntry, decorationNonWritable, decorationNonReadable, Inst.Is, opDecorate, opMemberDecorate]
  grind

theorem note_pointerTargetById : (t.note bound inst).pointerTargetById =
    putEntry t.pointerTargetById (pointerEntry bound inst) := by
  simp only [putEntry, note, pointerEntry, Inst.Is, opDecorate, opMemberDecorate, opTypePointer]
  grind

theorem note_variableTypeById : (t.note bound inst).variableTypeById =
    putEntry t.variableTypeById (variableEntry bound inst) := by
  simp only [putEntry, note, variableEntry, Inst.Is, opDecorate, opMemberDecorate, opTypePointer, opVariable]
  grind

omit inst

end AccessTables

/-! ## What the tables say of a module -/

namespace AccessTables

def forbids (t : AccessTables) : AccessKind → Word → Bool
  | .load => t.nonReadable
  | .store => t.nonWritable

def typeForbids (t : AccessTables) : AccessKind → Word → Bool
  | .load => t.typeNonReadable
  | .store => t.typeNonWritable

def isForbidden (bound : Nat) (t : AccessTables) (kind : AccessKind) (id : Word) : Bool :=
  t.forbids kind id || (t.pointee bound id).any (t.typeForbids kind)

end AccessTables

section

variable {code : List Word}

theorem table_entry {β : Type} {table : AccessTables → Word → β} {entry : Inst → Option (Word × β)}
    (puts : ∀ t inst, table (AccessTables.note (bound code) t inst) = putEntry (table t) (entry inst)) (id : Word) :
    (∃ inst ∈ instructions code, entry inst = some (id, table (accessTables code) id)) ∨
      (∀ inst ∈ instructions code, ∀ value, entry inst ≠ some (id, value)) ∧
        table (accessTables code) id = table .empty id :=
  foldl_entry puts (instructions code) .empty id

variable {id first second target : Word} {binding : Nat}

theorem flag_iff {table : AccessTables → Word → Bool} {entry : Inst → Option (Word × Bool)}
    (puts : ∀ t inst, table (AccessTables.note (bound code) t inst) = putEntry (table t) (entry inst))
    (start : table .empty id = false)
    (sets : ∀ inst value, entry inst = some (id, value) → value = true) :
    table (accessTables code) id = true ↔ ∃ inst ∈ instructions code, entry inst = some (id, true) := by
  rcases table_entry puts id with ⟨inst, member, last⟩ | ⟨absent, same⟩
  · have value : table (accessTables code) id = true := sets inst _ last
    exact ⟨fun _ => ⟨inst, member, value ▸ last⟩, fun _ => value⟩
  constructor
  · intro set
    rw [same, start] at set
    cases set
  · rintro ⟨inst, member, put⟩
    exact absurd put (absent inst member true)

variable (wf : WellFormed code)

include wf

theorem decorated_iff (id decoration : Word) :
    (∃ inst ∈ instructions code, AccessTables.decorationEntry (bound code) decoration inst = some (id, true)) ↔
      Decorated (instructions code) id decoration := by
  simp only [AccessTables.decorationEntry, Decorated, Option.ite_none_right_eq_some, Option.some.injEq, Prod.mk.injEq,
    and_true]
  constructor
  · rintro ⟨inst, member, ⟨decorates, _, decorated⟩, same⟩
    exact ⟨inst, member, decorates, same, decorated⟩
  · rintro ⟨inst, member, decorates, same, decorated⟩
    exact ⟨inst, member, ⟨decorates, wf.decorated inst member decorates, decorated⟩, same⟩

theorem memberDecorated_iff (id decoration : Word) :
    (∃ inst ∈ instructions code, AccessTables.memberEntry (bound code) decoration inst = some (id, true)) ↔
      ∃ number, MemberDecorated (instructions code) id number decoration := by
  simp only [AccessTables.memberEntry, MemberDecorated, Option.ite_none_right_eq_some, Option.some.injEq,
    Prod.mk.injEq, and_true]
  constructor
  · rintro ⟨inst, member, ⟨decorates, _, decorated⟩, same⟩
    exact ⟨_, inst, member, decorates, same, rfl, decorated⟩
  · rintro ⟨_, inst, member, decorates, same, _, decorated⟩
    exact ⟨inst, member, ⟨decorates, wf.memberDecorated inst member decorates, decorated⟩, same⟩

variable (kind : AccessKind) (t : AccessTables)

theorem forbids_iff (id : Word) :
    (accessTables code).forbids kind id = true ↔ Decorated (instructions code) id kind.forbidding := by
  have sets (decoration : Word) (inst : Inst) (value : Bool)
      (put : AccessTables.decorationEntry (bound code) decoration inst = some (id, value)) : value = true := by
    simp only [AccessTables.decorationEntry, Option.ite_none_right_eq_some, Option.some.injEq, Prod.mk.injEq] at put
    exact put.2.2.symm
  cases kind with
  | load => exact (flag_iff (AccessTables.note_nonReadable (bound code)) rfl (sets _)).trans (decorated_iff wf id _)
  | store => exact (flag_iff (AccessTables.note_nonWritable (bound code)) rfl (sets _)).trans (decorated_iff wf id _)

theorem typeForbids_iff (id : Word) : (accessTables code).typeForbids kind id = true ↔
      ∃ number, MemberDecorated (instructions code) id number kind.forbidding := by
  have sets (decoration : Word) (inst : Inst) (value : Bool)
      (put : AccessTables.memberEntry (bound code) decoration inst = some (id, value)) : value = true := by
    simp only [AccessTables.memberEntry, Option.ite_none_right_eq_some, Option.some.injEq, Prod.mk.injEq] at put
    exact put.2.2.symm
  cases kind with
  | load =>
      exact (flag_iff (AccessTables.note_typeNonReadable (bound code)) rfl (sets _)).trans
        (memberDecorated_iff wf id _)
  | store =>
      exact (flag_iff (AccessTables.note_typeNonWritable (bound code)) rfl (sets _)).trans
        (memberDecorated_iff wf id _)

theorem bindingById_eq (small : binding < 2 ^ 31) :
    (accessTables code).bindingById id = binding ↔ HasBinding (instructions code) id binding := by
  rcases table_entry (AccessTables.note_bindingById (bound code)) id with
    ⟨inst, member, last⟩ | ⟨absent, same⟩
  · simp only [AccessTables.bindingEntry, Option.ite_none_right_eq_some, Option.some.injEq, Prod.mk.injEq] at last
    obtain ⟨⟨decorates, _, binds, long⟩, own, value⟩ := last
    have has : HasBinding (instructions code) id (inst.operand 3).toNat :=
      ⟨inst, member, ⟨decorates.1, long⟩, own, binds, rfl⟩
    rw [← value]
    constructor
    · intro same
      have nonneg : 2 * (inst.operand 3).toNat < 2 ^ 32 := BitVec.toInt_pos_iff.mp (same ▸ Int.natCast_nonneg _)
      rw [BitVec.toInt_eq_toNat_of_lt nonneg] at same
      exact Int.ofNat.inj same ▸ has
    · intro other
      rw [wf.bindings id _ _ other has] at small ⊢
      exact BitVec.toInt_eq_toNat_of_lt (by omega)
  · rw [same]
    constructor
    · intro absurd
      cases absurd
    rintro ⟨inst, member, ⟨op, long⟩, own, binds, _⟩
    refine absurd ?_ (absent inst member (inst.operand 3).toInt)
    have decorates : inst.Is opDecorate 3 := ⟨op, Nat.le_of_succ_le long⟩
    rw [AccessTables.bindingEntry, if_pos ⟨decorates, wf.decorated inst member decorates, binds, long⟩, own]

theorem variable_unique (one : Variable (instructions code) id first)
    (other : Variable (instructions code) id second) : first = second := by
  obtain ⟨inst, member, is, rfl, own⟩ := one
  obtain ⟨inst', member', is', rfl, own'⟩ := other
  have defines (inst : Inst) (is : inst.Is opVariable 4) (own : inst.operand 2 = id) : inst.defines = some id := by
    rw [Inst.defines, if_pos is.1, own]
  rw [wf.defined inst member inst' member' id (defines inst is own) (defines inst' is' own')]

theorem pointerType_unique {a b : Word} (one : PointerType (instructions code) id a first)
    (other : PointerType (instructions code) id b second) : first = second := by
  obtain ⟨inst, member, is, own, _, rfl⟩ := one
  obtain ⟨inst', member', is', own', _, rfl⟩ := other
  have defines (inst : Inst) (is : inst.Is opTypePointer 4) (own : inst.operand 1 = id) : inst.defines = some id := by
    rw [Inst.defines, if_neg (by rw [is.1]; decide), if_pos (by rw [is.1]; decide), own]
  rw [wf.defined inst member inst' member' id (defines inst is own) (defines inst' is' own')]

theorem variableTypeById_eq {type : Word} (of : Variable (instructions code) id type) :
    (accessTables code).variableTypeById id = type.toInt := by
  rcases table_entry (AccessTables.note_variableTypeById (bound code)) id with
    ⟨inst, member, last⟩ | ⟨absent, _⟩
  · simp only [AccessTables.variableEntry, Option.ite_none_right_eq_some, Option.some.injEq, Prod.mk.injEq] at last
    obtain ⟨⟨is, _⟩, own, value⟩ := last
    rw [← value, variable_unique wf of ⟨inst, member, is, rfl, own⟩]
  · obtain ⟨inst, member, is, rfl, own⟩ := of
    refine absurd ?_ (absent inst member (inst.operand 1).toInt)
    obtain ⟨typeBelow, idBelow⟩ := wf.typed inst member is
    rw [AccessTables.variableEntry, if_pos ⟨is, idBelow, typeBelow⟩, own]

theorem pointerTargetById_eq {storage : Word} (of : PointerType (instructions code) id storage target) :
    (accessTables code).pointerTargetById id = target.toInt := by
  rcases table_entry (AccessTables.note_pointerTargetById (bound code)) id with
    ⟨inst, member, last⟩ | ⟨absent, _⟩
  · simp only [AccessTables.pointerEntry, Option.ite_none_right_eq_some, Option.some.injEq, Prod.mk.injEq] at last
    obtain ⟨⟨is, _⟩, own, value⟩ := last
    rw [← value, pointerType_unique wf of ⟨inst, member, is, own, rfl, rfl⟩]
  · obtain ⟨inst, member, is, own, _, rfl⟩ := of
    refine absurd ?_ (absent inst member (inst.operand 3).toInt)
    obtain ⟨idBelow, targetBelow⟩ := wf.pointer inst member is
    rw [AccessTables.pointerEntry, if_pos ⟨is, idBelow, targetBelow⟩, own]

omit wf in
theorem toInt_below (small : bound code ≤ 65536) (below : id.toNat < bound code) :
    0 ≤ id.toInt ∧ id.toInt < bound code ∧ BitVec.ofInt 32 id.toInt = id := by
  have value : id.toInt = id.toNat := BitVec.toInt_eq_toNat_of_lt (by omega)
  refine ⟨by omega, by omega, BitVec.ofInt_toInt⟩

theorem pointee_eq_some (small : bound code ≤ 65536) (id target : Word) :
    (accessTables code).pointee (bound code) id = some target ↔
      ∃ type storage, Variable (instructions code) id type ∧
        PointerType (instructions code) type storage target := by
  constructor
  · intro found
    simp only [AccessTables.pointee] at found
    split at found
    · rename_i typeRange
      split at found
      · rename_i targetRange
        rcases table_entry (AccessTables.note_variableTypeById (bound code)) id with ⟨inst, member, last⟩ | ⟨_, same⟩
        · rcases table_entry (AccessTables.note_pointerTargetById (bound code))
            (BitVec.ofInt 32 ((accessTables code).variableTypeById id)) with ⟨inst', member', last'⟩ | ⟨_, same'⟩
          · simp only [AccessTables.variableEntry, Option.ite_none_right_eq_some, Option.some.injEq, Prod.mk.injEq]
              at last
            simp only [AccessTables.pointerEntry, Option.ite_none_right_eq_some, Option.some.injEq, Prod.mk.injEq]
              at last'
            obtain ⟨⟨is, _⟩, own, value⟩ := last
            obtain ⟨⟨is', _⟩, own', value'⟩ := last'
            refine ⟨inst.operand 1, inst'.operand 2, ⟨inst, member, is, rfl, own⟩, inst', member', is', ?_, rfl, ?_⟩
            · rw [own', ← value, BitVec.ofInt_toInt]
            · rw [← Option.some.inj found, ← value', BitVec.ofInt_toInt]
          · rw [same'] at targetRange
            exact absurd targetRange.1 (show ¬ (0 : Int) ≤ -1 by decide)
        · rw [same] at typeRange
          exact absurd typeRange.1 (show ¬ (0 : Int) ≤ -1 by decide)
      · cases found
    · cases found
  · rintro ⟨type, storage, typed, pointer⟩
    have typeBelow : type.toNat < bound code := by
      obtain ⟨inst, member, is, rfl, _⟩ := typed
      exact (wf.typed inst member is).1
    have targetBelow : target.toNat < bound code := by
      obtain ⟨inst, member, is, _, _, rfl⟩ := pointer
      exact (wf.pointer inst member is).2
    obtain ⟨typeNonneg, typeFits, typeBack⟩ := toInt_below small typeBelow
    obtain ⟨targetNonneg, targetFits, targetBack⟩ := toInt_below small targetBelow
    simp only [AccessTables.pointee]
    rw [variableTypeById_eq wf typed, if_pos ⟨typeNonneg, typeFits⟩, typeBack, pointerTargetById_eq wf pointer,
      if_pos ⟨targetNonneg, targetFits⟩, targetBack]

def Undecorated (insts : List Inst) (kind : AccessKind) (id : Word) : Prop :=
  ¬ Decorated insts id kind.forbidding ∧ ∀ type storage target number, Variable insts id type →
    PointerType insts type storage target → ¬ MemberDecorated insts target number kind.forbidding

theorem isForbidden_iff (small : bound code ≤ 65536) (kind : AccessKind) (id : Word) :
    (accessTables code).isForbidden (bound code) kind id = true ↔ ¬ Undecorated (instructions code) kind id := by
  rw [AccessTables.isForbidden, Bool.or_eq_true, forbids_iff wf, Option.any_eq_true, Undecorated]
  simp only [pointee_eq_some wf small, typeForbids_iff wf]
  constructor
  · rintro (own | ⟨target, ⟨type, storage, typed, pointer⟩, number, decorated⟩) ⟨notOwn, notMember⟩
    · exact notOwn own
    · exact notMember type storage target number typed pointer decorated
  intro decorated
  by_cases own : Decorated (instructions code) id kind.forbidding
  · exact .inl own
  · simp only [own, not_false_eq_true, true_and, not_forall, not_not] at decorated
    obtain ⟨type, storage, target, number, typed, pointer, member⟩ := decorated
    exact .inr ⟨target, ⟨type, storage, typed, pointer⟩, number, member⟩

omit wf in
theorem report_allows (bound accessCount : Nat) (accesses : Nat → SpirvDescriptorAccess)
    (id binding : Nat) (kind : AccessKind) (fits : binding < accessCount) :
    (t.report bound accessCount accesses id binding).allows kind = ((accesses binding).allows kind ||
        decide (t.bindingById (BitVec.ofNat 32 id) = binding) && !t.isForbidden bound kind (BitVec.ofNat 32 id)) := by
  simp only [AccessTables.report]
  split
  · rename_i outside
    have other : t.bindingById (BitVec.ofNat 32 id) ≠ binding := by omega
    simp [other]
  rename_i inside
  rw [Function.update_apply]
  split
  · rename_i own
    have same : t.bindingById (BitVec.ofNat 32 id) = binding := by omega
    rw [← own, decide_eq_true same, Bool.true_and]
    cases kind <;> rfl
  · rename_i apart
    have other : t.bindingById (BitVec.ofNat 32 id) ≠ binding := by omega
    simp [other]

omit wf in
theorem foldl_report_allows (bound accessCount : Nat) (accesses : Nat → SpirvDescriptorAccess)
    (ids : List Nat) (binding : Nat) (kind : AccessKind) (fits : binding < accessCount) :
    (ids.foldl (t.report bound accessCount) accesses binding).allows kind =
      ((accesses binding).allows kind || ids.any fun id =>
        decide (t.bindingById (BitVec.ofNat 32 id) = binding) && !t.isForbidden bound kind (BitVec.ofNat 32 id)) := by
  induction ids generalizing accesses with
  | nil => rw [List.foldl_nil, List.any_nil, Bool.or_false]
  | cons id ids ih => rw [List.foldl_cons, ih, report_allows t bound accessCount accesses id binding kind fits,
      List.any_cons, Bool.or_assoc]

theorem allows_iff (small : bound code ≤ 65536) {accessCount : Nat} (limit : accessCount ≤ 2 ^ 31)
    (fits : binding < accessCount) (kind : AccessKind) :
    (collectSpirvDescriptorAccesses code accessCount true binding).allows kind = true ↔
      ∃ id, HasBinding (instructions code) id binding ∧ Undecorated (instructions code) kind id := by
  have below : ∀ id, HasBinding (instructions code) id binding → id.toNat < bound code := by
    rintro id ⟨inst, member, ⟨op, long⟩, rfl, _⟩
    exact wf.decorated inst member ⟨op, Nat.le_of_succ_le long⟩
  rw [collectSpirvDescriptorAccesses, wf.magic, if_neg (by decide)]
  by_cases none : bound code = 0
  · rw [if_pos (.inl none)]
    constructor
    · cases kind <;> exact nofun
    · rintro ⟨id, has, _⟩
      exact absurd (below id has) (by omega)
  rw [if_neg (by omega), if_neg (by decide), foldl_report_allows _ _ _ _ _ _ _ fits]
  have nothing : (noAccess binding).allows kind = false := by cases kind <;> rfl
  rw [nothing, Bool.false_or, List.any_eq_true]
  simp only [Bool.and_eq_true, decide_eq_true_eq, Bool.not_eq_true', List.mem_range,
    bindingById_eq wf (Nat.lt_of_lt_of_le fits limit)]
  constructor
  · rintro ⟨id, _, has, allowed⟩
    refine ⟨_, has, ?_⟩
    by_contra decorated
    rw [(isForbidden_iff wf small kind _).mpr decorated] at allowed
    cases allowed
  · rintro ⟨id, has, undecorated⟩
    refine ⟨id.toNat, below id has, ?_⟩
    rw [BitVec.ofNat_toNat, BitVec.setWidth_eq]
    refine ⟨has, Bool.eq_false_iff.mpr fun forbidden => ?_⟩
    exact (isForbidden_iff wf small kind id).mp forbidden undecorated

def PartlyDecorated (insts : List Inst) (kind : AccessKind) (id : Word) : Prop :=
  ¬ Decorated insts id kind.forbidding ∧
    ∃ target members, BufferVariable insts id target ∧ StructType insts target members ∧
      (∃ number, MemberDecorated insts target number kind.forbidding) ∧
      ∃ number < members, ¬ MemberDecorated insts target number kind.forbidding

def Reported (code : List Word) (accessCount : Nat) (allocates : Bool) : Prop :=
  ∀ e : Execution (instructions code), ∀ access ∈ e.accesses, ∀ binding < accessCount,
    HasBinding (instructions code) access.id binding →
      (collectSpirvDescriptorAccesses code accessCount allocates binding).allows access.kind = true

/-- The module is analysed, or accesses nothing; and where only some members of a block are
decorated, another variable with the same binding has no decoration. -/
def Reportable (code : List Word) (accessCount : Nat) (allocates : Bool) : Prop :=
  (allocates = true ∧ bound code ≤ 65536 ∨
    ∀ access, Permitted (instructions code) access → ∀ binding < accessCount,
      ¬ HasBinding (instructions code) access.id binding) ∧
  ∀ kind id, ∀ binding < accessCount, HasBinding (instructions code) id binding →
    PartlyDecorated (instructions code) kind id →
      ∃ other, HasBinding (instructions code) other binding ∧ Undecorated (instructions code) kind other

theorem blockType_struct {block : Word} {members : Nat} (struct : StructType (instructions code) target members)
    (type : BlockType (instructions code) target block) : block = target := by
  cases type with
  | struct => rfl
  | array array _ =>
      obtain ⟨inst, member, is, own, _⟩ := struct
      obtain ⟨inst', member', is', own', _⟩ := array
      have op' : inst'.op = opTypeArray ∨ inst'.op = opTypeRuntimeArray := is'.imp And.left And.left
      have defines : inst.defines = some target := by
        rw [Inst.defines, if_neg (by rw [is.1]; decide), if_pos (by rw [is.1]; decide), own]
      have defines' : inst'.defines = some target := by
        rw [Inst.defines, if_neg (by rcases op' with op | op <;> rw [op] <;> decide),
          if_pos (by rcases op' with op | op <;> rw [op] <;> decide), own']
      have same := wf.defined inst member inst' member' target defines defines'
      rw [← same, is.1] at op'
      exact absurd op' (by decide)

theorem permitted_cases {access : Access} (permitted : Permitted (instructions code) access) :
    Undecorated (instructions code) access.kind access.id ∨
      PartlyDecorated (instructions code) access.kind access.id := by
  obtain ⟨target, block, members, buffer, type, struct, fits, notOwn, notMember⟩ := permitted
  by_cases some : ∃ number, MemberDecorated (instructions code) target number access.kind.forbidding
  · obtain ⟨number, inst, member, is, own, rest⟩ := some
    obtain ⟨count, targetStruct⟩ := wf.members inst member is
    rw [own] at targetStruct
    have same := blockType_struct wf targetStruct type
    subst same
    exact .inr ⟨notOwn, block, members, buffer, struct, ⟨number, inst, member, is, own, rest⟩, _, fits, notMember⟩
  · refine .inl ⟨notOwn, fun type' storage' target' number typed' pointer' decorated => some ⟨number, ?_⟩⟩
    obtain ⟨type, storage, typed, pointer, _⟩ := buffer
    have sameType := variable_unique wf typed typed'
    subst sameType
    rwa [pointerType_unique wf pointer pointer']

/-- Every access is reported exactly when no block is decorated in part under a binding
that no undecorated variable has. -/
theorem descriptor_accesses_reported {accessCount : Nat} (limit : accessCount ≤ 2 ^ 31) (allocates : Bool) :
    Reported code accessCount allocates ↔ Reportable code accessCount allocates := by
  constructor
  · intro reported
    have single (access : Access) (permitted : Permitted (instructions code) access) (binding : Nat)
        (fits : binding < accessCount) (has : HasBinding (instructions code) access.id binding) :=
      reported ⟨[access], by simpa using permitted⟩ access List.mem_cons_self binding fits has
    have tabled : allocates = true ∧ bound code ≤ 65536 ∨
        ∀ access, Permitted (instructions code) access → ∀ binding < accessCount,
          ¬ HasBinding (instructions code) access.id binding := by
      by_cases tabled : allocates = true ∧ bound code ≤ 65536
      · exact .inl tabled
      refine .inr fun access permitted binding fits has => ?_
      have allowed := single access permitted binding fits has
      have nothing : collectSpirvDescriptorAccesses code accessCount allocates = noAccess := by
        rw [collectSpirvDescriptorAccesses, wf.magic, if_neg (by decide)]
        split
        · rfl
        cases allocates with
        | false => rfl
        | true =>
            rename_i range
            exact absurd ⟨rfl, by omega⟩ tabled
      rw [nothing] at allowed
      cases kind : access.kind <;> rw [kind] at allowed <;> cases allowed
    refine ⟨tabled, fun kind id binding fits has partly => ?_⟩
    obtain ⟨notOwn, target, members, buffer, struct, _, number, below, notMember⟩ := partly
    have permitted : Permitted (instructions code) ⟨kind, id, number⟩ :=
      ⟨target, target, members, buffer, .struct struct, struct, below, notOwn, notMember⟩
    rcases tabled with ⟨rfl, small⟩ | nothing
    · exact (allows_iff wf small limit fits kind).mp (single _ permitted binding fits has)
    · exact absurd has (nothing _ permitted binding fits)
  · rintro ⟨tabled, partly⟩ e access member binding fits has
    have permitted := e.permitted access member
    rcases tabled with ⟨rfl, small⟩ | nothing
    · rw [allows_iff wf small limit fits]
      rcases permitted_cases wf permitted with undecorated | decorated
      · exact ⟨_, has, undecorated⟩
      · exact partly _ _ binding fits has decorated
    · exact absurd has (nothing access permitted binding fits)

end

section

private def interfaceModule (decorations : List Inst) : List Word :=
  [magic, 0x00010000, 0, 10, 0] ++
    (decorations ++ [[0x00040047, 5, 33, 0], [0x0004001e, 2, 1, 1], [0x00040020, 3, 12, 2],
      [0x0004003b, 3, 5, 12]]).flatten

private def firstReadOnly : List Word := interfaceModule [[0x00040048, 2, 0, 24]]

private def plainBuffer : List Word := interfaceModule []

private theorem interfaceModule_wellFormed : WellFormed plainBuffer ∧ WellFormed firstReadOnly := by
  constructor
  · exact .of_checks (by decide +kernel) (by decide +kernel) (by decide +kernel) (by decide +kernel)
      (by decide +kernel) (by decide +kernel) (by decide +kernel) (by decide +kernel) (by decide +kernel)
  · exact .of_checks (by decide +kernel) (by decide +kernel) (by decide +kernel) (by decide +kernel)
      (by decide +kernel) (by decide +kernel) (by decide +kernel) (by decide +kernel) (by decide +kernel)

theorem descriptor_accesses_reported_plain : Reported plainBuffer 16 true := by
  have noMembers : ∀ inst ∈ instructions plainBuffer, ¬ inst.Is opMemberDecorate 4 := by decide +kernel
  refine (descriptor_accesses_reported interfaceModule_wellFormed.1 (by decide) true).mpr
    ⟨.inl ⟨rfl, by decide +kernel⟩, ?_⟩
  rintro kind id binding _ _ ⟨_, target, members, _, _, ⟨number, inst, member, is, _⟩, _⟩
  exact absurd is (noMembers inst member)

theorem descriptor_accesses_missed : WellFormed firstReadOnly ∧ ¬ Reported firstReadOnly 16 true := by
  refine ⟨interfaceModule_wellFormed.2, fun reported => ?_⟩
  have struct : StructType (instructions firstReadOnly) 2 2 := by
    exact ⟨[0x0004001e, 2, 1, 1], by decide +kernel, by decide +kernel, rfl, by decide +kernel⟩
  have buffer : BufferVariable (instructions firstReadOnly) 5 2 :=
    ⟨3, 12, ⟨[0x0004003b, 3, 5, 12], by decide +kernel, by decide +kernel, rfl, rfl⟩,
      ⟨[0x00040020, 3, 12, 2], by decide +kernel, by decide +kernel, rfl, rfl, rfl⟩, .inl rfl⟩
  have notOwn : ¬ Decorated (instructions firstReadOnly) 5 24 := by
    have none : ∀ inst ∈ instructions firstReadOnly, ¬ (inst.Is opDecorate 3 ∧ inst.operand 1 = 5 ∧
      inst.operand 2 = 24) := by decide +kernel
    rintro ⟨inst, member, decorated⟩
    exact none inst member decorated
  have notMember : ¬ MemberDecorated (instructions firstReadOnly) 2 1 24 := by
    have none : ∀ inst ∈ instructions firstReadOnly, ¬ (inst.Is opMemberDecorate 4 ∧ inst.operand 1 = 2 ∧
      (inst.operand 2).toNat = 1 ∧ inst.operand 3 = 24) := by decide +kernel
    rintro ⟨inst, member, decorated⟩
    exact none inst member decorated
  have permitted : Permitted (instructions firstReadOnly) ⟨.store, 5, 1⟩ :=
    ⟨2, 2, 2, buffer, .struct struct, struct, by decide, notOwn, notMember⟩
  have stored := reported ⟨[⟨.store, 5, 1⟩], by simpa using permitted⟩ _ List.mem_cons_self 0 (by decide)
    ⟨[0x00040047, 5, 33, 0], by decide +kernel, by decide +kernel, rfl, rfl, rfl⟩
  have missed : (collectSpirvDescriptorAccesses firstReadOnly 16 true 0).allows .store = false := by decide +kernel
  cases missed.symm.trans stored

end

end PDocker.Gpu
