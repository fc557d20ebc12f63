import PDocker.Spirv.Stream

/-!
# Interface variables and their decorations

What the decorations of a module say of its buffers: the binding of a variable, the
struct behind it, and which of its members may be loaded and stored.
-/

set_option autoImplicit false

namespace Spirv

/-! ## Instructions -/

def Inst.Is (inst : Inst) (code words : Nat) : Prop := inst.op = code ∧ words ≤ inst.count

instance (inst : Inst) (code words : Nat) : Decidable (inst.Is code words) := inferInstanceAs (Decidable (_ ∧ _))

def opTypeArray : Nat := 28
def opTypeRuntimeArray : Nat := 29
def opTypeStruct : Nat := 30
def opTypePointer : Nat := 32
def opVariable : Nat := 59
def opDecorate : Nat := 71
def opMemberDecorate : Nat := 72

def decorationBufferBlock : Word := 3
def decorationNonWritable : Word := 24
def decorationNonReadable : Word := 25
def decorationBinding : Word := 33

def classUniform : Word := 2
def classStorageBuffer : Word := 12

section

variable (insts : List Inst)

def Decorated (id decoration : Word) : Prop :=
  ∃ inst ∈ insts, inst.Is opDecorate 3 ∧ inst.operand 1 = id ∧ inst.operand 2 = decoration

def MemberDecorated (id : Word) (member : Nat) (decoration : Word) : Prop :=
  ∃ inst ∈ insts, inst.Is opMemberDecorate 4 ∧ inst.operand 1 = id ∧ (inst.operand 2).toNat = member ∧
    inst.operand 3 = decoration

def HasBinding (id : Word) (binding : Nat) : Prop :=
  ∃ inst ∈ insts, inst.Is opDecorate 4 ∧ inst.operand 1 = id ∧ inst.operand 2 = decorationBinding ∧
    (inst.operand 3).toNat = binding

/-- `OpTypePointer` with its storage class and the type behind it. -/
def PointerType (id storage target : Word) : Prop :=
  ∃ inst ∈ insts, inst.Is opTypePointer 4 ∧ inst.operand 1 = id ∧ inst.operand 2 = storage ∧
    inst.operand 3 = target

def Variable (id type : Word) : Prop :=
  ∃ inst ∈ insts, inst.Is opVariable 4 ∧ inst.operand 1 = type ∧ inst.operand 2 = id

/-- `OpTypeStruct` with so many members. -/
def StructType (id : Word) (members : Nat) : Prop :=
  ∃ inst ∈ insts, inst.Is opTypeStruct 2 ∧ inst.operand 1 = id ∧ inst.count = members + 2

def ArrayType (id element : Word) : Prop :=
  ∃ inst ∈ insts, (inst.Is opTypeArray 4 ∨ inst.Is opTypeRuntimeArray 3) ∧ inst.operand 1 = id ∧
    inst.operand 2 = element

inductive BlockType : Word → Word → Prop
  | struct {id : Word} {members : Nat} : StructType insts id members → BlockType id id
  | array {id element block : Word} : ArrayType insts id element → BlockType element block → BlockType id block

def BufferVariable (id target : Word) : Prop :=
  ∃ type storage, Variable insts id type ∧ PointerType insts type storage target ∧
    (storage = classStorageBuffer ∨
      storage = classUniform ∧ ∃ block, BlockType insts target block ∧ Decorated insts block decorationBufferBlock)

def Inst.defines (inst : Inst) : Option Word :=
  if inst.op = opVariable then some (inst.operand 2)
  else if inst.op ∈ [opTypeArray, opTypeRuntimeArray, opTypeStruct, opTypePointer] then some (inst.operand 1)
  else none

end

structure WellFormed (code : List Word) : Prop where
  magic : hasMagic code = true
  tiles : rest code = []
  /-- ids are below the bound -/
  decorated : ∀ inst ∈ instructions code, inst.Is opDecorate 3 → (inst.operand 1).toNat < bound code
  memberDecorated : ∀ inst ∈ instructions code, inst.Is opMemberDecorate 4 → (inst.operand 1).toNat < bound code
  pointer : ∀ inst ∈ instructions code, inst.Is opTypePointer 4 →
    (inst.operand 1).toNat < bound code ∧ (inst.operand 3).toNat < bound code
  typed : ∀ inst ∈ instructions code, inst.Is opVariable 4 →
    (inst.operand 1).toNat < bound code ∧ (inst.operand 2).toNat < bound code
  /-- an id is defined once -/
  defined : ∀ inst ∈ instructions code, ∀ other ∈ instructions code, ∀ id, inst.defines = some id →
    other.defines = some id → inst = other
  /-- members are members of structs -/
  members : ∀ inst ∈ instructions code, inst.Is opMemberDecorate 4 →
    ∃ count, StructType (instructions code) (inst.operand 1) count
  /-- one binding for an id -/
  bindings : ∀ id first second, HasBinding (instructions code) id first → HasBinding (instructions code) id second →
    first = second

theorem defines_unique {insts : List Inst} (distinct : (insts.filterMap Inst.defines).Nodup) {inst other : Inst}
    {id : Word} (member : inst ∈ insts) (otherMember : other ∈ insts) (own : inst.defines = some id)
    (same : other.defines = some id) : inst = other := by
  induction insts with
  | nil => cases member
  | cons first insts ih =>
      have later (later : Inst) (there : later ∈ insts) (defines : later.defines = some id) :
          id ∈ insts.filterMap Inst.defines := List.mem_filterMap.mpr ⟨later, there, defines⟩
      cases defined : first.defines with
      | none =>
          rw [List.filterMap_cons_none defined] at distinct
          rcases List.mem_cons.mp member with rfl | there
          · rw [defined] at own
            cases own
          rcases List.mem_cons.mp otherMember with rfl | otherThere
          · rw [defined] at same
            cases same
          · exact ih distinct there otherThere
      | some key =>
          rw [List.filterMap_cons_some defined, List.nodup_cons] at distinct
          rcases List.mem_cons.mp member with rfl | there
          · rcases List.mem_cons.mp otherMember with rfl | otherThere
            · rfl
            · rw [Option.some.inj (defined.symm.trans own)] at distinct
              exact absurd (later other otherThere same) distinct.1
          · rcases List.mem_cons.mp otherMember with rfl | otherThere
            · rw [Option.some.inj (defined.symm.trans same)] at distinct
              exact absurd (later inst there own) distinct.1
            · exact ih distinct.2 there otherThere

theorem WellFormed.of_checks {code : List Word} (magic : hasMagic code = true) (tiles : rest code = [])
    (decorated : ∀ inst ∈ instructions code, inst.Is opDecorate 3 → (inst.operand 1).toNat < bound code)
    (memberDecorated : ∀ inst ∈ instructions code, inst.Is opMemberDecorate 4 →
      (inst.operand 1).toNat < bound code)
    (pointer : ∀ inst ∈ instructions code, inst.Is opTypePointer 4 →
      (inst.operand 1).toNat < bound code ∧ (inst.operand 3).toNat < bound code)
    (typed : ∀ inst ∈ instructions code, inst.Is opVariable 4 →
      (inst.operand 1).toNat < bound code ∧ (inst.operand 2).toNat < bound code)
    (distinct : ((instructions code).filterMap Inst.defines).Nodup)
    (members : ∀ inst ∈ instructions code, inst.Is opMemberDecorate 4 →
      ∃ other ∈ instructions code, other.Is opTypeStruct 2 ∧ other.operand 1 = inst.operand 1)
    (bindings : ∀ inst ∈ instructions code, ∀ other ∈ instructions code, inst.Is opDecorate 4 →
      other.Is opDecorate 4 → inst.operand 2 = decorationBinding → other.operand 2 = decorationBinding →
      inst.operand 1 = other.operand 1 → inst.operand 3 = other.operand 3) : WellFormed code where
  magic := magic
  tiles := tiles
  decorated := decorated
  memberDecorated := memberDecorated
  pointer := pointer
  typed := typed
  defined := fun _ member _ otherMember _ => defines_unique distinct member otherMember
  members := by
    intro inst member is
    obtain ⟨other, there, struct, own⟩ := members inst member is
    exact ⟨other.count - 2, other, there, struct, own, (Nat.sub_add_cancel struct.2).symm⟩
  bindings := by
    rintro id first second ⟨inst, member, is, own, binds, rfl⟩ ⟨other, there, is', own', binds', rfl⟩
    rw [bindings inst member other there is is' binds binds' (own.trans own'.symm)]

inductive AccessKind
  | load
  | store
deriving DecidableEq

def AccessKind.forbidding : AccessKind → Word
  | .load => decorationNonReadable
  | .store => decorationNonWritable

structure Access where
  kind : AccessKind
  id : Word
  member : Nat

def Permitted (insts : List Inst) (access : Access) : Prop :=
  ∃ target block members, BufferVariable insts access.id target ∧ BlockType insts target block ∧
    StructType insts block members ∧ access.member < members ∧
    ¬ Decorated insts access.id access.kind.forbidding ∧
    ¬ MemberDecorated insts block access.member access.kind.forbidding

/-- The accesses of a run to storage buffers. A valid module makes none that is forbidden. -/
structure Execution (insts : List Inst) where
  accesses : List Access
  permitted : ∀ access ∈ accesses, Permitted insts access

end Spirv
