import PDocker.Spirv.Interface

/-!
# Sizes of workgroups

An entry point declares the size of its workgroups with an execution mode. A constant that is decorated as
the size takes precedence; its components are literals, or have values that are given from outside.
-/

set_option autoImplicit false

namespace Spirv

def opExecutionMode : Nat := 16
def opConstant : Nat := 43
def opConstantComposite : Nat := 44
def opSpecConstant : Nat := 50
def opSpecConstantComposite : Nat := 51
def opExecutionModeId : Nat := 331

def modeLocalSize : Word := 17
def modeLocalSizeId : Word := 38
def decorationSpecId : Word := 1
def decorationBuiltIn : Word := 11
def builtInWorkgroupSize : Word := 25

abbrev Given := Word → Option Word

abbrev Size := Word × Word × Word

def Size.invocations (size : Size) : Nat := size.1.toNat * size.2.1.toNat * size.2.2.toNat

section

variable (given : Given) (insts : List Inst)

def specIdOf (id : Word) : Option Word :=
  insts.findSome? fun inst =>
    if inst.Is opDecorate 4 ∧ inst.operand 1 = id ∧ inst.operand 2 = decorationSpecId then some (inst.operand 3)
    else none

def scalarOf (id : Word) : Option Word :=
  insts.findSome? fun inst =>
    if inst.Is opConstant 4 ∧ inst.operand 2 = id then some (inst.operand 3)
    else if inst.Is opSpecConstant 4 ∧ inst.operand 2 = id then
      some (((specIdOf insts id).bind given).getD (inst.operand 3))
    else none

def tripleOf (x y z : Word) : Option Size :=
  (scalarOf given insts x).bind fun x => (scalarOf given insts y).bind fun y =>
    (scalarOf given insts z).map fun z => (x, y, z)

def compositeOf (id : Word) : Option Size :=
  insts.findSome? fun inst =>
    if (inst.Is opConstantComposite 6 ∨ inst.Is opSpecConstantComposite 6) ∧ inst.operand 2 = id then
      tripleOf given insts (inst.operand 3) (inst.operand 4) (inst.operand 5)
    else none

/-- `OpDecorate id BuiltIn WorkgroupSize`. -/
def Inst.IsWorkgroupSize (inst : Inst) : Prop :=
  inst.Is opDecorate 4 ∧ inst.operand 2 = decorationBuiltIn ∧ inst.operand 3 = builtInWorkgroupSize

instance (inst : Inst) : Decidable inst.IsWorkgroupSize := inferInstanceAs (Decidable (_ ∧ _ ∧ _))

def workgroupSize : Option Size :=
  insts.findSome? fun inst => if inst.IsWorkgroupSize then compositeOf given insts (inst.operand 1) else none

def Inst.IsLocalSize (inst : Inst) : Prop := inst.Is opExecutionMode 6 ∧ inst.operand 2 = modeLocalSize

instance (inst : Inst) : Decidable inst.IsLocalSize := inferInstanceAs (Decidable (_ ∧ _))

def Inst.IsLocalSizeId (inst : Inst) : Prop := inst.Is opExecutionModeId 6 ∧ inst.operand 2 = modeLocalSizeId

instance (inst : Inst) : Decidable inst.IsLocalSizeId := inferInstanceAs (Decidable (_ ∧ _))

def modeSize (inst : Inst) : Option Size :=
  if inst.IsLocalSize then some (inst.operand 3, inst.operand 4, inst.operand 5)
  else if inst.IsLocalSizeId then tripleOf given insts (inst.operand 3) (inst.operand 4) (inst.operand 5)
  else none

def declaredSize (entry : Word) : Option Size :=
  insts.findSome? fun inst => if inst.operand 1 = entry then modeSize given insts inst else none

def effectiveSize (entry : Word) : Option Size := (workgroupSize given insts).or (declaredSize given insts entry)

end

/-- A module as far as the sizes go: an entry point has one mode for its size, and one constant is decorated. -/
structure WellSized (code : List Word) : Prop where
  magic : hasMagic code = true
  tiles : rest code = []
  modes : ∀ inst ∈ instructions code, ∀ other ∈ instructions code,
    inst.IsLocalSize ∨ inst.IsLocalSizeId → other.IsLocalSize ∨ other.IsLocalSizeId →
      inst.operand 1 = other.operand 1 → inst = other
  decorated : ∀ inst ∈ instructions code, ∀ other ∈ instructions code,
    inst.IsWorkgroupSize → other.IsWorkgroupSize → inst = other

section

variable {α β : Type}

theorem findSome?_exchange {f : α → Option β} {before after : List α} {old new : α} (same : f new = f old) :
    (before ++ new :: after).findSome? f = (before ++ old :: after).findSome? f := by
  rw [List.findSome?_append, List.findSome?_append, List.findSome?_cons, List.findSome?_cons, same]

end

section

variable {given : Given} {before after : List Inst} {old new : Inst} {id entry : Word}

theorem Inst.Is.not_other {inst : Inst} {code other words : Nat} (is : inst.op = code) (differ : code ≠ other) :
    ¬ inst.Is other words := fun same => differ (is.symm.trans same.1)

variable (oldMode : old.op = opExecutionMode)

include oldMode

theorem specIdOf_exchange (newMode : new.op = opExecutionMode) :
    specIdOf (before ++ new :: after) id = specIdOf (before ++ old :: after) id := by
  refine findSome?_exchange ?_
  rw [if_neg fun decorates => Inst.Is.not_other newMode (by decide) decorates.1,
    if_neg fun decorates => Inst.Is.not_other oldMode (by decide) decorates.1]

theorem scalarOf_exchange (newMode : new.op = opExecutionMode) :
    scalarOf given (before ++ new :: after) id = scalarOf given (before ++ old :: after) id := by
  have unused : ∀ {inst : Inst}, inst.op = opExecutionMode →
      (if inst.Is opConstant 4 ∧ inst.operand 2 = id then some (inst.operand 3)
        else if inst.Is opSpecConstant 4 ∧ inst.operand 2 = id then
          some (((specIdOf (before ++ old :: after) id).bind given).getD (inst.operand 3))
        else none) = none := by
    intro inst mode
    rw [if_neg fun constant => Inst.Is.not_other mode (by decide) constant.1,
      if_neg fun constant => Inst.Is.not_other mode (by decide) constant.1]
  rw [scalarOf, scalarOf, specIdOf_exchange oldMode newMode]
  exact findSome?_exchange ((unused newMode).trans (unused oldMode).symm)

theorem tripleOf_exchange (newMode : new.op = opExecutionMode) (x y z : Word) :
    tripleOf given (before ++ new :: after) x y z = tripleOf given (before ++ old :: after) x y z := by
  simp only [tripleOf, scalarOf_exchange oldMode newMode]

theorem modeSize_exchange (newMode : new.op = opExecutionMode) (inst : Inst) :
    modeSize given (before ++ new :: after) inst = modeSize given (before ++ old :: after) inst := by
  simp only [modeSize, tripleOf_exchange oldMode newMode]

theorem declaredSize_other (newMode : new.op = opExecutionMode)
    (same : new.operand 1 = old.operand 1) (other : old.operand 1 ≠ entry) :
    declaredSize given (before ++ new :: after) entry = declaredSize given (before ++ old :: after) entry := by
  simp only [declaredSize, modeSize_exchange oldMode newMode]
  refine findSome?_exchange ?_
  rw [if_neg (same ▸ other), if_neg other]

theorem declaredSize_own (newMode : new.op = opExecutionMode)
    (own : new.operand 1 = entry) (first : ∀ inst ∈ before, inst.operand 1 = entry →
      ¬ (inst.IsLocalSize ∨ inst.IsLocalSizeId)) (literal : new.IsLocalSize) :
    declaredSize given (before ++ new :: after) entry = some (new.operand 3, new.operand 4, new.operand 5) := by
  simp only [declaredSize, modeSize_exchange oldMode newMode]
  have none_before : before.findSome? (fun inst =>
      if inst.operand 1 = entry then modeSize given (before ++ old :: after) inst else none) = none := by
    rw [List.findSome?_eq_none_iff]
    intro inst member
    split
    · rename_i mine
      have noMode := not_or.mp (first inst member mine)
      rw [modeSize, if_neg noMode.1, if_neg noMode.2]
    · rfl
  rw [List.findSome?_append, none_before, Option.none_or, List.findSome?_cons, if_pos own, modeSize,
    if_pos literal]

omit oldMode

end

end Spirv
