import PDocker.Gpu.LocalSize

/-!
# Specialization constants as literals

`materialize_spirv_specialization_constants` writes the specialised values into a shader, so that its pipeline
needs no specialization. What the size of the workgroup depends on stays as it is.
-/

set_option autoImplicit false

namespace PDocker.Gpu.Materialize

open Spirv
open PDocker.Gpu.LocalSize (Specializations)

structure SpecTables where
  specId : Word → Option Word
  workgroupSize : Word → Bool
  skip : Word → Bool

def SpecTables.none : SpecTables := ⟨fun _ => .none, fun _ => false, fun _ => false⟩

def noteDecoration (bound : Nat) (tables : SpecTables) (inst : Inst) : SpecTables :=
  if inst.op = 71 ∧ 4 ≤ inst.count ∧ (inst.operand 1).toNat < bound then
    if inst.operand 2 = 1 then
      { tables with specId := Function.update tables.specId (inst.operand 1) (some (inst.operand 3)) }
    else if inst.operand 2 = 11 ∧ inst.operand 3 = 25 then
      { tables with
        workgroupSize := Function.update tables.workgroupSize (inst.operand 1) true
        skip := Function.update tables.skip (inst.operand 1) true }
    else tables
  else tables

def namesFrom (bound : Nat) (inst : Inst) (index : Nat) : List Word :=
  (inst.drop index).filter fun id => decide (id.toNat < bound)

def skipComponents (bound : Nat) (workgroupSize skip : Word → Bool) (inst : Inst) : Word → Bool :=
  if inst.op = 51 ∧ 3 ≤ inst.count ∧ (inst.operand 2).toNat < bound ∧ workgroupSize (inst.operand 2) then
    fun id => skip id || decide (id ∈ namesFrom bound inst 3)
  else skip

def computes (bound : Nat) (inst : Inst) : Bool :=
  inst.op = 52 && decide (5 ≤ inst.count) && decide ((inst.operand 2).toNat < bound)

def usesSkipped (bound : Nat) (skip : Word → Bool) (inst : Inst) : Bool := (namesFrom bound inst 4).any skip

def propagate (bound : Nat) (skip : Word → Bool) (inst : Inst) : Word → Bool :=
  if computes bound inst && !skip (inst.operand 2) && usesSkipped bound skip inst then
    Function.update skip (inst.operand 2) true
  else skip

def settle (bound : Nat) (insts : List Inst) : Nat → (Word → Bool) → Word → Bool
  | 0, skip => skip
  | rounds + 1, skip => settle bound insts rounds (insts.foldl (propagate bound) skip)

def specTables (bound : Nat) (insts : List Inst) : SpecTables :=
  let noted := insts.foldl (noteDecoration bound) SpecTables.none
  let components := insts.foldl (skipComponents bound noted.workgroupSize) noted.skip
  { noted with skip := settle bound insts insts.length components }

structure Emitted where
  out : List Inst
  scalars : Word → Option Nat
  composites : Word → Option (List Nat)
  changed : Bool

def constantInst (inst : Inst) (value : Word) : Inst :=
  [BitVec.ofNat 32 (4 * 2 ^ 16 + 43), inst.operand 1, inst.operand 2, value]

def compositeInst (inst : Inst) : Inst := inst.set 0 (BitVec.ofNat 32 (inst.count * 2 ^ 16 + 44))

namespace Emitted

variable (state : Emitted) (inst : Inst)

def copy : Emitted := { state with out := state.out ++ [inst] }

def constant (value : Nat) : Emitted where
  out := state.out ++ [constantInst inst (BitVec.ofNat 32 value)]
  scalars := Function.update state.scalars (inst.operand 2) (some (value % 2 ^ 32))
  composites := state.composites
  changed := true

def components (bound : Nat) (usable : Word → Bool) : Option (List Nat) :=
  ((inst.drop 3).take 4).mapM fun id =>
    if id.toNat < bound ∧ usable id then state.scalars id else .none

/-- A division or the component of a composite; nothing else is computed. -/
def folded (bound : Nat) : Option Nat :=
  let first := inst.operand 4
  let second := inst.operand 5
  if (inst.operand 3).toNat = 134 ∧ inst.count = 6 then
    if first.toNat < bound ∧ second.toNat < bound then
      match state.scalars first, state.scalars second with
      | some a, some b => if b = 0 then .none else some (a / b)
      | _, _ => .none
    else .none
  else if (inst.operand 3).toNat = 81 ∧ inst.count = 6 then
    if first.toNat < bound then (state.composites first).bind fun values => values[second.toNat]? else .none
  else .none

end Emitted

section

variable (specs : Specializations) (bound : Nat) (tables : SpecTables)

def specValue (inst : Inst) : Nat :=
  match (tables.specId (inst.operand 2)).bind fun id => specs.valueForId id.toNat with
  | some value => value
  | none => (inst.operand 3).toNat

def emit (state : Emitted) (inst : Inst) : Option Emitted :=
  let id := inst.operand 2
  if inst.op = 71 ∧ 4 ≤ inst.count ∧ id = 1 ∧ (inst.operand 1).toNat < bound ∧ tables.skip (inst.operand 1) = false then
    some { state with changed := true }
  else if inst.op = 43 ∧ 4 ≤ inst.count ∧ id.toNat < bound then
    some { state.copy inst with scalars := Function.update state.scalars id (some (inst.operand 3).toNat) }
  else if inst.op = 44 ∧ 3 ≤ inst.count ∧ id.toNat < bound then
    some { state.copy inst with
      composites := Function.update state.composites id (state.components inst bound fun _ => true) }
  else if inst.op = 50 ∧ 4 ≤ inst.count ∧ id.toNat < bound ∧ tables.skip id = false then
    some (state.constant inst (specValue specs tables inst))
  else if inst.op = 51 ∧ 3 ≤ inst.count ∧ id.toNat < bound ∧ tables.skip id = false then
    some { state with
      out := state.out ++ [compositeInst inst]
      composites := Function.update state.composites id (state.components inst bound fun id => !tables.skip id)
      changed := true }
  else if computes bound inst then
    if tables.skip id || usesSkipped bound tables.skip inst then some (state.copy inst)
    else (state.folded inst bound).map (state.constant inst)
  else some (state.copy inst)

end

def PDOCKER_SPIRV_MAX_BOUND : Nat := 65536

/-- The shader with its constants, none where nothing is changed; `allocates` says whether the tables can be
allocated. -/
def materializeSpirvSpecializationConstants (code : List Word) (specs : Specializations) (allocates : Bool) :
    Option (List Word) :=
  if !hasMagic code || specs.entries.isEmpty then none
  else if bound code = 0 ∨ PDOCKER_SPIRV_MAX_BOUND < bound code then none
  else if !allocates || !(rest code).isEmpty then none
  else
    let insts := instructions code
    match insts.foldlM (emit specs (bound code) (specTables (bound code) insts)) ⟨[], fun _ => none, fun _ => none, false⟩ with
    | none => none
    | some state =>
        if state.changed && decide (headerWords + state.out.flatten.length ≤ code.length) then
          some (code.take headerWords ++ state.out.flatten)
        else none

section

variable {bound : Nat} {insts : List Inst} {skip : Word → Bool}

def unmarked (bound : Nat) (skip : Word → Bool) (insts : List Inst) : List Inst :=
  insts.filter fun inst => computes bound inst && !skip (inst.operand 2)

theorem propagate_cases (inst : Inst) :
    propagate bound skip inst = skip ∨ (inst ∈ unmarked bound skip [inst] ∧
      propagate bound skip inst = Function.update skip (inst.operand 2) true) := by
  rw [propagate]
  split
  · rename_i marks
    simp only [Bool.and_eq_true] at marks
    exact .inr ⟨by simpa [unmarked] using marks.1, rfl⟩
  · exact .inl rfl

theorem propagate_le (inst : Inst) {id : Word} (marked : skip id = true) : propagate bound skip inst id = true := by
  rcases @propagate_cases bound skip inst with same | ⟨-, set⟩
  · rw [same]
    exact marked
  rw [set, Function.update_apply]
  split
  · rfl
  · exact marked

theorem propagates_le {id : Word} (marked : skip id = true) : insts.foldl (propagate bound) skip id = true := by
  induction insts generalizing skip with
  | nil => exact marked
  | cons inst insts ih => exact ih (propagate_le inst marked)

theorem propagates_cases : insts.foldl (propagate bound) skip = skip ∨
    ∃ inst ∈ unmarked bound skip insts, insts.foldl (propagate bound) skip (inst.operand 2) = true := by
  induction insts with
  | nil => exact .inl rfl
  | cons inst insts ih =>
      rw [List.foldl_cons]
      rcases @propagate_cases bound skip inst with same | ⟨free, set⟩
      · rw [same]
        rcases ih with rest | ⟨other, member, marked⟩
        · exact .inl rest
        · refine .inr ⟨other, ?_, marked⟩
          rw [unmarked, List.mem_filter] at member ⊢
          exact ⟨List.mem_cons_of_mem _ member.1, member.2⟩
      · refine .inr ⟨inst, ?_, propagates_le ?_⟩
        · rw [unmarked, List.mem_filter] at free ⊢
          exact ⟨List.mem_cons_self, free.2⟩
        · rw [set, Function.update_self]

theorem unmarked_shorter {inst : Inst} (free : inst ∈ unmarked bound skip insts)
    (marked : insts.foldl (propagate bound) skip (inst.operand 2) = true) :
    (unmarked bound (insts.foldl (propagate bound) skip) insts).length < (unmarked bound skip insts).length := by
  have fewer : unmarked bound (insts.foldl (propagate bound) skip) insts =
      (unmarked bound skip insts).filter fun inst => !insts.foldl (propagate bound) skip (inst.operand 2) := by
    rw [unmarked, unmarked, List.filter_filter]
    refine List.filter_congr fun other _ => ?_
    cases old : skip (other.operand 2) with
    | true => rw [propagates_le old, Bool.not_true, Bool.and_false, Bool.false_and]
    | false => rw [Bool.not_false, Bool.and_true, Bool.and_comm]
  rw [fewer, List.length_filter_lt_length_iff_exists]
  exact ⟨inst, free, by rw [marked]; exact Bool.false_ne_true⟩

theorem settle_of_fixed (rounds : Nat) (fixed : insts.foldl (propagate bound) skip = skip) :
    settle bound insts rounds skip = skip := by
  induction rounds with
  | zero => rfl
  | succ rounds ih => rw [settle, fixed, ih]

theorem settle_fixed {rounds : Nat} (enough : (unmarked bound skip insts).length ≤ rounds) :
    insts.foldl (propagate bound) (settle bound insts rounds skip) = settle bound insts rounds skip := by
  induction rounds generalizing skip with
  | zero =>
      rcases @propagates_cases bound insts skip with fixed | ⟨inst, member, -⟩
      · exact fixed
      · rw [List.length_eq_zero_iff.mp (Nat.le_zero.mp enough)] at member
        cases member
  | succ rounds ih =>
      rcases @propagates_cases bound insts skip with fixed | ⟨inst, member, marked⟩
      · rw [settle_of_fixed _ fixed]
        exact fixed
      · exact ih (Nat.le_of_lt_succ (Nat.lt_of_lt_of_le (unmarked_shorter member marked) enough))

theorem specTables_settled : insts.foldl (propagate bound) (specTables bound insts).skip = (specTables bound insts).skip :=
  settle_fixed (List.length_filter_le _ _)

end

def constantIds (insts : List Inst) : List Word :=
  insts.filterMap fun inst =>
    if inst.Is opDecorate 4 ∧ inst.operand 2 = decorationSpecId then some (inst.operand 3) else none

end PDocker.Gpu.Materialize
