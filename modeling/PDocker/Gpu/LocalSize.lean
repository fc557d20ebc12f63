import PDocker.Gpu.Command
import PDocker.Spirv.Workgroup
import Mathlib.Data.BitVec

/-!
# Workgroup sizes from specialization

`patch_spirv_literal_local_size_from_spec` writes a guessed size over a literal `1 1 1`, and
`spirv_local_size_consistent` says whether a shader may be dispatched.
-/

set_option autoImplicit false

namespace PDocker.Gpu.LocalSize

open Spirv
open PDocker.Gpu.Command (VulkanDispatchSpecialization)

abbrev Bytes := List UInt8

def littleEndian : Bytes → Nat
  | [] => 0
  | byte :: rest => byte.toNat + 256 * littleEndian rest

/-- What `memcpy` reads behind the data is taken as zero. -/
def specializationValueU64 (data : Bytes) (entry : VulkanDispatchSpecialization) : Nat :=
  if data.length ≤ entry.offset.toNat then 0
  else if entry.size = 0 ∨ data.length < (entry.offset.toNat + entry.size.toNat) % 2 ^ 64 then 0
  else littleEndian ((data.drop entry.offset.toNat).take (min entry.size.toNat 8))

structure Specializations where
  entries : List VulkanDispatchSpecialization
  data : Bytes

namespace Specializations

variable (specs : Specializations)

def valueForId (constantId : Nat) : Option Nat :=
  (specs.entries.find? fun entry => entry.constantId.toNat = constantId).map (specializationValueU64 specs.data)

def given : Given := fun constantId => (specs.valueForId constantId.toNat).map (BitVec.ofNat 32)

end Specializations

structure Dims where
  x : Nat
  y : Nat
  z : Nat
deriving DecidableEq

def Dims.invocations (dims : Dims) : Nat := dims.x * dims.y * dims.z

def Dims.size (dims : Dims) : Size := (BitVec.ofNat 32 dims.x, BitVec.ofNat 32 dims.y, BitVec.ofNat 32 dims.z)

def dimension : Option Nat → Option Nat
  | none => some 1
  | some value => if value = 0 ∨ 1024 < value then none else some value

def guessedSize (specs : Specializations) : Option Dims :=
  match dimension (specs.valueForId 0), dimension (specs.valueForId 1), dimension (specs.valueForId 2) with
  | some x, some y, some z =>
      if specs.valueForId 0 = none ∧ specs.valueForId 1 = none ∧ specs.valueForId 2 = none then none
      else if (Dims.mk x y z).invocations ≤ 1 ∨ 1024 < (Dims.mk x y z).invocations then none
      else some ⟨x, y, z⟩
  | _, _, _ => none

def isUnit (inst : Inst) : Bool :=
  inst.op = 16 && decide (6 ≤ inst.count) && inst.operand 2 = 17 && inst.operand 3 = 1 && inst.operand 4 = 1 &&
    inst.operand 5 = 1

def withSize (inst : Inst) (size : Size) : Inst := ((inst.set 3 size.1).set 4 size.2.1).set 5 size.2.2

def patchFirst (size : Size) : List Inst → Option (List Inst)
  | [] => none
  | inst :: insts =>
      if isUnit inst then some (withSize inst size :: insts) else (patchFirst size insts).map (inst :: ·)

def patchSpirvLiteralLocalSizeFromSpec (code : List Word) (specs : Specializations) : Int × List Word :=
  if !hasMagic code || specs.entries.isEmpty then (0, code)
  else if !(instructions code).any fun inst => decide inst.IsWorkgroupSize then (0, code)
  else
    match guessedSize specs with
    | none => (0, code)
    | some dims =>
        match patchFirst dims.size (instructions code) with
        | none => (0, code)
        | some insts => (1, withInstructions code insts)

/-- What `summarize_spirv` keeps of the sizes: the operands of the last mode of either kind, zeros without one. -/
structure Summary where
  valid : Bool
  localSize : Size
  localSizeId : Size

def summarizeInst (summary : Summary) (inst : Inst) : Summary :=
  if inst.op = 16 ∧ 6 ≤ inst.count ∧ inst.operand 2 = 17 then
    { summary with localSize := (inst.operand 3, inst.operand 4, inst.operand 5) }
  else if inst.op = 331 ∧ 6 ≤ inst.count ∧ inst.operand 2 = 38 then
    { summary with localSizeId := (inst.operand 3, inst.operand 4, inst.operand 5) }
  else summary

def summarizeSpirv (code : List Word) : Summary :=
  if !hasMagic code then ⟨false, 0, 0⟩
  else (instructions code).foldl summarizeInst ⟨true, 0, 0⟩

def resolveDimension (specs : Specializations) (literal id : Word) : Nat :=
  let value := if literal = 0 then 1 else literal.toNat
  if id = 0 then value else (specs.valueForId id.toNat).getD value

def resolveSpirvLocalSize (summary : Summary) (specs : Specializations) : Dims where
  x := resolveDimension specs summary.localSize.1 summary.localSizeId.1
  y := resolveDimension specs summary.localSize.2.1 summary.localSizeId.2.1
  z := resolveDimension specs summary.localSize.2.2 summary.localSizeId.2.2

def spirvLocalInvocationCount (dims : Dims) : Bool :=
  !(decide (dims.x = 0) || decide (1024 < dims.x)) &&
    !(decide (dims.y = 0) || decide (1024 < dims.y)) && decide (dims.x * dims.y ≤ 1024) &&
      !(decide (dims.z = 0) || decide (1024 < dims.z)) && decide (dims.x * dims.y * dims.z ≤ 1024)

def matchesLiteral (literal : Word) (resolved : Nat) : Bool := literal = 0 || decide (literal.toNat = resolved)

def spirvLocalSizeConsistent (summary : Summary) (specs : Specializations) : Bool :=
  if !summary.valid then true
  else if summary.localSizeId.1 = 0 ∧ summary.localSizeId.2.1 = 0 ∧ summary.localSizeId.2.2 = 0 then true
  else
    let resolved := resolveSpirvLocalSize summary specs
    matchesLiteral summary.localSize.1 resolved.x && matchesLiteral summary.localSize.2.1 resolved.y &&
      matchesLiteral summary.localSize.2.2 resolved.z && spirvLocalInvocationCount resolved

section

variable (code : List Word) (specs : Specializations) (entry : Word)

/-- The declared size and the specialised one differ, or the entry point has too many invocations. -/
def Refusable : Prop :=
  (∃ declared constant, declaredSize specs.given (instructions code) entry = some declared ∧
      workgroupSize specs.given (instructions code) = some constant ∧ declared ≠ constant) ∨
    ∃ size, effectiveSize specs.given (instructions code) entry = some size ∧ 1024 < size.invocations

/-- The patch leaves the module alone or declares the size that the constant has; the gate refuses what must
be refused and nothing else. -/
structure Preserves : Prop where
  patch : (patchSpirvLiteralLocalSizeFromSpec code specs).2 = code ∨
    ∃ size, workgroupSize specs.given (instructions code) = some size ∧
      declaredSize specs.given (instructions (patchSpirvLiteralLocalSizeFromSpec code specs).2) entry = some size
  gate : spirvLocalSizeConsistent (summarizeSpirv code) specs = false ↔ Refusable code specs entry

structure Guesses (dims : Dims) (mode : Inst) : Prop where
  some_given : specs.entries ≠ []
  constant : ∃ inst ∈ instructions code, inst.IsWorkgroupSize
  dims : guessedSize specs = some dims
  mode : (instructions code).find? isUnit = some mode

/-- A guess for the dispatched entry point is the size of the constant; after one for another entry point, the
dispatched one declares that size anyway. -/
def GuessRight : Prop :=
  ∀ dims mode, Guesses code specs dims mode → workgroupSize specs.given (instructions code) =
        (if mode.operand 1 = entry then some dims.size else declaredSize specs.given (instructions code) entry) ∧
      workgroupSize specs.given (instructions code) ≠ none

/-- The sizes that the gate compares fit, where there is a mode with ids. -/
def Fits : Prop :=
  let summary := summarizeSpirv code
  let resolved := resolveSpirvLocalSize summary specs
  (summary.localSize.1 = 0 ∨ summary.localSize.1.toNat = resolved.x) ∧
    (summary.localSize.2.1 = 0 ∨ summary.localSize.2.1.toNat = resolved.y) ∧
      (summary.localSize.2.2 = 0 ∨ summary.localSize.2.2.toNat = resolved.z) ∧
        resolved.x ≠ 0 ∧ resolved.y ≠ 0 ∧ resolved.z ≠ 0 ∧ resolved.invocations ≤ 1024

/-- Without a mode with ids there is nothing to refuse; with one, the sizes that are compared fit if and only if
there is nothing to refuse. -/
def GateRight : Prop :=
  if (summarizeSpirv code).localSizeId = (0, 0, 0) then ¬ Refusable code specs entry
  else Fits code specs ↔ ¬ Refusable code specs entry

end

theorem isUnit_spec {inst : Inst} (unit : isUnit inst = true) :
    inst.op = opExecutionMode ∧ 6 ≤ inst.count ∧ inst.operand 2 = modeLocalSize ∧ inst.operand 3 = 1 ∧
      inst.operand 4 = 1 ∧ inst.operand 5 = 1 := by
  simpa [isUnit, opExecutionMode, modeLocalSize, and_assoc] using unit

theorem isUnit_localSize {inst : Inst} (unit : isUnit inst = true) : inst.IsLocalSize := by
  obtain ⟨op, long, mode, -⟩ := isUnit_spec unit
  exact ⟨⟨op, long⟩, mode⟩

section

variable {inst : Inst} {size : Size}

theorem withSize_headD (filled : inst ≠ []) : (withSize inst size).headD 0 = inst.headD 0 := by
  obtain ⟨head, rest, rfl⟩ := List.exists_cons_of_ne_nil filled
  rfl

theorem withSize_length : (withSize inst size).length = inst.length := by
  simp only [withSize, List.length_set]

theorem withSize_sized (sized : inst.Sized) : (withSize inst size).Sized := by
  refine ⟨fun empty => ?_, ?_⟩
  · have length := congrArg List.length empty
    rw [withSize_length] at length
    exact sized.1 (List.length_eq_zero_iff.mp length)
  · rw [withSize_length, Inst.count, withSize_headD sized.1]
    exact sized.2

theorem withSize_op (sized : inst.Sized) : (withSize inst size).op = inst.op := by
  rw [Inst.op, withSize_headD sized.1]
  rfl

theorem withSize_early {index : Nat} (early : index < 3) : (withSize inst size).operand index = inst.operand index := by
  simp only [withSize, Inst.operand, List.getD_eq_getElem?_getD]
  rw [List.getElem?_set_ne (by omega), List.getElem?_set_ne (by omega), List.getElem?_set_ne (by omega)]

theorem withSize_operands (long : 6 ≤ inst.length) :
    ((withSize inst size).operand 3, (withSize inst size).operand 4, (withSize inst size).operand 5) = size := by
  obtain ⟨x, y, z⟩ := size
  simp only [withSize, Inst.operand, List.getD_eq_getElem?_getD]
  rw [List.getElem?_set_ne (by decide), List.getElem?_set_ne (by decide),
    List.getElem?_set_self (by omega), List.getElem?_set_ne (by decide),
    List.getElem?_set_self (by rw [List.length_set]; omega),
    List.getElem?_set_self (by rw [List.length_set, List.length_set]; omega)]
  rfl

end

theorem patchFirst_spec {size : Size} {insts : List Inst} :
    (patchFirst size insts = none ∧ insts.find? isUnit = none) ∨
      ∃ before mode after, insts = before ++ mode :: after ∧ (∀ inst ∈ before, isUnit inst = false) ∧
        isUnit mode = true ∧ insts.find? isUnit = some mode ∧
          patchFirst size insts = some (before ++ withSize mode size :: after) := by
  induction insts with
  | nil => exact .inl ⟨rfl, rfl⟩
  | cons inst insts ih =>
      rw [patchFirst, List.find?_cons]
      cases unit : isUnit inst with
      | true => exact .inr ⟨[], inst, insts, rfl, List.forall_mem_nil _, unit, rfl, rfl⟩
      | false =>
          rcases ih with ⟨unpatched, absent⟩ | ⟨before, mode, after, rfl, earlier, own, found, patched⟩
          · refine .inl ⟨?_, absent⟩
            rw [unpatched]
            rfl
          · refine .inr ⟨inst :: before, mode, after, rfl, ?_, own, found, ?_⟩
            · exact List.forall_mem_cons.mpr ⟨unit, earlier⟩
            · rw [patched]
              rfl

section

variable {code : List Word} {specs : Specializations} {entry : Word}

theorem patch_idle (idle : ∀ dims mode, ¬ Guesses code specs dims mode) :
    (patchSpirvLiteralLocalSizeFromSpec code specs).2 = code := by
  simp only [patchSpirvLiteralLocalSizeFromSpec]
  split
  · rfl
  rename_i given
  split
  · rfl
  rename_i constant
  split
  · rfl
  rename_i dims guessed
  rcases @patchFirst_spec dims.size (instructions code) with
    ⟨unpatched, -⟩ | ⟨before, mode, after, -, -, -, found, -⟩
  · simp only [unpatched]
  refine absurd ⟨?_, ?_, guessed, found⟩ (idle dims mode)
  · rintro empty
    rw [empty] at given
    simp at given
  · simpa using constant

theorem patch_guess {dims : Dims} {mode : Inst} (magic : hasMagic code = true)
    (guesses : Guesses code specs dims mode) :
    ∃ before after, instructions code = before ++ mode :: after ∧ (∀ inst ∈ before, isUnit inst = false) ∧
      isUnit mode = true ∧ (patchSpirvLiteralLocalSizeFromSpec code specs).2 =
        withInstructions code (before ++ withSize mode dims.size :: after) := by
  rcases @patchFirst_spec dims.size (instructions code) with
    ⟨-, absent⟩ | ⟨before, other, after, parts, earlier, unit, found, patched⟩
  · cases absent.symm.trans guesses.mode
  have same : other = mode := Option.some.inj (found.symm.trans guesses.mode)
  subst same
  refine ⟨before, after, parts, earlier, unit, ?_⟩
  have given : (!hasMagic code || specs.entries.isEmpty) = false := by
    rw [magic]
    simpa using guesses.some_given
  have constant : ((instructions code).any fun inst => decide inst.IsWorkgroupSize) = true := by
    simpa using guesses.constant
  simp only [patchSpirvLiteralLocalSizeFromSpec, given, constant, guesses.dims, patched, Bool.not_true,
    Bool.false_eq_true, if_false]

theorem dimension_range {value : Option Nat} {size : Nat} (accepted : dimension value = some size) :
    0 < size ∧ size ≤ 1024 := by
  cases value with
  | none =>
      cases accepted
      decide
  | some value =>
      rw [dimension] at accepted
      split at accepted
      · cases accepted
      · cases accepted
        omega

theorem guessed_size_ne {dims : Dims} (guessed : guessedSize specs = some dims) : dims.size ≠ (1, 1, 1) := by
  simp only [guessedSize] at guessed
  split at guessed
  · rename_i x y z first second third
    split at guessed
    · cases guessed
    split at guessed
    · cases guessed
    rename_i several
    cases guessed
    obtain ⟨-, xSmall⟩ := dimension_range first
    obtain ⟨-, ySmall⟩ := dimension_range second
    obtain ⟨-, zSmall⟩ := dimension_range third
    have one : ∀ {size : Nat}, size ≤ 1024 → BitVec.ofNat 32 size = 1 → size = 1 := by
      intro size small same
      have value := congrArg BitVec.toNat same
      rw [BitVec.toNat_ofNat, Nat.mod_eq_of_lt (by omega)] at value
      exact value
    intro unit
    simp only [Dims.size, Prod.mk.injEq] at unit
    obtain ⟨xOne, yOne, zOne⟩ := unit
    rw [Dims.invocations, one xSmall xOne, one ySmall yOne, one zSmall zOne] at several
    exact several (.inl (by decide))
  · cases guessed

theorem patch_iff (wellSized : WellSized code) :
    ((patchSpirvLiteralLocalSizeFromSpec code specs).2 = code ∨
      ∃ size, workgroupSize specs.given (instructions code) = some size ∧
        declaredSize specs.given (instructions (patchSpirvLiteralLocalSizeFromSpec code specs).2) entry = some size) ↔
      GuessRight code specs entry := by
  by_cases idle : ∀ dims mode, ¬ Guesses code specs dims mode
  · exact iff_of_true (.inl (patch_idle idle)) fun dims mode guesses => absurd guesses (idle dims mode)
  push Not at idle
  obtain ⟨dims, mode, guesses⟩ := idle
  have only : ∀ {other otherMode}, Guesses code specs other otherMode → other = dims ∧ otherMode = mode :=
    fun others => ⟨Option.some.inj (others.dims.symm.trans guesses.dims),
      Option.some.inj (others.mode.symm.trans guesses.mode)⟩
  obtain ⟨before, after, parts, earlier, unit, patched⟩ := patch_guess wellSized.magic guesses
  have long : headerWords ≤ code.length := by
    have magic := wellSized.magic
    simp only [hasMagic, Bool.and_eq_true, decide_eq_true_eq] at magic
    exact magic.1
  have sized := instructions_sized code
  have modeSized : mode.Sized := sized mode (parts ▸ List.mem_append_right _ List.mem_cons_self)
  have newSized : ∀ inst ∈ before ++ withSize mode dims.size :: after, inst.Sized := by
    intro inst member
    rcases List.mem_append.mp member with early | later
    · exact sized inst (parts ▸ List.mem_append_left _ early)
    · rcases List.mem_cons.mp later with rfl | rest
      · exact withSize_sized modeSized
      · exact sized inst (parts ▸ List.mem_append_right _ (List.mem_cons_of_mem _ rest))
  have insts : instructions (patchSpirvLiteralLocalSizeFromSpec code specs).2 =
      before ++ withSize mode dims.size :: after := by rw [patched, instructions_with long newSized]
  obtain ⟨op, count, literal, ones⟩ := isUnit_spec unit
  have newOp : (withSize mode dims.size).op = opExecutionMode := (withSize_op modeSized).trans op
  have operands := @withSize_operands mode dims.size (modeSized.2 ▸ count)
  have changed : (patchSpirvLiteralLocalSizeFromSpec code specs).2 ≠ code := by
    intro same
    have exchanged : before ++ withSize mode dims.size :: after = before ++ mode :: after := by
      rw [← insts, same, parts]
    have kept : withSize mode dims.size = mode := (List.cons.inj (List.append_cancel_left exchanged)).1
    rw [kept, ones.1, ones.2.1, ones.2.2] at operands
    exact guessed_size_ne guesses.dims operands.symm
  have declared : declaredSize specs.given (instructions (patchSpirvLiteralLocalSizeFromSpec code specs).2) entry =
      if mode.operand 1 = entry then some dims.size else declaredSize specs.given (instructions code) entry := by
    rw [insts]
    split
    · rename_i own
      rw [declaredSize_own op newOp ((withSize_early (by decide)).trans own), operands]
      · intro inst member mine sizes
        have same : inst = mode := wellSized.modes inst (parts ▸ List.mem_append_left _ member) mode
          (parts ▸ List.mem_append_right _ List.mem_cons_self) sizes (.inl (isUnit_localSize unit))
          (mine.trans own.symm)
        cases (earlier inst member).symm.trans (same ▸ unit)
      · exact ⟨⟨newOp, by rw [Inst.count, withSize_headD modeSized.1]; exact count⟩,
          (withSize_early (by decide)).trans literal⟩
    · rename_i other
      rw [declaredSize_other op newOp (withSize_early (by decide)) other, parts]
  rw [or_iff_right changed, declared]
  constructor
  · rintro ⟨size, constant, same⟩ others otherMode otherGuesses
    obtain ⟨rfl, rfl⟩ := only otherGuesses
    exact ⟨constant.trans same.symm, by rw [constant]; exact Option.some_ne_none size⟩
  · intro right
    obtain ⟨same, some_size⟩ := right dims mode guesses
    obtain ⟨size, constant⟩ := Option.ne_none_iff_exists'.mp some_size
    exact ⟨size, constant, same.symm.trans constant⟩

theorem summarizeInst_valid (insts : List Inst) (summary : Summary) :
    (insts.foldl summarizeInst summary).valid = summary.valid := by
  induction insts generalizing summary with
  | nil => rfl
  | cons inst insts ih =>
      rw [List.foldl_cons, ih, summarizeInst]
      split
      · rfl
      · split
        · rfl
        · rfl

theorem invocationCount_iff (dims : Dims) :
    spirvLocalInvocationCount dims = true ↔ dims.x ≠ 0 ∧ dims.y ≠ 0 ∧ dims.z ≠ 0 ∧ dims.invocations ≤ 1024 := by
  obtain ⟨x, y, z⟩ := dims
  simp only [spirvLocalInvocationCount, Bool.and_eq_true, Bool.not_eq_true', Bool.or_eq_false_iff,
    decide_eq_false_iff_not, decide_eq_true_eq, Dims.invocations]
  constructor
  · rintro ⟨⟨⟨⟨⟨x0, -⟩, y0, -⟩, -⟩, z0, -⟩, product⟩
    exact ⟨x0, y0, z0, product⟩
  rintro ⟨x0, y0, z0, product⟩
  have xy : x * y ≤ x * y * z := Nat.le_mul_of_pos_right _ (Nat.pos_of_ne_zero z0)
  have zs : z ≤ x * y * z := Nat.le_mul_of_pos_left _ (Nat.mul_pos (Nat.pos_of_ne_zero x0) (Nat.pos_of_ne_zero y0))
  have xs : x ≤ x * y := Nat.le_mul_of_pos_right _ (Nat.pos_of_ne_zero y0)
  have ys : y ≤ x * y := Nat.le_mul_of_pos_left _ (Nat.pos_of_ne_zero x0)
  refine ⟨⟨⟨⟨⟨x0, ?_⟩, y0, ?_⟩, ?_⟩, z0, ?_⟩, product⟩
  · omega
  · omega
  · omega
  · omega

theorem consistent_iff (magic : hasMagic code = true) :
    spirvLocalSizeConsistent (summarizeSpirv code) specs = true ↔
      (summarizeSpirv code).localSizeId = (0, 0, 0) ∨ Fits code specs := by
  have valid : (summarizeSpirv code).valid = true := by
    rw [summarizeSpirv, magic]
    exact summarizeInst_valid _ _
  simp only [spirvLocalSizeConsistent, valid, Bool.not_true, Bool.false_eq_true, if_false, Fits, Prod.ext_iff]
  split
  · rename_i noIds
    exact iff_of_true rfl (.inl noIds)
  · rename_i ids
    rw [or_iff_right ids]
    simp only [Bool.and_eq_true, matchesLiteral, Bool.or_eq_true, decide_eq_true_eq, invocationCount_iff, and_assoc]

theorem gate_iff (magic : hasMagic code = true) :
    (spirvLocalSizeConsistent (summarizeSpirv code) specs = false ↔ Refusable code specs entry) ↔
      GateRight code specs entry := by
  rw [← Bool.not_eq_true, consistent_iff magic, GateRight]
  split
  · rename_i noIds
    constructor
    · exact fun right refusable => right.mpr refusable (.inl noIds)
    · exact fun fine => iff_of_false (not_not.mpr (.inl noIds)) fine
  · rename_i ids
    rw [or_iff_right ids]
    exact not_iff_comm.trans ⟨Iff.symm, Iff.symm⟩

end

private def instructionOf (op : Nat) (operands : List Word) : Inst :=
  BitVec.ofNat 32 ((operands.length + 1) * 2 ^ 16 + op) :: operands

private def sizedModule (xId yId : Word) (literal : Size) : List Word :=
  [magic, 0x10300, 0, 20, 0] ++
    (instructionOf 16 [4, 17, literal.1, literal.2.1, literal.2.2] ++ instructionOf 71 [10, 1, xId] ++
      instructionOf 71 [11, 1, yId] ++ instructionOf 71 [13, 11, 25] ++ instructionOf 50 [6, 10, 1] ++
      instructionOf 50 [6, 11, 1] ++ instructionOf 43 [6, 12, 1] ++ instructionOf 51 [7, 13, 10, 11, 12])

private def fourByEight : Specializations where
  entries := [⟨0, 0, 4⟩, ⟨1, 4, 4⟩]
  data := [4, 0, 0, 0, 8, 0, 0, 0]

end PDocker.Gpu.LocalSize
