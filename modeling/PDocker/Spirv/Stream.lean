import Mathlib.Data.List.Forall2
import Mathlib.Algebra.GroupWithZero.Nat

/-!
# Instruction streams

A SPIR-V module is a header of five words and a stream of instructions. The first word
of an instruction has its length in the upper half and its opcode in the lower one.
-/

set_option autoImplicit false

namespace Spirv

abbrev Word := BitVec 32

instance : LawfulBEq Word := inferInstance

def magic : Word := 0x07230203
def headerWords : Nat := 5

def wordCount (head : Word) : Nat := head.toNat / 2 ^ 16
def opcode (head : Word) : Nat := head.toNat % 2 ^ 16

abbrev Inst := List Word

namespace Inst

def op (inst : Inst) : Nat := opcode (inst.headD 0)
def count (inst : Inst) : Nat := wordCount (inst.headD 0)
def operand (inst : Inst) (index : Nat) : Word := inst.getD index 0

def Sized (inst : Inst) : Prop := inst ≠ [] ∧ inst.length = inst.count

end Inst

def Stuck (words : List Word) : Prop :=
  words = [] ∨ Inst.count words = 0 ∨ words.length < Inst.count words

instance (words : List Word) : Decidable (Stuck words) := inferInstanceAs (Decidable (_ ∨ _))

/-- The instructions up to the first word that starts none, and the words from there. -/
def splitWithin : Nat → List Word → List Inst × List Word
  | 0, words => ([], words)
  | fuel + 1, words =>
      if Stuck words then ([], words)
      else
        let (insts, tail) := splitWithin fuel (words.drop (Inst.count words))
        (words.take (Inst.count words) :: insts, tail)

def split (words : List Word) : List Inst × List Word := splitWithin words.length words

theorem splitWithin_append (fuel : Nat) (words : List Word) :
    (splitWithin fuel words).1.flatten ++ (splitWithin fuel words).2 = words := by
  induction fuel generalizing words with
  | zero => rfl
  | succ fuel ih =>
      rw [splitWithin]
      split
      · rfl
      · rw [List.flatten_cons, List.append_assoc, ih, List.take_append_drop]

theorem split_append (words : List Word) : (split words).1.flatten ++ (split words).2 = words :=
  splitWithin_append _ words

variable {fuel : Nat} {words tail : List Word}

theorem splitWithin_sized : ∀ inst ∈ (splitWithin fuel words).1, inst.Sized := by
  induction fuel generalizing words with
  | zero => exact nofun
  | succ fuel ih =>
      rw [splitWithin]
      split
      · exact nofun
      rename_i whole
      intro inst member
      rcases List.mem_cons.mp member with rfl | later
      · obtain ⟨filled, positive, fits⟩ : words ≠ [] ∧ Inst.count words ≠ 0 ∧
            Inst.count words ≤ words.length := by
          simpa [Stuck, not_or] using whole
        obtain ⟨head, rest, rfl⟩ := List.exists_cons_of_ne_nil filled
        have taken : (List.take (Inst.count (head :: rest)) (head :: rest)).headD 0 = head := by
          obtain ⟨count, count_eq⟩ := Nat.exists_eq_succ_of_ne_zero positive
          rw [count_eq]
          rfl
        refine ⟨fun empty => ?_, ?_⟩
        · rw [List.take_eq_nil_iff] at empty
          exact empty.elim positive filled
        · exact (List.length_take_of_le fits).trans (congrArg wordCount taken).symm
      · exact ih inst later

theorem split_sized : ∀ inst ∈ (split words).1, inst.Sized := splitWithin_sized

theorem splitWithin_flatten {insts : List Inst} (sized : ∀ inst ∈ insts, inst.Sized)
    (stuck : Stuck tail) (enough : insts.length ≤ fuel) :
    splitWithin fuel (insts.flatten ++ tail) = (insts, tail) := by
  induction insts generalizing fuel with
  | nil =>
      cases fuel with
      | zero => rfl
      | succ fuel => rw [splitWithin]; exact if_pos stuck
  | cons inst insts ih =>
      obtain ⟨fuel, rfl⟩ := Nat.exists_eq_add_of_le' (Nat.one_le_of_lt enough)
      obtain ⟨filled, length⟩ := sized inst List.mem_cons_self
      have rest := ih (fun other member => sized other (List.mem_cons_of_mem _ member))
        (Nat.le_of_succ_le_succ enough)
      have head : Inst.count (inst ++ (insts.flatten ++ tail)) = inst.length := by
        obtain ⟨first, more, rfl⟩ := List.exists_cons_of_ne_nil filled
        exact length.symm
      have whole : ¬ Stuck (inst ++ (insts.flatten ++ tail)) := by
        rw [Stuck, head, List.length_append]
        have positive := List.length_pos_iff.mpr filled
        simp [filled]
      rw [List.flatten_cons, List.append_assoc, splitWithin, if_neg whole, head, List.drop_left, rest,
        List.take_left]

theorem length_le_flatten {insts : List Inst} (sized : ∀ inst ∈ insts, inst.Sized) :
    insts.length ≤ insts.flatten.length := by
  induction insts with
  | nil => exact Nat.le_refl _
  | cons inst insts ih =>
      have filled := List.length_pos_iff.mpr (sized inst List.mem_cons_self).1
      have rest := ih fun other member => sized other (List.mem_cons_of_mem _ member)
      rw [List.flatten_cons, List.length_append, List.length_cons]
      omega

theorem split_flatten {insts : List Inst} (sized : ∀ inst ∈ insts, inst.Sized)
    (stuck : Stuck tail) : split (insts.flatten ++ tail) = (insts, tail) := by
  apply splitWithin_flatten sized stuck
  rw [List.length_append]
  exact Nat.le_trans (length_le_flatten sized) (Nat.le_add_right _ _)

theorem splitWithin_stuck (enough : words.length ≤ fuel) : Stuck (splitWithin fuel words).2 := by
  induction fuel generalizing words with
  | zero => exact .inl (List.length_eq_zero_iff.mp (Nat.le_zero.mp enough))
  | succ fuel ih =>
      rw [splitWithin]
      split
      · assumption
      rename_i whole
      apply ih
      simp only [Stuck, not_or] at whole
      rw [List.length_drop]
      omega

theorem split_stuck (words : List Word) : Stuck (split words).2 := splitWithin_stuck (Nat.le_refl _)

def hasMagic (code : List Word) : Bool := decide (headerWords ≤ code.length) && code.head? = some magic

def bound (code : List Word) : Nat := (code.getD 3 0).toNat

def instructions (code : List Word) : List Inst := (split (code.drop headerWords)).1

def rest (code : List Word) : List Word := (split (code.drop headerWords)).2

theorem instructions_sized (code : List Word) : ∀ inst ∈ instructions code, inst.Sized := split_sized

theorem rest_stuck (code : List Word) : Stuck (rest code) := split_stuck _

def withInstructions (code : List Word) (insts : List Inst) : List Word :=
  code.take headerWords ++ insts.flatten ++ rest code

theorem withInstructions_self (code : List Word) : withInstructions code (instructions code) = code := by
  rw [withInstructions, List.append_assoc, instructions, rest, split_append, List.take_append_drop]

section

variable {code : List Word} {insts : List Inst}

variable (long : headerWords ≤ code.length)

include long

theorem drop_withInstructions :
    (withInstructions code insts).drop headerWords = insts.flatten ++ rest code := by
  rw [withInstructions, List.append_assoc]
  exact List.drop_left' (List.length_take_of_le long)

theorem instructions_with (sized : ∀ inst ∈ insts, inst.Sized) :
    instructions (withInstructions code insts) = insts := by
  rw [instructions, drop_withInstructions long, split_flatten sized (rest_stuck code)]

theorem rest_with (sized : ∀ inst ∈ insts, inst.Sized) :
    rest (withInstructions code insts) = rest code := by
  rw [rest, drop_withInstructions long, split_flatten sized (rest_stuck code)]

omit long

theorem take_withInstructions (long : headerWords ≤ code.length) :
    (withInstructions code insts).take headerWords = code.take headerWords := by
  rw [withInstructions, List.append_assoc]
  exact List.take_left' (List.length_take_of_le long)

theorem withInstructions_with (long : headerWords ≤ code.length) (sized : ∀ inst ∈ insts, inst.Sized)
    (others : List Inst) : withInstructions (withInstructions code insts) others = withInstructions code others := by
  rw [withInstructions, take_withInstructions long, rest_with long sized, withInstructions]

theorem bound_with (long : headerWords ≤ code.length) : bound (withInstructions code insts) = bound code := by
  have same := congrArg (fun words : List Word => (words.getD 3 0).toNat) (@take_withInstructions _ insts long)
  simpa [bound, headerWords, List.getD_eq_getElem?_getD, List.getElem?_take] using same

end

end Spirv
