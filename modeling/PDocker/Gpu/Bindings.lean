import PDocker.Spirv.Stream

/-!
# Duplicate descriptor bindings

`rewrite_duplicate_descriptor_bindings` gives each binding number of descriptor set 0 to
one variable: a later one gets a number that is free.
-/

set_option autoImplicit false

namespace PDocker.Gpu

open Spirv

def PDOCKER_GPU_MAX_VULKAN_BINDINGS : Nat := 16

structure VulkanBindingAlias where
  targetId : Word
  originalBinding : Nat
  rewrittenBinding : Nat
deriving DecidableEq

/-- `OpDecorate` of an id below the bound, with a literal. -/
def decorates (decoration bound : Nat) (inst : Inst) : Bool :=
  inst.op = 71 && decide (4 ≤ inst.count) && decide ((inst.operand 1).toNat < bound) &&
    (inst.operand 2).toNat = decoration

def bindingOf (inst : Inst) : Nat := (inst.operand 3).toNat

def withBinding (inst : Inst) (number : Nat) : Inst := inst.set 3 (BitVec.ofNat 32 number)

def descriptorSets (bound : Nat) (insts : List Inst) : Word → Option Word :=
  insts.foldl (fun sets inst =>
    if decorates 34 bound inst then Function.update sets (inst.operand 1) (some (inst.operand 3)) else sets)
    fun _ => none

def inSetZero (bound : Nat) (insts : List Inst) (inst : Inst) : Bool :=
  decorates 33 bound inst && descriptorSets bound insts (inst.operand 1) = some 0

/-- The second pass; `none` where a number is out of range. -/
def markBindings (zero : Inst → Bool) : (Nat → Bool) → List Inst → Option (Nat → Bool)
  | used, [] => some used
  | used, inst :: insts =>
      if zero inst then
        if PDOCKER_GPU_MAX_VULKAN_BINDINGS ≤ bindingOf inst then none
        else markBindings zero (Function.update used (bindingOf inst) true) insts
      else markBindings zero used insts

structure Renaming where
  used : Nat → Bool
  firstSeen : Nat → Bool
  aliases : List VulkanBindingAlias
  maxBinding : Nat

def freeBinding (used : Nat → Bool) : Option Nat :=
  (List.range PDOCKER_GPU_MAX_VULKAN_BINDINGS).find? fun candidate => !used candidate

/-- The third pass: whether it came to the end, what it has, and the instructions as it
leaves them. -/
def renameBindings (zero : Inst → Bool) : Renaming → List Inst → Bool × Renaming × List Inst
  | state, [] => (true, state, [])
  | state, inst :: insts =>
      if !zero inst then
        let (done, after, out) := renameBindings zero state insts
        (done, after, inst :: out)
      else
        let binding := bindingOf inst
        if PDOCKER_GPU_MAX_VULKAN_BINDINGS ≤ binding then (false, state, inst :: insts)
        else if !state.firstSeen binding then
          let seen := { state with firstSeen := Function.update state.firstSeen binding true }
          let (done, after, out) := renameBindings zero seen insts
          (done, after, inst :: out)
        else
          match freeBinding state.used with
          | none => (false, state, inst :: insts)
          | some number =>
              if PDOCKER_GPU_MAX_VULKAN_BINDINGS ≤ state.aliases.length then (false, state, inst :: insts)
              else
                let renamed : Renaming :=
                  { used := Function.update state.used number true
                    firstSeen := state.firstSeen
                    aliases := state.aliases ++ [⟨inst.operand 1, binding, number⟩]
                    maxBinding := max state.maxBinding number }
                let (done, after, out) := renameBindings zero renamed insts
                (done, after, withBinding inst number :: out)

structure Rewritten where
  ret : Int
  code : List Word
  /-- up to `*alias_count`, which is 0 before the call -/
  aliases : List VulkanBindingAlias
  maxBinding : Nat

/-- `bindings` are the numbers of the bindings that are passed, and `allocates` says
whether the two tables can be allocated. -/
def rewriteDuplicateDescriptorBindings (code : List Word) (bindings : List Nat) (allocates : Bool)
    (maxBinding : Nat) : Rewritten :=
  if !hasMagic code then ⟨0, code, [], maxBinding⟩
  else if !allocates then ⟨-1, code, [], maxBinding⟩
  else if bindings.any fun binding => decide (PDOCKER_GPU_MAX_VULKAN_BINDINGS ≤ binding) then
    ⟨-1, code, [], maxBinding⟩
  else
    let insts := instructions code
    let zero := inSetZero (bound code) insts
    match markBindings zero (fun binding => decide (binding ∈ bindings)) insts with
    | none => ⟨-1, code, [], maxBinding⟩
    | some used =>
        let (done, after, out) := renameBindings zero ⟨used, fun _ => false, [], maxBinding⟩ insts
        ⟨if done then 0 else -1, withInstructions code out, if done then after.aliases else [],
          after.maxBinding⟩

def assign (zero : Inst → Bool) : List Nat → (Nat → Bool) → List Inst → Bool × List VulkanBindingAlias × List Inst
  | _, _, [] => (true, [], [])
  | free, seen, inst :: insts =>
      if !zero inst then
        let (done, aliases, out) := assign zero free seen insts
        (done, aliases, inst :: out)
      else if !seen (bindingOf inst) then
        let (done, aliases, out) := assign zero free (Function.update seen (bindingOf inst) true) insts
        (done, aliases, inst :: out)
      else
        match free with
        | [] => (false, [], inst :: insts)
        | number :: free =>
            let (done, aliases, out) := assign zero free seen insts
            (done, ⟨inst.operand 1, bindingOf inst, number⟩ :: aliases, withBinding inst number :: out)

def zeroBindings (zero : Inst → Bool) (insts : List Inst) : List Nat := (insts.filter zero).map bindingOf

theorem find_unused {α : Type} [DecidableEq α] {list : List α} (nodup : list.Nodup) (taken : Nat) :
    list.find? (fun x => decide (x ∉ list.take taken)) = list[taken]? := by
  have parts := List.take_append_drop taken list
  rw [← parts] at nodup
  have apart : ∀ x ∈ list.take taken, x ∉ list.drop taken :=
    fun x early late => (List.nodup_append.mp nodup).2.2 x early x late rfl
  have early : (list.take taken).find? (fun x => decide (x ∉ list.take taken)) = none :=
    List.find?_eq_none.mpr (by simp)
  have later : (list.drop taken).find? (fun x => decide (x ∉ list.take taken)) = (list.drop taken).head? := by
    cases rest : list.drop taken with
    | nil => rfl
    | cons head rest' =>
        have member : head ∈ list.drop taken := rest ▸ List.mem_cons_self
        rw [List.find?_cons_of_pos, List.head?_cons]
        exact decide_eq_true fun early => apart head early member
  calc list.find? (fun x => decide (x ∉ list.take taken))
      = (list.take taken ++ list.drop taken).find? (fun x => decide (x ∉ list.take taken)) := by rw [parts]
    _ = (list.drop taken).head? := by rw [List.find?_append, early, Option.none_or, later]
    _ = list[taken]? := List.head?_drop

def unused (used : Nat → Bool) : List Nat :=
  (List.range PDOCKER_GPU_MAX_VULKAN_BINDINGS).filter fun number => !used number

theorem unused_nodup (used : Nat → Bool) : (unused used).Nodup := List.nodup_range.filter _

theorem unused_small {used : Nat → Bool} {number : Nat} (member : number ∈ unused used) :
    number < PDOCKER_GPU_MAX_VULKAN_BINDINGS ∧ used number = false := by
  simpa [unused] using member

theorem unused_length (used : Nat → Bool) : (unused used).length ≤ PDOCKER_GPU_MAX_VULKAN_BINDINGS := by
  have all := List.length_filter_le (fun number => !used number) (List.range PDOCKER_GPU_MAX_VULKAN_BINDINGS)
  rwa [List.length_range] at all

theorem freeBinding_taken {used now : Nat → Bool} {taken : Nat}
    (same : ∀ number < PDOCKER_GPU_MAX_VULKAN_BINDINGS,
      now number = (used number || decide (number ∈ (unused used).take taken))) :
    freeBinding now = (unused used)[taken]? := by
  rw [← find_unused (unused_nodup used) taken]
  conv_rhs => arg 2; rw [unused]
  rw [List.find?_filter, freeBinding, ← List.head?_filter, ← List.head?_filter]
  apply congrArg
  apply List.filter_congr
  intro number member
  rw [same number (List.mem_range.mp member), Bool.not_or, decide_not]
  cases used number <;> simp

theorem renameBindings_assign {zero : Inst → Bool} {used : Nat → Bool} {insts : List Inst}
    (small : ∀ inst ∈ insts, zero inst = true → bindingOf inst < PDOCKER_GPU_MAX_VULKAN_BINDINGS)
    {taken : Nat} {state : Renaming} (length : state.aliases.length = taken)
    (same : ∀ number < PDOCKER_GPU_MAX_VULKAN_BINDINGS,
      state.used number = (used number || decide (number ∈ (unused used).take taken))) :
    let (done, aliases, out) := assign zero ((unused used).drop taken) state.firstSeen insts
    (renameBindings zero state insts).1 = done ∧ (renameBindings zero state insts).2.2 = out ∧
      (renameBindings zero state insts).2.1.aliases = state.aliases ++ aliases := by
  induction insts generalizing taken state with
  | nil => exact ⟨rfl, rfl, (List.append_nil _).symm⟩
  | cons inst insts ih =>
      have later := fun other member => small other (List.mem_cons_of_mem inst member)
      cases inZero : zero inst with
      | false =>
          simp only [assign, renameBindings, inZero, Bool.not_false, ↓reduceIte]
          obtain ⟨done, out, aliases⟩ := ih later length same
          exact ⟨done, congrArg (inst :: ·) out, aliases⟩
      | true =>
          have fits := small inst List.mem_cons_self inZero
          simp only [assign, renameBindings, inZero, Bool.not_true, Bool.false_eq_true, ↓reduceIte,
            if_neg (Nat.not_le.mpr fits)]
          cases state.firstSeen (bindingOf inst) with
          | false =>
              simp only [Bool.not_false, ↓reduceIte]
              obtain ⟨done, out, aliases⟩ := @ih later taken
                { state with firstSeen := Function.update state.firstSeen (bindingOf inst) true } length same
              exact ⟨done, congrArg (inst :: ·) out, aliases⟩
          | true =>
              simp only [Bool.not_true, Bool.false_eq_true, ↓reduceIte, freeBinding_taken same]
              cases next : (unused used)[taken]? with
              | none =>
                  rw [List.drop_eq_nil_of_le (List.getElem?_eq_none_iff.mp next)]
                  exact ⟨rfl, rfl, (List.append_nil _).symm⟩
              | some number =>
                  obtain ⟨below, rfl⟩ := List.getElem?_eq_some_iff.mp next
                  have room : ¬ PDOCKER_GPU_MAX_VULKAN_BINDINGS ≤ state.aliases.length := by
                    rw [length]
                    exact Nat.not_le.mpr (Nat.lt_of_lt_of_le below (unused_length used))
                  rw [List.drop_eq_getElem_cons below]
                  simp only [if_neg room]
                  have more : ∀ number < PDOCKER_GPU_MAX_VULKAN_BINDINGS,
                      Function.update state.used (unused used)[taken] true number =
                        (used number || decide (number ∈ (unused used).take (taken + 1))) := by
                    intro number fits
                    have members : number ∈ (unused used).take (taken + 1) ↔
                        number ∈ (unused used).take taken ∨ number = (unused used)[taken] := by
                      rw [List.take_add_one, next, Option.toList_some, List.mem_append, List.mem_singleton]
                    by_cases this : number = (unused used)[taken]
                    · rw [decide_eq_true (members.mpr (.inr this)), Bool.or_true, this, Function.update_self]
                    · rw [Function.update_of_ne this, same number fits]
                      simp only [members, this, or_false]
                  obtain ⟨done, out, aliases⟩ := @ih later (taken + 1)
                    { used := Function.update state.used (unused used)[taken] true
                      firstSeen := state.firstSeen
                      aliases := state.aliases ++ [⟨inst.operand 1, bindingOf inst, (unused used)[taken]⟩]
                      maxBinding := max state.maxBinding (unused used)[taken] }
                    (by rw [List.length_append, length, List.length_singleton]) more
                  refine ⟨done, congrArg (_ :: ·) out, aliases.trans ?_⟩
                  rw [List.append_assoc, List.singleton_append]

section

variable {inst : Inst}

theorem headD_withBinding (number : Nat) : (withBinding inst number).headD 0 = inst.headD 0 := by
  cases inst <;> rfl

theorem operand_withBinding (number : Nat) {index : Nat} (other : index ≠ 3) :
    (withBinding inst number).operand index = inst.operand index := by
  simp [withBinding, Inst.operand, Ne.symm other]

theorem decorates_withBinding (decoration bound number : Nat) :
    decorates decoration bound (withBinding inst number) = decorates decoration bound inst := by
  simp only [decorates, Inst.op, Inst.count, headD_withBinding,
    operand_withBinding number (show 1 ≠ 3 by decide), operand_withBinding number (show 2 ≠ 3 by decide)]
  rfl

theorem bindingOf_withBinding (long : 4 ≤ inst.length) {number : Nat} (small : number < 2 ^ 32) :
    bindingOf (withBinding inst number) = number := by
  simp only [bindingOf, withBinding, Inst.operand, List.getD_eq_getElem?_getD, List.getElem?_set_self long,
    Option.getD_some, BitVec.toNat_ofNat, Nat.mod_eq_of_lt small]

theorem withBinding_sized (sized : inst.Sized) (number : Nat) : (withBinding inst number).Sized := by
  refine ⟨fun empty => sized.1 (by simpa [withBinding] using empty), ?_⟩
  rw [Inst.count, headD_withBinding, withBinding, List.length_set]
  exact sized.2

theorem withBinding_bindingOf (long : 4 ≤ inst.length) (number : Nat) :
    withBinding (withBinding inst number) (bindingOf inst) = inst := by
  rw [withBinding, withBinding, List.set_set, bindingOf, BitVec.ofNat_toNat, BitVec.setWidth_eq, Inst.operand,
    List.getD_eq_getElem?_getD, List.getElem?_eq_getElem long, Option.getD_some, List.set_getElem_self]

end

/-! ## What is assigned -/

def Renamed (zero : Inst → Bool) (inst renamed : Inst) : Prop :=
  renamed = inst ∨ zero inst = true ∧ ∃ number < PDOCKER_GPU_MAX_VULKAN_BINDINGS, renamed = withBinding inst number

def repeats (zero : Inst → Bool) : (Nat → Bool) → List Inst → Nat
  | _, [] => 0
  | seen, inst :: insts =>
      if !zero inst then repeats zero seen insts
      else if !seen (bindingOf inst) then repeats zero (Function.update seen (bindingOf inst) true) insts
      else repeats zero seen insts + 1

def renamings (before after : List Inst) : List VulkanBindingAlias :=
  (before.zip after).filterMap fun (inst, renamed) =>
    if inst = renamed then none else some ⟨inst.operand 1, bindingOf inst, bindingOf renamed⟩

section

variable {zero : Inst → Bool} {free : List Nat} {seen : Nat → Bool} {insts : List Inst}

theorem assign_renamed (small : ∀ number ∈ free, number < PDOCKER_GPU_MAX_VULKAN_BINDINGS) :
    List.Forall₂ (Renamed zero) insts (assign zero free seen insts).2.2 := by
  induction insts generalizing free seen with
  | nil => exact .nil
  | cons inst insts ih =>
      have refl : ∀ insts : List Inst, List.Forall₂ (Renamed zero) insts insts := by
        intro insts
        exact List.forall₂_same.mpr fun _ _ => .inl rfl
      cases inZero : zero inst with
      | false =>
          simp only [assign, inZero, Bool.not_false, ↓reduceIte]
          exact .cons (.inl rfl) (ih small)
      | true =>
          simp only [assign, inZero, Bool.not_true, Bool.false_eq_true, ↓reduceIte]
          cases seen (bindingOf inst) with
          | false => exact .cons (.inl rfl) (ih small)
          | true =>
              cases free with
              | nil => exact refl _
              | cons number free =>
                  exact .cons (.inr ⟨inZero, number, small number List.mem_cons_self, rfl⟩)
                    (ih fun other member => small other (List.mem_cons_of_mem _ member))

theorem assign_numbers :
    (assign zero free seen insts).1 = decide (repeats zero seen insts ≤ free.length) ∧
      (assign zero free seen insts).2.1.map (·.rewrittenBinding) = free.take (repeats zero seen insts) := by
  induction insts generalizing free seen with
  | nil => exact ⟨rfl, rfl⟩
  | cons inst insts ih =>
      cases inZero : zero inst with
      | false =>
          simp only [assign, repeats, inZero, Bool.not_false, ↓reduceIte]
          exact ih
      | true =>
          simp only [assign, repeats, inZero, Bool.not_true, Bool.false_eq_true, ↓reduceIte]
          cases seen (bindingOf inst) with
          | false => exact ih
          | true =>
              cases free with
              | nil => exact ⟨rfl, rfl⟩
              | cons number free =>
                  simp only [Bool.not_true, Bool.false_eq_true, ↓reduceIte, List.map_cons, List.take_succ_cons,
                    List.length_cons, Nat.add_le_add_iff_right]
                  exact ⟨ih.1, congrArg (number :: ·) ih.2⟩

structure Selects (zero : Inst → Bool) : Prop where
  long : ∀ inst, zero inst = true → 4 ≤ inst.count
  stable : ∀ inst number, zero (withBinding inst number) = zero inst

theorem bindingOf_assigned (selects : Selects zero) {inst : Inst} (sized : inst.Sized) (inZero : zero inst = true)
    {number : Nat} (small : number < PDOCKER_GPU_MAX_VULKAN_BINDINGS) :
    bindingOf (withBinding inst number) = number := by
  apply bindingOf_withBinding
  · rw [sized.2]
    exact selects.long inst inZero
  · exact Nat.lt_trans small (by decide)

theorem zeroBindings_cons_of_pos {inst : Inst} (inZero : zero inst = true) :
    zeroBindings zero (inst :: insts) = bindingOf inst :: zeroBindings zero insts := by
  rw [zeroBindings, List.filter_cons_of_pos inZero, List.map_cons, zeroBindings]

theorem zeroBindings_cons_of_neg {inst : Inst} (notZero : zero inst = false) :
    zeroBindings zero (inst :: insts) = zeroBindings zero insts := by
  rw [zeroBindings, List.filter_cons_of_neg (by simp [notZero]), zeroBindings]

def Fresh (zero : Inst → Bool) (free : List Nat) (insts : List Inst) : Prop :=
  ∀ number ∈ free, number < PDOCKER_GPU_MAX_VULKAN_BINDINGS ∧ number ∉ zeroBindings zero insts

theorem zeroBindings_cons_of_mem (inst : Inst) {number : Nat} (member : number ∈ zeroBindings zero insts) :
    number ∈ zeroBindings zero (inst :: insts) := by
  cases inZero : zero inst with
  | true =>
      rw [zeroBindings_cons_of_pos inZero]
      exact List.mem_cons_of_mem _ member
  | false =>
      rw [zeroBindings_cons_of_neg inZero]
      exact member

theorem Fresh.tail {inst : Inst} (fresh : Fresh zero free (inst :: insts)) : Fresh zero free insts :=
  fun number member =>
    ⟨(fresh number member).1, fun there => (fresh number member).2 (zeroBindings_cons_of_mem inst there)⟩

theorem Fresh.head {inst : Inst} (fresh : Fresh zero free (inst :: insts)) (inZero : zero inst = true) :
    bindingOf inst ∉ free := by
  intro member
  apply (fresh _ member).2
  rw [zeroBindings_cons_of_pos inZero]
  exact List.mem_cons_self

theorem renamings_cons_same (inst : Inst) (before after : List Inst) :
    renamings (inst :: before) (inst :: after) = renamings before after := by
  simp [renamings]

theorem renamings_cons_ne {inst renamed : Inst} (differ : inst ≠ renamed) (before after : List Inst) :
    renamings (inst :: before) (renamed :: after) =
      ⟨inst.operand 1, bindingOf inst, bindingOf renamed⟩ :: renamings before after := by
  simp [renamings, differ]

theorem renamings_self (insts : List Inst) : renamings insts insts = [] := by
  induction insts with
  | nil => rfl
  | cons inst insts ih => rw [renamings_cons_same, ih]

theorem assign_renamings (selects : Selects zero) (sized : ∀ inst ∈ insts, inst.Sized)
    (fresh : Fresh zero free insts) :
    (assign zero free seen insts).2.1 = renamings insts (assign zero free seen insts).2.2 := by
  induction insts generalizing free seen with
  | nil => rfl
  | cons inst insts ih =>
      have later := fun other member => sized other (List.mem_cons_of_mem inst member)
      cases inZero : zero inst with
      | false =>
          simp only [assign, inZero, Bool.not_false, ↓reduceIte]
          rw [renamings_cons_same]
          exact ih later fresh.tail
      | true =>
          simp only [assign, inZero, Bool.not_true, Bool.false_eq_true, ↓reduceIte]
          cases seen (bindingOf inst) with
          | false =>
              simp only [Bool.not_false, ↓reduceIte]
              rw [renamings_cons_same]
              exact ih later fresh.tail
          | true =>
              cases free with
              | nil => exact (renamings_self _).symm
              | cons number free =>
                  have own := fresh number List.mem_cons_self
                  have same := bindingOf_assigned selects (sized inst List.mem_cons_self) inZero own.1
                  have differ : inst ≠ withBinding inst number := by
                    intro equal
                    apply own.2
                    rw [zeroBindings_cons_of_pos inZero, equal, same]
                    exact List.mem_cons_self
                  simp only [Bool.not_true, Bool.false_eq_true, ↓reduceIte]
                  rw [renamings_cons_ne differ, same]
                  exact congrArg (_ :: ·) (ih later fun other member => fresh.tail other (List.mem_cons_of_mem _ member))

theorem assign_distinct (selects : Selects zero) (sized : ∀ inst ∈ insts, inst.Sized) (nodup : free.Nodup)
    (fresh : Fresh zero free insts) (done : (assign zero free seen insts).1 = true) :
    (zeroBindings zero (assign zero free seen insts).2.2).Nodup ∧
      ∀ binding ∈ zeroBindings zero (assign zero free seen insts).2.2,
        binding ∈ zeroBindings zero insts ∧ seen binding = false ∨ binding ∈ free := by
  induction insts generalizing free seen with
  | nil => exact ⟨List.nodup_nil, nofun⟩
  | cons inst insts ih =>
      have later := fun other member => sized other (List.mem_cons_of_mem inst member)
      cases inZero : zero inst with
      | false =>
          simp only [assign, inZero, Bool.not_false, ↓reduceIte] at done ⊢
          rw [zeroBindings_cons_of_neg inZero, zeroBindings_cons_of_neg inZero]
          exact ih later nodup fresh.tail done
      | true =>
          simp only [assign, inZero, Bool.not_true, Bool.false_eq_true, ↓reduceIte] at done ⊢
          rw [zeroBindings_cons_of_pos inZero]
          cases known : seen (bindingOf inst) with
          | false =>
              simp only [known, Bool.not_false, ↓reduceIte] at done ⊢
              rw [zeroBindings_cons_of_pos inZero]
              obtain ⟨distinct, origin⟩ := ih later nodup fresh.tail done
              have first := fresh.head inZero
              refine ⟨List.nodup_cons.mpr ⟨fun again => ?_, distinct⟩, ?_⟩
              · rcases origin _ again with ⟨_, unseen⟩ | taken
                · rw [Function.update_self] at unseen
                  cases unseen
                · exact first taken
              intro binding member
              rcases List.mem_cons.mp member with rfl | member
              · exact .inl ⟨List.mem_cons_self, known⟩
              rcases origin binding member with ⟨there, unseen⟩ | taken
              · refine .inl ⟨List.mem_cons_of_mem _ there, ?_⟩
                rw [Function.update_apply] at unseen
                split at unseen
                · cases unseen
                · exact unseen
              · exact .inr taken
          | true =>
              cases free with
              | nil => simp [known] at done
              | cons number free =>
                  simp only [known, Bool.not_true, Bool.false_eq_true, ↓reduceIte] at done ⊢
                  have own := fresh number List.mem_cons_self
                  have same := bindingOf_assigned selects (sized inst List.mem_cons_self) inZero own.1
                  rw [zeroBindings_cons_of_pos ((selects.stable inst number).trans inZero), same]
                  obtain ⟨distinct, origin⟩ := ih later (List.nodup_cons.mp nodup).2
                    (fun other member => (fresh.tail other (List.mem_cons_of_mem _ member))) done
                  refine ⟨List.nodup_cons.mpr ⟨fun again => ?_, distinct⟩, ?_⟩
                  · rcases origin _ again with ⟨there, _⟩ | taken
                    · exact (fresh.tail number List.mem_cons_self).2 there
                    · exact (List.nodup_cons.mp nodup).1 taken
                  intro binding member
                  rcases List.mem_cons.mp member with rfl | member
                  · exact .inr List.mem_cons_self
                  · rcases origin binding member with ⟨there, unseen⟩ | taken
                    · exact .inl ⟨List.mem_cons_of_mem _ there, unseen⟩
                    · exact .inr (List.mem_cons_of_mem _ taken)

def restoreBinding (zero : Inst → Bool) (aliases : List VulkanBindingAlias) (inst : Inst) : Inst :=
  if zero inst then
    match aliases.find? fun entry => entry.rewrittenBinding = bindingOf inst with
    | some entry => withBinding inst entry.originalBinding
    | none => inst
  else inst

section

variable {aliases : List VulkanBindingAlias}

theorem restoreBinding_kept {inst : Inst}
    (apart : ∀ entry ∈ aliases, entry.rewrittenBinding ∉ zeroBindings zero (inst :: insts)) :
    restoreBinding zero aliases inst = inst := by
  rw [restoreBinding]
  split
  · rename_i inZero
    have absent : aliases.find? (fun entry => entry.rewrittenBinding = bindingOf inst) = none := by
      rw [List.find?_eq_none]
      intro entry there
      have out := apart entry there
      rw [zeroBindings_cons_of_pos inZero, List.mem_cons, not_or] at out
      simpa using out.1
    rw [absent]
  · rfl

theorem find_entry (distinct : (aliases.map (·.rewrittenBinding)).Nodup) {entry : VulkanBindingAlias}
    (member : entry ∈ aliases) :
    aliases.find? (fun other => other.rewrittenBinding = entry.rewrittenBinding) = some entry := by
  induction aliases with
  | nil => cases member
  | cons first aliases ih =>
      rw [List.map_cons, List.nodup_cons] at distinct
      rcases List.mem_cons.mp member with rfl | later
      · exact List.find?_cons_of_pos (decide_eq_true rfl)
      have other : first.rewrittenBinding ≠ entry.rewrittenBinding := fun same =>
        distinct.1 (same ▸ List.mem_map_of_mem later)
      rw [List.find?_cons_of_neg (by simpa using other)]
      exact ih distinct.2 later

theorem restoreBinding_renamed (selects : Selects zero) {inst : Inst} (sized : inst.Sized)
    (inZero : zero inst = true) {number : Nat} (small : number < PDOCKER_GPU_MAX_VULKAN_BINDINGS)
    (distinct : (aliases.map (·.rewrittenBinding)).Nodup)
    (member : ⟨inst.operand 1, bindingOf inst, number⟩ ∈ aliases) :
    restoreBinding zero aliases (withBinding inst number) = inst := by
  have long : 4 ≤ inst.length := by
    rw [sized.2]
    exact selects.long inst inZero
  have found := find_entry distinct member
  rw [restoreBinding, if_pos ((selects.stable inst number).trans inZero),
    bindingOf_assigned selects sized inZero small, found]
  exact withBinding_bindingOf long number

theorem assign_restored (selects : Selects zero) (sized : ∀ inst ∈ insts, inst.Sized)
    (fresh : Fresh zero free insts) (distinct : (aliases.map (·.rewrittenBinding)).Nodup)
    (apart : ∀ entry ∈ aliases, entry.rewrittenBinding ∉ zeroBindings zero insts)
    (listed : ∀ entry ∈ (assign zero free seen insts).2.1, entry ∈ aliases)
    (done : (assign zero free seen insts).1 = true) :
    (assign zero free seen insts).2.2.map (restoreBinding zero aliases) = insts := by
  induction insts generalizing free seen with
  | nil => rfl
  | cons inst insts ih =>
      have later := fun other member => sized other (List.mem_cons_of_mem inst member)
      have apartLater : ∀ entry ∈ aliases, entry.rewrittenBinding ∉ zeroBindings zero insts :=
        fun entry there member => apart entry there (zeroBindings_cons_of_mem inst member)
      cases inZero : zero inst with
      | false =>
          simp only [assign, inZero, Bool.not_false, ↓reduceIte] at listed done ⊢
          rw [List.map_cons, restoreBinding_kept apart, ih later fresh.tail apartLater listed done]
      | true =>
          simp only [assign, inZero, Bool.not_true, Bool.false_eq_true, ↓reduceIte] at listed done ⊢
          cases known : seen (bindingOf inst) with
          | false =>
              simp only [known, Bool.not_false, ↓reduceIte] at listed done ⊢
              rw [List.map_cons, restoreBinding_kept apart, ih later fresh.tail apartLater listed done]
          | true =>
              cases free with
              | nil => simp [known] at done
              | cons number free =>
                  simp only [known, Bool.not_true, Bool.false_eq_true, ↓reduceIte, List.forall_mem_cons]
                    at listed done ⊢
                  have own := fresh number List.mem_cons_self
                  rw [List.map_cons,
                    restoreBinding_renamed selects (sized inst List.mem_cons_self) inZero own.1 distinct listed.1,
                    ih later (fun other member => fresh.tail other (List.mem_cons_of_mem _ member)) apartLater
                      listed.2 done]

end

end

/-! ## The whole rewriting -/

theorem selects_inSetZero (bound : Nat) (insts : List Inst) : Selects (inSetZero bound insts) where
  long := by
    intro inst inZero
    simp only [inSetZero, decorates, Bool.and_eq_true, decide_eq_true_eq] at inZero
    exact inZero.1.1.1.2
  stable := by
    intro inst number
    rw [inSetZero, inSetZero, decorates_withBinding, operand_withBinding number (by decide)]

theorem descriptorSets_renamed {bound : Nat} {zero : Inst → Bool} {before after : List Inst}
    (isBinding : ∀ inst, zero inst = true → decorates 33 bound inst = true)
    (renamed : List.Forall₂ (Renamed zero) before after) :
    descriptorSets bound after = descriptorSets bound before := by
  rw [descriptorSets, descriptorSets]
  generalize (fun _ : Word => (none : Option Word)) = sets
  induction renamed generalizing sets with
  | nil => rfl
  | @cons inst changed before after own _ ih =>
      rw [List.foldl_cons, List.foldl_cons]
      rcases own with rfl | ⟨inZero, number, _, rfl⟩
      · exact ih _
      have noSet : decorates 34 bound inst = false := by
        have binding := isBinding inst inZero
        simp only [decorates, Bool.and_eq_true, decide_eq_true_eq] at binding
        simp [decorates, binding.2]
      rw [decorates_withBinding, noSet]
      exact ih _

theorem markBindings_eq {zero : Inst → Bool} {used : Nat → Bool} {insts : List Inst} :
    markBindings zero used insts =
      if ∀ binding ∈ zeroBindings zero insts, binding < PDOCKER_GPU_MAX_VULKAN_BINDINGS then
        some fun binding => used binding || decide (binding ∈ zeroBindings zero insts)
      else none := by
  induction insts generalizing used with
  | nil => simp [markBindings, zeroBindings]
  | cons inst insts ih =>
      rw [markBindings]
      cases inZero : zero inst with
      | false => rw [if_neg (by decide), ih, zeroBindings_cons_of_neg inZero]
      | true =>
          rw [if_pos rfl, zeroBindings_cons_of_pos inZero, ih]
          simp only [List.forall_mem_cons]
          by_cases large : PDOCKER_GPU_MAX_VULKAN_BINDINGS ≤ bindingOf inst
          · rw [if_pos large, if_neg fun both => Nat.not_lt.mpr large both.1]
          simp only [if_neg large, Nat.not_le.mp large, true_and]
          have more (binding : Nat) : (Function.update used (bindingOf inst) true binding ||
              decide (binding ∈ zeroBindings zero insts)) =
              (used binding || decide (binding ∈ bindingOf inst :: zeroBindings zero insts)) := by
            by_cases own : binding = bindingOf inst
            · subst own
              simp
            · rw [Function.update_of_ne own]
              simp [own]
          simp only [more]

section

variable (code : List Word) (bindings : List Nat)

def zeroOf (code : List Word) : Inst → Bool := inSetZero (bound code) (instructions code)

/-- The numbers in `Binding` decorations, of whatever set. -/
def allBindings (code : List Word) : List Nat :=
  ((instructions code).filter fun inst =>
    inst.op = 71 && decide (4 ≤ inst.count) && decide ((inst.operand 2).toNat = 33)).map bindingOf

def usedNumbers (number : Nat) : Bool :=
  decide (number ∈ bindings) || decide (number ∈ zeroBindings (zeroOf code) (instructions code))

def freeNumbers : List Nat := unused (usedNumbers code bindings)

def repeatsOf : Nat := repeats (zeroOf code) (fun _ => false) (instructions code)

def Accepted (allocates : Bool) : Prop :=
  allocates = true ∧ (∀ binding ∈ bindings, binding < PDOCKER_GPU_MAX_VULKAN_BINDINGS) ∧
    ∀ binding ∈ zeroBindings (zeroOf code) (instructions code), binding < PDOCKER_GPU_MAX_VULKAN_BINDINGS

/-- There is a free number for each repetition or none at all, and those that are taken
do not occur in other sets. -/
def Renumberable : Prop :=
  (freeNumbers code bindings).length < repeatsOf code ∧ freeNumbers code bindings = [] ∨
    repeatsOf code ≤ (freeNumbers code bindings).length ∧
      ∀ number ∈ (freeNumbers code bindings).take (repeatsOf code), number ∉ allBindings code

def restoreBindings (aliases : List VulkanBindingAlias) : List Word :=
  withInstructions code ((instructions code).map (restoreBinding (zeroOf code) aliases))

structure Renumbered (r : Rewritten) : Prop where
  header : r.code.take headerWords = code.take headerWords
  tail : rest r.code = rest code
  changes : List.Forall₂ (Renamed (zeroOf code)) (instructions code) (instructions r.code)
  distinct : (zeroBindings (zeroOf r.code) (instructions r.code)).Nodup
  fresh : ∀ entry ∈ r.aliases, entry.rewrittenBinding ∉ allBindings code ∧ entry.rewrittenBinding ∉ bindings
  listed : r.aliases = renamings (instructions code) (instructions r.code)
  restored : restoreBindings r.code r.aliases = code

variable {code bindings} {allocates : Bool} {maxBinding : Nat}

theorem rewrite_refused (magic : hasMagic code = true) (refused : ¬ Accepted code bindings allocates) :
    (rewriteDuplicateDescriptorBindings code bindings allocates maxBinding).ret = -1 ∧
      (rewriteDuplicateDescriptorBindings code bindings allocates maxBinding).code = code := by
  simp only [rewriteDuplicateDescriptorBindings, magic, Bool.not_true, Bool.false_eq_true, ↓reduceIte]
  cases allocates with
  | false => exact ⟨rfl, rfl⟩
  | true =>
      simp only [Bool.not_true, Bool.false_eq_true, ↓reduceIte]
      split
      · exact ⟨rfl, rfl⟩
      rename_i supplied
      have large : ¬ ∀ binding ∈ zeroBindings (zeroOf code) (instructions code),
          binding < PDOCKER_GPU_MAX_VULKAN_BINDINGS := by
        intro small
        refine refused ⟨rfl, ?_, small⟩
        simpa using supplied
      have refuses := @markBindings_eq (zeroOf code) (fun binding => decide (binding ∈ bindings)) (instructions code)
      rw [if_neg large, zeroOf] at refuses
      rw [refuses]
      exact ⟨rfl, rfl⟩

theorem rewrite_accepted (magic : hasMagic code = true) (accepted : Accepted code bindings allocates) :
    let spec := assign (zeroOf code) (freeNumbers code bindings) (fun _ => false) (instructions code)
    let r := rewriteDuplicateDescriptorBindings code bindings allocates maxBinding
    r.ret = (if spec.1 then 0 else -1) ∧ r.code = withInstructions code spec.2.2 ∧
      r.aliases = if spec.1 then spec.2.1 else [] := by
  obtain ⟨allocated, supplied, small⟩ := accepted
  have marks := @markBindings_eq (zeroOf code) (fun binding => decide (binding ∈ bindings)) (instructions code)
  rw [if_pos small, zeroOf] at marks
  have fits : (bindings.any fun binding => decide (PDOCKER_GPU_MAX_VULKAN_BINDINGS ≤ binding)) = false := by
    simpa using supplied
  have smallInsts : ∀ inst ∈ instructions code, zeroOf code inst = true →
      bindingOf inst < PDOCKER_GPU_MAX_VULKAN_BINDINGS :=
    fun inst member inZero => small _ (List.mem_map_of_mem (List.mem_filter.mpr ⟨member, inZero⟩))
  have renames := @renameBindings_assign (zeroOf code) (usedNumbers code bindings) (instructions code) smallInsts 0
    ⟨usedNumbers code bindings, fun _ => false, [], maxBinding⟩ rfl (fun number _ => by simp)
  rw [List.drop_zero] at renames
  obtain ⟨done, out, aliases⟩ := renames
  have runs : rewriteDuplicateDescriptorBindings code bindings allocates maxBinding =
      let (done, after, out) := renameBindings (zeroOf code)
        ⟨usedNumbers code bindings, fun _ => false, [], maxBinding⟩ (instructions code)
      ⟨if done then 0 else -1, withInstructions code out, if done then after.aliases else [], after.maxBinding⟩ := by
    simp only [rewriteDuplicateDescriptorBindings, magic, allocated, fits, marks, Bool.not_true, Bool.false_eq_true,
      ↓reduceIte]
    rfl
  generalize renameBindings (zeroOf code) ⟨usedNumbers code bindings, fun _ => false, [], maxBinding⟩
    (instructions code) = result at done out aliases runs
  obtain ⟨ended, after, insts⟩ := result
  simp only [List.nil_append] at done out aliases runs
  subst done out
  simp only [runs, aliases]
  exact ⟨rfl, rfl, rfl⟩

theorem fresh_freeNumbers : Fresh (zeroOf code) (freeNumbers code bindings) (instructions code) := by
  intro number member
  obtain ⟨small, unused⟩ := unused_small member
  simp only [usedNumbers, Bool.or_eq_false_iff, decide_eq_false_iff_not] at unused
  exact ⟨small, unused.2⟩

theorem zeroOf_renamed {insts : List Inst} (long : headerWords ≤ code.length) (sized : ∀ inst ∈ insts, inst.Sized)
    (renamed : List.Forall₂ (Renamed (zeroOf code)) (instructions code) insts) :
    zeroOf (withInstructions code insts) = zeroOf code := by
  funext inst
  have isBinding : ∀ inst, zeroOf code inst = true → decorates 33 (bound code) inst = true := by
    intro inst inZero
    simp only [zeroOf, inSetZero, Bool.and_eq_true] at inZero
    exact inZero.1
  rw [zeroOf, zeroOf, inSetZero, inSetZero, bound_with long, instructions_with long sized,
    descriptorSets_renamed isBinding renamed]

theorem sized_renamed {zero : Inst → Bool} {before after : List Inst} (sized : ∀ inst ∈ before, inst.Sized)
    (renamed : List.Forall₂ (Renamed zero) before after) : ∀ inst ∈ after, inst.Sized := by
  induction renamed with
  | nil => exact nofun
  | @cons inst changed before after own _ ih =>
      intro other member
      rcases List.mem_cons.mp member with rfl | later
      · have here := sized inst List.mem_cons_self
        rcases own with rfl | ⟨_, number, _, rfl⟩
        · exact here
        · exact withBinding_sized here number
      · exact ih (fun other member => sized other (List.mem_cons_of_mem _ member)) other later

theorem renumbered_iff {r : Rewritten} (magic : hasMagic code = true)
    (done : (assign (zeroOf code) (freeNumbers code bindings) (fun _ => false) (instructions code)).1 = true)
    (out : r.code = withInstructions code
      (assign (zeroOf code) (freeNumbers code bindings) (fun _ => false) (instructions code)).2.2)
    (aliases : r.aliases =
      (assign (zeroOf code) (freeNumbers code bindings) (fun _ => false) (instructions code)).2.1) :
    Renumbered code bindings r ↔
      ∀ number ∈ (freeNumbers code bindings).take (repeatsOf code), number ∉ allBindings code := by
  have numbers := (@assign_numbers (zeroOf code) (freeNumbers code bindings) (fun _ => false) (instructions code)).2
  rw [← aliases] at numbers
  constructor
  · intro renumbered number member
    rw [repeatsOf, ← numbers] at member
    obtain ⟨entry, there, rfl⟩ := List.mem_map.mp member
    exact (renumbered.fresh entry there).1
  intro apart
  have long : headerWords ≤ code.length := by
    simp only [hasMagic, Bool.and_eq_true, decide_eq_true_eq] at magic
    exact magic.1
  have selects : Selects (zeroOf code) := selects_inSetZero (bound code) (instructions code)
  have sized := instructions_sized code
  have fresh := @fresh_freeNumbers code bindings
  have nodup : (freeNumbers code bindings).Nodup := unused_nodup _
  have changes := @assign_renamed (zeroOf code) (freeNumbers code bindings) (fun _ => false) (instructions code)
    fun number member => (fresh number member).1
  have sizedOut := sized_renamed sized changes
  have insts : instructions r.code = _ := (congrArg instructions out).trans (instructions_with long sizedOut)
  have same : zeroOf r.code = zeroOf code := (congrArg zeroOf out).trans (zeroOf_renamed long sizedOut changes)
  have entries : ∀ entry ∈ r.aliases, entry.rewrittenBinding ∈ (freeNumbers code bindings).take (repeatsOf code) := by
    intro entry member
    rw [repeatsOf, ← numbers]
    exact List.mem_map_of_mem member
  constructor
  · rw [out]
    exact take_withInstructions long
  · rw [out]
    exact rest_with long sizedOut
  · rw [insts]
    exact changes
  · rw [insts, same]
    exact (assign_distinct selects sized nodup fresh done).1
  · intro entry member
    have taken := entries entry member
    have unused := (unused_small (List.mem_of_mem_take taken)).2
    simp only [usedNumbers, Bool.or_eq_false_iff, decide_eq_false_iff_not] at unused
    exact ⟨apart _ taken, unused.1⟩
  · rw [insts, aliases]
    exact assign_renamings selects sized fresh
  have restored := @assign_restored (zeroOf code) (freeNumbers code bindings) (fun _ => false)
    (instructions code) r.aliases selects sized fresh
    (numbers ▸ nodup.sublist (List.take_sublist _ _))
    (fun entry member => (fresh _ (List.mem_of_mem_take (entries entry member))).2)
    (fun entry member => aliases ▸ member) done
  rw [restoreBindings, insts, same, restored, out, withInstructions_with long sizedOut, withInstructions_self]

theorem assign_nil {zero : Inst → Bool} {seen : Nat → Bool} {insts : List Inst} :
    (assign zero [] seen insts).2.2 = insts := by
  induction insts generalizing seen with
  | nil => rfl
  | cons inst insts ih =>
      rw [assign]
      split
      · exact congrArg (inst :: ·) ih
      · split
        · exact congrArg (inst :: ·) ih
        · rfl

theorem assign_unchanged_iff {zero : Inst → Bool} {free : List Nat} {seen : Nat → Bool} {insts : List Inst}
    (selects : Selects zero) (sized : ∀ inst ∈ insts, inst.Sized) (fresh : Fresh zero free insts)
    (failed : (assign zero free seen insts).1 = false) : (assign zero free seen insts).2.2 = insts ↔ free = [] := by
  have numbers := @assign_numbers zero free seen insts
  have short : free.length < repeats zero seen insts := by
    rw [numbers.1] at failed
    simpa using failed
  have listed := @assign_renamings zero free seen insts selects sized fresh
  rw [List.take_of_length_le (Nat.le_of_lt short)] at numbers
  constructor
  · intro same
    rw [same, renamings_self] at listed
    rw [← numbers.2, listed, List.map_nil]
  · rintro rfl
    exact assign_nil

/-- Renaming the bindings of set 0 is sound and leaves a module that it refuses as it was
exactly when there are enough free numbers, or none, and the other sets use none of
those that it takes. -/
theorem duplicate_bindings_renamed (magic : hasMagic code = true) :
    ((rewriteDuplicateDescriptorBindings code bindings allocates maxBinding).ret = 0 →
        Renumbered code bindings (rewriteDuplicateDescriptorBindings code bindings allocates maxBinding)) ∧
      ((rewriteDuplicateDescriptorBindings code bindings allocates maxBinding).ret ≠ 0 →
        (rewriteDuplicateDescriptorBindings code bindings allocates maxBinding).code = code) ↔
    (Accepted code bindings allocates → Renumberable code bindings) := by
  by_cases accepted : Accepted code bindings allocates
  · have numbers := (@assign_numbers (zeroOf code) (freeNumbers code bindings) (fun _ => false) (instructions code)).1
    obtain ⟨ret, out, aliases⟩ := @rewrite_accepted code bindings allocates maxBinding magic accepted
    simp only [accepted, forall_true_left]
    rw [Renumberable, repeatsOf]
    by_cases enough : repeats (zeroOf code) (fun _ => false) (instructions code) ≤ (freeNumbers code bindings).length
    · rw [decide_eq_true enough] at numbers
      simp only [numbers, ↓reduceIte] at ret aliases
      simp only [ret, forall_true_left, ne_eq, not_true_eq_false, false_implies, and_true, enough,
        Nat.not_lt.mpr enough, false_and, false_or, true_and]
      exact renumbered_iff magic numbers out aliases
    rw [decide_eq_false enough] at numbers
    simp only [numbers, Bool.false_eq_true, ↓reduceIte] at ret
    have selects : Selects (zeroOf code) := selects_inSetZero (bound code) (instructions code)
    have unchanged := assign_unchanged_iff selects (instructions_sized code) (@fresh_freeNumbers code bindings) numbers
    have long : headerWords ≤ code.length := by
      simp only [hasMagic, Bool.and_eq_true, decide_eq_true_eq] at magic
      exact magic.1
    have sizedOut := sized_renamed (instructions_sized code)
      (@assign_renamed (zeroOf code) (freeNumbers code bindings) (fun _ => false) (instructions code)
        fun number member => (fresh_freeNumbers number member).1)
    have same : (rewriteDuplicateDescriptorBindings code bindings allocates maxBinding).code = code ↔
        freeNumbers code bindings = [] := by
      rw [out]
      refine Iff.trans ⟨fun equal => ?_, fun equal => ?_⟩ unchanged
      · exact (instructions_with long sizedOut).symm.trans (congrArg instructions equal)
      · rw [equal, withInstructions_self]
    simp only [ret, Int.reduceNeg, reduceCtorEq, false_implies, ne_eq, not_false_eq_true, forall_true_left,
      true_and, same, Nat.lt_of_not_le enough, enough, false_and, or_false]
  · obtain ⟨ret, same⟩ := @rewrite_refused code bindings allocates maxBinding magic accepted
    simp [ret, same, accepted]

end

section

private def decorate (target decoration literal : Word) : List Word := [0x00040047, target, decoration, literal]

private def moduleOf (insts : List (List Word)) : List Word := [magic, 0x00010000, 0, 40, 0] ++ insts.flatten

private def sameBinding (ids : List Word) : List Word :=
  moduleOf (ids.flatMap fun target => [decorate target 34 0, decorate target 33 0])

theorem duplicate_bindings_renamed_two :
    Renumbered (sameBinding [1, 2]) [] (rewriteDuplicateDescriptorBindings (sameBinding [1, 2]) [] true 0) := by
  have renumberable : Renumberable (sameBinding [1, 2]) [] := by
    refine .inr (by decide +kernel)
  exact ((@duplicate_bindings_renamed (sameBinding [1, 2]) [] true 0 (by decide +kernel)).mpr
    fun _ => renumberable).1 (by decide +kernel)

private def seventeen : List Word := (List.range 17).map fun id => BitVec.ofNat 32 (id + 1)

/-- Sixteen numbers are not enough for seventeen variables: the module is changed when the
rewriting gives up. And the number that a variable of set 1 has is free. -/
theorem duplicate_bindings_clobbered :
    ((rewriteDuplicateDescriptorBindings (sameBinding seventeen) [] true 0).ret = -1 ∧
      (rewriteDuplicateDescriptorBindings (sameBinding seventeen) [] true 0).code ≠ sameBinding seventeen) ∧
    ∃ code, hasMagic code = true ∧ (rewriteDuplicateDescriptorBindings code [] true 0).ret = 0 ∧
      ∃ entry ∈ (rewriteDuplicateDescriptorBindings code [] true 0).aliases,
        entry.rewrittenBinding ∈ allBindings code :=
  ⟨by decide +kernel, sameBinding [1, 2] ++ decorate 3 34 1 ++ decorate 3 33 1, by decide +kernel⟩

end

end PDocker.Gpu
