import PDocker.Gpu.Materialize

/-!
# What materialised constants are

Nothing is left to be specialised in a materialised shader but what the size of the workgroup depends on,
and the literals in it are the values of the original constants under the specialization.
-/

set_option autoImplicit false

namespace PDocker.Gpu.Materialize

open Spirv
open PDocker.Gpu.LocalSize (Specializations)

/-- A scalar constant of a module has a value, where `given` has those of the specialised ids. The operations are
`OpUDiv` and `OpCompositeExtract`. -/
inductive Scalar (given : Given) (insts : List Inst) : Word → Word → Prop where
  | literal (inst : Inst) : inst ∈ insts → inst.op = 43 → Scalar given insts (inst.operand 2) (inst.operand 3)
  | specialised (inst : Inst) : inst ∈ insts → inst.op = 50 →
      Scalar given insts (inst.operand 2) ((given (inst.operand 2)).getD (inst.operand 3))
  | quotient (inst : Inst) (first second : Word) : inst ∈ insts → inst.op = 52 → (inst.operand 3).toNat = 134 →
      inst.count = 6 → Scalar given insts (inst.operand 4) first → Scalar given insts (inst.operand 5) second →
      second ≠ 0 → Scalar given insts (inst.operand 2) (first / second)
  | extracted (inst composite : Inst) (part value : Word) : inst ∈ insts → inst.op = 52 →
      (inst.operand 3).toNat = 81 → inst.count = 6 → composite ∈ insts → composite.op = 44 ∨ composite.op = 51 →
      composite.operand 2 = inst.operand 4 → (composite.drop 3)[(inst.operand 5).toNat]? = some part →
      Scalar given insts part value → Scalar given insts (inst.operand 2) value

/-- Scalar constants have one word, and the others their operands. -/
structure Shaped (insts : List Inst) : Prop where
  scalar : ∀ inst ∈ insts, inst.op = 43 ∨ inst.op = 50 → inst.count = 4
  composite : ∀ inst ∈ insts, inst.op = 51 → 3 ≤ inst.count
  computed : ∀ inst ∈ insts, inst.op = 52 → 5 ≤ inst.count

section

variable {given : Given} {insts : List Inst} {inst : Inst} {bound : Nat} {skip : Word → Bool}

/-- For the instructions that have been gone through: what is written has the values, nothing is left to be
specialised, and no constant is missing. -/
structure Materialised (given : Given) (bound : Nat) (skip : Word → Bool) (insts seen out : List Inst) : Prop where
  sized : ∀ inst ∈ out, inst.Sized
  value : ∀ inst ∈ out, inst.op = 43 → Scalar given insts (inst.operand 2) (inst.operand 3)
  settled : ∀ inst ∈ out, inst.op = 50 ∨ inst.op = 51 ∨ inst.op = 52 → (inst.operand 2).toNat < bound →
    skip (inst.operand 2) = true
  present : ∀ inst ∈ seen, inst.op = 43 ∨ inst.op = 50 ∨ inst.op = 52 → (inst.operand 2).toNat < bound →
    skip (inst.operand 2) = false → ∃ literal ∈ out, literal.op = 43 ∧ literal.operand 2 = inst.operand 2

/-- What has been found so far are values. -/
structure Knows (given : Given) (insts : List Inst) (state : Emitted) : Prop where
  scalar : ∀ id value, state.scalars id = some value → ∃ word : Word, value = word.toNat ∧ Scalar given insts id word
  composite : ∀ id values, state.composites id = some values →
    ∃ inst ∈ insts, (inst.op = 44 ∨ inst.op = 51) ∧ inst.operand 2 = id ∧ ∀ (index value : Nat), values[index]? = some value →
      ∃ part word : Word, (inst.drop 3)[index]? = some part ∧ value = word.toNat ∧ Scalar given insts part word

variable {state after : Emitted}

theorem Knows.set (knows : Knows given insts state) {word : Word} (means : Scalar given insts (inst.operand 2) word)
    (scalars : after.scalars = Function.update state.scalars (inst.operand 2) (some word.toNat))
    (composites : after.composites = state.composites) : Knows given insts after := by
  refine ⟨fun id value known => ?_, composites ▸ knows.composite⟩
  rw [scalars, Function.update_apply] at known
  split at known
  · rename_i own
    cases known
    exact ⟨word, rfl, own ▸ means⟩
  · exact knows.scalar id value known

theorem getElem?_mapM {parts : List Word} {read : Word → Option Nat} {values : List Nat} {index value : Nat}
    (all : parts.mapM read = some values) (found : values[index]? = some value) :
    ∃ part, parts[index]? = some part ∧ read part = some value := by
  induction parts generalizing values index with
  | nil =>
      cases all
      cases found
  | cons part parts ih =>
      obtain ⟨first, here, more, later, rfl⟩ : ∃ first, read part = some first ∧
          ∃ more, parts.mapM read = some more ∧ first :: more = values := by
        simpa [List.mapM_cons, Option.bind_eq_some_iff] using all
      cases index with
      | zero => exact ⟨part, rfl, here.trans found⟩
      | succ index => exact ih later found

theorem Knows.join (knows : Knows given insts state) (member : inst ∈ insts) (op : inst.op = 44 ∨ inst.op = 51)
    {usable : Word → Bool} (scalars : after.scalars = state.scalars)
    (composites : after.composites = Function.update state.composites (inst.operand 2) (state.components inst bound usable)) :
    Knows given insts after := by
  refine ⟨scalars ▸ knows.scalar, fun id values known => ?_⟩
  rw [composites, Function.update_apply] at known
  split at known
  · rename_i own
    refine ⟨inst, member, op, own.symm, fun index value found => ?_⟩
    obtain ⟨part, there, read⟩ := getElem?_mapM known found
    rw [List.getElem?_take, Option.ite_none_right_eq_some] at there
    rw [Option.ite_none_right_eq_some] at read
    obtain ⟨word, same, means⟩ := knows.scalar part value read.2
    exact ⟨part, word, there.2, same, means⟩
  · exact knows.composite id values known

theorem Knows.folded (knows : Knows given insts state) (member : inst ∈ insts) (op : inst.op = 52) {value : Nat}
    (folded : state.folded inst bound = some value) :
    ∃ word : Word, value = word.toNat ∧ Scalar given insts (inst.operand 2) word := by
  rw [Emitted.folded] at folded
  split at folded
  · rename_i divides
    split at folded
    · split at folded
      · rename_i a b first second
        obtain ⟨_, rfl, left⟩ := knows.scalar _ _ first
        obtain ⟨_, rfl, right⟩ := knows.scalar _ _ second
        split at folded
        · cases folded
        · rename_i divisible
          cases folded
          exact ⟨_, BitVec.toNat_udiv.symm, .quotient inst _ _ member op divides.1 divides.2 left right fun zero =>
            divisible (congrArg BitVec.toNat zero)⟩
      · cases folded
    · cases folded
  · split at folded
    · rename_i extracts
      split at folded
      · obtain ⟨values, known, found⟩ := Option.bind_eq_some_iff.mp folded
        obtain ⟨composite, there, kind, result, each⟩ := knows.composite _ _ known
        obtain ⟨part, word, at_, same, means⟩ := each _ _ found
        exact ⟨word, same, .extracted inst composite part word member op extracts.1 extracts.2 there kind result at_ means⟩
      · cases folded
    · cases folded

theorem propagates_uses (fixed : insts.foldl (propagate bound) skip = skip) (member : inst ∈ insts)
    (op : computes bound inst = true) (uses : usesSkipped bound skip inst = true) : skip (inst.operand 2) = true := by
  obtain ⟨before, behind, rfl⟩ := List.append_of_mem member
  rw [← fixed, List.foldl_append, List.foldl_cons]
  refine propagates_le ?_
  cases marked : before.foldl (propagate bound) skip (inst.operand 2) with
  | true => exact propagate_le inst marked
  | false =>
      have still : usesSkipped bound (before.foldl (propagate bound) skip) inst = true := by
        obtain ⟨id, named, skipped⟩ := List.any_eq_true.mp uses
        exact List.any_eq_true.mpr ⟨id, named, propagates_le skipped⟩
      rw [propagate, op, marked, still]
      exact Function.update_self ..

theorem constantInst_spec (value : Word) : (constantInst inst value).op = 43 ∧ (constantInst inst value).Sized := by
  refine ⟨?_, List.cons_ne_nil _ _, ?_⟩
  · show opcode (BitVec.ofNat 32 (4 * 2 ^ 16 + 43)) = 43
    decide
  · show 4 = wordCount (BitVec.ofNat 32 (4 * 2 ^ 16 + 43))
    decide

theorem compositeInst_spec (sized : inst.Sized) : (compositeInst inst).op = 44 ∧ (compositeInst inst).Sized := by
  obtain ⟨filled, length⟩ := sized
  obtain ⟨head, tail, rfl⟩ := List.exists_cons_of_ne_nil filled
  have short : wordCount head < 2 ^ 16 := Nat.div_lt_of_lt_mul head.isLt
  have first : (BitVec.ofNat 32 (wordCount head * 2 ^ 16 + 44)).toNat = wordCount head * 2 ^ 16 + 44 := by
    rw [BitVec.toNat_ofNat]
    omega
  refine ⟨?_, List.cons_ne_nil _ _, length.trans ?_⟩
  · show (BitVec.ofNat 32 (wordCount head * 2 ^ 16 + 44)).toNat % 2 ^ 16 = 44
    omega
  · show wordCount head = (BitVec.ofNat 32 (wordCount head * 2 ^ 16 + 44)).toNat / 2 ^ 16
    omega

variable {specs : Specializations} {tables : SpecTables}

/-- The values for the ids that are decorated. -/
def SpecTables.values (tables : SpecTables) (specs : Specializations) : Given :=
  fun id => (tables.specId id).bind specs.given

theorem specValue_eq : BitVec.ofNat 32 (specValue specs tables inst) =
    (tables.values specs (inst.operand 2)).getD (inst.operand 3) := by
  rw [specValue, SpecTables.values]
  cases tables.specId (inst.operand 2) with
  | none => exact BitVec.ofNat_toNat _ _
  | some specId =>
      simp only [Option.bind_some, Specializations.given]
      cases specs.valueForId specId.toNat with
      | none => exact BitVec.ofNat_toNat _ _
      | some value => rfl

theorem Materialised.add {seen out : List Inst} {piece : Inst} (done : Materialised given bound skip insts seen out)
    (sized : piece.Sized) (value : piece.op = 43 → Scalar given insts (piece.operand 2) (piece.operand 3))
    (settled : piece.op = 50 ∨ piece.op = 51 ∨ piece.op = 52 → (piece.operand 2).toNat < bound →
      skip (piece.operand 2) = true)
    (present : inst.op = 43 ∨ inst.op = 50 ∨ inst.op = 52 → (inst.operand 2).toNat < bound →
      skip (inst.operand 2) = false → piece.op = 43 ∧ piece.operand 2 = inst.operand 2) :
    Materialised given bound skip insts (seen ++ [inst]) (out ++ [piece]) where
  sized := List.forall_mem_append.mpr ⟨done.sized, List.forall_mem_singleton.mpr sized⟩
  value := List.forall_mem_append.mpr ⟨done.value, List.forall_mem_singleton.mpr value⟩
  settled := List.forall_mem_append.mpr ⟨done.settled, List.forall_mem_singleton.mpr settled⟩
  present := by
    refine List.forall_mem_append.mpr ⟨fun inst member is low kept => ?_, List.forall_mem_singleton.mpr ?_⟩
    · obtain ⟨literal, written, same⟩ := done.present inst member is low kept
      exact ⟨literal, List.mem_append_left _ written, same⟩
    · exact fun is low kept => ⟨piece, List.mem_append_right _ List.mem_cons_self, present is low kept⟩

theorem Materialised.literal {seen : List Inst} {value : Nat} (done : Materialised given bound skip insts seen state.out)
    (knows : Knows given insts state) (means : Scalar given insts (inst.operand 2) (BitVec.ofNat 32 value)) :
    Materialised given bound skip insts (seen ++ [inst]) (state.constant inst value).out ∧
      Knows given insts (state.constant inst value) := by
  obtain ⟨op, sized⟩ := @constantInst_spec inst (BitVec.ofNat 32 value)
  refine ⟨done.add sized (fun _ => means) (by omega) fun _ _ _ => ⟨op, rfl⟩, knows.set means ?_ rfl⟩
  rw [BitVec.toNat_ofNat]
  rfl

theorem emit_step (shaped : Shaped insts) (all : ∀ inst ∈ insts, inst.Sized)
    (fixed : insts.foldl (propagate bound) tables.skip = tables.skip) (member : inst ∈ insts) {seen : List Inst}
    (done : Materialised (tables.values specs) bound tables.skip insts seen state.out)
    (knows : Knows (tables.values specs) insts state) (emitted : emit specs bound tables state inst = some after) :
    Materialised (tables.values specs) bound tables.skip insts (seen ++ [inst]) after.out ∧
      Knows (tables.values specs) insts after := by
  have sized := all inst member
  rw [emit] at emitted
  dsimp only at emitted
  split at emitted
  · rename_i decoration
    cases emitted
    refine ⟨⟨done.sized, done.value, done.settled, ?_⟩, knows.scalar, knows.composite⟩
    exact List.forall_mem_append.mpr ⟨done.present, List.forall_mem_singleton.mpr fun is => by omega⟩
  split at emitted
  · rename_i constant
    cases emitted
    have means := @Scalar.literal (tables.values specs) _ inst member constant.1
    exact ⟨done.add sized (fun _ => means) (by omega) fun _ _ _ => ⟨constant.1, rfl⟩, knows.set means rfl rfl⟩
  split at emitted
  · rename_i composite
    cases emitted
    exact ⟨done.add sized (by omega) (by omega) (by omega), knows.join member (.inl composite.1) rfl rfl⟩
  split at emitted
  · rename_i constant
    cases emitted
    refine done.literal knows ?_
    rw [specValue_eq]
    exact .specialised inst member constant.1
  split at emitted
  · rename_i composite
    cases emitted
    obtain ⟨op, sized⟩ := compositeInst_spec sized
    exact ⟨done.add sized (by omega) (by omega) (by omega), knows.join member (.inr composite.1) rfl rfl⟩
  split at emitted
  · rename_i op
    have is : inst.op = 52 := by
      rw [computes, Bool.and_eq_true, Bool.and_eq_true] at op
      exact of_decide_eq_true op.1.1
    split at emitted
    · rename_i skipped
      cases emitted
      have skips : tables.skip (inst.operand 2) = true := by
        rcases Bool.or_eq_true_iff.mp skipped with own | uses
        · exact own
        · exact propagates_uses fixed member op uses
      exact ⟨done.add sized (by omega) (fun _ _ => skips) fun _ _ kept => absurd (skips.symm.trans kept) (by decide),
        knows.scalar, knows.composite⟩
    · obtain ⟨value, folded, rfl⟩ := Option.map_eq_some_iff.mp emitted
      obtain ⟨word, rfl, means⟩ := knows.folded member is folded
      refine done.literal knows ?_
      rwa [BitVec.ofNat_toNat, BitVec.setWidth_eq]
  · rename_i literal _ constant composite op
    cases emitted
    have skips : inst.op = 50 ∨ inst.op = 51 ∨ inst.op = 52 → (inst.operand 2).toNat < bound →
        tables.skip (inst.operand 2) = true := by
      intro is low
      by_contra kept
      rw [Bool.not_eq_true] at kept
      rcases is with is | is | is
      · exact constant ⟨is, (shaped.scalar inst member (.inr is)).ge, low, kept⟩
      · exact composite ⟨is, shaped.composite inst member is, low, kept⟩
      · exact op (by simp [computes, is, low, shaped.computed inst member is])
    refine ⟨done.add sized (fun is => .literal inst member is) skips fun is low kept => ?_, knows.scalar, knows.composite⟩
    rcases is with is | is
    · exact ⟨is, rfl⟩
    · rw [skips (by omega) low] at kept
      cases kept

theorem emits (shaped : Shaped insts) (all : ∀ inst ∈ insts, inst.Sized)
    (fixed : insts.foldl (propagate bound) tables.skip = tables.skip) {seen rest : List Inst} (whole : seen ++ rest = insts)
    (done : Materialised (tables.values specs) bound tables.skip insts seen state.out)
    (knows : Knows (tables.values specs) insts state) (emitted : rest.foldlM (emit specs bound tables) state = some after) :
    Materialised (tables.values specs) bound tables.skip insts insts after.out := by
  induction rest generalizing seen state with
  | nil =>
      cases emitted
      rw [List.append_nil] at whole
      rwa [whole] at done
  | cons inst rest ih =>
      obtain ⟨middle, first, later⟩ := Option.bind_eq_some_iff.mp emitted
      have member : inst ∈ insts := whole ▸ List.mem_append_right _ List.mem_cons_self
      obtain ⟨done, knows⟩ := emit_step shaped all fixed member done knows first
      exact ih (by rw [List.append_assoc]; exact whole) done knows later

end

def divided : List Word :=
  [magic, 0, 0, 4, 0, 0x40047, 1, 1, 7, 0x40032, 9, 1, 5, 0x4002b, 9, 2, 3, 0x60034, 9, 3, 134, 1, 2]

def twelve : Specializations := ⟨[⟨7, 0, 4⟩], [12, 0, 0, 0]⟩

end PDocker.Gpu.Materialize
