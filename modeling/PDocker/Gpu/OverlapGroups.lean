import PDocker.Data.Grouping
import Mathlib.Algebra.Group.Int.Defs

/-!
# Overlap groups

A dispatch stages the ranges of its bindings that overlap in one buffer. The groups that it forms are
the connected components unless a binding overlaps two earlier ones that are not connected before it.
-/

set_option autoImplicit false

namespace PDocker.Gpu.Overlap

open Data

/-- What a binding says of its range, with the device and inode of its file; the inode of a file that
is not known is zero. -/
structure VulkanDispatchBinding where
  device : Nat
  inode : Nat
  offset : Int64
  size : UInt64
  apiOffset : Int64 := 0
  apiMemoryOffset : Int64 := 0
  apiBufferSize : UInt64 := 0

/-- The bindings below `count`, which of them are active, and the options that matter. -/
structure DispatchRequest where
  count : Nat
  binding : Nat → VulkanDispatchBinding
  activeBindings : Nat → Bool
  strictPassthrough : Bool := false
  strictDeviceLocalStaging : Bool := false
  disableOverlapAliasing : Bool := false

def LLONG_MAX : UInt64 := 0x7fffffffffffffff

/-- A conversion to `size_t`. -/
def sizeT (offset : Int) : Nat := (offset % 2 ^ 64).toNat

namespace DispatchRequest

variable (request : DispatchRequest)

def active (i : Nat) : Bool := decide (i < request.count) && request.activeBindings i

def stagesObject (i : Nat) : Bool :=
  let binding := request.binding i
  request.strictPassthrough && decide (0 < binding.apiBufferSize) && decide (0 ≤ binding.apiOffset) &&
    decide (0 ≤ binding.apiMemoryOffset) &&
    decide (binding.apiOffset.toUInt64 + binding.size ≤ binding.apiBufferSize) &&
    decide (binding.apiMemoryOffset.toUInt64 + binding.apiBufferSize ≤ LLONG_MAX)

/-- `binding_object_base`, which without strict passthrough is the offset of the binding. -/
def start (i : Nat) : Int :=
  if request.stagesObject i then (request.binding i).apiMemoryOffset.toInt else (request.binding i).offset.toInt

def stop (i : Nat) : Int :=
  if request.stagesObject i then
    ((request.binding i).apiMemoryOffset + (request.binding i).apiBufferSize.toInt64).toInt
  else ((request.binding i).offset + (request.binding i).size.toInt64).toInt

def sameFile (i j : Nat) : Bool :=
  decide ((request.binding i).inode ≠ 0) && decide ((request.binding j).inode ≠ 0) &&
    decide ((request.binding i).device = (request.binding j).device) &&
    decide ((request.binding i).inode = (request.binding j).inode)

def overlaps (i j : Nat) : Bool :=
  request.active i && request.active j && request.sameFile i j &&
    decide (request.start i < request.stop j) && decide (request.start j < request.stop i)

def aliases (i j : Nat) : Bool := !request.disableOverlapAliasing && request.overlaps i j

def bindingAliasRep : Nat → Nat := Grouping.reps (Grouping.firstMet request.aliases) request.count

def widen (span : Option (Int × Int)) (start stop : Int) : Int × Int :=
  match span with
  | none => (start, stop)
  | some (base, last) => (if start < base then start else base, if last < stop then stop else last)

def spanStep (spans : Nat → Option (Int × Int)) (i : Nat) : Nat → Option (Int × Int) :=
  if request.active i then
    let rep := request.bindingAliasRep i
    Function.update spans rep (some (widen (spans rep) (request.start i) (request.stop i)))
  else spans

def groupSpans : Nat → Option (Int × Int) := (List.range request.count).foldl request.spanStep fun _ => none

def groupBase (rep : Nat) : Int := ((request.groupSpans rep).map Prod.fst).getD (request.start rep)

def groupEnd (rep : Nat) : Int := ((request.groupSpans rep).map Prod.snd).getD (request.stop rep)

def descriptorAbsolute (i : Nat) : Int :=
  let binding := request.binding i
  if request.strictPassthrough && decide (0 ≤ binding.apiMemoryOffset) && decide (0 ≤ binding.apiOffset) &&
      decide (binding.apiMemoryOffset.toUInt64 + binding.apiOffset.toUInt64 ≤ LLONG_MAX) then
    (binding.apiMemoryOffset + binding.apiOffset).toInt
  else binding.offset.toInt

def bindingGpuOffset (i : Nat) : Nat :=
  let absolute := request.descriptorAbsolute i
  let base := request.groupBase (request.bindingAliasRep i)
  if request.strictPassthrough && decide (0 ≤ (request.binding i).apiOffset) then
    if request.strictDeviceLocalStaging then sizeT (request.binding i).apiOffset.toInt else sizeT absolute
  else if base ≤ absolute then sizeT (absolute - base) else 0

/-- A chain of bindings of one file, each of which overlaps the next. -/
def Connected (i j : Nat) : Prop := Grouping.Linked request.overlaps request.count i j

def InRange (i : Nat) (position : Int) : Prop := request.start i ≤ position ∧ position < request.stop i

def InSpan (rep : Nat) (position : Int) : Prop := request.groupBase rep ≤ position ∧ position < request.groupEnd rep

/-- The groups are the connected components, and their spans are what is staged. Under strict passthrough
the offset is one into the application's buffer, not into the group. -/
structure GroupsRight : Prop where
  components : ∀ i j, request.active i = true → request.active j = true →
    (request.bindingAliasRep i = request.bindingAliasRep j ↔ request.Connected i j)
  least : ∀ i, request.active i = true → request.active (request.bindingAliasRep i) = true ∧
    request.bindingAliasRep (request.bindingAliasRep i) = request.bindingAliasRep i ∧
      ∀ j, request.active j = true → request.bindingAliasRep j = request.bindingAliasRep i → request.bindingAliasRep i ≤ j
  union : ∀ i, request.active i = true → ∀ position, request.InSpan (request.bindingAliasRep i) position ↔
    ∃ j, request.active j = true ∧ request.bindingAliasRep j = request.bindingAliasRep i ∧ request.InRange j position
  offset : ∀ i, request.active i = true → request.strictPassthrough = false →
    (request.binding i).offset.toInt = request.groupBase (request.bindingAliasRep i) + request.bindingGpuOffset i ∧
      request.stop i ≤ request.groupEnd (request.bindingAliasRep i)
  apart : ∀ i j, request.active i = true → request.active j = true → request.sameFile i j = true →
    request.bindingAliasRep i ≠ request.bindingAliasRep j → ∀ position,
      ¬ (request.InSpan (request.bindingAliasRep i) position ∧ request.InSpan (request.bindingAliasRep j) position)

/-- Aliasing is not disabled unless nothing overlaps, and no binding overlaps two earlier ones that are
not connected through earlier ones. -/
def Groupable : Prop :=
  (request.disableOverlapAliasing = true → ∀ i < request.count, ∀ j < i, request.overlaps i j = false) ∧
    Grouping.Bridgeless request.overlaps request.count

variable {request}

variable {i j limit rep : Nat} {span : Option (Int × Int)}

theorem overlaps_iff : request.overlaps i j = true ↔
    (request.active i = true ∧ request.active j = true) ∧ request.sameFile i j = true ∧
      request.start i < request.stop j ∧ request.start j < request.stop i := by
  simp only [overlaps, Bool.and_eq_true, decide_eq_true_eq, and_assoc]

theorem sameFile_symm (i j : Nat) : request.sameFile i j = request.sameFile j i := by
  rw [Bool.eq_iff_iff]
  simp only [sameFile, Bool.and_eq_true, decide_eq_true_eq]
  constructor <;> exact fun same => ⟨⟨⟨same.1.1.2, same.1.1.1⟩, same.1.2.symm⟩, same.2.symm⟩

theorem overlaps_symm (i j : Nat) : request.overlaps i j = request.overlaps j i := by
  rw [Bool.eq_iff_iff, overlaps_iff, overlaps_iff, sameFile_symm]
  constructor <;> exact fun both => ⟨both.1.symm, both.2.1, both.2.2.symm⟩

theorem aliases_symm (i j : Nat) : request.aliases i j = request.aliases j i := by
  rw [aliases, overlaps_symm, aliases]

theorem aliases_overlaps (aliased : request.aliases i j = true) : request.overlaps i j = true :=
  (Bool.and_eq_true_iff.mp aliased).2

theorem active_lt (active : request.active i = true) : i < request.count :=
  of_decide_eq_true (Bool.and_eq_true_iff.mp active).1

variable (request) in
def leader : Nat → Nat := Grouping.leader (Grouping.firstMet request.aliases)

theorem bindingAliasRep_eq (active : request.active i = true) : request.bindingAliasRep i = request.leader i :=
  Grouping.reps_eq (Grouping.firstMet_earlier _) (active_lt active)

theorem leader_active (active : request.active i = true) : request.active (request.leader i) = true := by
  refine @Grouping.leader_induction _ (Grouping.firstMet_earlier request.aliases)
    (fun i leader => request.active i = true → request.active leader = true) (fun _ _ active => active) ?_ i active
  intro i j leader found kept _
  exact kept (overlaps_iff.mp (aliases_overlaps (Grouping.firstMet_some found).2)).1.2

theorem leader_le (i : Nat) : request.leader i ≤ i := Grouping.leader_le (Grouping.firstMet_earlier _) i

theorem leader_leader (i : Nat) : request.leader (request.leader i) = request.leader i :=
  Grouping.leader_leader (Grouping.firstMet_earlier _) i

def Member (request : DispatchRequest) (rep i : Nat) : Prop := request.active i = true ∧ request.leader i = rep

def Spanned (request : DispatchRequest) (limit rep : Nat) : Option (Int × Int) → Prop
  | none => ∀ i < limit, ¬ request.Member rep i
  | some (base, last) =>
      (∃ i < limit, request.Member rep i ∧ request.start i = base) ∧
        (∃ i < limit, request.Member rep i ∧ request.stop i = last) ∧
          ∀ i < limit, request.Member rep i → base ≤ request.start i ∧ request.stop i ≤ last

theorem Spanned.skip (spanned : request.Spanned limit rep span)
    (other : ¬ request.Member rep limit) : request.Spanned (limit + 1) rep span := by
  have earlier : ∀ i < limit + 1, request.Member rep i → i < limit := by
    intro i small member
    rcases Nat.lt_succ_iff_lt_or_eq.mp small with below | rfl
    · exact below
    · exact absurd member other
  cases span with
  | none => exact fun i small member => spanned i (earlier i small member) member
  | some span =>
      obtain ⟨⟨i, below, first⟩, ⟨j, below', last⟩, all⟩ := spanned
      exact ⟨⟨i, Nat.lt_succ_of_lt below, first⟩, ⟨j, Nat.lt_succ_of_lt below', last⟩,
        fun k small member => all k (earlier k small member) member⟩

theorem Spanned.widen (spanned : request.Spanned limit rep span) (member : request.Member rep limit) :
    request.Spanned (limit + 1) rep (some (widen span (request.start limit) (request.stop limit))) := by
  cases span with
  | none =>
      refine ⟨⟨limit, Nat.lt_succ_self _, member, rfl⟩, ⟨limit, Nat.lt_succ_self _, member, rfl⟩, fun i small here => ?_⟩
      rcases Nat.lt_succ_iff_lt_or_eq.mp small with below | rfl
      · exact absurd here (spanned i below)
      · exact ⟨Int.le_refl _, Int.le_refl _⟩
  | some span =>
      obtain ⟨⟨i, below, first⟩, ⟨j, below', last⟩, all⟩ := spanned
      refine ⟨?_, ?_, fun k small here => ?_⟩
      · by_cases lower : request.start limit < span.1
        · exact ⟨limit, Nat.lt_succ_self _, member, (if_pos lower).symm⟩
        · exact ⟨i, Nat.lt_succ_of_lt below, first.1, first.2.trans (if_neg lower).symm⟩
      · by_cases higher : span.2 < request.stop limit
        · exact ⟨limit, Nat.lt_succ_self _, member, (if_pos higher).symm⟩
        · exact ⟨j, Nat.lt_succ_of_lt below', last.1, last.2.trans (if_neg higher).symm⟩
      · rcases Nat.lt_succ_iff_lt_or_eq.mp small with earlier | rfl
        · have within := all k earlier here
          constructor <;> split <;> omega
        · constructor <;> split <;> omega

theorem spanned_groupSpans (bound : limit ≤ request.count) (rep : Nat) :
    request.Spanned limit rep ((List.range limit).foldl request.spanStep (fun _ => none) rep) := by
  induction limit with
  | zero => exact fun i small => absurd small (Nat.not_lt_zero i)
  | succ limit ih =>
      have before := ih (by omega)
      rw [List.range_succ, List.foldl_append, List.foldl_cons, List.foldl_nil, spanStep]
      by_cases active : request.active limit = true
      · rw [if_pos active, bindingAliasRep_eq active]
        by_cases here : rep = request.leader limit
        · subst here
          rw [Function.update_self]
          exact before.widen ⟨active, rfl⟩
        · rw [Function.update_of_ne here]
          exact before.skip fun member => here member.2.symm
      · rw [if_neg active]
        exact before.skip fun member => active member.1

theorem group_ends (active : request.active i = true) :
    (∃ j, request.Member (request.leader i) j ∧ request.start j = request.groupBase (request.leader i)) ∧
      (∃ j, request.Member (request.leader i) j ∧ request.stop j = request.groupEnd (request.leader i)) ∧
        ∀ j, request.Member (request.leader i) j →
          request.groupBase (request.leader i) ≤ request.start j ∧ request.stop j ≤ request.groupEnd (request.leader i) := by
  have spanned := spanned_groupSpans (@le_rfl _ _ request.count) (request.leader i)
  rw [groupBase, groupEnd, groupSpans]
  cases seen : (List.range request.count).foldl request.spanStep (fun _ => none) (request.leader i) with
  | none =>
      rw [seen] at spanned
      exact absurd ⟨active, rfl⟩ (spanned i (active_lt active))
  | some span =>
      rw [seen] at spanned
      obtain ⟨⟨j, -, first⟩, ⟨k, -, last⟩, all⟩ := spanned
      exact ⟨⟨j, first⟩, ⟨k, last⟩, fun m member => all m (active_lt member.1) member⟩

theorem same_side {position : Int} (i : Nat)
    (outside : ∀ j, request.Member (request.leader i) j → ¬ request.InRange j position) (active : request.active i = true) :
    request.stop i ≤ position ↔ request.stop (request.leader i) ≤ position := by
  refine @Grouping.leader_induction _ (Grouping.firstMet_earlier request.aliases)
    (fun i leader => request.leader i = leader → (∀ j, request.Member leader j → ¬ request.InRange j position) →
      request.active i = true → (request.stop i ≤ position ↔ request.stop leader ≤ position))
    (fun _ _ _ _ _ => Iff.rfl) ?_ i rfl outside active
  intro i j leader found side same outside active
  obtain ⟨⟨-, active_j⟩, -, below, above⟩ := overlaps_iff.mp (aliases_overlaps (Grouping.firstMet_some found).2)
  have joins : request.leader i = request.leader j := by
    rw [DispatchRequest.leader, Grouping.leader_eq (Grouping.firstMet_earlier _), found]
  have same_j : request.leader j = leader := joins.symm.trans same
  rw [← side same_j outside active_j]
  have out_i := outside i ⟨active, same⟩
  have out_j := outside j ⟨active_j, same_j⟩
  rw [InRange] at out_i out_j
  omega

theorem inSpan_iff (active : request.active i = true) (position : Int) :
    request.InSpan (request.leader i) position ↔
      ∃ j, request.Member (request.leader i) j ∧ request.InRange j position := by
  obtain ⟨⟨first, member_first, base⟩, ⟨last, member_last, ending⟩, all⟩ := group_ends active
  constructor
  · intro inside
    by_contra none_holds
    have outside : ∀ j, request.Member (request.leader i) j → ¬ request.InRange j position :=
      fun j member holds => none_holds ⟨j, member, holds⟩
    have sides : ∀ j, request.Member (request.leader i) j →
        (request.stop j ≤ position ↔ request.stop (request.leader i) ≤ position) := by
      intro j member
      rw [← member.2]
      exact same_side j (member.2.symm ▸ outside) member.1
    have side_first := sides first member_first
    have side_last := sides last member_last
    have out_first := outside first member_first
    rw [InSpan] at inside
    rw [InRange] at out_first
    omega
  · intro covered
    obtain ⟨j, member, holds⟩ := covered
    have within := all j member
    rw [InRange] at holds
    exact ⟨by omega, by omega⟩

theorem leader_file {i : Nat} : (request.binding (request.leader i)).device = (request.binding i).device ∧
    (request.binding (request.leader i)).inode = (request.binding i).inode := by
  refine @Grouping.leader_induction _ (Grouping.firstMet_earlier request.aliases)
    (fun i leader => (request.binding leader).device = (request.binding i).device ∧
      (request.binding leader).inode = (request.binding i).inode) (fun _ _ => ⟨rfl, rfl⟩) ?_ i
  intro i j leader found same
  have file := (overlaps_iff.mp (aliases_overlaps (Grouping.firstMet_some found).2)).2.1
  simp only [sameFile, Bool.and_eq_true, decide_eq_true_eq] at file
  exact ⟨same.1.trans file.1.2.symm, same.2.trans file.2.symm⟩

theorem firstMet_aliases
    (nothing : request.disableOverlapAliasing = true → ∀ i < request.count, ∀ j < i, request.overlaps i j = false) :
    Grouping.firstMet request.aliases = Grouping.firstMet request.overlaps := by
  funext i
  refine List.find?_congr fun j member => ?_
  have below := List.mem_range.mp member
  rw [aliases]
  cases disabled : request.disableOverlapAliasing with
  | false => rfl
  | true =>
      cases overlapped : request.overlaps i j with
      | false => rfl
      | true =>
          have small := active_lt (overlaps_iff.mp overlapped).1.1
          rw [nothing disabled i small j below] at overlapped
          cases overlapped

theorem Connected.active (connected : request.Connected i j) :
    i = j ∨ request.active i = true ∧ request.active j = true := by
  induction connected with
  | refl => exact .inl rfl
  | tail _ step before =>
      have both := (overlaps_iff.mp step.2.2).1
      rcases before with rfl | first
      · exact .inr both
      · exact .inr ⟨first.1, both.2⟩

theorem bindingAliasRep_congr (active : request.active i = true) (active' : request.active j = true) :
    request.bindingAliasRep i = request.bindingAliasRep j ↔ request.leader i = request.leader j := by
  rw [bindingAliasRep_eq active, bindingAliasRep_eq active']

theorem connected_of_leader (active : request.active i = true) (active' : request.active j = true)
    (same : request.leader i = request.leader j) : request.Connected i j := by
  have linked := Grouping.linked_of_leader aliases_symm (active_lt active) (active_lt active') same
  clear same active'
  induction linked with
  | refl => exact .refl
  | tail _ step linked => exact .tail linked ⟨step.1, step.2.1, aliases_overlaps step.2.2⟩

theorem groupable_iff : request.Groupable ↔
    ∀ i j, request.active i = true → request.active j = true → request.Connected i j → request.leader i = request.leader j := by
  constructor
  · intro groupable i j _ _ connected
    rw [leader, firstMet_aliases groupable.1]
    exact (Grouping.bridgeless_iff overlaps_symm).mp groupable.2 i j connected
  intro one_leader
  have nothing : request.disableOverlapAliasing = true → ∀ i < request.count, ∀ j < i, request.overlaps i j = false := by
    intro disabled i small j below
    rw [← Bool.not_eq_true]
    intro overlapped
    have both := (overlaps_iff.mp overlapped).1
    have same := one_leader i j both.1 both.2 (.single ⟨small, below.trans small, overlapped⟩)
    have alone : Grouping.firstMet request.aliases i = none := by
      refine List.find?_eq_none.mpr fun k _ => ?_
      rw [aliases, disabled]
      exact Bool.false_ne_true
    rw [leader, Grouping.leader_eq (Grouping.firstMet_earlier _), alone] at same
    have low : request.leader j ≤ j := leader_le j
    rw [leader, ← same] at low
    exact absurd low (Nat.not_le_of_lt below)
  refine ⟨nothing, (Grouping.bridgeless_iff overlaps_symm).mpr fun i j connected => ?_⟩
  rw [← firstMet_aliases nothing]
  rcases Connected.active connected with rfl | both
  · rfl
  · exact one_leader i j both.1 both.2 connected

theorem bindingGpuOffset_eq (active : request.active i = true) (plain : request.strictPassthrough = false) :
    (request.binding i).offset.toInt = request.groupBase (request.leader i) + request.bindingGpuOffset i := by
  obtain ⟨⟨first, -, base⟩, -, all⟩ := group_ends active
  have start_eq : ∀ k, request.start k = (request.binding k).offset.toInt := by
    intro k
    rw [start, stagesObject, plain]
    rfl
  have absolute : request.descriptorAbsolute i = (request.binding i).offset.toInt := by
    rw [descriptorAbsolute, plain]
    rfl
  have lower := (all i ⟨active, rfl⟩).1
  rw [start_eq] at lower base
  have least := Int64.le_toInt (request.binding first).offset
  have most := Int64.toInt_lt (request.binding i).offset
  rw [bindingGpuOffset, absolute, bindingAliasRep_eq active, plain, Bool.false_and, if_neg Bool.false_ne_true, if_pos lower,
    sizeT, Int.toNat_of_nonneg (Int.emod_nonneg _ (by decide)), Int.emod_eq_of_lt (by omega) (by omega)]
  omega

/-- The groups are what they are for exactly if no binding bridges two of them. -/
theorem groupsRight_iff : request.GroupsRight ↔ request.Groupable := by
  rw [groupable_iff]
  constructor
  · intro right i j active active' connected
    exact (bindingAliasRep_congr active active').mp ((right.components i j active active').mpr connected)
  intro one_leader
  have components : ∀ i j, request.active i = true → request.active j = true →
      (request.bindingAliasRep i = request.bindingAliasRep j ↔ request.Connected i j) := by
    intro i j active active'
    rw [bindingAliasRep_congr active active']
    exact ⟨connected_of_leader active active', one_leader i j active active'⟩
  refine ⟨components, ?_, ?_, ?_, ?_⟩
  · intro i active
    have leads := leader_active active
    rw [bindingAliasRep_eq active, bindingAliasRep_eq leads]
    refine ⟨leads, leader_leader i, fun j active' same => ?_⟩
    rw [bindingAliasRep_eq active'] at same
    exact same ▸ leader_le j
  · intro i active position
    rw [bindingAliasRep_eq active, inSpan_iff active]
    apply exists_congr
    intro j
    rw [Member, and_assoc]
    refine and_congr_right fun active' => ?_
    rw [bindingAliasRep_eq active']
  · intro i active plain
    rw [bindingAliasRep_eq active]
    exact ⟨bindingGpuOffset_eq active plain, ((group_ends active).2.2 i ⟨active, rfl⟩).2⟩
  intro i j active active' same apart position both
  rw [bindingAliasRep_eq active, bindingAliasRep_eq active', inSpan_iff active, inSpan_iff active'] at both
  obtain ⟨⟨k, member, holds⟩, ⟨l, member', holds'⟩⟩ := both
  have file_k := @leader_file request k
  have file_l := @leader_file request l
  have file_i := @leader_file request i
  have file_j := @leader_file request j
  rw [member.2] at file_k
  rw [member'.2] at file_l
  have file : request.sameFile k l = true := by
    simp only [sameFile, Bool.and_eq_true, decide_eq_true_eq] at same ⊢
    omega
  rw [InRange] at holds holds'
  have overlapped : request.overlaps k l = true :=
    overlaps_iff.mpr ⟨⟨member.1, member'.1⟩, file, by omega, by omega⟩
  have linked : request.Connected k l := .single ⟨active_lt member.1, active_lt member'.1, overlapped⟩
  have one := one_leader k l member.1 member'.1 linked
  rw [member.2, member'.2] at one
  exact apart ((bindingAliasRep_congr active active').mpr one)

def bridged : DispatchRequest where
  count := 3
  binding
    | 0 => { device := 1, inode := 1, offset := 0, size := 10 }
    | 1 => { device := 1, inode := 1, offset := 20, size := 10 }
    | _ => { device := 1, inode := 1, offset := 5, size := 20 }
  activeBindings _ := true

theorem bridged_apart : ¬ bridged.GroupsRight := by
  intro right
  have overlapped : bridged.overlaps 1 2 = true := by decide +kernel
  have same := (right.components 1 2 (by decide) (by decide)).mpr (.single ⟨by decide, by decide, overlapped⟩)
  exact absurd same (by decide +kernel)

end DispatchRequest

end PDocker.Gpu.Overlap
