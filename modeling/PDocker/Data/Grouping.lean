import Mathlib.Data.List.Find
import Mathlib.Data.List.Range

/-!
# Grouping numbered items

Each item joins the group of the first earlier item that it meets. The items of a group have one
representative, and the groups are the connected components unless a later item meets two of them.
-/

set_option autoImplicit false

namespace PDocker.Data.Grouping

variable (first : Nat → Option Nat) (count : Nat)

/-- The representatives after item `i` has joined item `j`. -/
def mergeReps (reps : Nat → Nat) (i j : Nat) : Nat → Nat :=
  let oldRep := reps i
  let newRep := if reps j < oldRep then reps j else oldRep
  (List.range count).foldl
    (fun reps k => if reps k = oldRep ∨ reps k = reps j then Function.update reps k newRep else reps) reps

def joinStep (reps : Nat → Nat) (i : Nat) : Nat → Nat :=
  match first i with
  | none => reps
  | some j => mergeReps count reps i j

def reps : Nat → Nat := (List.range count).foldl (joinStep first count) id

def leaderFrom : Nat → Nat → Nat
  | 0, i => i
  | fuel + 1, i =>
      match first i with
      | none => i
      | some j => leaderFrom fuel j

def leader (i : Nat) : Nat := leaderFrom first i i

def Earlier : Prop := ∀ i j, first i = some j → j < i

variable {first count}

theorem leaderFrom_enough (earlier : Earlier first) : ∀ {fuel fuel' i : Nat}, i ≤ fuel → i ≤ fuel' →
    leaderFrom first fuel i = leaderFrom first fuel' i := by
  intro fuel
  induction fuel with
  | zero =>
      intro fuel' i small _
      cases Nat.le_zero.mp small
      cases fuel' with
      | zero => rfl
      | succ fuel' =>
          have alone : first 0 = none := by
            cases found : first 0 with
            | none => rfl
            | some j => exact absurd (earlier 0 j found) (Nat.not_lt_zero j)
          rw [leaderFrom, leaderFrom, alone]
  | succ fuel ih =>
      intro fuel' i small small'
      cases found : first i with
      | none => cases fuel' <;> simp only [leaderFrom, found]
      | some j =>
          have below := earlier i j found
          cases fuel' with
          | zero => omega
          | succ fuel' =>
              simp only [leaderFrom, found]
              exact ih (by omega) (by omega)

theorem leader_eq (earlier : Earlier first) (i : Nat) : leader first i =
      match first i with
      | none => i
      | some j => leader first j := by
  rw [leader]
  cases found : first i with
  | none => cases i <;> simp only [leaderFrom, found]
  | some j =>
      have below := earlier i j found
      cases i with
      | zero => cases below
      | succ i =>
          simp only [leaderFrom, found]
          exact leaderFrom_enough earlier (by omega) le_rfl

theorem leader_induction (earlier : Earlier first) {motive : Nat → Nat → Prop}
    (alone : ∀ i, first i = none → motive i i)
    (joins : ∀ i j leader, first i = some j → motive j leader → motive i leader) (i : Nat) :
    motive i (leader first i) := by
  induction i using Nat.strong_induction_on with
  | _ i ih =>
      rw [leader_eq earlier]
      cases found : first i with
      | none => exact alone i found
      | some j => exact joins i j _ found (ih j (earlier i j found))

theorem leader_le (earlier : Earlier first) (i : Nat) : leader first i ≤ i := by
  refine @leader_induction first earlier (fun i leader => leader ≤ i) (fun _ _ => le_rfl) ?_ i
  intro i j leader found small
  exact small.trans (earlier i j found).le

theorem leader_leader (earlier : Earlier first) (i : Nat) : leader first (leader first i) = leader first i := by
  refine @leader_induction first earlier (fun _ last => leader first last = last) ?_ (fun _ _ _ _ same => same) i
  intro i found
  rw [leader_eq earlier, found]

theorem mergeReps_eq {reps : Nat → Nat} {i j : Nat} (small : i < count) (itself : reps i = i)
    (alone : ∀ k < count, reps k = i → k = i) (below : reps j < i) :
    mergeReps count reps i j = Function.update reps i (reps j) := by
  have other : j ≠ i := fun same => by
    rw [same, itself] at below
    exact absurd below (Nat.lt_irrefl i)
  have passed : ∀ limit ≤ count, (List.range limit).foldl
        (fun now k => if now k = i ∨ now k = now j then Function.update now k (reps j) else now) reps =
        if i < limit then Function.update reps i (reps j) else reps := by
    intro limit bound
    induction limit with
    | zero => rfl
    | succ limit ih =>
        rw [List.range_succ, List.foldl_append, ih (by omega), List.foldl_cons, List.foldl_nil]
        rcases Nat.lt_trichotomy limit i with before | rfl | after
        · have notItself : reps limit ≠ i := fun same => absurd (alone limit (by omega) same) (by omega)
          rw [if_neg (show ¬i < limit by omega), if_neg (show ¬i < limit + 1 by omega)]
          by_cases member : reps limit = reps j
          · rw [if_pos (.inr member)]
            exact Function.update_eq_self_iff.mpr member.symm
          · exact if_neg fun either => either.elim notItself member
        · rw [if_neg (Nat.lt_irrefl limit), if_pos (Nat.lt_succ_self limit), if_pos (.inl itself)]
        have notItself : reps limit ≠ i := fun same => absurd (alone limit (by omega) same) (by omega)
        have unchanged : Function.update reps i (reps j) limit = reps limit := Function.update_of_ne (by omega) _ _
        rw [if_pos after, if_pos (show i < limit + 1 by omega), unchanged, Function.update_of_ne other]
        by_cases member : reps limit = reps j
        · rw [if_pos (.inr member)]
          exact Function.update_eq_self_iff.mpr (member.symm.trans unchanged.symm)
        · exact if_neg fun either => either.elim notItself member
  rw [mergeReps, itself, if_pos below, passed count le_rfl, if_pos small]

theorem foldl_joinStep (earlier : Earlier first) {limit : Nat} (bound : limit ≤ count) :
    (List.range limit).foldl (joinStep first count) id = fun k => if k < limit then leader first k else k := by
  induction limit with
  | zero => rfl
  | succ limit ih =>
      rw [List.range_succ, List.foldl_append, ih (by omega), List.foldl_cons, List.foldl_nil, joinStep]
      have leads := leader_eq earlier limit
      cases found : first limit with
      | none =>
          rw [found] at leads
          funext k
          rcases Nat.lt_trichotomy k limit with before | rfl | after
          · simp only [before, Nat.lt_succ_of_lt before, ↓reduceIte]
          · simp only [Nat.lt_irrefl, ↓reduceIte, Nat.lt_succ_self]
            exact leads.symm
          · simp only [show ¬k < limit by omega, show ¬k < limit + 1 by omega, ↓reduceIte]
      | some j =>
          rw [found] at leads
          have below := earlier limit j found
          have least := leader_le earlier j
          have atJ : (if j < limit then leader first j else j) = leader first j := if_pos below
          have alone : ∀ k < count, (if k < limit then leader first k else k) = limit → k = limit := by
            intro k _ same
            split at same
            · have atMost := leader_le earlier k
              omega
            · exact same
          have merged := @mergeReps_eq count (fun k => if k < limit then leader first k else k) limit j
            (by omega) (if_neg (Nat.lt_irrefl limit)) alone (by rw [atJ]; omega)
          dsimp only at merged ⊢
          rw [merged, atJ]
          funext k
          rcases Nat.lt_trichotomy k limit with before | rfl | after
          · simp only [Function.update_of_ne before.ne, before, Nat.lt_succ_of_lt before, ↓reduceIte]
          · simp only [Function.update_self, ↓reduceIte, Nat.lt_succ_self]
            exact leads.symm
          · simp only [Function.update_of_ne after.ne', show ¬k < limit by omega,
              show ¬k < limit + 1 by omega, ↓reduceIte]

theorem reps_eq (earlier : Earlier first) {i : Nat} (small : i < count) : reps first count i = leader first i := by
  rw [reps, foldl_joinStep earlier le_rfl]
  exact if_pos small

def firstMet (meets : Nat → Nat → Bool) (i : Nat) : Option Nat := (List.range i).find? (meets i)

/-- A chain of items below a limit, each of which meets the next. -/
def Linked (meets : Nat → Nat → Bool) (limit : Nat) : Nat → Nat → Prop :=
  Relation.ReflTransGen fun i j => i < limit ∧ j < limit ∧ meets i j = true

def Bridgeless (meets : Nat → Nat → Bool) (count : Nat) : Prop :=
  ∀ i < count, ∀ j < i, ∀ k < i, meets i j = true → meets i k = true → Linked meets i j k

section
variable {meets : Nat → Nat → Bool} {limit : Nat} {i j k : Nat}

theorem firstMet_some (found : firstMet meets i = some j) : j < i ∧ meets i j = true :=
  ⟨List.mem_range.mp (List.mem_of_find?_eq_some found), List.find?_some found⟩

theorem firstMet_earlier (meets : Nat → Nat → Bool) : Earlier (firstMet meets) :=
  fun _ _ found => (firstMet_some found).1

theorem firstMet_none (alone : firstMet meets i = none) (below : j < i) : meets i j = false := by
  have never := List.find?_eq_none.mp alone j (List.mem_range.mpr below)
  exact Bool.eq_false_iff.mpr never

theorem Linked.mono {more : Nat} (linked : Linked meets limit i j) (larger : limit ≤ more) : Linked meets more i j := by
  induction linked with
  | refl => exact .refl
  | tail _ step linked => exact linked.tail ⟨step.1.trans_le larger, step.2.1.trans_le larger, step.2.2⟩

theorem Linked.symm (symmetric : ∀ i j, meets i j = meets j i) (linked : Linked meets limit i j) :
    Linked meets limit j i := by
  induction linked with
  | refl => exact .refl
  | tail _ step linked => exact .head ⟨step.2.1, step.1, (symmetric _ _).trans step.2.2⟩ linked

theorem linked_leader (meets : Nat → Nat → Bool) (i : Nat) : Linked meets (i + 1) i (leader (firstMet meets) i) := by
  refine @leader_induction _ (firstMet_earlier meets) (fun i leader => Linked meets (i + 1) i leader)
    (fun _ _ => .refl) ?_ i
  intro i j leader found linked
  obtain ⟨below, met⟩ := firstMet_some found
  exact .head ⟨Nat.lt_succ_self i, Nat.lt_succ_of_lt below, met⟩ (linked.mono (by omega))

variable (symmetric : ∀ i j, meets i j = meets j i)

include symmetric

theorem linked_of_leader (small : i < limit) (small' : j < limit)
    (same : leader (firstMet meets) i = leader (firstMet meets) j) : Linked meets limit i j := by
  have left := (linked_leader meets i).mono (Nat.succ_le_of_lt small)
  have right := (linked_leader meets j).mono (Nat.succ_le_of_lt small')
  rw [same] at left
  exact left.trans (right.symm symmetric)

theorem leader_of_linked (bridgeless : Bridgeless meets count) :
    ∀ limit ≤ count, ∀ i j, Linked meets limit i j → leader (firstMet meets) i = leader (firstMet meets) j := by
  intro limit
  induction limit with
  | zero =>
      intro _ i j linked
      induction linked with
      | refl => rfl
      | tail _ step _ => exact absurd step.1 (Nat.not_lt_zero _)
  | succ limit ih =>
      intro bound
      -- a step to the last item goes on from one that it meets to the first that it meets
      have meets_last : ∀ k < limit, meets limit k = true →
          leader (firstMet meets) limit = leader (firstMet meets) k := by
        intro k below met
        have leads := leader_eq (firstMet_earlier meets) limit
        cases found : firstMet meets limit with
        | none =>
            rw [firstMet_none found below] at met
            cases met
        | some first =>
            rw [found] at leads
            obtain ⟨earlier, met_first⟩ := firstMet_some found
            exact leads.trans (ih (by omega) first k (bridgeless limit bound first earlier k below met_first met))
      intro i j linked
      induction linked with
      | refl => rfl
      | @tail middle last _ step same =>
          rw [same]
          obtain ⟨small, small', met⟩ := step
          rcases Nat.lt_succ_iff_lt_or_eq.mp small with below | rfl
          · rcases Nat.lt_succ_iff_lt_or_eq.mp small' with below' | rfl
            · exact ih (by omega) middle last (.single ⟨below, below', met⟩)
            · exact (meets_last middle below ((symmetric _ _).trans met)).symm
          · rcases Nat.lt_succ_iff_lt_or_eq.mp small' with below' | rfl
            · exact meets_last last below' met
            · rfl

theorem bridgeless_iff : Bridgeless meets count ↔
      ∀ i j, Linked meets count i j → leader (firstMet meets) i = leader (firstMet meets) j := by
  constructor
  · intro bridgeless
    exact leader_of_linked symmetric bridgeless count le_rfl
  intro one_leader i small j below k below' met met'
  have linked : Linked meets count j k :=
    .tail (.single ⟨below.trans small, small, (symmetric j i).trans met⟩) ⟨small, below'.trans small, met'⟩
  exact linked_of_leader symmetric below below' (one_leader j k linked)

omit symmetric

end

end PDocker.Data.Grouping
