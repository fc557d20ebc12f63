import Mathlib.Data.List.Basic
import Mathlib.Algebra.GroupWithZero.Nat

/-!
# Pages

Bytes that are moved by the page, flags of pages that are counted, and the hand
of a clock that goes round until it finds a page with its flag set.
-/

set_option autoImplicit false

namespace PDocker.Data

section
variable {size page other : Nat} {source target first second third : Nat → UInt8}

def copyBytes (size page count : Nat) (source target : Nat → UInt8) : Nat → UInt8 :=
  fun offset => if offset / size = page ∧ offset % size < count then source offset else target offset

def copyPage (size page : Nat) (source target : Nat → UInt8) : Nat → UInt8 :=
  fun offset => if offset / size = page then source offset else target offset

def SamePage (size page : Nat) (first second : Nat → UInt8) : Prop :=
  ∀ offset, offset / size = page → first offset = second offset

theorem SamePage.refl (size page : Nat) (content : Nat → UInt8) : SamePage size page content content := fun _ _ => rfl

theorem SamePage.trans (left : SamePage size page first second) (right : SamePage size page second third) :
    SamePage size page first third :=
  fun offset inside => (left offset inside).trans (right offset inside)

theorem copyPage_same (size page : Nat) (source target : Nat → UInt8) :
    SamePage size page (copyPage size page source target) source :=
  fun _ inside => if_pos inside

theorem copyPage_other (away : other ≠ page) (source target : Nat → UInt8) :
    SamePage size other (copyPage size page source target) target :=
  fun _ inside => if_neg fun same => away (inside.symm.trans same)

theorem copyBytes_other {count : Nat} (away : other ≠ page) (source target : Nat → UInt8) :
    SamePage size other (copyBytes size page count source target) target :=
  fun _ inside => if_neg fun same => away (inside.symm.trans same.1)

theorem SamePage.update (same : SamePage size page first second) (offset : Nat) (byte : UInt8) :
    SamePage size page (Function.update first offset byte) (Function.update second offset byte) := by
  intro other inside
  by_cases here : other = offset
  · rw [here, Function.update_self, Function.update_self]
  · rw [Function.update_of_ne here, Function.update_of_ne here]
    exact same other inside

theorem SamePage.update_away (same : SamePage size page first second) {offset : Nat} (away : offset / size ≠ page)
    (byte : UInt8) : SamePage size page first (Function.update second offset byte) := by
  intro other inside
  have here : other ≠ offset := fun equal => away (equal ▸ inside)
  rw [Function.update_of_ne here]
  exact same other inside

theorem copyBytes_whole (positive : 0 < size) (source target : Nat → UInt8) :
    SamePage size page (copyBytes size page size source target) source :=
  fun offset inside => if_pos ⟨inside, Nat.mod_lt offset positive⟩

end

section
variable {flags : Nat → Bool} {count index : Nat}

def flagged (flags : Nat → Bool) (count : Nat) : Nat := (List.range count).countP flags

theorem flagged_succ (flags : Nat → Bool) (count : Nat) :
    flagged flags (count + 1) = flagged flags count + (flags count).toNat := by
  rw [flagged, List.range_succ, List.countP_append, List.countP_singleton, flagged]
  cases flags count <;> rfl

theorem flagged_congr {others : Nat → Bool} (same : ∀ index < count, flags index = others index) :
    flagged flags count = flagged others count := by
  refine List.countP_congr fun index member => ?_
  rw [same index (List.mem_range.mp member)]

theorem flagged_update (inside : index < count) (value : Bool) :
    flagged (Function.update flags index value) count + (flags index).toNat = flagged flags count + value.toNat := by
  induction count with
  | zero => omega
  | succ count ih =>
      rw [flagged_succ, flagged_succ]
      by_cases last : index = count
      · subst last
        have rest : flagged (Function.update flags index value) index = flagged flags index := by
          refine flagged_congr fun other below => ?_
          rw [Function.update_of_ne (by omega)]
        rw [rest, Function.update_self]
        omega
      · rw [Function.update_of_ne (fun same => last same.symm)]
        have before := ih (by omega)
        omega

theorem flagged_set (inside : index < count) (clear : flags index = false) :
    flagged (Function.update flags index true) count = flagged flags count + 1 := by
  have counted := @flagged_update flags count index inside true
  rw [clear] at counted
  simpa using counted

theorem flagged_clear (inside : index < count) (set : flags index = true) :
    flagged (Function.update flags index false) count + 1 = flagged flags count := by
  have counted := @flagged_update flags count index inside false
  rw [set] at counted
  simpa using counted

theorem exists_flagged (some_set : 0 < flagged flags count) : ∃ index < count, flags index = true := by
  obtain ⟨index, member, set⟩ := List.countP_pos_iff.mp some_set
  exact ⟨index, List.mem_range.mp member, set⟩

theorem exists_flagged_other (more : (flags index).toNat < flagged flags count) :
    ∃ page < count, flags page = true ∧ page ≠ index := by
  by_cases inside : index < count
  · have counted := @flagged_update flags count index inside false
    rw [Bool.toNat_false] at counted
    have left : 0 < flagged (Function.update flags index false) count := by omega
    obtain ⟨page, below, set⟩ := exists_flagged left
    have other : page ≠ index := by
      intro same
      rw [same, Function.update_self] at set
      cases set
    rw [Function.update_of_ne other] at set
    exact ⟨page, below, set, other⟩
  · obtain ⟨page, below, set⟩ := exists_flagged (Nat.zero_lt_of_lt more)
    exact ⟨page, below, set, fun same => inside (same ▸ below)⟩

theorem flagged_none (count : Nat) : flagged (fun _ => false) count = 0 := by
  rw [flagged, List.countP_eq_zero]
  exact fun _ _ => Bool.false_ne_true

end

section
variable {flags : Nat → Bool} {count avoid : Nat}

/-- A scan of at most so many pages from a hand of 64 bits: the first page with its flag
set, other than the one to avoid, and the hand behind it. -/
def clockScan (flags : Nat → Bool) (count avoid : Nat) : Nat → Nat → Option Nat × Nat
  | 0, hand => (none, hand)
  | steps + 1, hand =>
      if hand % count = avoid ∨ flags (hand % count) = false then
        clockScan flags count avoid steps ((hand + 1) % 2 ^ 64)
      else (some (hand % count), (hand + 1) % 2 ^ 64)

theorem clockScan_hand (steps hand : Nat) (small : hand < 2 ^ 64) :
    (clockScan flags count avoid steps hand).2 < 2 ^ 64 := by
  induction steps generalizing hand with
  | zero => exact small
  | succ steps ih =>
      rw [clockScan]
      split
      · exact ih _ (Nat.mod_lt _ (by omega))
      · exact Nat.mod_lt _ (by omega)

theorem clockScan_some (positive : 0 < count) (steps hand : Nat) {victim : Nat}
    (found : (clockScan flags count avoid steps hand).1 = some victim) :
    victim < count ∧ victim ≠ avoid ∧ flags victim = true := by
  induction steps generalizing hand with
  | zero => cases found
  | succ steps ih =>
      rw [clockScan] at found
      split at found
      · exact ih _ found
      rename_i suits
      cases found
      rw [not_or, Bool.not_eq_false] at suits
      exact ⟨Nat.mod_lt _ positive, suits⟩

theorem clockScan_reaches {page : Nat} (set : flags page = true) (other : page ≠ avoid) (steps hand : Nat) (small : hand < 2 ^ 64)
    (ahead : ∃ step < steps, (hand + step) % 2 ^ 64 % count = page) :
    ∃ victim, (clockScan flags count avoid steps hand).1 = some victim := by
  induction steps generalizing hand with
  | zero =>
      obtain ⟨step, inside, -⟩ := ahead
      omega
  | succ steps ih =>
      rw [clockScan]
      split
      · rename_i passed
        obtain ⟨step, inside, reached⟩ := ahead
        have later : step ≠ 0 := by
          rintro rfl
          rw [Nat.add_zero, Nat.mod_eq_of_lt small] at reached
          rw [reached] at passed
          rcases passed with avoided | clear
          · exact other avoided
          · rw [set] at clear
            cases clear
        refine ih _ (Nat.mod_lt _ (by omega)) ⟨step - 1, by omega, ?_⟩
        have same : ((hand + 1) % 2 ^ 64 + (step - 1)) % 2 ^ 64 = (hand + step) % 2 ^ 64 := by omega
        rw [same]
        exact reached
      · exact ⟨_, rfl⟩

theorem clockScan_finds {page hand : Nat} (short : count ≤ 2 ^ 64) (inside : page < count) (set : flags page = true)
    (other : page ≠ avoid) (small : hand < 2 ^ 64) :
    ∃ victim, (clockScan flags count avoid (count * 2) hand).1 = some victim := by
  refine clockScan_reaches set other _ _ small ?_
  have whole := Nat.div_add_mod hand count
  have below := Nat.mod_lt hand (Nat.zero_lt_of_lt inside)
  by_cases straight : hand + count ≤ 2 ^ 64
  · by_cases before : hand % count ≤ page
    · refine ⟨page - hand % count, by omega, ?_⟩
      have target : (hand + (page - hand % count)) % 2 ^ 64 = page + count * (hand / count) := by
        rw [Nat.mod_eq_of_lt (by omega)]
        omega
      rw [target, Nat.add_mul_mod_self_left, Nat.mod_eq_of_lt inside]
    · refine ⟨page + count - hand % count, by omega, ?_⟩
      have target : (hand + (page + count - hand % count)) % 2 ^ 64 = page + count * (hand / count + 1) := by
        rw [Nat.mod_eq_of_lt (by omega), Nat.mul_add, Nat.mul_one]
        omega
      rw [target, Nat.add_mul_mod_self_left, Nat.mod_eq_of_lt inside]
  · refine ⟨2 ^ 64 - hand + page, by omega, ?_⟩
    have target : (hand + (2 ^ 64 - hand + page)) % 2 ^ 64 = page := by omega
    rw [target, Nat.mod_eq_of_lt inside]

end

end PDocker.Data
