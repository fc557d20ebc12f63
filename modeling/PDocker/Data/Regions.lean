import Mathlib.Data.List.OfFn
import Mathlib.Algebra.GroupWithZero.Nat

/-!
# Regions of numbered objects

A memory maps each position of each object to a value. A region is a run of positions of one
object; a store changes the region's positions and no other, and a load reads them in order.
-/

set_option autoImplicit false

namespace PDocker.Regions

variable {ι β : Type}

structure Region (ι : Type) where
  object : ι
  offset : Nat
  size : Nat
deriving DecidableEq, Repr

abbrev Memory (ι β : Type) := ι → Nat → β

namespace Region

def Holds (region : Region ι) (object : ι) (position : Nat) : Prop :=
  object = region.object ∧ region.offset ≤ position ∧ position < region.offset + region.size

instance [DecidableEq ι] (region : Region ι) (object : ι) (position : Nat) :
    Decidable (region.Holds object position) :=
  inferInstanceAs (Decidable (_ ∧ _ ∧ _))

theorem holds_at {region : Region ι} {index : Nat} (small : index < region.size) :
    region.Holds region.object (region.offset + index) :=
  ⟨rfl, by omega, by omega⟩

end Region

namespace Memory

def store [DecidableEq ι] (memory : Memory ι β) (region : Region ι) (value : Nat → β) : Memory ι β :=
  fun object position =>
    if region.Holds object position then value (position - region.offset)
    else memory object position

def load (memory : Memory ι β) (region : Region ι) : List β :=
  List.ofFn fun index : Fin region.size => memory region.object (region.offset + index)

def move [DecidableEq ι] (memory : Memory ι β) (target source : Region ι) : Memory ι β :=
  memory.store target fun index => memory source.object (source.offset + index)

def patch [DecidableEq ι] (memory : Memory ι β) (region : Region ι) (value : Nat → Option β) :
    Memory ι β :=
  fun object position =>
    if region.Holds object position then (value (position - region.offset)).getD (memory object position)
    else memory object position

variable {memory : Memory ι β} {region : Region ι} {value : Nat → β}

variable [DecidableEq ι]

variable {object : ι} {position : Nat}

theorem store_outside (outside : ¬region.Holds object position) :
    memory.store region value object position = memory object position := by
  simp only [store, outside, ↓reduceIte]

theorem store_inside (inside : region.Holds object position) :
    memory.store region value object position = value (position - region.offset) := by
  simp only [store, inside, ↓reduceIte]

theorem patch_eq (memory : Memory ι β) (region : Region ι) (value : Nat → Option β) (object : ι)
    (position : Nat) :
    memory.patch region value object position =
      if region.Holds object position then (value (position - region.offset)).getD (memory object position)
      else memory object position := rfl

@[simp] theorem store_empty (empty : region.size = 0) : memory.store region value = memory := by
  funext object position
  refine store_outside ?_
  rintro ⟨-, above, below⟩
  omega

theorem store_congr {value' : Nat → β} (same : ∀ index < region.size, value index = value' index) :
    memory.store region value = memory.store region value' := by
  funext object position
  by_cases held : region.Holds object position
  · rw [store_inside held, store_inside held]
    exact same _ (by have := held.2; omega)
  · rw [store_outside held, store_outside held]

/-- The patches with the numbers below `count`, one after the other. -/
def patches (memory : Memory ι β) (count : Nat) (region : Nat → Region ι) (value : Nat → Nat → Option β) :
    Memory ι β :=
  (List.range count).foldl (fun memory number => memory.patch (region number) (value number)) memory

def patchAt (region : Region ι) (value : Nat → Option β) (object : ι) (position : Nat) : Option β :=
  if region.Holds object position then value (position - region.offset) else none

theorem patch_at (memory : Memory ι β) (region : Region ι) (value : Nat → Option β) (object : ι) (position : Nat) :
    memory.patch region value object position = (patchAt region value object position).getD (memory object position) := by
  unfold patch patchAt
  split <;> rfl

variable {count : Nat} {regions : Nat → Region ι} {values : Nat → Nat → Option β}

theorem patches_succ (memory : Memory ι β) : memory.patches (count + 1) regions values =
      (memory.patches count regions values).patch (regions count) (values count) := by
  rw [patches, List.range_succ, List.foldl_append]
  rfl

theorem patches_none (nothing : ∀ number < count, patchAt (regions number) (values number) object position = none) :
    memory.patches count regions values object position = memory object position := by
  induction count with
  | zero => rfl
  | succ count ih =>
      rw [patches_succ, patch_at, nothing count (Nat.lt_succ_self count), Option.getD_none]
      exact ih fun number small => nothing number (Nat.lt_succ_of_lt small)

theorem patches_last {last : Nat} {value : β} (small : last < count)
    (written : patchAt (regions last) (values last) object position = some value)
    (nothing : ∀ number < count, last < number → patchAt (regions number) (values number) object position = none) :
    memory.patches count regions values object position = value := by
  induction count with
  | zero => cases small
  | succ count ih =>
      rw [patches_succ, patch_at]
      rcases Nat.lt_succ_iff_lt_or_eq.mp small with earlier | rfl
      · rw [nothing count (Nat.lt_succ_self count) earlier, Option.getD_none]
        exact ih earlier fun number below => nothing number (Nat.lt_succ_of_lt below)
      · rw [written, Option.getD_some]

end Memory

end PDocker.Regions
