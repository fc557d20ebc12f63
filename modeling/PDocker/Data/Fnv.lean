import Mathlib.Data.Nat.Basic
import Mathlib.Data.List.Basic
import Mathlib.Algebra.GroupWithZero.Nat

/-!
# Hashes of byte streams

The 64-bit hash of Fowler, Noll and Vo takes one byte after the other. Numbers are fed to it with the lowest
byte first.
-/

set_option autoImplicit false

namespace PDocker.Data

def fnvBasis : UInt64 := 1469598103934665603
def fnvPrime : UInt64 := 1099511628211

def fnv1a64Update (hash : UInt64) (data : List UInt8) : UInt64 :=
  data.foldl (fun hash byte => (hash ^^^ byte.toUInt64) * fnvPrime) hash

def fnv1a64 (data : List UInt8) : UInt64 := fnv1a64Update fnvBasis data

theorem fnv1a64Update_append (hash : UInt64) (first second : List UInt8) :
    fnv1a64Update hash (first ++ second) = fnv1a64Update (fnv1a64Update hash first) second :=
  List.foldl_append

theorem foldl_fnv1a64Update {α : Type} (piece : α → List UInt8) (items : List α) (hash : UInt64) :
    items.foldl (fun hash item => fnv1a64Update hash (piece item)) hash =
      fnv1a64Update hash (items.flatMap piece) := by
  induction items generalizing hash with
  | nil => rfl
  | cons item items ih => rw [List.foldl_cons, ih, List.flatMap_cons, fnv1a64Update_append]

/-- None of the inputs have a hash in common. -/
def Distinct (inputs : List (List UInt8)) : Prop :=
  ∀ first ∈ inputs, ∀ second ∈ inputs, fnv1a64 first = fnv1a64 second → first = second

instance (inputs : List (List UInt8)) : Decidable (Distinct inputs) :=
  inferInstanceAs (Decidable (∀ first ∈ inputs, ∀ second ∈ inputs, fnv1a64 first = fnv1a64 second → first = second))

def lowFirst : Nat → Nat → List UInt8
  | 0, _ => []
  | width + 1, value => UInt8.ofNat value :: lowFirst width (value / 256)

@[simp] theorem lowFirst_length (width value : Nat) : (lowFirst width value).length = width := by
  induction width generalizing value with
  | zero => rfl
  | succ width ih => rw [lowFirst, List.length_cons, ih]

theorem lowFirst_injective {width first second : Nat} (firstFits : first < 256 ^ width)
    (secondFits : second < 256 ^ width) (same : lowFirst width first = lowFirst width second) :
    first = second := by
  induction width generalizing first second with
  | zero => omega
  | succ width ih =>
      rw [lowFirst, lowFirst, List.cons.injEq] at same
      have low : first % 256 = second % 256 := by
        have byte := congrArg UInt8.toNat same.1
        rwa [UInt8.toNat_ofNat', UInt8.toNat_ofNat'] at byte
      have high := ih (by rw [Nat.pow_succ'] at firstFits; omega) (by rw [Nat.pow_succ'] at secondFits; omega) same.2
      omega

end PDocker.Data
