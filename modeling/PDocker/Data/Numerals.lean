import Mathlib.Data.Nat.Digits.Lemmas
import PDocker.Data.Text

/-!
# Numerals

Numbers written with digits in a base of at most sixteen, and read back.
-/

set_option autoImplicit false

namespace PDocker.Data

def numeral (base n : Nat) : Text :=
  if n = 0 then ['0'] else (Nat.digits base n).reverse.map Nat.digitChar

def digitValue (char : Char) : Nat :=
  if 48 ≤ char.toNat ∧ char.toNat ≤ 57 then char.toNat - 48
  else if 97 ≤ char.toNat ∧ char.toNat ≤ 102 then char.toNat - 87
  else if 65 ≤ char.toNat ∧ char.toNat ≤ 70 then char.toNat - 55
  else 16

def isDigit (base : Nat) (char : Char) : Bool := digitValue char < base

def numeralValue (base : Nat) (text : Text) : Nat := Nat.ofDigits base (text.reverse.map digitValue)

theorem digitChar_facts : ∀ digit < 16, digitValue (Nat.digitChar digit) = digit ∧ (Nat.digitChar digit).toNat < 128 := by
  decide

variable {base : Nat}

variable {char : Char} {n : Nat}

variable (wide : 1 < base)

include wide

theorem mem_numeral (member : char ∈ numeral base n) :
    ∃ digit < base, char = Nat.digitChar digit := by
  rw [numeral] at member
  split at member
  · exact ⟨0, by omega, List.mem_singleton.mp member⟩
  · obtain ⟨digit, inside, rfl⟩ := List.mem_map.mp member
    exact ⟨digit, Nat.digits_lt_base wide (List.mem_reverse.mp inside), rfl⟩

theorem isDigit_of_mem (narrow : base ≤ 16) (member : char ∈ numeral base n) : isDigit base char = true := by
  obtain ⟨digit, small, rfl⟩ := mem_numeral wide member
  rw [isDigit, (digitChar_facts digit (by omega)).1]
  exact decide_eq_true small

theorem ascii_of_mem (narrow : base ≤ 16) (member : char ∈ numeral base n) : char.toNat < 128 := by
  obtain ⟨digit, small, rfl⟩ := mem_numeral wide member
  exact (digitChar_facts digit (by omega)).2

theorem numeralValue_padded (narrow : base ≤ 16) (n zeros : Nat) :
    numeralValue base (List.replicate zeros '0' ++ numeral base n) = n := by
  have padding : (List.replicate zeros '0').map digitValue = List.replicate zeros 0 := by
    rw [List.map_replicate]
    rfl
  rw [numeralValue, List.reverse_append, List.reverse_replicate, List.map_append, padding,
    Nat.ofDigits_append_replicate_zero, numeral]
  split
  · rename_i zero
    subst zero
    rfl
  have same : ((Nat.digits base n).map Nat.digitChar).map digitValue = Nat.digits base n := by
    rw [List.map_map]
    refine (List.map_congr_left fun digit member => ?_).trans (List.map_id _)
    exact (digitChar_facts digit (Nat.lt_of_lt_of_le (Nat.digits_lt_base wide member) narrow)).1
  rw [← List.map_reverse, List.reverse_reverse, same, Nat.ofDigits_digits]

theorem numeralValue_numeral (narrow : base ≤ 16) (n : Nat) :
    numeralValue base (numeral base n) = n := numeralValue_padded wide narrow n 0

theorem length_numeral_le {width : Nat} (some_left : 0 < width) :
    (numeral base n).length ≤ width ↔ n < base ^ width := by
  rw [numeral]
  split
  · rename_i zero
    subst zero
    exact iff_of_true some_left (Nat.pow_pos (by omega))
  · rw [List.length_map, List.length_reverse, Nat.digits_length_le_iff wide]

omit wide

theorem length_numeral_pos (n : Nat) : 0 < (numeral base n).length := by
  rw [numeral]
  split
  · exact Nat.zero_lt_one
  · rename_i filled
    rw [List.length_map, List.length_reverse, List.length_pos_iff]
    exact Nat.digits_ne_nil_iff_ne_zero.mpr filled

end PDocker.Data
