import PDocker.Data.Numerals
import PDocker.Data.Utf8

/-!
# Bytes as hexadecimal text

Two digits a byte, the high half first.
-/

set_option autoImplicit false

namespace PDocker.Data

def hexPair (byte : UInt8) : Text := [Nat.digitChar (byte.toNat / 16), Nat.digitChar (byte.toNat % 16)]

def hexText (bytes : Bytes) : Text := bytes.flatMap hexPair

/-- `none` for an odd number of digits and for what is no digit. -/
def hexBytes : Text → Option Bytes
  | [] => some []
  | [_] => none
  | high :: low :: text =>
      if isDigit 16 high ∧ isDigit 16 low then
        (hexBytes text).map (UInt8.ofNat (digitValue high * 16 + digitValue low) :: ·)
      else none

theorem length_hexText (bytes : Bytes) : (hexText bytes).length = 2 * bytes.length := by
  induction bytes with
  | nil => rfl
  | cons byte bytes ih =>
      simp only [hexText, List.flatMap_cons, List.length_append] at ih ⊢
      rw [ih, hexPair, List.length_cons, List.length_cons, List.length_cons, List.length_nil]
      omega

@[simp] theorem hexBytes_hexText (bytes : Bytes) : hexBytes (hexText bytes) = some bytes := by
  induction bytes with
  | nil => rfl
  | cons byte bytes ih =>
      have bounded := byte.toNat_lt
      have high := (digitChar_facts (byte.toNat / 16) (by omega)).1
      have low := (digitChar_facts (byte.toNat % 16) (by omega)).1
      have both : isDigit 16 (Nat.digitChar (byte.toNat / 16)) = true ∧
          isDigit 16 (Nat.digitChar (byte.toNat % 16)) = true := by
        rw [isDigit, isDigit, high, low, decide_eq_true_iff, decide_eq_true_iff]
        omega
      have whole : byte.toNat / 16 * 16 + byte.toNat % 16 = byte.toNat := by omega
      change hexBytes (_ :: _ :: hexText bytes) = _
      rw [hexBytes, if_pos both, ih, high, low, whole, UInt8.ofNat_toNat]
      rfl

theorem isDigit_of_mem_hexText {bytes : Bytes} {char : Char} (member : char ∈ hexText bytes) :
    isDigit 16 char = true := by
  obtain ⟨byte, -, inside⟩ := List.mem_flatMap.mp member
  have bounded := byte.toNat_lt
  have digit : ∀ half < 16, isDigit 16 (Nat.digitChar half) = true := by decide
  rcases List.mem_cons.mp inside with rfl | inside
  · exact digit _ (by omega)
  · obtain rfl := List.mem_singleton.mp inside
    exact digit _ (by omega)

theorem hexText_eq_nil_iff {bytes : Bytes} : hexText bytes = [] ↔ bytes = [] := by
  rw [← List.length_eq_zero_iff, length_hexText, ← List.length_eq_zero_iff (l := bytes)]
  omega

end PDocker.Data
