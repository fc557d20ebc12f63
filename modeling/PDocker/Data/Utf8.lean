import PDocker.Data.Text

/-!
# UTF-8

The bytes of a text, and the text of bytes. A NUL byte stands for the NUL
character only, and ASCII characters are their own bytes.
-/

set_option autoImplicit false

namespace PDocker.Data

abbrev Bytes := List UInt8

def utf8 (text : Text) : Bytes := text.flatMap String.utf8EncodeChar

def fromUtf8 (bytes : Bytes) : Option Text := bytes.toByteArray.utf8Decode?.map Array.toList

@[simp] theorem fromUtf8_utf8 (text : Text) : fromUtf8 (utf8 text) = some text := by
  have decoded := List.utf8Decode?_utf8Encode (l := text)
  rw [List.utf8Encode] at decoded
  rw [fromUtf8, utf8, decoded]
  rfl

theorem utf8_injective {left right : Text} (same : utf8 left = utf8 right) : left = right := by
  have decoded := congrArg fromUtf8 same
  rwa [fromUtf8_utf8, fromUtf8_utf8, Option.some.injEq] at decoded

@[simp] theorem utf8_nil : utf8 [] = [] := rfl

@[simp] theorem utf8_append (left right : Text) : utf8 (left ++ right) = utf8 left ++ utf8 right :=
  List.flatMap_append

theorem utf8_cons (char : Char) (text : Text) : utf8 (char :: text) = String.utf8EncodeChar char ++ utf8 text :=
  List.flatMap_cons

theorem utf8EncodeChar_ascii {char : Char} (small : char.toNat < 128) :
    String.utf8EncodeChar char = [UInt8.ofNat char.toNat] := by
  have first : char.val.toNat ≤ 0x7f := by
    have : char.val.toNat = char.toNat := rfl
    omega
  simp only [String.utf8EncodeChar, first, ↓reduceIte]
  rfl

theorem utf8_ascii {text : Text} (small : ∀ char ∈ text, char.toNat < 128) :
    utf8 text = text.map fun char => UInt8.ofNat char.toNat := by
  induction text with
  | nil => rfl
  | cons char text ih =>
      rw [List.forall_mem_cons] at small
      rw [utf8_cons, utf8EncodeChar_ascii small.1, ih small.2]
      rfl

theorem utf8_ne_nil {text : Text} (filled : text ≠ []) : utf8 text ≠ [] := by
  intro empty
  exact filled (utf8_injective (empty.trans utf8_nil.symm))

theorem zero_not_mem_utf8EncodeChar {char : Char} (filled : char.toNat ≠ 0) : 0 ∉ String.utf8EncodeChar char := by
  have value : char.val.toNat = char.toNat := rfl
  have nonzero : ∀ n, 0 < n → n < 256 → (0 : UInt8) ≠ UInt8.ofNat n := by
    intro n some_left small same
    have back := congrArg UInt8.toNat same
    rw [UInt8.toNat_ofNat_of_lt' small] at back
    exact absurd back (Nat.ne_of_lt some_left)
  simp only [String.utf8EncodeChar, value]
  split
  · rw [List.mem_singleton]
    exact nonzero _ (by omega) (by omega)
  split
  · simp only [List.mem_cons, List.not_mem_nil, or_false, not_or]
    exact ⟨nonzero _ (by omega) (by omega), nonzero _ (by omega) (by omega)⟩
  split
  · simp only [List.mem_cons, List.not_mem_nil, or_false, not_or]
    exact ⟨nonzero _ (by omega) (by omega), nonzero _ (by omega) (by omega), nonzero _ (by omega) (by omega)⟩
  · simp only [List.mem_cons, List.not_mem_nil, or_false, not_or]
    exact ⟨nonzero _ (by omega) (by omega), nonzero _ (by omega) (by omega),
      nonzero _ (by omega) (by omega), nonzero _ (by omega) (by omega)⟩

theorem zero_not_mem_utf8 {text : Text} (filled : ∀ char ∈ text, char.toNat ≠ 0) : 0 ∉ utf8 text := by
  intro member
  obtain ⟨char, inside, zero⟩ := List.mem_flatMap.mp member
  exact zero_not_mem_utf8EncodeChar (filled char inside) zero

end PDocker.Data
