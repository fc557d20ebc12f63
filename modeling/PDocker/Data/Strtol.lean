import PDocker.Data.Numerals

/-!
# Reading numbers as C does

`strtoull`, `strtoul` and `strtoll`, where `long` has sixty-four bits. They pass over white
space, take a sign, and read digits for as long as there are any.
-/

set_option autoImplicit false

namespace PDocker.Data

/-- `isspace` of the C locale. -/
def isCSpace (char : Char) : Bool :=
  decide (char.toNat = 32) || decide (9 ≤ char.toNat ∧ char.toNat ≤ 13)

structure ScannedInteger where
  negative : Bool
  magnitude : Nat
  rest : Text
deriving DecidableEq, Repr

def scanSign : Text → Bool × Text
  | '-' :: text => (true, text)
  | '+' :: text => (false, text)
  | text => (false, text)

def scanBase (base : Nat) (text : Text) : Nat × Text :=
  if base = 0 then
    match text with
    | '0' :: mark :: digit :: rest =>
        if (mark = 'x' ∨ mark = 'X') ∧ isDigit 16 digit then (16, digit :: rest) else (8, text)
    | '0' :: _ => (8, text)
    | _ => (10, text)
  else (base, text)

def scanInteger (base : Nat) (text : Text) : ScannedInteger :=
  let signed := scanSign (text.dropWhile isCSpace)
  let based := scanBase base signed.2
  let digits := based.2.takeWhile (isDigit based.1)
  if digits = [] then { negative := false, magnitude := 0, rest := text }
  else
    { negative := signed.1
      magnitude := numeralValue based.1 digits
      rest := based.2.dropWhile (isDigit based.1) }

def ScannedInteger.unsigned (scanned : ScannedInteger) : UInt64 :=
  if 2 ^ 64 ≤ scanned.magnitude then UInt64.ofNat (2 ^ 64 - 1)
  else if scanned.negative then 0 - UInt64.ofNat scanned.magnitude
  else UInt64.ofNat scanned.magnitude

def ScannedInteger.signed (scanned : ScannedInteger) : Int :=
  if scanned.negative then max (-(2 ^ 63)) (-(scanned.magnitude : Int))
  else min (2 ^ 63 - 1) scanned.magnitude

def strtoull (base : Nat) (text : Text) : UInt64 := (scanInteger base text).unsigned

/-- `(uint32_t)strtoul(text, NULL, 10)`. -/
def strtoul32 (text : Text) : UInt32 := (scanInteger 10 text).unsigned.toUInt32

def strtoll (text : Text) : Int := (scanInteger 10 text).signed

/-- `(int)strtol(text, NULL, 10)`. -/
def strtol32 (text : Text) : Int := (strtoll text).bmod (2 ^ 32)

def wholeInteger (base : Nat) (text : Text) : Option UInt64 :=
  if (scanInteger base text).rest = [] then some (strtoull base text) else none

variable {char : Char} {text : Text} {base : Nat}

theorem head_numeral {n : Nat} (spelled : numeral 10 n = char :: text) :
    isDigit 10 char = true ∧ (char = '0' → n = 0) := by
  constructor
  · exact isDigit_of_mem (by decide) (by decide) (spelled ▸ List.mem_cons_self)
  intro zero
  by_contra filled
  rw [numeral, if_neg filled] at spelled
  have digits : Nat.digits 10 n ≠ [] := Nat.digits_ne_nil_iff_ne_zero.mpr filled
  have last := Nat.getLast_digit_ne_zero 10 filled
  have first : (Nat.digits 10 n).reverse.map Nat.digitChar ≠ [] := by
    rw [spelled]
    exact List.cons_ne_nil _ _
  have head : ((Nat.digits 10 n).reverse.map Nat.digitChar).head first = char := by
    simp only [spelled, List.head_cons]
  rw [List.head_map, List.head_reverse] at head
  have small : (Nat.digits 10 n).getLast digits < 10 :=
    Nat.digits_lt_base (by decide) (List.getLast_mem digits)
  have value := (digitChar_facts _ (Nat.lt_of_lt_of_le small (by decide))).1
  rw [head, zero] at value
  exact last value.symm

theorem digit_facts (digit : isDigit 10 char = true) : 48 ≤ char.toNat ∧ char.toNat ≤ 57 := by
  have small : digitValue char < 10 := of_decide_eq_true digit
  rw [digitValue] at small
  split at small
  · assumption
  · split at small
    · omega
    · split at small <;> omega

theorem scanSign_digit (digit : isDigit 10 char = true) :
    scanSign (char :: text) = (false, char :: text) := by
  have bounds := digit_facts digit
  rw [scanSign]
  · intro _ same
    injection same with first
    subst first
    exact absurd bounds (by decide)
  · intro _ same
    injection same with first
    subst first
    exact absurd bounds (by decide)

theorem not_space_of_digit (digit : isDigit 10 char = true) : isCSpace char = false := by
  have bounds := digit_facts digit
  rw [isCSpace, Bool.or_eq_false_iff, decide_eq_false_iff_not, decide_eq_false_iff_not]
  omega

theorem scanBase_numeral (usual : base = 10 ∨ base = 0) (n : Nat) :
    scanBase base (numeral 10 n) = (10, numeral 10 n) ∨ n = 0 ∧ scanBase base (numeral 10 n) = (8, numeral 10 n) := by
  rcases usual with rfl | rfl
  · exact .inl rfl
  by_cases zero : n = 0
  · subst zero
    exact .inr ⟨rfl, rfl⟩
  obtain ⟨char, text, spelled⟩ := List.exists_cons_of_ne_nil
    (List.ne_nil_of_length_pos (@length_numeral_pos 10 n))
  have other : char ≠ '0' := fun same => zero ((head_numeral spelled).2 same)
  left
  rw [spelled, scanBase, if_pos rfl]
  · intro _ _ _ same
    injection same with first
    exact other first
  · intro _ same
    injection same with first
    exact other first

theorem scanInteger_numeral (usual : base = 10 ∨ base = 0) (n : Nat) :
    scanInteger base (numeral 10 n) = { negative := false, magnitude := n, rest := [] } := by
  obtain ⟨char, text, spelled⟩ := List.exists_cons_of_ne_nil
    (List.ne_nil_of_length_pos (@length_numeral_pos 10 n))
  have digit := (head_numeral spelled).1
  have started : (numeral 10 n).dropWhile isCSpace = numeral 10 n := by
    rw [spelled, List.dropWhile_cons, not_space_of_digit digit]
    rfl
  have signed : scanSign (numeral 10 n) = (false, numeral 10 n) := by
    rw [spelled, scanSign_digit digit]
  have filled : numeral 10 n ≠ [] := spelled ▸ List.cons_ne_nil _ _
  have all : ∀ char ∈ numeral 10 n, isDigit 10 char = true := fun _ member =>
    isDigit_of_mem (by decide) (by decide) member
  rw [scanInteger]
  rcases scanBase_numeral usual n with based | ⟨rfl, based⟩
  · simp only [started, signed, based]
    rw [List.takeWhile_eq_self_iff.mpr all, List.dropWhile_eq_nil_iff.mpr all, if_neg filled,
      numeralValue_numeral (by decide) (by decide)]
  · simp only [started, signed, based]
    rfl

@[simp] theorem strtoull_numeral (n : UInt64) : strtoull 10 (numeral 10 n.toNat) = n := by
  rw [strtoull, scanInteger_numeral (.inl rfl), ScannedInteger.unsigned, if_neg (Nat.not_le.mpr n.toNat_lt)]
  exact UInt64.ofNat_toNat

@[simp] theorem strtoul32_numeral (n : UInt32) : strtoul32 (numeral 10 n.toNat) = n := by
  have small : n.toNat < 2 ^ 64 := Nat.lt_trans n.toNat_lt (by decide)
  rw [strtoul32, scanInteger_numeral (.inl rfl), ScannedInteger.unsigned, if_neg (Nat.not_le.mpr small)]
  refine UInt32.toNat_inj.mp ?_
  simp only [Bool.false_eq_true, if_false, UInt64.toNat_toUInt32, UInt64.toNat_ofNat']
  rw [Nat.mod_eq_of_lt small, Nat.mod_eq_of_lt n.toNat_lt]

theorem strtoll_numeral (n : Nat) : strtoll (numeral 10 n) = min (2 ^ 63 - 1) (n : Int) := by
  rw [strtoll, scanInteger_numeral (.inl rfl)]
  rfl

@[simp] theorem wholeInteger_numeral (usual : base = 10 ∨ base = 0) (n : UInt64) :
    wholeInteger base (numeral 10 n.toNat) = some n := by
  rw [wholeInteger, strtoull, scanInteger_numeral usual, if_pos rfl, ScannedInteger.unsigned,
    if_neg (Nat.not_le.mpr n.toNat_lt)]
  exact congrArg some UInt64.ofNat_toNat

end PDocker.Data
