import PDocker.Data.Utf8

/-!
# UTF-8 in pieces

Decoding with replacement: the longest beginning of a character that is not
completed, and each byte that begins none, becomes U+FFFD. Pieces that are decoded
on their own give the text of the whole exactly if no character is cut.
-/

set_option autoImplicit false

namespace PDocker.Data

def replacement : Char := Char.ofNat 0xFFFD

/-- A character that has begun: its bits, how many bytes follow the next one, and the
range of the next one. -/
structure Pending where
  value : Nat
  more : Nat
  lower : UInt8
  upper : UInt8
  tail : 0x80 ≤ lower ∧ upper ≤ 0xBF

def firstByte (byte : UInt8) : Text × Option Pending :=
  let n := byte.toNat
  if n < 0x80 then ([Char.ofNat n], none)
  else if 0xC2 ≤ n ∧ n ≤ 0xDF then ([], some ⟨n % 32, 0, 0x80, 0xBF, by decide⟩)
  else if 0xE0 ≤ n ∧ n ≤ 0xEF then
    ([], some ⟨n % 16, 1, if n = 0xE0 then 0xA0 else 0x80, if n = 0xED then 0x9F else 0xBF,
      by split <;> split <;> decide⟩)
  else if 0xF0 ≤ n ∧ n ≤ 0xF4 then
    ([], some ⟨n % 8, 2, if n = 0xF0 then 0x90 else 0x80, if n = 0xF4 then 0x8F else 0xBF,
      by split <;> split <;> decide⟩)
  else ([replacement], none)

def Pending.accepts (pending : Pending) (byte : UInt8) : Bool := pending.lower ≤ byte && byte ≤ pending.upper

def nextByte : Option Pending → UInt8 → Text × Option Pending
  | none, byte => firstByte byte
  | some pending, byte =>
      if pending.accepts byte then
        let value := pending.value * 64 + byte.toNat % 64
        match pending.more with
        | 0 => ([Char.ofNat value], none)
        | more + 1 => ([], some ⟨value, more, 0x80, 0xBF, by decide⟩)
      else (replacement :: (firstByte byte).1, (firstByte byte).2)

def decodeFrom : Option Pending → Bytes → Text
  | none, [] => []
  | some _, [] => [replacement]
  | pending, byte :: rest => (nextByte pending byte).1 ++ decodeFrom (nextByte pending byte).2 rest

def decodeUtf8 (bytes : Bytes) : Text := decodeFrom none bytes

def begun (bytes : Bytes) : Option Pending := bytes.foldl (fun pending byte => (nextByte pending byte).2) none

def cuts (left right : Bytes) : Bool :=
  match begun left, right with
  | some pending, byte :: _ => pending.accepts byte
  | _, _ => false

def uncut : List Bytes → Bool
  | [] => true
  | piece :: rest => !cuts piece rest.flatten && uncut rest

variable {pending : Pending} {byte : UInt8}

theorem firstByte_accepted (accepted : pending.accepts byte = true) : firstByte byte = ([replacement], none) := by
  rw [Pending.accepts, Bool.and_eq_true, decide_eq_true_eq, decide_eq_true_eq] at accepted
  have least : 0x80 ≤ byte.toNat := UInt8.le_iff_toNat_le.mp (UInt8.le_trans pending.tail.1 accepted.1)
  have most : byte.toNat ≤ 0xBF := UInt8.le_iff_toNat_le.mp (UInt8.le_trans accepted.2 pending.tail.2)
  rw [firstByte, if_neg (by omega), if_neg (by omega), if_neg (by omega), if_neg (by omega)]

theorem decodeFrom_split (left : Bytes) (start : Option Pending) :
    ∃ text, ∀ right, decodeFrom start (left ++ right) =
      text ++ decodeFrom (left.foldl (fun pending byte => (nextByte pending byte).2) start) right := by
  induction left generalizing start with
  | nil => exact ⟨[], fun right => rfl⟩
  | cons byte left ih =>
      obtain ⟨text, same⟩ := ih (nextByte start byte).2
      refine ⟨(nextByte start byte).1 ++ text, fun right => ?_⟩
      rw [List.cons_append, decodeFrom, same, List.append_assoc]
      rfl

/-- A byte that goes on with a character is replaced where it is decoded apart. -/
theorem count_accepted {bytes : Bytes}
    (later : ∀ pending, (decodeFrom (some pending) bytes).count replacement ≤
      (decodeFrom none bytes).count replacement + 1) (accepted : pending.accepts byte = true) :
    (decodeFrom (some pending) (byte :: bytes)).count replacement <
      (decodeFrom none (byte :: bytes)).count replacement + 1 := by
  rw [decodeFrom, decodeFrom, nextByte, nextByte, if_pos accepted, firstByte_accepted accepted]
  cases pending.more with
  | zero =>
      have one := @List.count_le_length _ _ replacement [Char.ofNat (pending.value * 64 + byte.toNat % 64)]
      simp only [List.count_append, List.count_singleton_self, List.length_singleton] at one ⊢
      omega
  | succ more =>
      have fewer := later ⟨pending.value * 64 + byte.toNat % 64, more, 0x80, 0xBF, by decide⟩
      simp only [List.nil_append, List.count_append, List.count_singleton_self]
      omega

theorem count_decodeFrom_some (bytes : Bytes) (pending : Pending) :
    (decodeFrom (some pending) bytes).count replacement ≤ (decodeFrom none bytes).count replacement + 1 := by
  induction bytes generalizing pending with
  | nil => exact le_rfl
  | cons byte bytes ih =>
      by_cases accepted : pending.accepts byte = true
      · exact (count_accepted ih accepted).le
      · rw [decodeFrom, decodeFrom, nextByte, nextByte, if_neg accepted]
        simp

theorem decode_append (left right : Bytes) :
    if cuts left right then (decodeUtf8 (left ++ right)).count replacement <
      (decodeUtf8 left).count replacement + (decodeUtf8 right).count replacement
    else decodeUtf8 (left ++ right) = decodeUtf8 left ++ decodeUtf8 right := by
  obtain ⟨text, same⟩ := decodeFrom_split left none
  have alone := same []
  rw [List.append_nil] at alone
  unfold decodeUtf8 cuts begun
  rw [same, alone]
  generalize left.foldl (fun pending byte => (nextByte pending byte).2) none = start
  cases start with
  | none => simp [decodeFrom]
  | some pending =>
      cases right with
      | nil => simp [decodeFrom]
      | cons byte rest =>
          by_cases accepted : pending.accepts byte = true
          · rw [if_pos accepted]
            have fewer := count_accepted (count_decodeFrom_some rest) accepted
            simp only [decodeFrom, List.count_append, List.count_singleton_self] at fewer ⊢
            omega
          · rw [if_neg accepted]
            simp [decodeFrom, nextByte, accepted]

theorem decode_pieces (pieces : List Bytes) :
    if uncut pieces then (pieces.map decodeUtf8).flatten = decodeUtf8 pieces.flatten
    else (decodeUtf8 pieces.flatten).count replacement < (pieces.map decodeUtf8).flatten.count replacement := by
  induction pieces with
  | nil => rfl
  | cons piece rest ih =>
      have here := decode_append piece rest.flatten
      rw [List.map_cons, List.flatten_cons, List.flatten_cons, uncut]
      cases cut : cuts piece rest.flatten <;> cases later : uncut rest <;> simp_all
      omega

/-- Pieces give the text of the whole if and only if no character is cut. -/
theorem decode_pieces_iff {pieces : List Bytes} :
    (pieces.map decodeUtf8).flatten = decodeUtf8 pieces.flatten ↔ uncut pieces = true := by
  have both := decode_pieces pieces
  constructor
  · intro same
    by_contra cut
    rw [if_neg cut, same] at both
    exact lt_irrefl _ both
  · intro whole
    rwa [if_pos whole] at both

/-- The third character breaks off. -/
example : decodeUtf8 [0x61, 0xC3, 0xA9, 0xE2, 0x82, 0xF0, 0x9F, 0x98, 0x80] =
    ['a', 'é', replacement, Char.ofNat 0x1F600] := by decide

theorem nextByte_shows (start : Option Pending) (byte : UInt8) (hidden : (nextByte start byte).1 = []) :
    (nextByte start byte).2 ≠ none := by
  have first : (firstByte byte).1 = [] → (firstByte byte).2 ≠ none := by
    unfold firstByte
    dsimp only
    split_ifs <;> simp
  cases start with
  | none => exact first hidden
  | some pending =>
      rw [nextByte] at hidden ⊢
      split at hidden
      · rename_i accepted
        rw [if_pos accepted]
        cases same : pending.more <;> simp_all
      · cases hidden

theorem decode_filled {bytes : Bytes} (filled : bytes ≠ []) : decodeUtf8 bytes ≠ [] := by
  suffices walk : ∀ (bytes : Bytes) (start : Option Pending), start ≠ none ∨ bytes ≠ [] →
      decodeFrom start bytes ≠ [] from walk bytes none (.inr filled)
  intro bytes
  induction bytes with
  | nil =>
      intro start left_over
      cases start with
      | none => simp at left_over
      | some _ => exact List.cons_ne_nil _ _
  | cons byte bytes ih =>
      intro start _ empty
      rw [decodeFrom, List.append_eq_nil_iff] at empty
      exact ih _ (.inl (nextByte_shows start byte empty.1)) empty.2

end PDocker.Data
