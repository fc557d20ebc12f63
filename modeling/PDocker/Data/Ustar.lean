import PDocker.Data.Numerals
import PDocker.Data.Utf8

/-!
# The ustar format

An archive is a sequence of blocks of 512 bytes. A header block has fields of
fixed widths, text fields end at a NUL byte or at their width, and numbers are
octal digits with a space or a NUL byte behind them. A header of type `x` holds
records for the entry behind it. Two blocks of zeros end the archive.
-/

set_option autoImplicit false

namespace PDocker.Data

namespace Ustar

def textField (width : Nat) (bytes : Bytes) : Bytes := (bytes.take width).rightpad width 0

def widths : List Nat := [100, 8, 8, 8, 12, 12, 8, 1, 100, 6, 2, 32, 32, 8, 8, 155, 12]

def splitFields : List Nat → Bytes → List Bytes
  | [], _ => []
  | width :: widths, bytes => bytes.take width :: splitFields widths (bytes.drop width)

def readText (field : Bytes) : Bytes := field.takeWhile (· ≠ 0)

def latin (bytes : Bytes) : Text := bytes.map fun byte => Char.ofNat byte.toNat

def readOctal (field : Bytes) : Option Nat :=
  let digits := (latin field).takeWhile (isDigit 8)
  match (latin field).dropWhile (isDigit 8) with
  | stop :: _ => if digits ≠ [] ∧ (stop = ' ' ∨ stop = Char.ofNat 0) then some (numeralValue 8 digits) else none
  | [] => none

def byteSum (bytes : Bytes) : Nat := (bytes.map UInt8.toNat).sum

structure Header where
  name : Bytes
  mode : Nat
  size : Nat
  mtime : Nat
  typeFlag : Bytes
  linkName : Bytes
  deriving DecidableEq

def readHeader (block : Bytes) : Option Header :=
  match splitFields widths block with
  | [name, mode, uid, gid, size, mtime, checksum, typeFlag, linkName, magic, version, uname, gname, devmajor,
      devminor, before, rest] => do
      let blank := [name, mode, uid, gid, size, mtime, List.replicate 8 32, typeFlag, linkName, magic, version,
        uname, gname, devmajor, devminor, before, rest].flatten
      let sum ← readOctal checksum
      guard (sum = byteSum blank ∧ magic = [117, 115, 116, 97, 114, 0] ∧ version = [48, 48])
      let mode ← readOctal mode
      let _ ← readOctal uid
      let _ ← readOctal gid
      let size ← readOctal size
      let mtime ← readOctal mtime
      let name := if readText before = [] then readText name else readText before ++ 47 :: readText name
      pure ⟨name, mode, size, mtime, typeFlag, readText linkName⟩
  | _ => none

def readLength (bytes : Bytes) : Option Nat :=
  let digits := (latin bytes).takeWhile (isDigit 10)
  if digits ≠ [] ∧ ((latin bytes).dropWhile (isDigit 10)).head? = some ' ' then some (numeralValue 10 digits)
  else none

def readRecord (record : Bytes) : Bytes × Bytes :=
  let body := ((record.dropWhile (· ≠ 32)).drop 1).dropLast
  (body.takeWhile (· ≠ 61), (body.dropWhile (· ≠ 61)).drop 1)

def readRecords (bytes : Bytes) : Option (List (Bytes × Bytes)) :=
  if bytes = [] then some []
  else
    match readLength bytes with
    | none => none
    | some length =>
        if _counted : 0 < length ∧ length ≤ bytes.length ∧ (bytes.take length).getLast? = some 10 then
          (readRecords (bytes.drop length)).map (readRecord (bytes.take length) :: ·)
        else none
  termination_by bytes.length
  decreasing_by rw [List.length_drop]; omega

structure ArchiveEntry where
  name : Text
  typeFlag : Bytes
  mode : Nat
  mtime : Int
  linkName : Text
  data : Bytes
  deriving DecidableEq

def paddedSize (size : Nat) : Nat := size + (512 - size % 512) % 512

def overridden (records : List (Bytes × Bytes)) (key : Bytes) (own : Bytes) : Bytes :=
  ((records.reverse.find? fun record => record.1 = key).map (·.2)).getD own

def pathKey : Bytes := [112, 97, 116, 104]

def linkpathKey : Bytes := [108, 105, 110, 107, 112, 97, 116, 104]

def entryOf (records : List (Bytes × Bytes)) (header : Header) (data : Bytes) : Option ArchiveEntry := do
  let name ← fromUtf8 (overridden records pathKey header.name)
  let linkName ← fromUtf8 (overridden records linkpathKey header.linkName)
  pure ⟨name, header.typeFlag, header.mode, header.mtime, linkName, data⟩

def readEntries (records : List (Bytes × Bytes)) (bytes : Bytes) : Option (List ArchiveEntry) :=
  if _short : bytes.length < 512 then none
  else if bytes.take 512 = List.replicate 512 0 then
    if bytes.take 1024 = List.replicate 1024 0 ∧ records = [] then some [] else none
  else
    match readHeader (bytes.take 512) with
    | none => none
    | some header =>
        let data := (bytes.drop 512).take header.size
        let rest := bytes.drop (512 + paddedSize header.size)
        if data.length < header.size then none
        else if header.typeFlag = [120] then (readRecords data).bind fun records => readEntries records rest
        else
          (entryOf records header data).bind fun entry => (readEntries [] rest).map (entry :: ·)
  termination_by bytes.length
  decreasing_by all_goals rw [List.length_drop]; omega

def readArchive (bytes : Bytes) : Option (List ArchiveEntry) := readEntries [] bytes

section Fields

variable {bytes : Bytes} {width : Nat}

theorem length_textField : (textField width bytes).length = width := by
  rw [textField, List.length_rightpad, List.length_take]
  omega

theorem splitFields_flatten (fields : List Bytes) : splitFields (fields.map List.length) fields.flatten = fields := by
  induction fields with
  | nil => rfl
  | cons field fields ih =>
      rw [List.map_cons, splitFields, List.flatten_cons, List.take_left, List.drop_left, ih]

theorem readText_textField (fits : bytes.length ≤ width) (filled : 0 ∉ bytes) :
    readText (textField width bytes) = bytes := by
  have plain : ∀ byte ∈ bytes, decide (byte ≠ 0) = true := by
    intro byte member
    rw [decide_eq_true_eq]
    rintro rfl
    exact filled member
  rw [readText, textField, List.take_of_length_le fits, List.rightpad, List.takeWhile_append_of_pos plain]
  cases width - bytes.length with
  | zero => exact List.append_nil _
  | succ zeros =>
      rw [List.replicate_succ, List.takeWhile_cons_of_neg (by simp), List.append_nil]

theorem latin_utf8 {text : Text} (small : ∀ char ∈ text, char.toNat < 128) : latin (utf8 text) = text := by
  rw [utf8_ascii small, latin, List.map_map]
  refine (List.map_congr_left fun char member => ?_).trans (List.map_id _)
  have below := small char member
  rw [Function.comp, UInt8.toNat_ofNat_of_lt' (show char.toNat < 256 by omega), Char.ofNat_toNat]
  rfl

theorem latin_append (left right : Bytes) : latin (left ++ right) = latin left ++ latin right := List.map_append

def octalField (width : Nat) (digits : Text) : Bytes := textField width (utf8 (digits ++ [Char.ofNat 0]))

variable {digits : Text}

variable (octal : ∀ char ∈ digits, isDigit 8 char = true)

include octal

theorem octal_ascii : ∀ char ∈ digits, char.toNat < 128 := by
  intro char member
  have small : digitValue char < 8 := of_decide_eq_true (octal char member)
  simp only [digitValue] at small
  split at small
  · omega
  · split at small
    · omega
    · split at small <;> omega

theorem readOctal_append (filled : digits ≠ []) (rest : Bytes) :
    readOctal (utf8 digits ++ 0 :: rest) = some (numeralValue 8 digits) := by
  have field : latin (utf8 digits ++ 0 :: rest) = digits ++ Char.ofNat 0 :: latin rest := by
    rw [latin_append, latin_utf8 (octal_ascii octal)]
    rfl
  rw [readOctal, field, List.takeWhile_append_of_pos octal, List.dropWhile_append_of_pos octal,
    List.takeWhile_cons_of_neg (by decide), List.dropWhile_cons_of_neg (by decide), List.append_nil]
  exact if_pos ⟨filled, .inr rfl⟩

theorem readOctal_octalField (filled : digits ≠ [])
    (fits : digits.length < width) : readOctal (octalField width digits) = some (numeralValue 8 digits) := by
  have bytes : utf8 (digits ++ [Char.ofNat 0]) = utf8 digits ++ [0] := utf8_append _ _
  have length : (utf8 digits).length = digits.length := by rw [utf8_ascii (octal_ascii octal), List.length_map]
  have field : octalField width digits = utf8 digits ++ 0 :: List.replicate (width - (digits.length + 1)) 0 := by
    rw [octalField, textField, bytes, List.take_of_length_le (by simp [length]; omega), List.rightpad,
      List.append_assoc, List.length_append, List.length_singleton, length]
    rfl
  rw [field]
  exact readOctal_append octal filled _

theorem readOctal_full (full : width ≤ digits.length) : readOctal (octalField width digits) = none := by
  have ascii := octal_ascii octal
  have bytes : utf8 (digits ++ [Char.ofNat 0]) = utf8 digits ++ [0] := utf8_append _ _
  have length : (utf8 digits).length = digits.length := by rw [utf8_ascii ascii, List.length_map]
  have field : latin (octalField width digits) = digits.take width := by
    rw [octalField, textField, bytes, List.take_append_of_le_length (by omega), List.rightpad, List.length_take,
      Nat.min_eq_left (by omega), Nat.sub_self, List.replicate_zero, List.append_nil]
    rw [latin, List.map_take]
    exact congrArg (List.take width) (latin_utf8 ascii)
  rw [readOctal, field, List.dropWhile_eq_nil_iff.mpr fun char member => octal char (List.mem_of_mem_take member)]

omit octal

end Fields

def recordBytes (length : Nat) (key value : Bytes) : Bytes :=
  utf8 (numeral 10 length) ++ 32 :: (key ++ 61 :: (value ++ [10]))

section Records

variable {length : Nat} {key value : Bytes}

theorem latin_recordBytes (rest : Bytes) : latin (recordBytes length key value ++ rest) =
      numeral 10 length ++ ' ' :: latin (key ++ 61 :: (value ++ [10]) ++ rest) := by
  rw [recordBytes, List.append_assoc, latin_append,
    latin_utf8 fun _ => ascii_of_mem (by decide) (by decide)]
  rfl

theorem readLength_recordBytes (rest : Bytes) :
    readLength (recordBytes length key value ++ rest) = some length := by
  have digits : ∀ char ∈ numeral 10 length, isDigit 10 char = true :=
    fun _ => isDigit_of_mem (by decide) (by decide)
  have filled : numeral 10 length ≠ [] := List.ne_nil_of_length_pos (length_numeral_pos length)
  rw [readLength, latin_recordBytes, List.takeWhile_append_of_pos digits, List.dropWhile_append_of_pos digits,
    List.takeWhile_cons_of_neg (by decide), List.dropWhile_cons_of_neg (by decide), List.append_nil,
    numeralValue_numeral (by decide) (by decide)]
  exact if_pos ⟨filled, rfl⟩

theorem readRecord_recordBytes (plain : 61 ∉ key) : readRecord (recordBytes length key value) = (key, value) := by
  have digits : ∀ byte ∈ utf8 (numeral 10 length), decide (byte ≠ 32) = true := by
    intro byte member
    rw [utf8_ascii fun _ => ascii_of_mem (by decide) (by decide)] at member
    obtain ⟨char, inside, rfl⟩ := List.mem_map.mp member
    obtain ⟨digit, small, rfl⟩ := mem_numeral (by decide) inside
    have plain : ∀ digit < 10, decide (UInt8.ofNat (Nat.digitChar digit).toNat ≠ 32) = true := by decide
    exact plain digit small
  have keyBytes : ∀ byte ∈ key, decide (byte ≠ 61) = true := by
    intro byte member
    rw [decide_eq_true_eq]
    rintro rfl
    exact plain member
  have body : ((recordBytes length key value).dropWhile (· ≠ 32)).drop 1 = key ++ 61 :: value ++ [10] := by
    rw [recordBytes, List.dropWhile_append_of_pos digits, List.dropWhile_cons_of_neg (by decide)]
    simp
  rw [readRecord, body, List.dropLast_concat, List.takeWhile_append_of_pos keyBytes,
    List.dropWhile_append_of_pos keyBytes, List.takeWhile_cons_of_neg (by decide),
    List.dropWhile_cons_of_neg (by decide), List.append_nil]
  rfl

theorem readRecords_recordBytes (plain : 61 ∉ key) (counted : (recordBytes length key value).length = length)
    (rest : Bytes) :
    readRecords (recordBytes length key value ++ rest) = (readRecords rest).map ((key, value) :: ·) := by
  have filled : 0 < length := by
    rw [← counted, recordBytes, List.length_append, List.length_cons]
    omega
  have front : (recordBytes length key value ++ rest).take length = recordBytes length key value :=
    List.take_left' counted
  have back : (recordBytes length key value ++ rest).drop length = rest := List.drop_left' counted
  have ends : (recordBytes length key value).getLast? = some 10 := by
    have cut : recordBytes length key value = utf8 (numeral 10 length) ++ 32 :: (key ++ 61 :: value) ++ [10] := by
      simp [recordBytes]
    rw [cut, List.getLast?_concat]
  rw [readRecords, if_neg (by rw [List.append_eq_nil_iff]; rintro ⟨empty, -⟩; rw [empty] at ends; cases ends),
    readLength_recordBytes]
  dsimp only
  rw [dif_pos ⟨filled, by rw [List.length_append, counted]; omega, by rw [front]; exact ends⟩, front, back,
    readRecord_recordBytes plain]

end Records

end Ustar

end PDocker.Data
