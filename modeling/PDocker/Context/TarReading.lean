import PDocker.Context.Tar

/-!
# Reading the archive of a build context

What a reader gets of one entry that the application has written: the time must
fit its field, and the name and the link target come out of the header or of the
records in front of it.
-/

set_option autoImplicit false

namespace PDocker.Context.Tar

open Data Ustar

variable (width : Nat) (left : Nat)

theorem formatOctal_digits (value : Int) : ∀ char ∈ formatOctal width value, isDigit 8 char = true := by
  intro char member
  rcases List.mem_append.mp member with zero | digit
  · rw [List.eq_of_mem_replicate zero]
    decide
  · exact isDigit_of_mem (by decide) (by decide) digit

theorem numeralValue_formatOctal (value : Int) : numeralValue 8 (formatOctal width value) = unsigned value :=
  numeralValue_padded (by decide) (by decide) _ _

theorem formatOctal_ne_nil (value : Int) : formatOctal width value ≠ [] :=
  List.append_ne_nil_of_right_ne_nil _ (List.ne_nil_of_length_pos (length_numeral_pos _))

theorem length_formatOctal (value : Int) :
    (formatOctal width value).length = max width (numeral 8 (unsigned value)).length := by
  rw [formatOctal, List.length_leftpad]

theorem readOctal_putOctal (value : Int) : readOctal (putOctal (width + 2) value) =
      if unsigned value < 8 ^ (width + 1) then some (unsigned value) else none := by
  have short : (numeral 8 (unsigned value)).length ≤ width + 1 ↔ unsigned value < 8 ^ (width + 1) :=
    length_numeral_le (by decide) (Nat.succ_pos width)
  rw [putOctal, Nat.add_sub_cancel_right (n := width + 1) (m := 1)]
  by_cases fits : unsigned value < 8 ^ (width + 1)
  · rw [if_pos fits, readOctal_octalField (formatOctal_digits _ _) (formatOctal_ne_nil _ _), numeralValue_formatOctal]
    rw [length_formatOctal]
    have := short.mpr fits
    omega
  · rw [if_neg fits]
    refine readOctal_full (formatOctal_digits _ _) ?_
    rw [length_formatOctal]
    have := mt short.mp fits
    omega

theorem unsigned_natCast {n : Nat} (small : n < 2 ^ 64) : unsigned n = n := by
  rw [unsigned]
  omega

theorem byteSum_le (bytes : Bytes) : byteSum bytes ≤ 255 * bytes.length := by
  induction bytes with
  | nil => exact Nat.le_refl _
  | cons byte bytes ih =>
      have small : byte.toNat < 256 := byte.toNat_lt
      rw [byteSum, List.map_cons, List.sum_cons, List.length_cons]
      rw [byteSum] at ih
      omega

theorem readOctal_checksumField {sum : Nat} (small : sum < 8 ^ 6) :
    (checksumField sum).length = 8 ∧ readOctal (checksumField sum) = some sum := by
  have own : unsigned sum = sum := unsigned_natCast (by omega)
  have digits := formatOctal_digits 6 sum
  have six : (formatOctal 6 sum).length = 6 := by
    have short : (numeral 8 (unsigned sum)).length ≤ 6 := by
      rw [own]
      exact (length_numeral_le (by decide) (by decide)).mpr small
    rw [length_formatOctal]
    omega
  have bytes : checksumField sum = utf8 (formatOctal 6 sum) ++ 0 :: [32] := by
    have all : utf8 (formatOctal 6 sum ++ [Char.ofNat 0, ' ']) = utf8 (formatOctal 6 sum) ++ [0, 32] := utf8_append _ _
    rw [checksumField, all, List.take_of_length_le]
    rw [List.length_append, utf8_ascii (octal_ascii digits), List.length_map, six]
    decide
  refine ⟨?_, ?_⟩
  · rw [bytes, List.length_append, utf8_ascii (octal_ascii digits), List.length_map, six]
    rfl
  · rw [bytes, readOctal_append digits (formatOctal_ne_nil _ _), numeralValue_formatOctal, own]

section Headers

variable {name linkName : Text} {size mode : Nat} {mtime : Int} {typeFlag : Char} {checksum : Bytes}

theorem map_length_headerFields (counted : checksum.length = 8) :
    (headerFields name size mtime mode typeFlag linkName checksum).map List.length = widths := by
  simp only [headerFields, List.map_cons, List.map_nil, putString, putOctal, octalField, length_textField, counted,
    List.length_singleton, List.length_replicate]
  rfl

theorem length_flatten_headerFields (counted : checksum.length = 8) :
    (headerFields name size mtime mode typeFlag linkName checksum).flatten.length = 512 := by
  rw [List.length_flatten, map_length_headerFields counted]
  rfl

theorem exists_checksum (name linkName : Text) (size mode : Nat) (mtime : Int) (typeFlag : Char) :
    ∃ checksum, checksum.length = 8 ∧ readOctal checksum = some (byteSum
        (headerFields name size mtime mode typeFlag linkName (List.replicate 8 32)).flatten) ∧
      writeTarHeader name size mtime mode typeFlag linkName =
        (headerFields name size mtime mode typeFlag linkName checksum).flatten := by
  have bound := byteSum_le (headerFields name size mtime mode typeFlag linkName (List.replicate 8 32)).flatten
  rw [length_flatten_headerFields (List.length_replicate ..)] at bound
  obtain ⟨counted, read⟩ := readOctal_checksumField (Nat.lt_of_le_of_lt bound (by decide))
  exact ⟨_, counted, read, rfl⟩

theorem length_writeTarHeader : (writeTarHeader name size mtime mode typeFlag linkName).length = 512 := by
  obtain ⟨checksum, counted, -, cut⟩ := exists_checksum name linkName size mode mtime typeFlag
  rw [cut, length_flatten_headerFields counted]

theorem writeTarHeader_ne_zeros :
    writeTarHeader name size mtime mode typeFlag linkName ≠ List.replicate 512 0 := by
  obtain ⟨checksum, -, -, cut⟩ := exists_checksum name linkName size mode mtime typeFlag
  intro zeros
  have magic : (117 : UInt8) ∈ writeTarHeader name size mtime mode typeFlag linkName := by
    rw [cut, List.mem_flatten]
    exact ⟨putString 6 ['u', 's', 't', 'a', 'r'], by simp [headerFields], by decide⟩
  rw [zeros] at magic
  exact absurd (List.eq_of_mem_replicate magic) (by decide)

def headerName (name : Text) : Bytes :=
  let (entryName, before) :=
    (splitUstarName name).getD
      (trimUtf8ToMax (lastName name ['p', 'a', 'x', '-', 'p', 'a', 't', 'h']) 100, [])
  if readText (putString 155 before) = [] then readText (putString 100 entryName)
  else readText (putString 155 before) ++ 47 :: readText (putString 100 entryName)

def headerLink (linkName : Text) : Bytes :=
  readText (putString 100 (if linkName = [] then [] else trimUtf8ToMax linkName 100))

theorem readHeader_writeTarHeader (modeSmall : mode < 8 ^ 7) (sizeSmall : size < 8 ^ 11) :
    readHeader (writeTarHeader name size mtime mode typeFlag linkName) = if unsigned mtime < 8 ^ 11 then
        some ⟨headerName name, mode, size, unsigned mtime, [UInt8.ofNat typeFlag.toNat], headerLink linkName⟩
      else none := by
  obtain ⟨checksum, counted, sum, cut⟩ := exists_checksum name linkName size mode mtime typeFlag
  have split := splitFields_flatten (headerFields name size mtime mode typeFlag linkName checksum)
  rw [map_length_headerFields counted] at split
  have modeRead : readOctal (putOctal 8 mode) = some mode := by
    have own : unsigned mode = mode := unsigned_natCast (by omega)
    rw [readOctal_putOctal 6, own, if_pos modeSmall]
  have sizeRead : readOctal (putOctal 12 size) = some size := by
    have own : unsigned size = size := unsigned_natCast (by omega)
    rw [readOctal_putOctal 10, own, if_pos sizeSmall]
  have zeroRead : readOctal (putOctal 8 0) = some 0 := by
    rw [readOctal_putOctal 6]
    rfl
  have magic : putString 6 ['u', 's', 't', 'a', 'r'] = [117, 115, 116, 97, 114, 0] := by decide
  have version : putString 2 ['0', '0'] = [48, 48] := by decide
  rw [cut, readHeader, split]
  rw [headerFields] at sum ⊢
  simp only [sum, magic, version, modeRead, sizeRead, zeroRead, readOctal_putOctal 10, headerName, headerLink,
    bind, Option.bind_some, guard, and_self, if_true]
  by_cases fits : unsigned mtime < 8 ^ 11
  · rw [if_pos fits, if_pos fits]
    rfl
  · rw [if_neg fits, if_neg fits]
    rfl

end Headers

def NoNul (text : Text) : Prop := Char.ofNat 0 ∉ text

theorem readText_putString {width : Nat} {text : Text} (plain : NoNul text) (fits : (utf8 text).length ≤ width) :
    readText (putString width text) = utf8 text := by
  refine readText_textField fits (zero_not_mem_utf8 fun char member zero => ?_)
  have same : char = Char.ofNat 0 := by rw [← Char.ofNat_toNat char, zero]
  exact plain (same ▸ member)

theorem slashSplits_spec {name before behind : Text} (member : (before, behind) ∈ slashSplits name) :
    name = before ++ '/' :: behind := by
  induction name generalizing before behind with
  | nil => cases member
  | cons char rest ih =>
      have later : (before, behind) ∈ (slashSplits rest).map (fun (before, behind) => (char :: before, behind)) →
          char :: rest = before ++ '/' :: behind := by
        intro inside
        obtain ⟨⟨before, behind⟩, found, same⟩ := List.mem_map.mp inside
        obtain ⟨rfl, rfl⟩ := Prod.mk.inj same
        rw [ih found]
        rfl
      rw [slashSplits] at member
      split at member
      · rename_i slash
        rcases List.mem_cons.mp member with same | inside
        · obtain ⟨rfl, rfl⟩ := Prod.mk.inj same
          rw [slash]
          rfl
        · exact later inside
      · exact later member

theorem splitUstarName_spec {name entryName before : Text} (split : splitUstarName name = some (entryName, before)) :
    (utf8 entryName).length ≤ 100 ∧ (utf8 before).length ≤ 155 ∧
      (before = [] ∧ name = entryName ∨ name = before ++ '/' :: entryName) := by
  rw [splitUstarName] at split
  split at split
  · rename_i short
    obtain ⟨rfl, rfl⟩ := Prod.mk.inj (Option.some.inj split)
    exact ⟨short, Nat.zero_le _, .inl ⟨rfl, rfl⟩⟩
  obtain ⟨⟨before, behind⟩, found, same⟩ := Option.map_eq_some_iff.mp split
  obtain ⟨rfl, rfl⟩ := Prod.mk.inj same
  have sizes := List.find?_some found
  rw [Bool.and_eq_true, decide_eq_true_eq, decide_eq_true_eq] at sizes
  exact ⟨sizes.2, sizes.1, .inr (slashSplits_spec (List.mem_reverse.mp (List.mem_of_find?_eq_some found)))⟩

def readName (name : Text) : Text :=
  match splitUstarName name with
  | some (entryName, before) => if before = [] then entryName else before ++ '/' :: entryName
  | none => name

theorem headerName_eq {name : Text} (plain : NoNul name) (split : splitUstarName name ≠ none) :
    headerName name = utf8 (readName name) := by
  obtain ⟨⟨entryName, before⟩, same⟩ := Option.ne_none_iff_exists'.mp split
  obtain ⟨short, shortBefore, shape⟩ := splitUstarName_spec same
  have plainEntry : NoNul entryName := by
    intro member
    rcases shape with ⟨-, rfl⟩ | rfl
    · exact plain member
    · exact plain (List.mem_append_right _ (List.mem_cons_of_mem _ member))
  have plainBefore : NoNul before := by
    intro member
    rcases shape with ⟨rfl, -⟩ | rfl
    · cases member
    · exact plain (List.mem_append_left _ member)
  rw [headerName, readName, same]
  simp only [Option.getD_some, readText_putString plainEntry short, readText_putString plainBefore shortBefore]
  by_cases empty : before = []
  · rw [if_pos empty, empty, if_pos utf8_nil]
  · rw [if_neg empty, if_neg (utf8_ne_nil empty), utf8_append]
    rfl

theorem trimLoop_sublist (text : Text) : (trimLoop left text).Sublist text := by
  induction text generalizing left with
  | nil => exact List.Sublist.slnil
  | cons char text ih =>
      rw [trimLoop]
      split
      · exact List.nil_sublist _
      · exact (ih _).cons_cons char

theorem length_trimLoop (text : Text) : (utf8 (trimLoop left text)).length ≤ left := by
  induction text generalizing left with
  | nil => exact Nat.zero_le _
  | cons char text ih =>
      rw [trimLoop]
      split
      · exact Nat.zero_le _
      rename_i fits
      have rest := ih (left - (String.utf8EncodeChar char).length)
      rw [utf8_cons, List.length_append]
      omega

theorem trimLoop_eq {left : Nat} {text : Text} (fits : (utf8 text).length ≤ left) : trimLoop left text = text := by
  induction text generalizing left with
  | nil => rfl
  | cons char text ih =>
      rw [utf8_cons, List.length_append] at fits
      rw [trimLoop]
      rw [if_neg (by omega), ih (by omega)]

theorem noNul_trimUtf8ToMax {text : Text} (plain : NoNul text) (maxBytes : Nat) : NoNul (trimUtf8ToMax text maxBytes) := by
  intro member
  obtain ⟨char, inside, lone⟩ := List.mem_flatMap.mp ((trimLoop_sublist _ _).subset member)
  rw [loneChars] at lone
  split at lone
  · exact plain (List.mem_singleton.mp lone ▸ inside)
  · revert lone
    decide

def readLink (linkName : Text) : Text :=
  if (utf8 linkName).length > 100 then linkName else trimUtf8ToMax linkName 100

theorem headerLink_eq {linkName : Text} (plain : NoNul linkName) :
    headerLink linkName = utf8 (trimUtf8ToMax linkName 100) := by
  have kept : (if linkName = [] then [] else trimUtf8ToMax linkName 100) = trimUtf8ToMax linkName 100 := by
    split
    · rename_i empty
      rw [empty]
      rfl
    · rfl
  rw [headerLink, kept]
  exact readText_putString (noNul_trimUtf8ToMax plain 100) (length_trimLoop _ _)

theorem utf8_recordText (key value : Text) (length : Nat) :
    utf8 (recordText key value length) = recordBytes length (utf8 key) (utf8 value) := by
  rw [recordText, recordBytes, utf8_append, utf8_cons, utf8_append, utf8_cons, utf8_append]
  rfl

theorem length_recordText (key value : Text) (length : Nat) :
    (utf8 (recordText key value length)).length =
      (utf8 key).length + (utf8 value).length + 3 + (numeral 10 length).length := by
  rw [utf8_recordText, recordBytes, List.length_append,
    utf8_ascii fun _ => ascii_of_mem (by decide) (by decide), List.length_map]
  simp only [List.length_cons, List.length_append, List.length_nil]
  omega

theorem length_numeral_mono {left right : Nat} (below : left ≤ right) :
    (numeral 10 left).length ≤ (numeral 10 right).length := by
  have some_left := @length_numeral_pos 10 right
  exact (length_numeral_le (by decide) some_left).mpr
    (Nat.lt_of_le_of_lt below ((length_numeral_le (by decide) some_left).mp (Nat.le_refl _)))

theorem recordLoop_spec {key value : Text} {steps length : Nat}
    (grows : length ≤ (utf8 (recordText key value length)).length)
    (bounded : length ≤ 2 * ((utf8 key).length + (utf8 value).length + 3) + 1)
    (enough : 2 * ((utf8 key).length + (utf8 value).length + 3) + 1 < length + steps) :
    ∃ own, recordLoop key value steps length = recordText key value own ∧
      (utf8 (recordText key value own)).length = own := by
  induction steps generalizing length with
  | zero => omega
  | succ steps ih =>
      rw [recordLoop]
      split
      · rename_i right
        exact ⟨length, rfl, right⟩
      rename_i wrong
      have size := length_recordText key value length
      have digits := length_numeral_mono bounded
      have bound : (numeral 10 (2 * ((utf8 key).length + (utf8 value).length + 3) + 1)).length ≤
          (utf8 key).length + (utf8 value).length + 3 + 1 := by
        rw [length_numeral_le (by decide) (Nat.succ_pos _), Nat.pow_succ]
        have power : (utf8 key).length + (utf8 value).length + 3 <
          10 ^ ((utf8 key).length + (utf8 value).length + 3) := Nat.lt_pow_self (by decide)
        omega
      refine ih ?_ (by omega) (by omega)
      have next := length_recordText key value (utf8 (recordText key value length)).length
      have more := length_numeral_mono grows
      omega

theorem paxRecord_spec (key value : Text) :
    ∃ own, utf8 (paxRecord key value) = recordBytes own (utf8 key) (utf8 value) ∧
      (recordBytes own (utf8 key) (utf8 value)).length = own := by
  have start := length_recordText key value 0
  have one : (numeral 10 0).length = 1 := rfl
  obtain ⟨own, loop, right⟩ := @recordLoop_spec key value (2 * (utf8 (recordText key value 0)).length) 0
    (Nat.zero_le _) (Nat.zero_le _) (by omega)
  refine ⟨own, ?_, ?_⟩
  · rw [paxRecord, loop, utf8_recordText]
  · rwa [utf8_recordText] at right

theorem readRecords_paxRecords {records : List (Text × Text)} (plain : ∀ record ∈ records, 61 ∉ utf8 record.1) :
    readRecords (paxBody records) =
      some (records.map fun record => (utf8 record.1, utf8 record.2)) := by
  induction records with
  | nil =>
      rw [paxBody, List.flatMap_nil, utf8_nil, readRecords, if_pos rfl]
      rfl
  | cons record records ih =>
      rw [List.forall_mem_cons] at plain
      obtain ⟨own, bytes, right⟩ := paxRecord_spec record.1 record.2
      rw [paxBody, List.flatMap_cons, utf8_append, bytes, readRecords_recordBytes plain.1 right, ← paxBody, ih plain.2]
      rfl

theorem paxRecords_keys (name linkName : Text) : ∀ record ∈ paxRecords name linkName, 61 ∉ utf8 record.1 := by
  intro record member
  rcases List.mem_append.mp member with path | link
  · split at path
    · rw [List.mem_singleton.mp path]
      exact (by decide : 61 ∉ utf8 ['p', 'a', 't', 'h'])
    · cases path
  · split at link
    · rw [List.mem_singleton.mp link]
      exact (by decide : 61 ∉ utf8 ['l', 'i', 'n', 'k', 'p', 'a', 't', 'h'])
    · cases link

def readPax (name linkName : Text) : List (Bytes × Bytes) :=
  (paxRecords name linkName).map fun record => (utf8 record.1, utf8 record.2)

theorem overridden_path (name linkName : Text) (own : Bytes) :
    overridden (readPax name linkName) pathKey own = if splitUstarName name = none then utf8 name else own := by
  rw [readPax, paxRecords]
  split <;> split <;> rfl

theorem overridden_linkpath (name linkName : Text) (own : Bytes) :
    overridden (readPax name linkName) linkpathKey own =
      if (utf8 linkName).length > 100 then utf8 linkName else own := by
  rw [readPax, paxRecords]
  split <;> split <;> rfl

theorem entryOf_headers {name linkName : Text} (plainName : NoNul name) (plainLink : NoNul linkName)
    (mode size time : Nat) (typeFlag : Bytes) (data : Bytes) :
    entryOf (readPax name linkName) ⟨headerName name, mode, size, time, typeFlag, headerLink linkName⟩ data =
      some ⟨readName name, typeFlag, mode, time, readLink linkName, data⟩ := by
  have nameRead : fromUtf8 (overridden (readPax name linkName) pathKey (headerName name)) = some (readName name) := by
    rw [overridden_path]
    by_cases split : splitUstarName name = none
    · rw [if_pos split, readName, split, fromUtf8_utf8]
    · rw [if_neg split, headerName_eq plainName split, fromUtf8_utf8]
  have linkRead : fromUtf8 (overridden (readPax name linkName) linkpathKey (headerLink linkName)) =
      some (readLink linkName) := by
    rw [overridden_linkpath, readLink]
    by_cases long : (utf8 linkName).length > 100
    · rw [if_pos long, if_pos long, fromUtf8_utf8]
    · rw [if_neg long, if_neg long, headerLink_eq plainLink, fromUtf8_utf8]
  rw [entryOf]
  dsimp only
  rw [nameRead, linkRead]
  rfl

theorem length_padding (size : Nat) : (padding size).length = (512 - size % 512) % 512 := List.length_replicate ..

theorem readEntries_block {records : List (Bytes × Bytes)} {name linkName : Text} {data rest : Bytes} {mtime : Int}
    {mode : Nat} {typeFlag : Char} (modeSmall : mode < 8 ^ 7) (sizeSmall : data.length < 8 ^ 11) :
    readEntries records (writeTarHeader name data.length mtime mode typeFlag linkName ++
        (data ++ (padding data.length ++ rest))) =
      if unsigned mtime < 8 ^ 11 then
        if [UInt8.ofNat typeFlag.toNat] = [120] then (readRecords data).bind fun records => readEntries records rest
        else
          (entryOf records ⟨headerName name, mode, data.length, unsigned mtime, [UInt8.ofNat typeFlag.toNat],
            headerLink linkName⟩ data).bind fun entry => (readEntries [] rest).map (entry :: ·)
      else none := by
  have block := @length_writeTarHeader name linkName data.length mode mtime typeFlag
  have front : (writeTarHeader name data.length mtime mode typeFlag linkName ++
      (data ++ (padding data.length ++ rest))).take 512 =
        writeTarHeader name data.length mtime mode typeFlag linkName := List.take_left' block
  have back : (writeTarHeader name data.length mtime mode typeFlag linkName ++
      (data ++ (padding data.length ++ rest))).drop 512 = data ++ (padding data.length ++ rest) :=
    List.drop_left' block
  have behind : (writeTarHeader name data.length mtime mode typeFlag linkName ++
      (data ++ (padding data.length ++ rest))).drop (512 + paddedSize data.length) = rest := by
    rw [← List.drop_drop, back, paddedSize, ← List.drop_drop, List.drop_left]
    exact List.drop_left' (length_padding _)
  rw [readEntries, dif_neg (by rw [List.length_append, block]; omega), front, if_neg writeTarHeader_ne_zeros,
    readHeader_writeTarHeader modeSmall sizeSmall]
  by_cases fits : unsigned mtime < 8 ^ 11
  · rw [if_pos fits, if_pos fits]
    simp only [back, behind, List.take_left, lt_irrefl, if_false]
  · rw [if_neg fits, if_neg fits]

theorem readEntries_writeTarEntry {name linkName : Text} {data : Bytes} {mtime : Int} {mode : Nat} {typeFlag : Char}
    (plainName : NoNul name) (plainLink : NoNul linkName) (modeSmall : mode < 8 ^ 7)
    (flag : UInt8.ofNat typeFlag.toNat ≠ 120)
    (fitsArray : (writeTarEntry name data mtime mode typeFlag linkName).length < 2 ^ 31) (rest : Bytes) :
    readEntries [] (writeTarEntry name data mtime mode typeFlag linkName ++ rest) =
      if unsigned mtime < 8 ^ 11 then
        (readEntries [] rest).map (⟨readName name, [UInt8.ofNat typeFlag.toNat], mode, unsigned mtime,
          readLink linkName, data⟩ :: ·)
      else none := by
  have flags : [UInt8.ofNat typeFlag.toNat] ≠ [120] := fun same => flag (List.cons.inj same).1
  have dataSmall : data.length < 8 ^ 11 := by
    have whole := fitsArray
    rw [writeTarEntry, List.length_append, List.length_append] at whole
    omega
  have own := @readEntries_block (readPax name linkName) name linkName data rest mtime mode typeFlag modeSmall dataSmall
  rw [if_neg flags, entryOf_headers plainName plainLink, Option.bind_some] at own
  by_cases plain : paxRecords name linkName = []
  · have none_read : readPax name linkName = [] := by rw [readPax, plain, List.map_nil]
    rw [none_read] at own
    rw [writeTarEntry, writePaxHeaderIfNeeded, plain]
    simp only [if_true, List.nil_append, List.append_assoc]
    exact own
  have bodySmall : (paxBody (paxRecords name linkName)).length < 8 ^ 11 := by
    have whole := fitsArray
    simp only [writeTarEntry, writePaxHeaderIfNeeded, plain, if_false, List.length_append] at whole
    omega
  simp only [writeTarEntry, writePaxHeaderIfNeeded, plain, if_false, List.append_assoc]
  rw [readEntries_block (by decide) bodySmall, readRecords_paxRecords (paxRecords_keys name linkName)]
  by_cases fits : unsigned mtime < 8 ^ 11
  · rw [if_pos fits, if_pos (by decide), Option.bind_some]
    exact own
  · rw [if_neg fits, if_neg fits]

end PDocker.Context.Tar
