import PDocker.Data.Numerals
import PDocker.Data.Utf8

/-!
# Request bodies

The body of a request comes in chunks or with a length. It is read into memory by
one decoder and into a file by another.
-/

set_option autoImplicit false

namespace PDocker.Engine

open Data

/-- What stands behind `0x` and the underscore that may follow it. -/
def withoutPrefix (base : Nat) : Text → Text
  | '0' :: mark :: rest =>
      if base = 16 ∧ (mark = 'x' ∨ mark = 'X') then if rest.head? = some '_' then rest.drop 1 else rest
      else '0' :: mark :: rest
  | text => text

def underscored (base : Nat) (text : Text) : Option Nat :=
  let groups := splitParts '_' text
  if groups.all fun digits => !digits.isEmpty && digits.all (isDigit base) then
    some (numeralValue base groups.flatten)
  else none

/-- `int(text, base)` of a text without spaces around it. -/
def parseInt (base : Nat) (text : Text) : Option Int :=
  match text with
  | '+' :: rest => (underscored base (withoutPrefix base rest)).map Int.ofNat
  | '-' :: rest => (underscored base (withoutPrefix base rest)).map fun n => -Int.ofNat n
  | text => (underscored base (withoutPrefix base text)).map Int.ofNat

inductive ReadError where
  | connection (message : String)
  | value
  | overflow
  deriving DecidableEq

/-- `readline()`: a line with its newline, and what follows it. -/
def readline : Bytes → Bytes × Bytes
  | [] => ([], [])
  | byte :: rest => if byte = 10 then ([byte], rest) else (byte :: (readline rest).1, (readline rest).2)

/-- How many bytes `read(size)` gets. -/
def read (size : Int) (stream : Bytes) : Except ReadError Nat :=
  if size < -2 ^ 63 ∨ 2 ^ 63 ≤ size then .error .overflow
  else if size < -1 then .error .value
  else if size = -1 then .ok stream.length
  else .ok (min size.toNat stream.length)

theorem read_le {size : Int} {stream : Bytes} {count : Nat} (result : read size stream = .ok count) :
    count ≤ stream.length := by
  rw [read] at result
  repeat' split at result
  all_goals cases result
  · exact Nat.le_refl _
  · exact Nat.min_le_right _ _

/-- The loop that reads `remaining` bytes in pieces of up to a megabyte: how many it gets. -/
def readRemaining (message : String) (remaining : Int) (stream : Bytes) : Except ReadError Nat :=
  if remaining = 0 then .ok 0
  else
    match _ : read (min remaining 1048576) stream with
    | .error error => .error error
    | .ok count =>
        if _ : count = 0 then .error (.connection message)
        else (readRemaining message (remaining - count) (stream.drop count)).map (count + ·)
  termination_by stream.length
  decreasing_by
    have := read_le ‹read _ _ = _›
    rw [List.length_drop]
    omega

def isAsciiSpace (byte : UInt8) : Bool := (9 ≤ byte && byte ≤ 13) || byte = 32

/-- `strip()` of bytes -/
def stripBytes (bytes : Bytes) : Bytes := (bytes.dropWhile isAsciiSpace).rdropWhile isAsciiSpace

def latin1 (bytes : Bytes) : Text := bytes.map fun byte => Char.ofNat byte.toNat

/-- `int(line.split(b";")[0], 16)` -/
def chunkSize (line : Bytes) : Option Int :=
  parseInt 16 (latin1 (stripBytes (line.takeWhile (· ≠ 59))))

theorem readline_append (stream : Bytes) : (readline stream).1 ++ (readline stream).2 = stream := by
  induction stream with
  | nil => rfl
  | cons byte rest ih =>
      rw [readline]
      split
      · rfl
      · rw [List.cons_append, ih]

theorem readline_shorter {stream : Bytes} (filled : (readline stream).1 ≠ []) :
    (readline stream).2.length < stream.length := by
  have whole := congrArg List.length (readline_append stream)
  rw [List.length_append] at whole
  have positive := List.length_pos_of_ne_nil filled
  omega

theorem readline_le (stream : Bytes) : (readline stream).2.length ≤ stream.length := by
  have whole := congrArg List.length (readline_append stream)
  rw [List.length_append] at whole
  omega

/-- The loop over the chunks of both decoders, which read the data of a chunk differently:
the body, and the stream behind it. -/
def readChunks (readData : Int → Bytes → Except ReadError Nat) (stream out : Bytes) :
    Except ReadError (Bytes × Bytes) :=
  if _ : (readline stream).1 = [] then
    .error (.connection "unexpected EOF while reading chunked body")
  else if stripBytes (readline stream).1 = [] then readChunks readData (readline stream).2 out
  else
    match chunkSize (stripBytes (readline stream).1) with
    | none => .ok (out, (readline stream).2)
    | some size =>
        if size = 0 then .ok (out, (readline (readline stream).2).2)
        else
          match readData size (readline stream).2 with
          | .error error => .error error
          | .ok count =>
              readChunks readData (readline ((readline stream).2.drop count)).2
                (out ++ (readline stream).2.take count)
  termination_by stream.length
  decreasing_by
    · exact readline_shorter ‹_›
    have := readline_shorter ‹(readline stream).1 ≠ []›
    have := readline_le ((readline stream).2.drop count)
    rw [List.length_drop] at this
    omega

structure Request where
  transferEncoding : Text
  contentLength : Option Text
  stream : Bytes

def Request.chunked (request : Request) : Bool :=
  decide (request.transferEncoding.map Char.toLower = "chunked".toList)

/-- `int(self.headers.get("Content-Length") or 0)` -/
def Request.length (request : Request) : Option Int :=
  match request.contentLength with
  | none | some [] => some 0
  | some text => parseInt 10 (stripSpace text)

def readLength (readData : Int → Bytes → Except ReadError Nat) (request : Request) :
    Except ReadError (Bytes × Bytes) :=
  match request.length with
  | none => .error .value
  | some length =>
      if length = 0 then .ok ([], request.stream)
      else (readData length request.stream).map fun count =>
        (request.stream.take count, request.stream.drop count)

/-- `_read_body`: the body, and the stream behind it. -/
def readBody (request : Request) : Except ReadError (Bytes × Bytes) :=
  if request.chunked then readChunks read request.stream [] else readLength read request

/-- `_read_body_to_temp`: the content of the file, and the stream behind it. -/
def readBodyToTemp (request : Request) : Except ReadError (Bytes × Bytes) :=
  if request.chunked then
    readChunks (readRemaining "unexpected EOF while reading chunked body") request.stream []
  else readLength (readRemaining "unexpected EOF while reading request body") request

structure Gets (readData : Int → Bytes → Except ReadError Nat) : Prop where
  negative : ∀ size stream count, readData size stream = .ok count → size < 0 → count = stream.length
  short : ∀ size stream count, readData size stream = .ok count → 0 ≤ size → count = min size.toNat stream.length

theorem gets_read : Gets read where
  negative := by
    intro size stream count result below
    rw [read] at result
    repeat' split at result
    all_goals cases result
    · rfl
    · omega
  short := by
    intro size stream count result above
    rw [read] at result
    repeat' split at result
    all_goals cases result
    · omega
    · rfl

theorem read_nat {size : Nat} (small : size < 2 ^ 63) (stream : Bytes) :
    read size stream = .ok (min size stream.length) := by
  rw [read, if_neg (by omega), if_neg (by omega), if_neg (by omega), Int.toNat_natCast]

theorem read_overflow {size : Int} (large : 2 ^ 63 ≤ size) (stream : Bytes) : read size stream = .error .overflow := by
  rw [read, if_pos (.inr large)]

variable {message : String}

theorem readRemaining_nat (size : Nat) (stream : Bytes) : readRemaining message size stream =
      if size ≤ stream.length then .ok size else .error (.connection message) := by
  induction left : stream.length using Nat.strong_induction_on generalizing size stream with
  | _ length ih =>
      rw [readRemaining]
      by_cases zero : size = 0
      · subst zero
        rw [if_pos Nat.cast_zero, if_pos (Nat.zero_le _)]
      have piece : min (size : Int) 1048576 = (min size 1048576 : Nat) := by omega
      rw [if_neg (by omega), piece]
      split
      · rename_i error result
        rw [read_nat (by omega)] at result
        cases result
      rename_i count result
      rw [read_nat (by omega)] at result
      have counted := Except.ok.inj result
      split
      · rw [if_neg (by omega)]
      have rest : (size : Int) - count = (size - count : Nat) := by omega
      rw [rest, ih (stream.drop count).length (by rw [List.length_drop]; omega) (size - count) _ rfl, List.length_drop]
      by_cases enough : size ≤ length
      · rw [if_pos (by omega), if_pos enough]
        change Except.ok (count + (size - count)) = _
        rw [Nat.add_sub_cancel' (by omega)]
      · rw [if_neg (by omega), if_neg enough]
        rfl

theorem readRemaining_negative {size : Int} (below : size < 0) (stream : Bytes) :
    ∃ error, readRemaining message size stream = .error error := by
  have refused (size : Int) (below : size < -1) (stream : Bytes) : ∃ error, readRemaining message size stream = .error error := by
    rw [readRemaining, if_neg (by omega), min_eq_left (by omega)]
    split
    · exact ⟨_, rfl⟩
    rename_i count result
    rw [read] at result
    repeat' split at result
    all_goals cases result
  by_cases last : size = -1
  · subst last
    rw [readRemaining, if_neg (by omega)]
    split
    · exact ⟨_, rfl⟩
    rename_i count result
    split
    · exact ⟨_, rfl⟩
    · obtain ⟨error, result⟩ := refused (-1 - count) (by omega) (stream.drop count)
      exact ⟨error, by rw [result]; rfl⟩
  · exact refused size (by omega) stream

theorem gets_readRemaining : Gets (readRemaining message) where
  negative := by
    intro size stream count result below
    obtain ⟨error, refused⟩ := @readRemaining_negative message size below stream
    cases refused.symm.trans result
  short := by
    intro size stream count result above
    obtain ⟨n, rfl⟩ := Int.eq_ofNat_of_zero_le above
    rw [readRemaining_nat] at result
    split at result
    · cases result
      rw [Int.toNat_natCast]
      omega
    · cases result

def Extension (bytes : Bytes) : Prop :=
  bytes = [] ∨ ∃ blanks rest, (∀ byte ∈ blanks, byte = 32 ∨ byte = 9) ∧ 10 ∉ rest ∧ bytes = blanks ++ 59 :: rest

def crlf : Bytes := [13, 10]

def SizeLine (line : Bytes) (size : Nat) : Prop :=
  ∃ digits extension, digits ≠ [] ∧ (latin1 digits).all (isDigit 16) = true ∧ numeralValue 16 (latin1 digits) = size ∧
    Extension extension ∧ line = digits ++ extension ++ crlf

/-- A complete message: its chunks, of which the last one is empty, and the fields behind them. -/
inductive Message : List Bytes → Bytes → Prop where
  | last {line : Bytes} (fields : List Bytes) (zero : SizeLine line 0) (trailer : ∀ field ∈ fields, field ≠ [] ∧ 10 ∉ field) :
      Message [] (line ++ fields.flatMap (· ++ crlf) ++ crlf)
  | chunk {line data : Bytes} {chunks : List Bytes} {rest : Bytes} (size : SizeLine line data.length) (filled : data ≠ [])
      (more : Message chunks rest) : Message (data :: chunks) (line ++ data ++ crlf ++ rest)

/-- The lines of the stream, each with as much data behind it as it announces, come to the end
of the stream or to a negative size, and to none before that is no size or zero. -/
inductive RunsOut : Bytes → Prop where
  | ended : RunsOut []
  | blank {stream : Bytes} (line : stripBytes (readline stream).1 = []) (rest : RunsOut (readline stream).2) :
      RunsOut stream
  | negative {stream : Bytes} {size : Int} (line : chunkSize (stripBytes (readline stream).1) = some size)
      (below : size < 0) : RunsOut stream
  | chunk {stream : Bytes} {size : Nat} (line : chunkSize (stripBytes (readline stream).1) = some (size : Int))
      (positive : size ≠ 0) (rest : RunsOut (readline ((readline stream).2.drop size)).2) : RunsOut stream

theorem readline_line {line : Bytes} (within : 10 ∉ line) (rest : Bytes) :
    readline (line ++ 10 :: rest) = (line ++ [10], rest) := by
  induction line with
  | nil => rfl
  | cons byte line ih =>
      rw [List.mem_cons, not_or] at within
      rw [List.cons_append, readline, if_neg (Ne.symm within.1), ih within.2]
      rfl

theorem withoutPrefix_digits {digits : Text} (hex : digits.all (isDigit 16) = true) :
    withoutPrefix 16 digits = digits := by
  rw [withoutPrefix.eq_def]
  split
  · rename_i mark rest
    have inside : isDigit 16 mark = true := List.all_eq_true.mp hex mark (by simp)
    rw [if_neg]
    rintro ⟨-, rfl | rfl⟩ <;> cases inside
  · rfl

theorem underscored_digits {base : Nat} {digits : Text} (narrow : base ≤ 16) (filled : digits ≠ [])
    (based : digits.all (isDigit base) = true) : underscored base digits = some (numeralValue base digits) := by
  have away : '_' ∉ digits := by
    intro member
    have value : 16 < base := of_decide_eq_true (List.all_eq_true.mp based '_' member)
    omega
  rw [underscored, splitParts_whole away]
  simp [filled, based]

theorem parseInt_digits {digits : Text} (filled : digits ≠ []) (hex : digits.all (isDigit 16) = true) :
    parseInt 16 digits = some (numeralValue 16 digits : Nat) := by
  have plain : parseInt 16 digits = (underscored 16 (withoutPrefix 16 digits)).map Int.ofNat := by
    rw [parseInt.eq_def]
    split
    · cases List.all_eq_true.mp hex '+' List.mem_cons_self
    · cases List.all_eq_true.mp hex '-' List.mem_cons_self
    · rfl
  rw [plain, withoutPrefix_digits hex, underscored_digits (Nat.le_refl 16) filled hex]
  rfl

theorem hex_byte : ∀ code < 256, isDigit 16 (Char.ofNat code) = true → ¬ (9 ≤ code ∧ code ≤ 13) ∧ code ≠ 32 ∧ code ≠ 59 := by
  decide +kernel

theorem digit_byte {digits : Bytes} (hex : (latin1 digits).all (isDigit 16) = true) {byte : UInt8}
    (member : byte ∈ digits) : isAsciiSpace byte = false ∧ byte ≠ 10 ∧ byte ≠ 59 := by
  have inside := List.all_eq_true.mp hex _ (List.mem_map_of_mem member)
  obtain ⟨noControl, noSpace, noSemicolon⟩ := hex_byte byte.toNat byte.toNat_lt inside
  refine ⟨?_, ?_, ?_⟩
  · rw [isAsciiSpace, Bool.or_eq_false_iff]
    refine ⟨?_, decide_eq_false fun same => noSpace (congrArg UInt8.toNat same)⟩
    rw [Bool.and_eq_false_iff, decide_eq_false_iff_not, decide_eq_false_iff_not, UInt8.le_iff_toNat_le, UInt8.le_iff_toNat_le]
    exact not_and_or.mp noControl
  · rintro rfl
    exact noControl (by decide)
  · rintro rfl
    exact noSemicolon rfl

theorem rdropWhile_spaces {digits blanks : Bytes} (spaces : ∀ byte ∈ blanks, isAsciiSpace byte = true) :
    (digits ++ blanks).rdropWhile isAsciiSpace = digits.rdropWhile isAsciiSpace := by
  induction blanks using List.reverseRecOn with
  | nil => rw [List.append_nil]
  | append_singleton blanks last ih =>
      rw [← List.append_assoc, List.rdropWhile_concat_pos _ _ _ (spaces last (by simp))]
      exact ih fun byte member => spaces byte (by simp [member])

theorem rdropWhile_stop {left right : Bytes} {byte : UInt8} (ink : isAsciiSpace byte = false) :
    ∃ kept, (left ++ byte :: right).rdropWhile isAsciiSpace = left ++ byte :: kept := by
  induction right using List.reverseRecOn with
  | nil => exact ⟨[], List.rdropWhile_concat_neg _ _ _ (by rw [ink]; decide)⟩
  | append_singleton right last ih =>
      have whole : left ++ byte :: (right ++ [last]) = left ++ byte :: right ++ [last] := by simp
      rw [whole]
      by_cases space : isAsciiSpace last = true
      · rw [List.rdropWhile_concat_pos _ _ _ space]
        exact ih
      · exact ⟨right ++ [last], by rw [List.rdropWhile_concat_neg _ _ _ space, whole]⟩

theorem stripBytes_ink {byte : UInt8} {rest : Bytes} (ink : isAsciiSpace byte = false) :
    stripBytes (byte :: rest) = (byte :: rest).rdropWhile isAsciiSpace := by
  rw [stripBytes, List.dropWhile_cons_of_neg (by rw [ink]; decide)]

variable {digits : Bytes}

theorem stripBytes_digits (filled : digits ≠ []) (hex : (latin1 digits).all (isDigit 16) = true) {blanks : Bytes}
    (spaces : ∀ byte ∈ blanks, isAsciiSpace byte = true) : stripBytes (digits ++ blanks) = digits := by
  have kept : digits.rdropWhile isAsciiSpace = digits := by
    rw [List.rdropWhile_eq_self_iff]
    intro _
    rw [(digit_byte hex (List.getLast_mem filled)).1]
    decide
  obtain ⟨first, more, rfl⟩ := List.exists_cons_of_ne_nil filled
  rw [List.cons_append, stripBytes_ink (digit_byte hex List.mem_cons_self).1, ← List.cons_append,
    rdropWhile_spaces spaces, kept]

theorem chunkSize_digits (filled : digits ≠ []) (hex : (latin1 digits).all (isDigit 16) = true) {blanks line : Bytes}
    (spaces : ∀ byte ∈ blanks, isAsciiSpace byte = true) (upTo : line.takeWhile (· ≠ 59) = digits ++ blanks) :
    chunkSize line = some (numeralValue 16 (latin1 digits) : Nat) := by
  have text : latin1 digits ≠ [] := fun empty => filled (List.map_eq_nil_iff.mp empty)
  rw [chunkSize, upTo, stripBytes_digits filled hex spaces, parseInt_digits text hex]

theorem SizeLine.read {line : Bytes} {size : Nat} (announces : SizeLine line size) (rest : Bytes) :
    readline (line ++ rest) = (line, rest) ∧ line ≠ [] ∧ stripBytes line ≠ [] ∧
      chunkSize (stripBytes line) = some (size : Int) := by
  obtain ⟨digits, extension, filled, hex, value, extended, rfl⟩ := announces
  have newline : 10 ∉ digits ++ extension ++ [13] := by
    have digits10 : (10 : UInt8) ∉ digits := fun member => (digit_byte hex member).2.1 rfl
    rcases extended with rfl | ⟨blanks, more, spaces, within, rfl⟩
    · simp [digits10]
    have blanks10 : (10 : UInt8) ∉ blanks := by
      intro member
      rcases spaces 10 member with same | same <;> cases same
    simp [digits10, blanks10, within]
  have whole : digits ++ extension ++ crlf = digits ++ extension ++ [13] ++ [10] := by
    simp [crlf]
  have semicolon : 59 ∉ digits := fun member => (digit_byte hex member).2.2 rfl
  refine ⟨?_, ?_, ?_⟩
  · rw [whole, List.append_assoc, List.singleton_append, readline_line newline]
  · exact List.append_ne_nil_of_right_ne_nil _ nofun
  subst value
  rcases extended with rfl | ⟨blanks, more, spaces, -, rfl⟩
  · have white : ∀ byte ∈ crlf, isAsciiSpace byte = true := List.all_eq_true.mp rfl
    rw [List.append_nil, stripBytes_digits filled hex white]
    refine ⟨filled, @chunkSize_digits digits filled hex [] digits nofun ?_⟩
    rw [List.append_nil, List.takeWhile_eq_self_iff]
    intro byte member
    exact decide_eq_true fun same => semicolon (same ▸ member)
  have white : ∀ byte ∈ blanks, isAsciiSpace byte = true := by
    intro byte member
    rcases spaces byte member with rfl | rfl <;> rfl
  have line : digits ++ (blanks ++ 59 :: more) ++ crlf = digits ++ blanks ++ 59 :: (more ++ crlf) := by simp
  obtain ⟨kept, trimmed⟩ := @rdropWhile_stop (digits ++ blanks) (more ++ crlf) 59 rfl
  have stripped : stripBytes (digits ++ (blanks ++ 59 :: more) ++ crlf) = digits ++ blanks ++ 59 :: kept := by
    rw [line, ← trimmed]
    obtain ⟨first, others, rfl⟩ := List.exists_cons_of_ne_nil filled
    exact stripBytes_ink (digit_byte hex List.mem_cons_self).1
  rw [stripped]
  refine ⟨List.append_ne_nil_of_right_ne_nil _ nofun, chunkSize_digits filled hex white ?_⟩
  rw [List.takeWhile_append_of_pos, List.takeWhile_cons_of_neg (by decide), List.append_nil]
  intro byte member
  refine decide_eq_true fun same => ?_
  subst same
  rcases List.mem_append.mp member with member | member
  · exact semicolon member
  · rcases spaces 59 member with same | same <;> cases same

variable {readData : Int → Bytes → Except ReadError Nat} {stream : Bytes}

theorem readChunks_ended (out : Bytes) :
    readChunks readData [] out = .error (.connection "unexpected EOF while reading chunked body") := by
  rw [readChunks, dif_pos (by rw [readline])]

theorem readline_filled (ink : stripBytes (readline stream).1 ≠ []) : (readline stream).1 ≠ [] := by
  intro nothing
  rw [nothing] at ink
  exact ink rfl

theorem ink_of_size {size : Int} (found : chunkSize (stripBytes (readline stream).1) = some size) :
    stripBytes (readline stream).1 ≠ [] := by
  intro nothing
  rw [nothing] at found
  cases found

theorem readChunks_blank (filled : stream ≠ []) (blank : stripBytes (readline stream).1 = []) (out : Bytes) :
    readChunks readData stream out = readChunks readData (readline stream).2 out := by
  have line : (readline stream).1 ≠ [] := by
    obtain ⟨first, rest, rfl⟩ := List.exists_cons_of_ne_nil filled
    rw [readline]
    split <;> nofun
  rw [readChunks, dif_neg line, if_pos blank]

theorem readChunks_stop (ink : stripBytes (readline stream).1 ≠ [])
    (none : chunkSize (stripBytes (readline stream).1) = none) (out : Bytes) :
    readChunks readData stream out = .ok (out, (readline stream).2) := by
  rw [readChunks, dif_neg (readline_filled ink), if_neg ink]
  simp only [none]

theorem readChunks_zero (zero : chunkSize (stripBytes (readline stream).1) = some 0) (out : Bytes) :
    readChunks readData stream out = .ok (out, (readline (readline stream).2).2) := by
  have ink := ink_of_size zero
  rw [readChunks, dif_neg (readline_filled ink), if_neg ink]
  simp only [zero, if_true]

theorem readChunks_error {size : Int} {error : ReadError} (found : chunkSize (stripBytes (readline stream).1) = some size)
    (nonzero : size ≠ 0) (refused : readData size (readline stream).2 = .error error) (out : Bytes) :
    readChunks readData stream out = .error error := by
  have ink := ink_of_size found
  rw [readChunks, dif_neg (readline_filled ink), if_neg ink]
  simp only [found, if_neg nonzero, refused]

theorem readChunks_data {size : Int} {count : Nat} (found : chunkSize (stripBytes (readline stream).1) = some size)
    (nonzero : size ≠ 0) (got : readData size (readline stream).2 = .ok count) (out : Bytes) :
    readChunks readData stream out =
      readChunks readData (readline ((readline stream).2.drop count)).2 (out ++ (readline stream).2.take count) := by
  have ink := ink_of_size found
  rw [readChunks, dif_neg (readline_filled ink), if_neg ink]
  simp only [found, if_neg nonzero, got]

variable {chunks : List Bytes} {message : Bytes}

theorem readChunks_line {line : Bytes} {size : Nat} (announces : SizeLine line size) (nonzero : size ≠ 0) {data rest : Bytes}
    (length : data.length = size) (got : readData size (data ++ crlf ++ rest) = .ok size) (out : Bytes) :
    readChunks readData (line ++ (data ++ crlf ++ rest)) out = readChunks readData rest (out ++ data) := by
  obtain ⟨read, -, -, found⟩ := announces.read (data ++ crlf ++ rest)
  have line_eq : (readline (line ++ (data ++ crlf ++ rest))).1 = line := by rw [read]
  have rest_eq : (readline (line ++ (data ++ crlf ++ rest))).2 = data ++ crlf ++ rest := by rw [read]
  rw [readChunks_data (by rw [line_eq]; exact found) (by omega) (by rw [rest_eq]; exact got), rest_eq, ← length,
    List.append_assoc, List.drop_left, List.take_left]
  rfl

theorem readChunks_message (whole : Message chunks message)
    (gets : ∀ chunk ∈ chunks, ∀ rest, readData chunk.length (chunk ++ rest) = .ok chunk.length) (rest out : Bytes) :
    ∃ left, readChunks readData (message ++ rest) out = .ok (out ++ chunks.flatten, left) := by
  induction whole generalizing out with
  | @last line fields zero trailer =>
      rw [List.append_assoc, List.append_assoc]
      obtain ⟨read, -, -, found⟩ := zero.read (fields.flatMap (· ++ crlf) ++ (crlf ++ rest))
      have result := @readChunks_zero readData (line ++ (fields.flatMap (· ++ crlf) ++ (crlf ++ rest)))
        (by rw [read]; exact found) out
      exact ⟨_, result.trans (by rw [List.flatten_nil, List.append_nil])⟩
  | @chunk line data chunks more_bytes size filled more ih =>
      obtain ⟨left, result⟩ := ih (fun chunk member => gets chunk (List.mem_cons_of_mem _ member)) (out ++ data)
      refine ⟨left, ?_⟩
      have got := gets data List.mem_cons_self (crlf ++ (more_bytes ++ rest))
      have stream : line ++ data ++ crlf ++ more_bytes ++ rest = line ++ (data ++ crlf ++ (more_bytes ++ rest)) := by simp
      rw [stream, readChunks_line size (fun zero => filled (List.length_eq_zero_iff.mp zero)) rfl
        (by rw [List.append_assoc]; exact got), result, List.flatten_cons, List.append_assoc]

theorem readChunks_overflow (whole : Message chunks message) (large : ∃ chunk ∈ chunks, 2 ^ 63 ≤ chunk.length)
    (rest out : Bytes) : readChunks read (message ++ rest) out = .error .overflow := by
  induction whole generalizing out with
  | last => exact absurd large (by simp)
  | @chunk line data chunks more_bytes size filled more ih =>
      have nonzero : data.length ≠ 0 := fun zero => filled (List.length_eq_zero_iff.mp zero)
      have stream : line ++ data ++ crlf ++ more_bytes ++ rest = line ++ (data ++ crlf ++ (more_bytes ++ rest)) := by simp
      rw [stream]
      by_cases small : data.length < 2 ^ 63
      · have got : read data.length (data ++ crlf ++ (more_bytes ++ rest)) = .ok data.length := by
          rw [read_nat small, min_eq_left (by simp)]
        rw [readChunks_line size nonzero rfl got]
        refine ih ?_ (out ++ data)
        obtain ⟨chunk, member, large⟩ := large
        rcases List.mem_cons.mp member with rfl | member
        · omega
        · exact ⟨chunk, member, large⟩
      · obtain ⟨read, -, -, found⟩ := size.read (data ++ crlf ++ (more_bytes ++ rest))
        exact readChunks_error (by rw [read]; exact found) (by omega) (read_overflow (by omega) _) out

theorem RunsOut.refused (gets : Gets readData) (runsOut : RunsOut stream) (out : Bytes) :
    ∃ error, readChunks readData stream out = .error error := by
  induction runsOut generalizing out with
  | ended => exact ⟨_, readChunks_ended out⟩
  | @blank stream line rest ih =>
      by_cases nothing : stream = []
      · subst nothing
        exact ⟨_, readChunks_ended out⟩
      · rw [readChunks_blank nothing line]
        exact ih out
  | @negative stream size line below =>
      cases got : readData size (readline stream).2 with
      | error error => exact ⟨error, readChunks_error line (by omega) got out⟩
      | ok count =>
          have all := gets.negative _ _ _ got below
          refine ⟨.connection "unexpected EOF while reading chunked body", ?_⟩
          rw [readChunks_data line (by omega) got, all, List.drop_length]
          exact readChunks_ended _
  | @chunk stream size line positive rest ih =>
      cases got : readData (size : Int) (readline stream).2 with
      | error error => exact ⟨error, readChunks_error line (by omega) got out⟩
      | ok count =>
          have short := gets.short _ _ _ got (by omega)
          have dropped : (readline stream).2.drop count = (readline stream).2.drop size := by
            rw [short, Int.toNat_natCast]
            by_cases enough : size ≤ (readline stream).2.length
            · rw [Nat.min_eq_left enough]
            · rw [Nat.min_eq_right (by omega), List.drop_length, List.drop_eq_nil_of_le (by omega)]
          rw [readChunks_data line (by omega) got, dropped]
          exact ih _

theorem runsOut_of_refused {text : String} {error : ReadError} (stream out : Bytes)
    (refused : readChunks (readRemaining text) stream out = .error error) : RunsOut stream := by
  induction left : stream.length using Nat.strong_induction_on generalizing stream out with
  | _ length ih =>
      by_cases nothing : stream = []
      · subst nothing
        exact .ended
      by_cases blank : stripBytes (readline stream).1 = []
      · refine .blank blank (ih _ ?_ _ out ?_ rfl)
        · have filled : (readline stream).1 ≠ [] := by
            obtain ⟨first, rest, rfl⟩ := List.exists_cons_of_ne_nil nothing
            rw [readline]
            split <;> nofun
          have := readline_shorter filled
          omega
        · rw [← readChunks_blank nothing blank]
          exact refused
      · cases found : chunkSize (stripBytes (readline stream).1) with
        | none =>
            rw [readChunks_stop blank found] at refused
            cases refused
        | some size =>
            by_cases below : size < 0
            · exact .negative found below
            obtain ⟨n, rfl⟩ := Int.eq_ofNat_of_zero_le (Int.not_lt.mp below)
            by_cases zero : n = 0
            · subst zero
              rw [readChunks_zero found] at refused
              cases refused
            refine .chunk found zero ?_
            have shorter := readline_shorter (readline_filled blank)
            have later := readline_le ((readline stream).2.drop n)
            rw [List.length_drop] at later
            by_cases enough : n ≤ (readline stream).2.length
            · have got : readRemaining text n (readline stream).2 = .ok n := by
                rw [readRemaining_nat, if_pos enough]
              rw [readChunks_data found (by omega) got] at refused
              exact ih _ (by omega) _ _ refused rfl
            · rw [List.drop_eq_nil_of_le (by omega)]
              exact .ended

/-! ## Sound decoding -/

def Returns (result : Except ReadError (Bytes × Bytes)) (body : Bytes) : Prop := ∃ left, result = .ok (body, left)

def Refused (result : Except ReadError (Bytes × Bytes)) : Prop := ∃ error, result = .error error

def Complete (stream : Bytes) : Prop := ∃ chunks message rest, Message chunks message ∧ stream = message ++ rest

/-- Both decoders return the body of a message that has come whole, and refuse another. -/
structure SoundChunks (request : Request) : Prop where
  whole : ∀ chunks message rest, Message chunks message → request.stream = message ++ rest →
    Returns (readBody request) chunks.flatten ∧ Returns (readBodyToTemp request) chunks.flatten
  cut : ¬ Complete request.stream → Refused (readBody request) ∧ Refused (readBodyToTemp request)

structure SoundLength (request : Request) (length : Nat) : Prop where
  whole : length ≤ request.stream.length →
    Returns (readBody request) (request.stream.take length) ∧ Returns (readBodyToTemp request) (request.stream.take length)
  cut : request.stream.length < length → Refused (readBody request) ∧ Refused (readBodyToTemp request)

def SoundBody (request : Request) : Prop :=
  if request.chunked then SoundChunks request
  else ∀ length : Nat, request.length = some (length : Int) → 0 < length → SoundLength request length

/-- In chunks of less than 2^63 bytes, or running out of the stream; with a length that
the stream has, unless it is one of the lengths that cannot be read at all. -/
def Decodable (request : Request) : Prop :=
  if request.chunked then
    (∃ chunks message rest, Message chunks message ∧ request.stream = message ++ rest ∧ ∀ chunk ∈ chunks, chunk.length < 2 ^ 63) ∨
      RunsOut request.stream
  else ∀ length : Nat, request.length = some (length : Int) → 0 < length →
    (length ≤ request.stream.length ↔ length < 2 ^ 63)

theorem Returns.not_refused {result : Except ReadError (Bytes × Bytes)} {body : Bytes} (returns : Returns result body) :
    ¬ Refused result := by
  rintro ⟨error, refused⟩
  obtain ⟨left, returned⟩ := returns
  cases returned.symm.trans refused

theorem returns_message {text : String} (whole : Message chunks message) (rest : Bytes) :
    Returns (readChunks (readRemaining text) (message ++ rest) []) chunks.flatten := by
  refine readChunks_message whole (fun chunk _ rest => ?_) rest []
  rw [readRemaining_nat, if_pos (by simp)]

theorem returns_message_read (whole : Message chunks message) (small : ∀ chunk ∈ chunks, chunk.length < 2 ^ 63)
    (rest : Bytes) : Returns (readChunks read (message ++ rest) []) chunks.flatten := by
  refine readChunks_message whole (fun chunk member rest => ?_) rest []
  rw [read_nat (small chunk member), min_eq_left (by simp)]

theorem small_of_returns (whole : Message chunks message) {rest body : Bytes}
    (returns : Returns (readChunks read (message ++ rest) []) body) : ∀ chunk ∈ chunks, chunk.length < 2 ^ 63 := by
  intro chunk member
  refine Nat.lt_of_not_le fun large => returns.not_refused ⟨.overflow, ?_⟩
  exact readChunks_overflow whole ⟨chunk, member, large⟩ rest []

theorem soundChunks_iff {request : Request} (chunked : request.chunked = true) : SoundChunks request ↔
      (∃ chunks message rest, Message chunks message ∧ request.stream = message ++ rest ∧
        ∀ chunk ∈ chunks, chunk.length < 2 ^ 63) ∨ RunsOut request.stream := by
  have body : readBody request = readChunks read request.stream [] := by rw [readBody, if_pos chunked]
  have temp : readBodyToTemp request =
      readChunks (readRemaining "unexpected EOF while reading chunked body") request.stream [] := by
    rw [readBodyToTemp, if_pos chunked]
  constructor
  · intro sound
    by_cases complete : Complete request.stream
    · obtain ⟨chunks, message, rest, whole, split⟩ := complete
      have returns := (sound.whole chunks message rest whole split).1
      rw [body, split] at returns
      exact .inl ⟨chunks, message, rest, whole, split, small_of_returns whole returns⟩
    · obtain ⟨error, refused⟩ := (sound.cut complete).2
      rw [temp] at refused
      exact .inr (runsOut_of_refused _ _ refused)
  · rintro (⟨chunks, message, rest, whole, split, small⟩ | runsOut)
    · refine ⟨fun others text left other same => ?_, fun cut => absurd ⟨chunks, message, rest, whole, split⟩ cut⟩
      have first := returns_message_read whole small rest
      rw [← split, same] at first
      rw [body, temp, same]
      exact ⟨returns_message_read other (small_of_returns other first) left, returns_message other left⟩
    have refused := runsOut.refused (@gets_readRemaining "unexpected EOF while reading chunked body") []
    rw [← temp] at refused
    refine ⟨fun chunks message rest whole split => ?_, fun _ => ⟨?_, refused⟩⟩
    on_goal 2 =>
      rw [body]
      exact runsOut.refused gets_read []
    have returns := @returns_message _ _ "unexpected EOF while reading chunked body" whole rest
    rw [← split, ← temp] at returns
    exact absurd refused returns.not_refused

theorem readLength_eq {request : Request} {length : Nat} (given : request.length = some (length : Int)) (positive : 0 < length)
    (readData : Int → Bytes → Except ReadError Nat) :
    readLength readData request = (readData length request.stream).map fun count =>
      (request.stream.take count, request.stream.drop count) := by
  rw [readLength, given]
  exact if_neg (by omega)

theorem soundLength_iff {request : Request} (chunked : request.chunked = false) {length : Nat}
    (given : request.length = some (length : Int)) (positive : 0 < length) :
    SoundLength request length ↔ (length ≤ request.stream.length ↔ length < 2 ^ 63) := by
  have body : readBody request = (read length request.stream).map fun count =>
      (request.stream.take count, request.stream.drop count) := by
    rw [readBody, chunked, if_neg Bool.false_ne_true, readLength_eq given positive]
  have temp : readBodyToTemp request = if length ≤ request.stream.length then
      .ok (request.stream.take length, request.stream.drop length)
      else .error (.connection "unexpected EOF while reading request body") := by
    rw [readBodyToTemp, chunked, if_neg Bool.false_ne_true, readLength_eq given positive, readRemaining_nat]
    split <;> rfl
  by_cases small : length < 2 ^ 63
  · have returns : Returns (readBody request) (request.stream.take length) := by
      rw [body, read_nat small]
      refine ⟨request.stream.drop (min length request.stream.length), ?_⟩
      rw [Except.map, ← List.take_eq_take_min]
    refine ⟨fun sound => ⟨fun _ => small, fun _ => ?_⟩, fun same => ⟨fun enough => ⟨returns, ?_⟩, fun short => ?_⟩⟩
    · refine Nat.le_of_not_lt fun short => ?_
      exact returns.not_refused (sound.cut short).1
    · exact ⟨_, by rw [temp, if_pos enough]⟩
    · have enough := same.mpr small
      omega
  · have refused : Refused (readBody request) := by
      rw [body, read_overflow (by omega)]
      exact ⟨.overflow, rfl⟩
    refine ⟨fun sound => ⟨fun enough => ?_, fun this => absurd this small⟩,
      fun same => ⟨fun enough => absurd (same.mp enough) small, fun short => ⟨refused, ?_⟩⟩⟩
    · exact absurd refused (sound.whole enough).1.not_refused
    · exact ⟨_, by rw [temp, if_neg (by omega)]⟩

/-- The decoders are sound for exactly these requests. -/
theorem soundBody_iff (request : Request) : SoundBody request ↔ Decodable request := by
  rw [SoundBody, Decodable]
  cases chunked : request.chunked with
  | true => exact soundChunks_iff chunked
  | false =>
      simp only [Bool.false_eq_true, if_false]
      exact forall_congr' fun length => forall_congr' fun given => forall_congr' fun positive =>
        soundLength_iff chunked given positive

def cutShort : Request := ⟨[], some ['5'], [97, 98, 99]⟩

theorem cutShort_returned : ¬ SoundBody cutShort := by
  intro sound
  have plain : cutShort.chunked = false := rfl
  rw [SoundBody, if_neg (by rw [plain]; decide)] at sound
  obtain ⟨error, refused⟩ := ((sound 5 rfl (by decide)).cut (by decide)).1
  have returned : readBody cutShort = .ok ([97, 98, 99], []) := by
    rw [readBody, plain]
    rfl
  cases returned.symm.trans refused

end PDocker.Engine
