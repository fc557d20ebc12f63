import PDocker.Data.Numerals

/-!
# JSON

Values, the text written for one, and a reader that takes a text character by
character. What a reader has begun to read waits on a stack.
-/

set_option autoImplicit false

namespace PDocker.Data

/-- A string stands for its code points, a number for the characters it is written with. -/
inductive Json where
  | null
  | bool (value : Bool)
  | number (literal : Text)
  | string (codes : List Nat)
  | array (items : List Json)
  | object (fields : List (List Nat × Json))

namespace Json

def codes (text : Text) : List Nat := text.map Char.toNat

def ofText (text : Text) : Json := .string (codes text)

def integer (n : Int) : Text :=
  if n < 0 then '-' :: numeral 10 n.natAbs else numeral 10 n.natAbs

def ofInt (n : Int) : Json := .number (integer n)

def setField (key : List Nat) (value : Json) : List (List Nat × Json) → List (List Nat × Json)
  | [] => [(key, value)]
  | (other, old) :: fields =>
      if other = key then (key, value) :: fields else (other, old) :: setField key value fields

def unit (code : Nat) : Text :=
  ['\\', 'u', Nat.digitChar (code / 4096 % 16), Nat.digitChar (code / 256 % 16),
    Nat.digitChar (code / 16 % 16), Nat.digitChar (code % 16)]

def escapes : List (Nat × Char) :=
  [(34, '"'), (92, '\\'), (10, 'n'), (13, 'r'), (9, 't'), (12, 'f'), (8, 'b')]

/-- A code point with the escapes that leave ASCII only. -/
def escaped (code : Nat) : Text :=
  match escapes.find? fun entry => entry.1 = code with
  | some entry => ['\\', entry.2]
  | none =>
      if 32 ≤ code ∧ code ≤ 126 then [Char.ofNat code]
      else if code < 0x10000 then unit code
      else unit (0xd800 + (code - 0x10000) / 1024) ++ unit (0xdc00 + (code - 0x10000) % 1024)

def quoted (codes : List Nat) : Text := '"' :: codes.flatMap escaped ++ ['"']

mutual

/-- `json.dumps` with the separators `,` and `:`. -/
def dumps : Json → Text
  | .null => "null".toList
  | .bool true => "true".toList
  | .bool false => "false".toList
  | .number literal => literal
  | .string codes => quoted codes
  | .array items => '[' :: dumpsItems items ++ [']']
  | .object fields => '{' :: dumpsFields fields ++ ['}']

def dumpsItems : List Json → Text
  | [] => []
  | [item] => dumps item
  | item :: next :: items => dumps item ++ ',' :: dumpsItems (next :: items)

def dumpsFields : List (List Nat × Json) → Text
  | [] => []
  | [(key, value)] => quoted key ++ ':' :: dumps value
  | (key, value) :: next :: fields => quoted key ++ ':' :: dumps value ++ ',' :: dumpsFields (next :: fields)

end

/-! ## Reading -/

def isSpace (char : Char) : Bool := char ∈ [' ', '\t', '\n', '\r']

inductive NumberPart where
  | minus | zero | digits | point | fraction | exponent | sign | power
  deriving DecidableEq

def NumberPart.complete : NumberPart → Bool
  | .zero | .digits | .fraction | .power => true
  | .minus | .point | .exponent | .sign => false

def NumberPart.start (char : Char) : Option NumberPart :=
  if char = '-' then some .minus
  else if char = '0' then some .zero
  else if isDigit 10 char then some .digits
  else none

def NumberPart.next (part : NumberPart) (char : Char) : Option NumberPart :=
  match part with
  | .minus => if char = '-' then none else start char
  | .zero => if char = '.' then some .point else if char = 'e' ∨ char = 'E' then some .exponent else none
  | .digits =>
      if isDigit 10 char then some .digits
      else if char = '.' then some .point
      else if char = 'e' ∨ char = 'E' then some .exponent
      else none
  | .point => if isDigit 10 char then some .fraction else none
  | .fraction =>
      if isDigit 10 char then some .fraction
      else if char = 'e' ∨ char = 'E' then some .exponent
      else none
  | .exponent =>
      if char = '+' ∨ char = '-' then some .sign else if isDigit 10 char then some .power else none
  | .sign | .power => if isDigit 10 char then some .power else none

/-- In a string: between two characters, behind a backslash, or in the digits of a code unit. -/
inductive StringPart where
  | plain
  | escape
  | unit (digits value : Nat)

inductive Mode where
  | value
  | firstItem
  | firstKey
  | key
  | colon
  | after
  | done (value : Json)
  | string (isKey : Bool) (codes : List Nat) (part : StringPart)
  | number (literal : Text) (part : NumberPart)
  | word (rest : Text) (value : Json)

inductive Frame where
  | items (read : List Json)
  | fields (read : List (List Nat × Json)) (key : List Nat)

structure Reader where
  mode : Mode
  stack : List Frame

def deliver (value : Json) : List Frame → Reader
  | [] => ⟨.done value, []⟩
  | .items read :: stack => ⟨.after, .items (read ++ [value]) :: stack⟩
  | .fields read key :: stack => ⟨.after, .fields (setField key value read) key :: stack⟩

def closeString (isKey : Bool) (codes : List Nat) (stack : List Frame) : Option Reader :=
  match isKey, stack with
  | false, stack => some (deliver (.string codes) stack)
  | true, .fields read _ :: stack => some ⟨.colon, .fields read codes :: stack⟩
  | true, _ => none

/-- The second unit of a surrogate pair joins the first. -/
def joinUnit (codes : List Nat) (code : Nat) : List Nat :=
  match codes.getLast? with
  | some high =>
      if 0xd800 ≤ high ∧ high ≤ 0xdbff ∧ 0xdc00 ≤ code ∧ code ≤ 0xdfff then
        codes.dropLast ++ [0x10000 + (high - 0xd800) * 1024 + (code - 0xdc00)]
      else codes ++ [code]
  | none => codes ++ [code]

def unescape (char : Char) : Option Nat :=
  if char = '/' then some 47 else (escapes.find? fun entry => entry.2 = char).map Prod.fst

def words : List (Char × Text × Json) :=
  [('n', "ull".toList, .null), ('t', "rue".toList, .bool true), ('f', "alse".toList, .bool false),
    ('N', "aN".toList, .number "NaN".toList), ('I', "nfinity".toList, .number "Infinity".toList)]

def begin (stack : List Frame) (char : Char) : Option Reader :=
  if char = '"' then some ⟨.string false [] .plain, stack⟩
  else if char = '{' then some ⟨.firstKey, .fields [] [] :: stack⟩
  else if char = '[' then some ⟨.firstItem, .items [] :: stack⟩
  else
    match words.find? fun word => word.1 = char with
    | some (_, rest, value) => some ⟨.word rest value, stack⟩
    | none => (NumberPart.start char).map fun part => ⟨.number [char] part, stack⟩

def follow (reader : Reader) (char : Char) : Option Reader :=
  if isSpace char then some reader
  else
    match reader.mode, reader.stack with
    | .after, .items read :: stack =>
        if char = ',' then some ⟨.value, .items read :: stack⟩
        else if char = ']' then some (deliver (.array read) stack)
        else none
    | .after, .fields read key :: stack =>
        if char = ',' then some ⟨.key, .fields read key :: stack⟩
        else if char = '}' then some (deliver (.object read) stack)
        else none
    | _, _ => none

def stepString (isKey : Bool) (codes : List Nat) (part : StringPart) (stack : List Frame) (char : Char) :
    Option Reader :=
  match part with
  | .plain =>
      if char = '"' then closeString isKey codes stack
      else if char = '\\' then some ⟨.string isKey codes .escape, stack⟩
      else if char.toNat < 32 then none
      else some ⟨.string isKey (codes ++ [char.toNat]) .plain, stack⟩
  | .escape =>
      if char = 'u' then some ⟨.string isKey codes (.unit 0 0), stack⟩
      else (unescape char).map fun code => ⟨.string isKey (codes ++ [code]) .plain, stack⟩
  | .unit digits value =>
      if !isDigit 16 char then none
      else if digits = 3 then
        some ⟨.string isKey (joinUnit codes (value * 16 + digitValue char)) .plain, stack⟩
      else some ⟨.string isKey codes (.unit (digits + 1) (value * 16 + digitValue char)), stack⟩

def stepValue (reader : Reader) (char : Char) : Option Reader :=
  if isSpace char then some reader else begin reader.stack char

def stepFirstItem (reader : Reader) (char : Char) : Option Reader :=
  if char = ']' then
    match reader.stack with
    | .items _ :: stack => some (deliver (.array []) stack)
    | _ => none
  else stepValue reader char

def stepKey (reader : Reader) (char : Char) : Option Reader :=
  if isSpace char then some reader
  else if char = '"' then some { reader with mode := .string true [] .plain }
  else none

def stepFirstKey (reader : Reader) (char : Char) : Option Reader :=
  if char = '}' then
    match reader.stack with
    | .fields _ _ :: stack => some (deliver (.object []) stack)
    | _ => none
  else stepKey reader char

def stepColon (reader : Reader) (char : Char) : Option Reader :=
  if isSpace char then some reader
  else if char = ':' then some { reader with mode := .value }
  else none

def stepNumber (literal : Text) (part : NumberPart) (stack : List Frame) (char : Char) : Option Reader :=
  match part.next char with
  | some part => some ⟨.number (literal ++ [char]) part, stack⟩
  | none =>
      if part = .minus ∧ char = 'I' then some ⟨.word "nfinity".toList (.number "-Infinity".toList), stack⟩
      else if part.complete then follow (deliver (.number literal) stack) char
      else none

def stepWord (rest : Text) (value : Json) (stack : List Frame) (char : Char) : Option Reader :=
  match rest with
  | [] => none
  | next :: rest =>
      if char ≠ next then none
      else if rest = [] then some (deliver value stack)
      else some ⟨.word rest value, stack⟩

def step (reader : Reader) (char : Char) : Option Reader :=
  match reader.mode with
  | .value => stepValue reader char
  | .firstItem => stepFirstItem reader char
  | .firstKey => stepFirstKey reader char
  | .key => stepKey reader char
  | .colon => stepColon reader char
  | .after | .done _ => follow reader char
  | .string isKey codes part => stepString isKey codes part reader.stack char
  | .number literal part => stepNumber literal part reader.stack char
  | .word rest value => stepWord rest value reader.stack char

def run (reader : Reader) (text : Text) : Option Reader := text.foldlM step reader

def finish (reader : Reader) : Option Json :=
  match reader.mode with
  | .done value => some value
  | .number literal part => if part.complete ∧ reader.stack = [] then some (.number literal) else none
  | _ => none

def start : Reader := ⟨.value, []⟩

/-- `json.loads`; none is an error. -/
def loads (text : Text) : Option Json := (run start text).bind finish

def numberScan : Text → Option NumberPart
  | [] => none
  | char :: rest => (NumberPart.start char).bind fun part => rest.foldlM NumberPart.next part

def Scalar (code : Nat) : Prop := code < 0xd800 ∨ 0xdfff < code ∧ code < 0x110000

mutual

/-- A number is spelled as one, a string is one of characters, and no key is repeated. -/
def Valid : Json → Prop
  | .null | .bool _ => True
  | .number literal => ∃ part, numberScan literal = some part ∧ part.complete = true
  | .string codes => ∀ code ∈ codes, Scalar code
  | .array items => ValidItems items
  | .object fields => (fields.map Prod.fst).Nodup ∧ ValidFields fields

def ValidItems : List Json → Prop
  | [] => True
  | item :: items => Valid item ∧ ValidItems items

def ValidFields : List (List Nat × Json) → Prop
  | [] => True
  | (key, value) :: fields => (∀ code ∈ key, Scalar code) ∧ Valid value ∧ ValidFields fields

end

theorem run_cons (reader : Reader) (char : Char) (rest : Text) :
    run reader (char :: rest) = (step reader char).bind fun next => run next rest := rfl

theorem run_append (reader : Reader) (first rest : Text) :
    run reader (first ++ rest) = (run reader first).bind fun next => run next rest :=
  List.foldlM_append

theorem run_of_step {reader next : Reader} {char : Char} (result : step reader char = some next) (rest : Text) :
    run reader (char :: rest) = run next rest := by
  rw [run_cons, result, Option.bind_some]

theorem run_of_run {reader next : Reader} {first : Text} (result : run reader first = some next) (rest : Text) :
    run reader (first ++ rest) = run next rest := by
  rw [run_append, result, Option.bind_some]

variable {isKey : Bool} {codes : List Nat} {stack : List Frame}

theorem joinUnit_single {code : Nat} (single : code < 0xdc00 ∨ 0xdfff < code) :
    joinUnit codes code = codes ++ [code] := by
  rw [joinUnit]
  split
  · rw [if_neg (by omega)]
  · rfl

theorem joinUnit_pair {high low : Nat} (first : 0xd800 ≤ high ∧ high ≤ 0xdbff) (second : 0xdc00 ≤ low ∧ low ≤ 0xdfff) :
    joinUnit (codes ++ [high]) low = codes ++ [0x10000 + (high - 0xd800) * 1024 + (low - 0xdc00)] := by
  rw [joinUnit, List.getLast?_concat]
  simp only
  rw [if_pos (by omega), List.dropLast_concat]

theorem step_digit {digits value digit : Nat} (small : digit < 16) :
    step ⟨.string isKey codes (.unit digits value), stack⟩ (Nat.digitChar digit) =
      some (if digits = 3 then ⟨.string isKey (joinUnit codes (value * 16 + digit)) .plain, stack⟩
        else ⟨.string isKey codes (.unit (digits + 1) (value * 16 + digit)), stack⟩) := by
  have value_eq := (digitChar_facts digit small).1
  have inside : isDigit 16 (Nat.digitChar digit) = true := by
    rw [isDigit, value_eq]
    exact decide_eq_true small
  change stepString isKey codes (.unit digits value) stack (Nat.digitChar digit) = _
  rw [stepString, inside, value_eq, Bool.not_true, if_neg Bool.false_ne_true]
  split <;> rfl

theorem run_unit {code : Nat} (small : code < 0x10000) :
    run ⟨.string isKey codes .plain, stack⟩ (unit code) =
      some ⟨.string isKey (joinUnit codes code) .plain, stack⟩ := by
  have joined : (((0 * 16 + code / 4096 % 16) * 16 + code / 256 % 16) * 16 + code / 16 % 16) * 16 + code % 16 = code := by
    omega
  rw [unit, run_of_step (show step _ _ = some ⟨.string isKey codes .escape, stack⟩ from rfl),
    run_of_step (show step _ _ = some ⟨.string isKey codes (.unit 0 0), stack⟩ from rfl),
    run_of_step (step_digit (Nat.mod_lt _ (by omega))), if_neg (by omega),
    run_of_step (step_digit (Nat.mod_lt _ (by omega))), if_neg (by omega),
    run_of_step (step_digit (Nat.mod_lt _ (by omega))), if_neg (by omega),
    run_of_step (step_digit (Nat.mod_lt _ (by omega))), if_pos (by omega), joined]
  rfl

theorem toNat_ofNat_ascii : ∀ code < 128, (Char.ofNat code).toNat = code := by
  decide

theorem step_plain {code : Nat} (printable : 32 ≤ code ∧ code ≤ 126) (quote : code ≠ 34) (backslash : code ≠ 92) :
    step ⟨.string isKey codes .plain, stack⟩ (Char.ofNat code) = some ⟨.string isKey (codes ++ [code]) .plain, stack⟩ := by
  have back := toNat_ofNat_ascii code (by omega)
  have away {other : Char} (different : code ≠ other.toNat) : Char.ofNat code ≠ other := by
    intro same
    rw [← same, back] at different
    exact different rfl
  have quote' : Char.ofNat code ≠ '"' := away quote
  have backslash' : Char.ofNat code ≠ '\\' := away backslash
  change stepString isKey codes .plain stack (Char.ofNat code) = _
  rw [stepString]
  rw [if_neg quote', if_neg backslash', if_neg (by omega), back]

theorem unescape_escape : ∀ entry ∈ escapes, unescape entry.2 = some entry.1 ∧ entry.2 ≠ 'u' := by
  decide

theorem run_escape {entry : Nat × Char} (member : entry ∈ escapes) :
    run ⟨.string isKey codes .plain, stack⟩ ['\\', entry.2] = some ⟨.string isKey (codes ++ [entry.1]) .plain, stack⟩ := by
  obtain ⟨back, other⟩ := unescape_escape entry member
  rw [run_of_step (show step _ _ = some ⟨.string isKey codes .escape, stack⟩ from rfl), run_cons]
  change (stepString isKey codes .escape stack entry.2).bind _ = _
  rw [stepString, if_neg other, back]
  rfl

theorem run_escaped {code : Nat} (scalar : Scalar code) :
    run ⟨.string isKey codes .plain, stack⟩ (escaped code) = some ⟨.string isKey (codes ++ [code]) .plain, stack⟩ := by
  rw [escaped]
  cases found : escapes.find? fun entry => entry.1 = code with
  | some entry =>
      have same : entry.1 = code := by simpa using List.find?_some found
      rw [← same]
      exact run_escape (List.mem_of_find?_eq_some found)
  | none =>
      have away : ∀ entry ∈ escapes, ¬ decide (entry.1 = code) = true := List.find?_eq_none.mp found
      have quote : code ≠ 34 := fun same => away (34, '"') (by decide) (decide_eq_true same.symm)
      have backslash : code ≠ 92 := fun same => away (92, '\\') (by decide) (decide_eq_true same.symm)
      simp only
      split
      · rename_i printable
        rw [run_of_step (step_plain printable quote backslash)]
        rfl
      split
      · rename_i small
        rw [run_unit small, joinUnit_single]
        rcases scalar with low | high
        · exact .inl (by omega)
        · exact .inr high.1
      have wide : 0xdfff < code ∧ code < 0x110000 := by
        rcases scalar with low | high
        · omega
        · exact high
      have high : 0xd800 + (code - 0x10000) / 1024 < 0xdc00 := by omega
      have joined : 0x10000 + (0xd800 + (code - 0x10000) / 1024 - 0xd800) * 1024 +
          (0xdc00 + (code - 0x10000) % 1024 - 0xdc00) = code := by omega
      rw [run_of_run (run_unit (by omega)), run_unit (by omega), joinUnit_single (.inl high),
        joinUnit_pair (by omega) (by omega), joined]

theorem run_escapes {points : List Nat} (scalars : ∀ code ∈ points, Scalar code) :
    run ⟨.string isKey codes .plain, stack⟩ (points.flatMap escaped) =
      some ⟨.string isKey (codes ++ points) .plain, stack⟩ := by
  induction points generalizing codes with
  | nil => rw [List.append_nil]; rfl
  | cons code points ih =>
      rw [List.flatMap_cons, run_of_run (run_escaped (scalars code List.mem_cons_self)),
        ih fun other member => scalars other (List.mem_cons_of_mem _ member), List.append_assoc]
      rfl

theorem run_quoted {points : List Nat} (scalars : ∀ code ∈ points, Scalar code) (rest : Text) :
    run ⟨.string isKey [] .plain, stack⟩ (points.flatMap escaped ++ '"' :: rest) =
      (closeString isKey points stack).bind fun next => run next rest := by
  rw [run_of_run (run_escapes scalars), run_cons]
  rfl

theorem run_number {literal rest : Text} {part last : NumberPart}
    (scanned : rest.foldlM NumberPart.next part = some last) :
    run ⟨.number literal part, stack⟩ rest = some ⟨.number (literal ++ rest) last, stack⟩ := by
  induction rest generalizing literal part with
  | nil =>
      cases scanned
      rw [List.append_nil]
      rfl
  | cons char rest ih =>
      rw [List.foldlM_cons] at scanned
      obtain ⟨next, found, scanned⟩ := Option.bind_eq_some_iff.mp scanned
      have result : step ⟨.number literal part, stack⟩ char = some ⟨.number (literal ++ [char]) next, stack⟩ := by
        change stepNumber literal part stack char = _
        rw [stepNumber, found]
      rw [run_of_step result, ih scanned, List.append_assoc]
      rfl

theorem begin_number {char : Char} {part : NumberPart} (started : NumberPart.start char = some part) :
    begin stack char = some ⟨.number [char] part, stack⟩ := by
  have away {other : Char} (none : NumberPart.start other = none) : char ≠ other := by
    rintro rfl
    rw [none] at started
    cases started
  have noWord : words.find? (fun word => word.1 = char) = none := by
    rw [List.find?_eq_none]
    intro word member same
    have none : ∀ word ∈ words, NumberPart.start word.1 = none := by
      simp [words]
      decide
    exact away (none word member) (of_decide_eq_true same).symm
  rw [begin, if_neg (away rfl), if_neg (away rfl), if_neg (away rfl), noWord, started]
  rfl

theorem numeral_cons {n : Nat} (positive : n ≠ 0) :
    ∃ char rest, numeral 10 n = char :: rest ∧ char ≠ '0' ∧ (∀ other ∈ char :: rest, isDigit 10 other = true) := by
  have filled : Nat.digits 10 n ≠ [] := Nat.digits_ne_nil_iff_ne_zero.mpr positive
  have last := Nat.getLast_digit_ne_zero 10 positive
  have small := Nat.digits_lt_base (by omega : 1 < 10) (List.getLast_mem filled)
  have text : numeral 10 n = Nat.digitChar ((Nat.digits 10 n).getLast filled) ::
      ((Nat.digits 10 n).dropLast.reverse.map Nat.digitChar) := by
    rw [numeral, if_neg positive]
    conv_lhs => rw [← List.dropLast_append_getLast filled]
    rw [List.reverse_append]
    rfl
  refine ⟨_, _, text, fun zero => ?_, fun other member => ?_⟩
  · have value := (digitChar_facts _ (by omega : (Nat.digits 10 n).getLast filled < 16)).1
    rw [zero] at value
    exact last value.symm
  · rw [← text] at member
    exact isDigit_of_mem (by omega) (by omega) member

theorem scan_digits {rest : Text} (digits : ∀ char ∈ rest, isDigit 10 char = true) :
    rest.foldlM NumberPart.next .digits = some .digits := by
  induction rest with
  | nil => rfl
  | cons char rest ih =>
      have next : NumberPart.next .digits char = some .digits := by
        rw [NumberPart.next, if_pos (digits char List.mem_cons_self)]
      rw [List.foldlM_cons, next, Option.bind_eq_bind, Option.bind_some,
        ih fun other member => digits other (List.mem_cons_of_mem _ member)]

theorem scan_numeral (n : Nat) : ∃ part, numberScan (numeral 10 n) = some part ∧ part.complete = true ∧
      numberScan ('-' :: numeral 10 n) = some part := by
  by_cases zero : n = 0
  · subst zero
    exact ⟨.zero, rfl, rfl, rfl⟩
  obtain ⟨char, rest, text, nonzero, digits⟩ := numeral_cons zero
  have inside := digits char List.mem_cons_self
  have minus : char ≠ '-' := by
    rintro rfl
    cases inside
  have started : NumberPart.start char = some .digits := by
    rw [NumberPart.start, if_neg minus, if_neg nonzero, if_pos inside]
  have scanned := scan_digits fun other member => digits other (List.mem_cons_of_mem _ member)
  refine ⟨.digits, ?_, rfl, ?_⟩
  · rw [text, numberScan, started, Option.bind_some, scanned]
  have next : NumberPart.next .minus char = some .digits := by
    rw [NumberPart.next, if_neg minus, started]
  rw [text, numberScan]
  simp only [NumberPart.start, if_pos, Option.bind_some, List.foldlM_cons, next, Option.bind_eq_bind, scanned]

theorem valid_ofInt (n : Int) : Valid (ofInt n) := by
  obtain ⟨part, positive, complete, negative⟩ := scan_numeral n.natAbs
  refine ⟨part, ?_, complete⟩
  rw [integer]
  split
  · exact negative
  · exact positive

theorem scalar_of_char (char : Char) : Scalar char.toNat := by
  rcases char.valid with low | high
  · exact .inl low
  · exact .inr high

theorem scalars_codes (text : Text) : ∀ code ∈ Json.codes text, Scalar code := by
  intro code member
  obtain ⟨char, -, rfl⟩ := List.mem_map.mp member
  exact scalar_of_char char

inductive Settled (value : Json) (stack : List Frame) : Reader → Prop where
  | delivered : Settled value stack (deliver value stack)
  | number {literal part} (complete : part.complete = true) (same : value = .number literal) :
      Settled value stack ⟨.number literal part, stack⟩

def isCloser (char : Char) : Bool := char ∈ [',', ']', '}']

theorem next_closer {char : Char} (closer : isCloser char = true) (part : NumberPart) : part.next char = none := by
  have cases : char = ',' ∨ char = ']' ∨ char = '}' := by simpa [isCloser] using closer
  rcases cases with rfl | rfl | rfl <;> cases part <;> rfl

theorem step_deliver (value : Json) (stack : List Frame) (char : Char) :
    step (deliver value stack) char = follow (deliver value stack) char := by
  rcases stack with - | ⟨_ | _, _⟩ <;> rfl

theorem Settled.step {value : Json} {reader : Reader} (settled : Settled value stack reader) {char : Char}
    (closer : isCloser char = true) : step reader char = follow (deliver value stack) char := by
  cases settled with
  | delivered => exact step_deliver value stack char
  | @number literal part complete same =>
      have other : char ≠ 'I' := by
        rintro rfl
        cases closer
      subst same
      change stepNumber literal part stack char = _
      rw [stepNumber, next_closer closer]
      simp only [complete, other, and_false, if_true, if_false]

theorem Settled.finish {value : Json} {reader : Reader} (settled : Settled value [] reader) :
    finish reader = some value := by
  cases settled with
  | delivered => rfl
  | number complete same =>
      subst same
      simp only [Json.finish, complete, and_self, if_true]

theorem dumps_cons {value : Json} (valid : value.Valid) :
    ∃ char rest, value.dumps = char :: rest ∧ char ≠ ']' ∧ isSpace char = false := by
  cases value with
  | null | string codes | array items | object fields => exact ⟨_, _, rfl, by decide, rfl⟩
  | bool value => cases value <;> exact ⟨_, _, rfl, by decide, rfl⟩
  | number literal =>
      obtain ⟨part, scanned, -⟩ := valid
      cases literal with
      | nil => cases scanned
      | cons char rest =>
          obtain ⟨first, started, -⟩ := Option.bind_eq_some_iff.mp scanned
          refine ⟨char, rest, rfl, ?_, ?_⟩
          · rintro rfl
            cases started
          · refine Bool.eq_false_iff.mpr fun space => ?_
            have cases : char = ' ' ∨ char = '\t' ∨ char = '\n' ∨ char = '\r' := by simpa [isSpace] using space
            rcases cases with rfl | rfl | rfl | rfl <;> cases started

theorem run_firstItem {value : Json} (valid : value.Valid) (stack : List Frame) (rest : Text) :
    run ⟨.firstItem, stack⟩ (value.dumps ++ rest) = (run ⟨.value, stack⟩ (value.dumps ++ rest)) := by
  obtain ⟨char, more, text, bracket, space⟩ := dumps_cons valid
  rw [text, List.cons_append, run_cons, run_cons]
  have same : step ⟨.firstItem, stack⟩ char = step ⟨.value, stack⟩ char := by
    change stepFirstItem ⟨.firstItem, stack⟩ char = stepValue ⟨.value, stack⟩ char
    rw [stepFirstItem, if_neg bracket, stepValue, space, stepValue, space]
    rfl
  rw [same]

theorem setField_new {fields : List (List Nat × Json)} {key : List Nat} (fresh : key ∉ fields.map Prod.fst) (value : Json) :
    setField key value fields = fields ++ [(key, value)] := by
  induction fields with
  | nil => rfl
  | cons field fields ih =>
      obtain ⟨other, old⟩ := field
      rw [List.map_cons, List.mem_cons, not_or] at fresh
      rw [setField, if_neg (Ne.symm fresh.1), ih fresh.2]
      rfl

theorem run_key {key : List Nat} (scalars : ∀ code ∈ key, Scalar code) (read : List (List Nat × Json))
    (last : List Nat) (stack : List Frame) (rest : Text) :
    run ⟨.key, .fields read last :: stack⟩ (quoted key ++ ':' :: rest) = run ⟨.value, .fields read key :: stack⟩ rest := by
  rw [quoted, List.cons_append, List.cons_append, run_of_step (show step _ _ = some ⟨.string true [] .plain, .fields read last :: stack⟩ from rfl),
    List.append_assoc, List.singleton_append, run_quoted scalars, closeString, Option.bind_some]
  exact run_of_step rfl rest

theorem deliver_field {read : List (List Nat × Json)} {key : List Nat} (fresh : key ∉ read.map Prod.fst) (value : Json) :
    deliver value (.fields read key :: stack) = ⟨.after, .fields (read ++ [(key, value)]) key :: stack⟩ := by
  rw [deliver, setField_new fresh]

theorem fresh_key {read fields : List (List Nat × Json)} {key : List Nat} {value : Json}
    (distinct : ((read ++ (key, value) :: fields).map Prod.fst).Nodup) : key ∉ read.map Prod.fst := by
  rw [List.map_append, List.nodup_append] at distinct
  exact fun member => distinct.2.2 key member key List.mem_cons_self rfl

mutual

theorem run_dumps : ∀ (value : Json), value.Valid → ∀ stack : List Frame,
    ∃ reader, run ⟨.value, stack⟩ value.dumps = some reader ∧ Settled value stack reader
  | .null, _, stack => ⟨_, rfl, .delivered⟩
  | .bool true, _, stack => ⟨_, rfl, .delivered⟩
  | .bool false, _, stack => ⟨_, rfl, .delivered⟩
  | .number literal, valid, stack => by
      obtain ⟨part, scanned, complete⟩ := valid
      cases literal with
      | nil => cases scanned
      | cons char rest =>
          obtain ⟨first, started, scanned⟩ := Option.bind_eq_some_iff.mp scanned
          obtain ⟨head, more, text, -, space⟩ := @dumps_cons (.number (char :: rest)) ⟨part, by
            rw [numberScan, started, Option.bind_some, scanned], complete⟩
          cases text
          have result : step ⟨.value, stack⟩ char = some ⟨.number [char] first, stack⟩ := by
            change stepValue ⟨.value, stack⟩ char = _
            rw [stepValue, space, if_neg Bool.false_ne_true, begin_number started]
          refine ⟨_, ?_, .number complete rfl⟩
          rw [dumps, run_of_step result, run_number scanned]
          rfl
  | .string codes, valid, stack => by
      refine ⟨_, ?_, .delivered⟩
      rw [dumps, quoted, List.cons_append, run_of_step (show step _ _ = some ⟨.string false [] .plain, stack⟩ from rfl),
        run_quoted valid]
      rfl
  | .array items, valid, stack => by
      refine ⟨_, ?_, .delivered⟩
      rw [dumps, List.cons_append, run_of_step (show step _ _ = some ⟨.firstItem, .items [] :: stack⟩ from rfl)]
      cases items with
      | nil => rfl
      | cons item items =>
          have first : run ⟨.firstItem, .items [] :: stack⟩ (dumpsItems (item :: items) ++ [']']) =
              run ⟨.value, .items [] :: stack⟩ (dumpsItems (item :: items) ++ [']']) := by
            cases items with
            | nil => exact run_firstItem valid.1 _ _
            | cons next items =>
                rw [dumpsItems, List.append_assoc]
                exact run_firstItem valid.1 _ _
          rw [first, run_dumpsItems (item :: items) valid nofun]
          rfl
  | .object fields, valid, stack => by
      refine ⟨_, ?_, .delivered⟩
      rw [dumps, List.cons_append, run_of_step (show step _ _ = some ⟨.firstKey, .fields [] [] :: stack⟩ from rfl)]
      cases fields with
      | nil => rfl
      | cons field fields =>
          have first : run ⟨.firstKey, .fields [] [] :: stack⟩ (dumpsFields (field :: fields) ++ ['}']) =
              run ⟨.key, .fields [] [] :: stack⟩ (dumpsFields (field :: fields) ++ ['}']) := by
            obtain ⟨key, value⟩ := field
            cases fields <;> rfl
          rw [first, run_dumpsFields (field :: fields) valid.2 nofun [] [] (by simpa using valid.1)]
          rfl

theorem run_dumpsItems : ∀ (items : List Json), ValidItems items → items ≠ [] → ∀ (read : List Json) (stack : List Frame),
    run ⟨.value, .items read :: stack⟩ (dumpsItems items ++ [']']) = some (deliver (.array (read ++ items)) stack)
  | [], _, filled, _, _ => absurd rfl filled
  | [item], valid, _, read, stack => by
      obtain ⟨reader, result, settled⟩ := run_dumps item valid.1 (.items read :: stack)
      rw [dumpsItems, run_of_run result, run_cons, settled.step rfl]
      rfl
  | item :: next :: items, valid, _, read, stack => by
      obtain ⟨reader, result, settled⟩ := run_dumps item valid.1 (.items read :: stack)
      have comma : follow (deliver item (.items read :: stack)) ',' = some ⟨.value, .items (read ++ [item]) :: stack⟩ := rfl
      rw [dumpsItems, List.append_assoc, run_of_run result, List.cons_append, run_cons, settled.step rfl, comma,
        Option.bind_some, run_dumpsItems (next :: items) valid.2 nofun, List.append_assoc]
      rfl

theorem run_dumpsFields : ∀ (fields : List (List Nat × Json)), ValidFields fields → fields ≠ [] →
    ∀ (read : List (List Nat × Json)) (last : List Nat), ((read ++ fields).map Prod.fst).Nodup → ∀ stack : List Frame,
      run ⟨.key, .fields read last :: stack⟩ (dumpsFields fields ++ ['}']) =
        some (deliver (.object (read ++ fields)) stack)
  | [], _, filled, _, _, _, _ => absurd rfl filled
  | [(key, value)], valid, _, read, last, distinct, stack => by
      obtain ⟨reader, result, settled⟩ := run_dumps value valid.2.1 (.fields read key :: stack)
      rw [dumpsFields, List.append_assoc, List.cons_append, run_key valid.1, run_of_run result, run_cons,
        settled.step rfl, deliver_field (fresh_key distinct)]
      rfl
  | (key, value) :: next :: fields, valid, _, read, last, distinct, stack => by
      obtain ⟨reader, result, settled⟩ := run_dumps value valid.2.1 (.fields read key :: stack)
      have comma : follow ⟨.after, .fields (read ++ [(key, value)]) key :: stack⟩ ',' =
          some ⟨.key, .fields (read ++ [(key, value)]) key :: stack⟩ := rfl
      have text : dumpsFields ((key, value) :: next :: fields) ++ ['}'] =
          quoted key ++ ':' :: (value.dumps ++ ',' :: (dumpsFields (next :: fields) ++ ['}'])) := by
        rw [dumpsFields, List.append_assoc, List.append_assoc]
        rfl
      have again : read ++ (key, value) :: next :: fields = read ++ [(key, value)] ++ next :: fields := by
        rw [List.append_assoc]
        rfl
      rw [again] at distinct ⊢
      rw [text, run_key valid.1, run_of_run result, run_cons, settled.step rfl,
        deliver_field (fresh_key (again ▸ distinct)), comma, Option.bind_some,
        run_dumpsFields (next :: fields) valid.2.2 nofun _ _ distinct]

end

theorem loads_dumps {value : Json} (valid : value.Valid) : loads value.dumps = some value := by
  obtain ⟨reader, result, settled⟩ := run_dumps value valid []
  rw [loads, start, result, Option.bind_some, settled.finish]

/-! ## Texts that break off -/

structure Begun (reader : Reader) : Prop where
  inside : reader.stack ≠ [] ∨ ∃ value, reader.mode = .done value
  word : ∀ rest value, reader.mode = .word rest value → '{' ∉ rest

theorem Begun.deliver (value : Json) (stack : List Frame) : Begun (deliver value stack) := by
  rcases stack with - | ⟨_ | _, _⟩
  · exact ⟨.inr ⟨value, rfl⟩, nofun⟩
  · exact ⟨.inl nofun, nofun⟩
  · exact ⟨.inl nofun, nofun⟩

theorem Begun.follow {reader next : Reader} {char : Char} (begun : Begun reader)
    (result : follow reader char = some next) : Begun next := by
  rw [Json.follow] at result
  split at result
  · cases result
    exact begun
  split at result
  · split at result
    · cases result
      exact ⟨.inl nofun, nofun⟩
    split at result
    · cases result
      exact .deliver _ _
    · cases result
  · split at result
    · cases result
      exact ⟨.inl nofun, nofun⟩
    split at result
    · cases result
      exact .deliver _ _
    · cases result
  · cases result

theorem Begun.begin {next : Reader} {char : Char} (filled : stack ≠ []) (result : begin stack char = some next) :
    Begun next := by
  rw [Json.begin] at result
  split at result
  · cases result
    exact ⟨.inl filled, nofun⟩
  split at result
  · cases result
    exact ⟨.inl nofun, nofun⟩
  split at result
  · cases result
    exact ⟨.inl nofun, nofun⟩
  split at result
  · rename_i first rest value found
    cases result
    refine ⟨.inl filled, fun other last same => ?_⟩
    cases same
    have letters : ∀ word ∈ words, '{' ∉ word.2.1 := by
      simp [words]
    exact letters _ (List.mem_of_find?_eq_some found)
  · obtain ⟨part, -, rfl⟩ := Option.map_eq_some_iff.mp result
    exact ⟨.inl filled, nofun⟩

theorem Begun.closeString {isKey : Bool} {codes : List Nat} {next : Reader}
    (result : closeString isKey codes stack = some next) : Begun next := by
  rw [Json.closeString.eq_def] at result
  split at result
  · cases result
    exact .deliver _ _
  · cases result
    exact ⟨.inl nofun, nofun⟩
  · cases result

theorem Begun.stepString {isKey : Bool} {codes : List Nat} {part : StringPart} {next : Reader} {char : Char}
    (filled : stack ≠ []) (result : stepString isKey codes part stack char = some next) : Begun next := by
  cases part with
  | plain =>
      rw [Json.stepString] at result
      split at result
      · exact .closeString result
      split at result
      · cases result
        exact ⟨.inl filled, nofun⟩
      split at result
      · cases result
      · cases result
        exact ⟨.inl filled, nofun⟩
  | escape =>
      rw [Json.stepString] at result
      split at result
      · cases result
        exact ⟨.inl filled, nofun⟩
      · obtain ⟨code, -, rfl⟩ := Option.map_eq_some_iff.mp result
        exact ⟨.inl filled, nofun⟩
  | unit digits value =>
      rw [Json.stepString] at result
      split at result
      · cases result
      split at result
      · cases result
        exact ⟨.inl filled, nofun⟩
      · cases result
        exact ⟨.inl filled, nofun⟩

theorem Begun.stepValue {reader next : Reader} {char : Char} (begun : Begun reader) (filled : reader.stack ≠ [])
    (result : stepValue reader char = some next) : Begun next := by
  rw [Json.stepValue] at result
  split at result
  · cases result
    exact begun
  · exact .begin filled result

theorem Begun.stepFirstItem {reader next : Reader} {char : Char} (begun : Begun reader) (filled : reader.stack ≠ [])
    (result : stepFirstItem reader char = some next) : Begun next := by
  rw [Json.stepFirstItem] at result
  split at result
  · split at result
    · cases result
      exact .deliver _ _
    · cases result
  · exact begun.stepValue filled result

theorem Begun.stepKey {reader next : Reader} {char : Char} (begun : Begun reader) (filled : reader.stack ≠ [])
    (result : stepKey reader char = some next) : Begun next := by
  rw [Json.stepKey] at result
  split at result
  · cases result
    exact begun
  split at result
  · cases result
    exact ⟨.inl filled, nofun⟩
  · cases result

theorem Begun.stepFirstKey {reader next : Reader} {char : Char} (begun : Begun reader) (filled : reader.stack ≠ [])
    (result : stepFirstKey reader char = some next) : Begun next := by
  rw [Json.stepFirstKey] at result
  split at result
  · split at result
    · cases result
      exact .deliver _ _
    · cases result
  · exact begun.stepKey filled result

theorem Begun.stepColon {reader next : Reader} {char : Char} (begun : Begun reader) (filled : reader.stack ≠ [])
    (result : stepColon reader char = some next) : Begun next := by
  rw [Json.stepColon] at result
  split at result
  · cases result
    exact begun
  split at result
  · cases result
    exact ⟨.inl filled, nofun⟩
  · cases result

theorem Begun.stepNumber {literal : Text} {part : NumberPart} {next : Reader} {char : Char} (filled : stack ≠ [])
    (result : stepNumber literal part stack char = some next) : Begun next := by
  rw [Json.stepNumber] at result
  split at result
  · cases result
    exact ⟨.inl filled, nofun⟩
  split at result
  · cases result
    exact ⟨.inl filled, nofun⟩
  · split at result
    · exact (Begun.deliver _ _).follow result
    · cases result

theorem Begun.stepWord {rest : Text} {value : Json} {next : Reader} {char : Char} (filled : stack ≠ [])
    (letters : '{' ∉ rest) (result : stepWord rest value stack char = some next) : Begun next := by
  rw [Json.stepWord.eq_def] at result
  split at result
  · cases result
  split at result
  · cases result
  split at result
  · cases result
    exact .deliver _ _
  cases result
  refine ⟨.inl filled, fun other found same => ?_⟩
  cases same
  exact fun member => letters (List.mem_cons_of_mem _ member)

theorem Begun.step {reader next : Reader} {char : Char} (begun : Begun reader)
    (result : step reader char = some next) : Begun next := by
  obtain ⟨mode, stack⟩ := reader
  have filled : (∀ value, mode ≠ .done value) → stack ≠ [] := fun away =>
    begun.inside.resolve_right fun ⟨value, done⟩ => away value done
  cases mode with
  | value => exact begun.stepValue (filled nofun) result
  | firstItem => exact begun.stepFirstItem (filled nofun) result
  | firstKey => exact begun.stepFirstKey (filled nofun) result
  | key => exact begun.stepKey (filled nofun) result
  | colon => exact begun.stepColon (filled nofun) result
  | after | done value => exact begun.follow result
  | string isKey codes part => exact .stepString (filled nofun) result
  | number literal part => exact .stepNumber (filled nofun) result
  | word rest value => exact .stepWord (filled nofun) (begun.word rest value rfl) result

theorem Begun.run {reader last : Reader} {text : Text} (begun : Begun reader) (result : run reader text = some last) :
    Begun last := by
  induction text generalizing reader with
  | nil =>
      cases result
      exact begun
  | cons char text ih =>
      obtain ⟨next, stepped, result⟩ := Option.bind_eq_some_iff.mp result
      exact ih (begun.step stepped) result

theorem begun_object {text : Text} {last : Reader} (result : run start ('{' :: text) = some last) : Begun last := by
  have first : step start '{' = some ⟨.firstKey, [.fields [] []]⟩ := rfl
  have begun : Begun ⟨.firstKey, [.fields [] []]⟩ := ⟨.inl nofun, nofun⟩
  rw [run_of_step first] at result
  exact begun.run result

theorem run_done {value : Json} {text : Text} {last : Reader} (result : run ⟨.done value, stack⟩ text = some last) :
    ∀ char ∈ text, isSpace char = true := by
  induction text with
  | nil => exact nofun
  | cons char text ih =>
      obtain ⟨next, stepped, result⟩ := Option.bind_eq_some_iff.mp result
      have space : isSpace char = true ∧ next = ⟨.done value, stack⟩ := by
        change follow ⟨.done value, stack⟩ char = some next at stepped
        rw [follow] at stepped
        split at stepped
        · rename_i space
          exact ⟨space, (Option.some.inj stepped).symm⟩
        · cases stepped
      rw [space.2] at result
      intro other member
      rcases List.mem_cons.mp member with rfl | member
      · exact space.1
      · exact ih result other member

theorem Begun.finish {reader : Reader} {value : Json} (begun : Begun reader) (finished : finish reader = some value) :
    reader.mode = .done value := by
  rw [Json.finish] at finished
  split at finished
  · rename_i done mode
    rw [mode, Option.some.inj finished]
  · rename_i literal part mode
    split at finished
    · rename_i complete
      rcases begun.inside with filled | ⟨value, done⟩
      · exact absurd complete.2 filled
      · rw [mode] at done
        cases done
    · cases finished
  · cases finished

theorem loads_prefix {fields : List (List Nat × Json)} (valid : (Json.object fields).Valid) {first rest : Text}
    (filled : first ≠ []) (left : rest ≠ []) (whole : first ++ rest = (Json.object fields).dumps) : loads first = none := by
  cases first with
  | nil => exact absurd rfl filled
  | cons char first =>
      have head : char = '{' := by
        rw [dumps, List.cons_append] at whole
        exact (List.cons.inj whole).1
      subst head
      rw [loads]
      cases result : run start ('{' :: first) with
      | none => rfl
      | some reader =>
          rw [Option.bind_some]
          cases finished : finish reader with
          | none => rfl
          | some value =>
              have done := (begun_object result).finish finished
              obtain ⟨last, complete, -⟩ := run_dumps (.object fields) valid []
              rw [← whole] at complete
              change run start _ = _ at complete
              rw [run_of_run result] at complete
              obtain ⟨mode, stack⟩ := reader
              cases done
              have spaces := run_done complete
              have brace : rest.getLast left = '}' := by
                have last : ('{' :: first ++ rest).getLast? = some '}' := by
                  rw [whole, dumps, List.getLast?_concat]
                rw [List.getLast?_append, List.getLast?_eq_some_getLast left] at last
                exact Option.some.inj last
              have space := spaces _ (List.getLast_mem left)
              rw [brace] at space
              cases space

/-- A character that stands in no place between two values. -/
structure Inert (char : Char) : Prop where
  comma : char ≠ ','
  colon : char ≠ ':'
  bracket : char ≠ ']'
  brace : char ≠ '}'
  space : isSpace char = false

theorem Inert.follow {char : Char} (inert : Inert char) (reader : Reader) : follow reader char = none := by
  rw [Json.follow, inert.space]
  simp only [Bool.false_eq_true, if_false, if_neg inert.comma, if_neg inert.bracket, if_neg inert.brace]
  split <;> rfl

theorem run_inString {codes : List Nat} {char : Char} {text : Text} (inert : Inert char) :
    run ⟨.string isKey codes .plain, stack⟩ ('"' :: char :: text) = none := by
  rw [run_cons]
  change (closeString isKey codes stack).bind _ = none
  rw [Option.bind_eq_none_iff]
  intro next closed
  rw [run_cons, Option.bind_eq_none_iff]
  intro last result
  rw [closeString.eq_def] at closed
  split at closed
  · cases closed
    rw [step_deliver, inert.follow] at result
    cases result
  · cases closed
    change stepColon _ char = some last at result
    rw [stepColon, inert.space, if_neg Bool.false_ne_true, if_neg inert.colon] at result
    cases result
  · cases closed

theorem run_second {reader last : Reader} (begun : Begun reader) {char : Char} {text : Text}
    (inert : Inert char)
    (result : run reader ('{' :: '"' :: char :: text) = some last) :
    reader.mode = .value ∨ reader.mode = .firstItem := by
  have brace : Inert '{' := ⟨by decide, by decide, by decide, by decide, rfl⟩
  obtain ⟨mode, stack⟩ := reader
  obtain ⟨next, stepped, result⟩ := Option.bind_eq_some_iff.mp result
  cases mode with
  | value => exact .inl rfl
  | firstItem => exact .inr rfl
  | firstKey | key | colon => cases stepped
  | after | done value =>
      rw [step, brace.follow] at stepped
      cases stepped
  | string isKey codes part =>
      cases part with
      | plain =>
          cases stepped
          exact absurd (result.symm.trans (run_inString inert)) nofun
      | escape | unit digits value => cases stepped
  | number literal part =>
      have none : part.next '{' = none := by cases part <;> rfl
      change stepNumber literal part stack '{' = some next at stepped
      rw [stepNumber, none] at stepped
      simp only [brace.follow] at stepped
      split at stepped
      · rename_i infinity
        cases infinity.2
      · split at stepped <;> cases stepped
  | word rest value =>
      change stepWord rest value stack '{' = some next at stepped
      rw [stepWord.eq_def] at stepped
      split at stepped
      · cases stepped
      split at stepped
      · cases stepped
      · rename_i first rest same
        exact absurd (by rw [Decidable.not_not.mp same]; exact List.mem_cons_self) (begun.word _ _ rfl)

theorem loads_broken {first : Text} {char : Char} {text : Text} {fields : List (List Nat × Json)}
    (valid : (Json.object fields).Valid) (begins : (Json.object fields).dumps = '{' :: '"' :: char :: text)
    (inert : Inert char) :
    loads ('{' :: first ++ (Json.object fields).dumps) = none := by
  rw [loads, run_append]
  cases result : run start ('{' :: first) with
  | none => rfl
  | some reader =>
      have begun := begun_object result
      rw [Option.bind_some, Option.bind_eq_none_iff]
      intro last complete
      have inside : reader.stack ≠ [] := by
        rcases begun.inside with inside | ⟨value, done⟩
        · exact inside
        · have mode := run_second begun inert (begins ▸ complete)
          rw [done] at mode
          rcases mode with value | item <;> contradiction
      have value : run ⟨.value, reader.stack⟩ (Json.object fields).dumps = some last := by
        obtain ⟨mode, stack⟩ := reader
        rcases run_second begun inert (begins ▸ complete) with same | same
        · cases same
          exact complete
        cases same
        have first := run_firstItem valid stack []
        rw [List.append_nil] at first
        exact first.symm.trans complete
      obtain ⟨reached, again, settled⟩ := run_dumps (.object fields) valid reader.stack
      cases value.symm.trans again
      cases settled with
      | delivered =>
          cases stack : reader.stack with
          | nil => exact absurd stack inside
          | cons frame rest => cases frame <;> rfl
      | number _ same => cases same

theorem control_not_digit {char : Char} (control : char.toNat < 32) : isDigit 10 char = false := by
  rw [isDigit, digitValue, if_neg (by omega), if_neg (by omega), if_neg (by omega)]
  rfl

theorem control_ne {char other : Char} (control : char.toNat < 32) (printable : 32 ≤ other.toNat) : char ≠ other := by
  rintro rfl
  omega

theorem control_next {char : Char} (control : char.toNat < 32) (part : NumberPart) :
    NumberPart.start char = none ∧ part.next char = none := by
  have minus : char ≠ '-' := control_ne control (by decide)
  have plus : char ≠ '+' := control_ne control (by decide)
  have zero : char ≠ '0' := control_ne control (by decide)
  have point : char ≠ '.' := control_ne control (by decide)
  have small : char ≠ 'e' := control_ne control (by decide)
  have large : char ≠ 'E' := control_ne control (by decide)
  have digit := control_not_digit control
  have started : NumberPart.start char = none := by
    simp [NumberPart.start, minus, zero, digit]
  refine ⟨started, ?_⟩
  cases part <;> simp [NumberPart.next, started, minus, plus, point, small, large, digit]

theorem printable_scan {rest : Text} {part last : NumberPart} (scanned : rest.foldlM NumberPart.next part = some last) :
    ∀ char ∈ rest, 32 ≤ char.toNat := by
  induction rest generalizing part with
  | nil => exact nofun
  | cons char rest ih =>
      obtain ⟨next, found, scanned⟩ := Option.bind_eq_some_iff.mp scanned
      intro other member
      rcases List.mem_cons.mp member with rfl | member
      · refine Nat.le_of_not_lt fun control => ?_
        rw [(control_next control part).2] at found
        cases found
      · exact ih scanned other member

theorem printable_number {literal : Text} {part : NumberPart} (scanned : numberScan literal = some part) :
    ∀ char ∈ literal, 32 ≤ char.toNat := by
  cases literal with
  | nil => exact nofun
  | cons char rest =>
      obtain ⟨first, started, scanned⟩ := Option.bind_eq_some_iff.mp scanned
      intro other member
      rcases List.mem_cons.mp member with rfl | member
      · refine Nat.le_of_not_lt fun control => ?_
        rw [(control_next control first).1] at started
        cases started
      · exact printable_scan scanned other member

theorem printable_digitChar : ∀ digit < 16, 32 ≤ (Nat.digitChar digit).toNat := by
  decide

theorem printable_unit (code : Nat) : ∀ char ∈ unit code, 32 ≤ char.toNat := by
  have digit (n : Nat) := printable_digitChar (n % 16) (Nat.mod_lt n (by omega))
  simp [unit, digit]

theorem printable_escape : ∀ entry ∈ escapes, 32 ≤ entry.2.toNat := by
  decide

theorem printable_escaped (code : Nat) : ∀ char ∈ escaped code, 32 ≤ char.toNat := by
  rw [escaped]
  cases found : escapes.find? fun entry => entry.1 = code with
  | some entry => simp [printable_escape entry (List.mem_of_find?_eq_some found)]
  | none =>
      simp only
      split
      · rename_i printable
        intro char member
        rw [List.mem_singleton.mp member, toNat_ofNat_ascii code (by omega)]
        exact printable.1
      split
      · exact printable_unit code
      intro char member
      rcases List.mem_append.mp member with member | member
      · exact printable_unit _ char member
      · exact printable_unit _ char member

theorem printable_of_all {text : Text} (all : (text.all fun char => decide (32 ≤ char.toNat)) = true) :
    ∀ char ∈ text, 32 ≤ char.toNat := by
  intro char member
  exact of_decide_eq_true (List.all_eq_true.mp all char member)

theorem printable_append {first rest : Text} (left : ∀ char ∈ first, 32 ≤ char.toNat)
    (right : ∀ char ∈ rest, 32 ≤ char.toNat) : ∀ char ∈ first ++ rest, 32 ≤ char.toNat := by
  intro char member
  rcases List.mem_append.mp member with member | member
  · exact left char member
  · exact right char member

theorem printable_cons {first : Char} {rest : Text} (left : 32 ≤ first.toNat)
    (right : ∀ char ∈ rest, 32 ≤ char.toNat) : ∀ char ∈ first :: rest, 32 ≤ char.toNat := by
  intro char member
  rcases List.mem_cons.mp member with rfl | member
  · exact left
  · exact right char member

theorem printable_quoted (codes : List Nat) : ∀ char ∈ quoted codes, 32 ≤ char.toNat := by
  refine printable_append (printable_cons (by decide) fun char member => ?_) (printable_of_all rfl)
  obtain ⟨code, -, member⟩ := List.mem_flatMap.mp member
  exact printable_escaped code char member

mutual

theorem printable_dumps : ∀ (value : Json), value.Valid → ∀ char ∈ value.dumps, 32 ≤ char.toNat
  | .null, _ => printable_of_all rfl
  | .bool true, _ => printable_of_all rfl
  | .bool false, _ => printable_of_all rfl
  | .number literal, valid => by
      obtain ⟨part, scanned, -⟩ := valid
      exact printable_number scanned
  | .string codes, _ => printable_quoted codes
  | .array items, valid => printable_append (printable_cons (by decide) (printable_items items valid)) (printable_of_all rfl)
  | .object fields, valid => printable_append (printable_cons (by decide) (printable_fields fields valid.2)) (printable_of_all rfl)

theorem printable_items : ∀ (items : List Json), ValidItems items → ∀ char ∈ dumpsItems items, 32 ≤ char.toNat
  | [], _ => nofun
  | [item], valid => printable_dumps item valid.1
  | item :: next :: items, valid =>
      printable_append (printable_dumps item valid.1) (printable_cons (by decide) (printable_items (next :: items) valid.2))

theorem printable_fields : ∀ (fields : List (List Nat × Json)), ValidFields fields →
    ∀ char ∈ dumpsFields fields, 32 ≤ char.toNat
  | [], _ => nofun
  | [(key, value)], valid =>
      printable_append (printable_quoted key) (printable_cons (by decide) (printable_dumps value valid.2.1))
  | (key, value) :: next :: fields, valid =>
      printable_append (printable_append (printable_quoted key) (printable_cons (by decide) (printable_dumps value valid.2.1)))
        (printable_cons (by decide) (printable_fields (next :: fields) valid.2.2))

end

end Json

end PDocker.Data
