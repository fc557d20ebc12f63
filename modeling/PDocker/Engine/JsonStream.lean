import PDocker.Context.DockerIgnore
import PDocker.Data.Utf8Stream

/-!
# The streamed response of a build

`requestJsonStream` of the application reads the head of a response byte by byte and
decodes what each later read gives on its own. Lines are shown as they are complete.
What a line of JSON is shown as is a parameter, a function of the line.
-/

set_option autoImplicit false

namespace PDocker.Engine

open Data (Bytes Text decodeUtf8 uncut splitParts replacement)
open Context (kotlinTrim isKotlinSpace)

def marker : Bytes := [13, 10, 13, 10]

/-- The states of `readHttpHead`, which is left in state 3 at a newline. -/
def headState (state : Nat) (byte : UInt8) : Nat :=
  if state = 0 ∧ byte = 13 then 1
  else if state = 1 ∧ byte = 10 then 2
  else if state = 2 ∧ byte = 13 then 3
  else if byte = 13 then 1
  else 0

/-- `readHttpHead` from a state on: the head, and what is left of the stream. -/
def readHttpHead (state : Nat) : Bytes → Bytes × Bytes
  | [] => ([], [])
  | byte :: rest =>
      if state = 3 ∧ byte = 10 then ([byte], rest)
      else
        let (head, rest) := readHttpHead (headState state byte) rest
        (byte :: head, rest)

/-- The split of `parse`, at the first marker. -/
def splitHead : Bytes → Option (Bytes × Bytes)
  | [] => none
  | byte :: rest =>
      if (byte :: rest).take 4 = marker then some ([], (byte :: rest).drop 4)
      else (splitHead rest).map fun parts => (byte :: parts.1, parts.2)

/-- The calls of `onLine` for one line. -/
def shownLines (decodeJsonLine : Text → Text) (line : Text) : List Text :=
  let raw := kotlinTrim line
  if raw = [] then []
  else
    let segments := splitParts '\n' (decodeJsonLine raw)
    (segments.dropLast.filter (· ≠ [])).map (· ++ ['\n']) ++ [segments.getLastD []].filter (· ≠ [])

/-- `consumeJsonLines`: the calls of `onLine`, and what is left pending. -/
def consumeJsonLines (decodeJsonLine : Text → Text) (pending : Text) : List Text × Text :=
  let parts := splitParts '\n' pending
  (parts.dropLast.flatMap (shownLines decodeJsonLine), parts.getLastD [])

def readLines (decodeJsonLine : Text → Text) (pending : Text) : List Bytes → List Text
  | [] => (consumeJsonLines decodeJsonLine (pending ++ ['\n'])).1
  | read :: reads =>
      let (lines, pending) := consumeJsonLines decodeJsonLine (pending ++ decodeUtf8 read)
      lines ++ readLines decodeJsonLine pending reads

/-- `requestJsonStream` of a response whose body comes in these reads: the calls of `onLine`, whose
lines together are the result, or the text of the error. -/
def requestJsonStream (status : Bytes → Nat) (decodeJsonLine : Text → Text) (response : Bytes)
    (reads : List Bytes) : Except Text (List Text) :=
  let (head, body) := readHttpHead 0 response
  if 200 ≤ status head ∧ status head ≤ 299 then .ok (readLines decodeJsonLine [] reads)
  else .error (decodeUtf8 body)

theorem readHttpHead_eq (rest : Bytes) (state : Nat) (known : state < 4) :
    readHttpHead state rest =
      match splitHead (marker.take state ++ rest) with
      | some (head, body) => ((head ++ marker).drop state, body)
      | none => (rest, []) := by
  have states : state = 0 ∨ state = 1 ∨ state = 2 ∨ state = 3 := by omega
  induction rest generalizing state with
  | nil => rcases states with rfl | rfl | rfl | rfl <;> rfl
  | cons byte rest ih =>
      rw [readHttpHead]
      by_cases ends : state = 3 ∧ byte = 10
      · obtain ⟨rfl, rfl⟩ := ends
        rfl
      rw [if_neg ends]
      have after : headState state byte < 4 := by
        unfold headState
        split_ifs <;> omega
      rw [ih _ after (by omega)]
      rcases states with rfl | rfl | rfl | rfl <;> by_cases cr : byte = 13 <;> by_cases lf : byte = 10 <;>
        simp_all [headState, marker, splitHead]
      all_goals cases splitHead rest <;> (try split_ifs) <;> simp

/-- The head ends with the first marker, where `parse` splits the response. -/
def HeadAgrees (response : Bytes) : Prop :=
  readHttpHead 0 response =
    match splitHead response with
    | some (head, body) => (head ++ marker, body)
    | none => (response, [])

theorem headAgrees (response : Bytes) : HeadAgrees response := readHttpHead_eq response 0 (by decide)

variable {sep : Char}

theorem splitParts_both (left right : Text) :
    splitParts sep (left ++ right) =
      (splitParts sep left).dropLast ++ splitParts sep ((splitParts sep left).getLastD [] ++ right) := by
  induction left with
  | nil => rfl
  | cons char left ih =>
      have filled := Data.splitParts_ne_nil sep left
      rw [List.cons_append, splitParts, splitParts, ih]
      cases parts : splitParts sep left with
      | nil => exact absurd parts filled
      | cons part more =>
          by_cases same : char = sep
          · simp [same]
          · rw [if_neg same, if_neg same]
            cases more with
            | nil => simp [splitParts, same]
            | cons next more => simp

theorem readLines_eq (decodeJsonLine : Text → Text) (pending : Text) (reads : List Bytes) :
    readLines decodeJsonLine pending reads =
      (splitParts '\n' (pending ++ (reads.map decodeUtf8).flatten)).flatMap (shownLines decodeJsonLine) := by
  induction reads generalizing pending with
  | nil =>
      rw [readLines, consumeJsonLines, Data.splitParts_append_sep]
      simp [splitParts]
  | cons read reads ih =>
      rw [readLines, consumeJsonLines, List.map_cons, List.flatten_cons, ← List.append_assoc,
        splitParts_both (pending ++ decodeUtf8 read), List.flatMap_append, ← ih]

def Undivided (status : Bytes → Nat) (response : Bytes) (reads : List Bytes) : Prop :=
  ∀ decodeJsonLine, requestJsonStream status decodeJsonLine response reads =
    requestJsonStream status decodeJsonLine response [(readHttpHead 0 response).2]

theorem count_kotlinTrim (text : Text) : (kotlinTrim text).count replacement = text.count replacement := by
  have front : ∀ text : Text, (text.dropWhile isKotlinSpace).count replacement = text.count replacement := by
    intro text
    have taken : (text.takeWhile isKotlinSpace).count replacement = 0 :=
      List.count_eq_zero.mpr fun member => absurd (List.mem_takeWhile_imp member) (by decide)
    conv_rhs => rw [← @List.takeWhile_append_dropWhile _ isKotlinSpace text, List.count_append, taken, Nat.zero_add]
  rw [kotlinTrim, List.rdropWhile, List.count_reverse, front, List.count_reverse, front]

def replaced (line : Text) : Text := List.replicate (line.count replacement) replacement

theorem shownLines_replaced (line : Text) :
    (shownLines replaced line).flatten = List.replicate (line.count replacement) replacement := by
  have single : splitParts '\n' (replaced (kotlinTrim line)) = [replaced (kotlinTrim line)] :=
    Data.splitParts_whole fun member => absurd (List.eq_of_mem_replicate member) (by decide)
  rw [shownLines, ← count_kotlinTrim line, single]
  by_cases blank : kotlinTrim line = []
  · simp [blank]
  · by_cases none : (kotlinTrim line).count replacement = 0 <;> simp [blank, none, replaced]

theorem count_splitParts (text : Text) :
    ((splitParts '\n' text).map (·.count replacement)).sum = text.count replacement := by
  induction text with
  | nil => rfl
  | cons char text ih =>
      rw [splitParts]
      by_cases same : char = '\n'
      · subst same
        rw [if_pos rfl, List.count_cons_of_ne (by decide), ← ih]
        simp
      · cases parts : splitParts '\n' text with
        | nil => exact absurd parts (Data.splitParts_ne_nil _ _)
        | cons part more =>
            rw [parts] at ih
            simp only [same, if_false, List.map_cons, List.sum_cons, List.count_cons] at ih ⊢
            omega

theorem length_shown (text : Text) :
    ((splitParts '\n' text).flatMap (shownLines replaced)).flatten.length = text.count replacement := by
  rw [← count_splitParts]
  generalize splitParts '\n' text = parts
  induction parts with
  | nil => rfl
  | cons part parts ih => simp [shownLines_replaced, ih]

/-- The reads of the body do not matter exactly if the response is an error or no read ends
within a character. -/
theorem json_stream_iff (status : Bytes → Nat) {response : Bytes} {reads : List Bytes}
    (divided : reads.flatten = (readHttpHead 0 response).2) :
    (HeadAgrees response ∧ Undivided status response reads) ↔
      ¬ (200 ≤ status (readHttpHead 0 response).1 ∧ status (readHttpHead 0 response).1 ≤ 299) ∨
        uncut reads = true := by
  rw [and_iff_right (headAgrees response), Undivided]
  unfold requestJsonStream
  dsimp only
  by_cases fine : 200 ≤ status (readHttpHead 0 response).1 ∧ status (readHttpHead 0 response).1 ≤ 299
  · simp only [fine, and_self, if_true, not_true_eq_false, false_or, Except.ok.injEq, readLines_eq, ← divided]
    simp only [List.nil_append, List.map_cons, List.map_nil, List.flatten_cons, List.flatten_nil, List.append_nil]
    constructor
    · intro same
      have equal := congrArg (fun lines => lines.flatten.length) (same replaced)
      simp only [length_shown] at equal
      by_contra cut
      have fewer := Data.decode_pieces reads
      rw [if_neg cut] at fewer
      omega
    · intro whole decodeJsonLine
      rw [Data.decode_pieces_iff.mpr whole]
  · simp [fine]

theorem json_stream_reads :
    HeadAgrees (marker ++ [0x7B, 0x7D, 10, 0xC3, 0xA9]) ∧
      Undivided (fun _ => 200) (marker ++ [0x7B, 0x7D, 10, 0xC3, 0xA9]) [[0x7B], [0x7D, 10], [0xC3, 0xA9]] :=
  (json_stream_iff (fun _ => 200) (by decide)).mpr (.inr (by decide))

/-- A character in two reads. -/
theorem json_stream_cut :
    ∃ response reads, reads.flatten = (readHttpHead 0 response).2 ∧ ¬ Undivided (fun _ => 200) response reads := by
  refine ⟨marker ++ [0xC3, 0xA9], [[0xC3], [0xA9]], by decide, fun same => ?_⟩
  have shown := congrArg Except.toOption (same id)
  exact absurd shown (by decide +kernel)

end PDocker.Engine
