import Mathlib.Data.List.Chain

/-!
# Terminal streams of a hijacked connection

Output of a terminal that is no real one gets its carriage returns from the
engine, which remembers the last byte from one chunk to the next. Input of a
terminal that fell back to pipes gets its newlines from each read alone.
-/

set_option autoImplicit false

namespace PDocker.Engine

abbrev Byte := UInt8

def lineFeed : Byte := 0x0a
def carriageReturn : Byte := 0x0d

def interrupt : Byte := 0x03

/-- The loop body of `tty_output`: the bytes so far, and `prev_cr`. -/
def cookByte (state : List Byte × Bool) (byte : Byte) : List Byte × Bool :=
  (if byte = lineFeed && !state.2 then state.1 ++ [carriageReturn, lineFeed] else state.1 ++ [byte],
    byte == carriageReturn)

/-- `tty_output`: the output of a chunk and `_pdocker_tty_prev_cr` after it. -/
def ttyOutput (tty rawPty : Bool) (prevCr : Bool) (chunk : List Byte) : List Byte × Bool :=
  if !tty then (chunk, prevCr)
  else if rawPty then (chunk, prevCr)
  else chunk.foldl cookByte ([], prevCr)

def frame (stream : Byte) (chunk : List Byte) : List Byte :=
  [stream, 0, 0, 0] ++ ([24, 16, 8, 0].map fun shift => UInt8.ofNat (chunk.length >>> shift)) ++ chunk

def writeChunk (tty rawPty : Bool) (state : List Byte × Bool) (read : Byte × List Byte) : List Byte × Bool :=
  if read.2 = [] then state
  else if tty then
    (state.1 ++ (ttyOutput tty rawPty state.2 read.2).1, (ttyOutput tty rawPty state.2 read.2).2)
  else (state.1 ++ frame read.1 read.2, state.2)

/-- `_pipe_to_multiplexed`: the reads of the loop, and what is drained when the process has exited. -/
def pipeToMultiplexed (tty rawPty : Bool) (reads rests : List (Byte × List Byte)) : List Byte :=
  ((reads ++ rests).foldl (writeChunk tty rawPty) ([], false)).1

def withReturns (bytes : List Byte) : List Byte :=
  (List.zipWith
    (fun (prev : Option Byte) byte =>
      if byte = lineFeed ∧ prev ≠ some carriageReturn then [carriageReturn, lineFeed] else [byte])
    (none :: bytes.map some) bytes).flatten

def translation (tty rawPty : Bool) (bytes : List Byte) : List Byte :=
  if tty && !rawPty then withReturns bytes else bytes

theorem foldl_cookByte (bytes out : List Byte) (prev : Option Byte) :
    (bytes.foldl cookByte (out, prev == some carriageReturn)).1 = out ++ (List.zipWith
        (fun (prev : Option Byte) byte =>
          if byte = lineFeed ∧ prev ≠ some carriageReturn then [carriageReturn, lineFeed] else [byte])
        (prev :: bytes.map some) bytes).flatten := by
  induction bytes generalizing out prev with
  | nil => simp
  | cons byte bytes ih =>
      have next : cookByte (out, prev == some carriageReturn) byte =
          (out ++ (if byte = lineFeed ∧ prev ≠ some carriageReturn then [carriageReturn, lineFeed] else [byte]),
            some byte == some carriageReturn) := by
        rw [cookByte]
        by_cases inserts : byte = lineFeed ∧ prev ≠ some carriageReturn
        · have both : (decide (byte = lineFeed) && !(prev == some carriageReturn)) = true := by simpa using inserts
          rw [if_pos inserts, if_pos both]
          rfl
        · have notBoth : ¬ (decide (byte = lineFeed) && !(prev == some carriageReturn)) = true := by simpa using inserts
          rw [if_neg inserts, if_neg notBoth]
          rfl
      rw [List.foldl_cons, next, ih, List.map_cons, List.zipWith_cons_cons, List.flatten_cons, List.append_assoc]

def ttyOutputs (tty rawPty : Bool) (chunks : List (List Byte)) : List Byte :=
  (chunks.foldl
    (fun state chunk =>
      (state.1 ++ (ttyOutput tty rawPty state.2 chunk).1, (ttyOutput tty rawPty state.2 chunk).2))
    (([], false) : List Byte × Bool)).1

theorem foldl_cookByte_start (bytes out : List Byte) (prev : Bool) : bytes.foldl cookByte (out, prev) =
      (out ++ (bytes.foldl cookByte ([], prev)).1, (bytes.foldl cookByte ([], prev)).2) := by
  induction bytes using List.reverseRecOn with
  | nil => simp
  | append_singleton bytes byte ih =>
      rw [List.foldl_append, List.foldl_append, ih]
      simp only [List.foldl_cons, List.foldl_nil, cookByte]
      split <;> simp

theorem ttyOutputs_cooked (chunks : List (List Byte)) :
    ttyOutputs true false chunks = (chunks.flatten.foldl cookByte ([], false)).1 := by
  suffices loop : ∀ state : List Byte × Bool, chunks.foldl
        (fun state chunk =>
          (state.1 ++ (ttyOutput true false state.2 chunk).1, (ttyOutput true false state.2 chunk).2)) state =
        chunks.flatten.foldl cookByte state from congrArg Prod.fst (loop ([], false))
  induction chunks with
  | nil => exact fun _ => rfl
  | cons chunk chunks ih =>
      intro state
      have first : ttyOutput true false state.2 chunk = chunk.foldl cookByte ([], state.2) := rfl
      rw [List.foldl_cons, List.flatten_cons, List.foldl_append, ih, first, ← foldl_cookByte_start]

theorem ttyOutputs_plain {tty rawPty : Bool} (plain : (tty && !rawPty) = false) (chunks : List (List Byte)) :
    ttyOutputs tty rawPty chunks = chunks.flatten := by
  have same : ∀ prev chunk, ttyOutput tty rawPty prev chunk = (chunk, prev) := by
    intro prev chunk
    cases tty with
    | false => rfl
    | true =>
        cases rawPty with
        | false => cases plain
        | true => rfl
  simp only [ttyOutputs, same]
  suffices loop : ∀ state : List Byte × Bool,
      (chunks.foldl (fun state chunk => (state.1 ++ chunk, state.2)) state).1 = state.1 ++ chunks.flatten from
    loop ([], false)
  induction chunks with
  | nil => simp
  | cons chunk chunks ih =>
      intro state
      rw [List.foldl_cons, ih, List.flatten_cons, List.append_assoc]

/-- The chunks of a terminal come out as the translation of the whole stream. -/
theorem ttyOutputs_any_chunks (tty rawPty : Bool) (chunks : List (List Byte)) :
    ttyOutputs tty rawPty chunks = translation tty rawPty chunks.flatten := by
  unfold translation
  split
  · rename_i cooks
    obtain ⟨rfl, cooked⟩ := Bool.and_eq_true_iff.mp cooks
    obtain rfl : rawPty = false := by simpa using cooked
    rw [ttyOutputs_cooked]
    exact foldl_cookByte chunks.flatten [] none
  · rename_i plain
    exact ttyOutputs_plain (by simpa using plain) chunks

theorem pipeToMultiplexed_tty (rawPty : Bool) (reads rests : List (Byte × List Byte)) :
    pipeToMultiplexed true rawPty reads rests = ttyOutputs true rawPty ((reads ++ rests).map Prod.snd) := by
  have skips : ∀ prev, ttyOutput true rawPty prev [] = ([], prev) := by
    intro prev
    cases rawPty <;> rfl
  have step : ∀ (state : List Byte × Bool) (read : Byte × List Byte), writeChunk true rawPty state read =
      (state.1 ++ (ttyOutput true rawPty state.2 read.2).1, (ttyOutput true rawPty state.2 read.2).2) := by
    intro state read
    unfold writeChunk
    split
    · rename_i empty
      rw [empty, skips, List.append_nil]
    · rfl
  have steps : writeChunk true rawPty = fun state read =>
      (state.1 ++ (ttyOutput true rawPty state.2 read.2).1, (ttyOutput true rawPty state.2 read.2).2) :=
    funext fun state => funext fun read => step state read
  rw [pipeToMultiplexed, ttyOutputs, List.foldl_map, steps]

/-! ## Input -/

/-- `chunk.replace(b"\r\n", b"\n").replace(b"\r", b"\n")` -/
def newlines (chunk : List Byte) : List Byte :=
  (pairs chunk).map fun byte => if byte = carriageReturn then lineFeed else byte
where
  pairs : List Byte → List Byte
    | [] => []
    | [byte] => [byte]
    | first :: second :: rest =>
        if first = carriageReturn ∧ second = lineFeed then lineFeed :: pairs rest else first :: pairs (second :: rest)

def pumpChunk (fallback ttyLike : Bool) (chunk : List Byte) : List Byte :=
  let plain := if fallback then newlines chunk else chunk
  if plain.contains interrupt && ttyLike && fallback then plain.filter (· ≠ interrupt) else plain

inductive InputRead where
  | timeout
  | chunk (bytes : List Byte)

def received : List InputRead → List (List Byte)
  | [] => []
  | .timeout :: more => received more
  | .chunk bytes :: more => if bytes = [] then [] else bytes :: received more

/-- `_pipe_hijacked_stdin`: what the child is written while it runs. -/
def pumpStdin (fallback ttyLike : Bool) : List InputRead → List Byte
  | [] => []
  | .timeout :: more => pumpStdin fallback ttyLike more
  | .chunk bytes :: more =>
      if bytes = [] then [] else pumpChunk fallback ttyLike bytes ++ pumpStdin fallback ttyLike more

def cleanByte (byte : Byte) : List Byte :=
  if byte = carriageReturn then [lineFeed] else if byte = interrupt then [] else [byte]

def cleaned : List Byte → List Byte
  | [] => []
  | [byte] => cleanByte byte
  | first :: second :: rest =>
      if first = carriageReturn ∧ second = lineFeed then lineFeed :: cleaned rest
      else cleanByte first ++ cleaned (second :: rest)

def Unbroken (chunks : List (List Byte)) : Prop :=
  chunks.IsChain fun left right => ¬ (left.getLast? = some carriageReturn ∧ right.head? = some lineFeed)

theorem pumpStdin_eq (fallback ttyLike : Bool) (reads : List InputRead) :
    pumpStdin fallback ttyLike reads = (received reads).flatMap (pumpChunk fallback ttyLike) := by
  induction reads with
  | nil => rfl
  | cons read more ih =>
      cases read with
      | timeout => exact ih
      | chunk bytes =>
          rw [pumpStdin, received]
          split
          · rfl
          · rw [List.flatMap_cons, ih]

theorem newlines_cons {first : Byte} {rest : List Byte}
    (unpaired : ¬ (first = carriageReturn ∧ rest.head? = some lineFeed)) :
    newlines (first :: rest) = (if first = carriageReturn then lineFeed else first) :: newlines rest := by
  cases rest with
  | nil => rfl
  | cons second rest =>
      have pair : ¬ (first = carriageReturn ∧ second = lineFeed) := by simpa using unpaired
      rw [newlines, newlines.pairs, if_neg pair, List.map_cons]
      rfl

theorem filter_newline (byte : Byte) :
    [if byte = carriageReturn then lineFeed else byte].filter (· ≠ interrupt) = cleanByte byte := by
  unfold cleanByte
  split
  · rfl
  split
  · rename_i ctrl
    rw [ctrl]
    rfl
  · rename_i other
    exact List.filter_cons_of_pos (by simpa using other)

theorem filter_newlines (chunk : List Byte) : (newlines chunk).filter (· ≠ interrupt) = cleaned chunk := by
  induction chunk using cleaned.induct with
  | case1 => rfl
  | case2 byte => exact filter_newline byte
  | case3 first second rest pair ih =>
      rw [cleaned, if_pos pair, newlines, newlines.pairs, if_pos pair, List.map_cons, ← ih]
      rfl
  | case4 first second rest pair ih =>
      rw [cleaned, if_neg pair, newlines_cons (by simpa using pair), ← List.singleton_append, List.filter_append,
        filter_newline, ih]

theorem pumpChunk_fallback (chunk : List Byte) : pumpChunk true true chunk = cleaned chunk := by
  rw [← filter_newlines, pumpChunk]
  simp only [↓reduceIte, Bool.and_true]
  split
  · rfl
  rename_i none
  symm
  rw [List.filter_eq_self]
  intro byte member
  have away : byte ≠ interrupt := by
    rintro rfl
    exact none (List.contains_iff_mem.mpr member)
  simpa using away

theorem cleaned_cons {first : Byte} {rest : List Byte}
    (unpaired : ¬ (first = carriageReturn ∧ rest.head? = some lineFeed)) :
    cleaned (first :: rest) = cleanByte first ++ cleaned rest := by
  cases rest with
  | nil => rw [cleaned, cleaned, List.append_nil]
  | cons second rest =>
      have pair : ¬ (first = carriageReturn ∧ second = lineFeed) := by simpa using unpaired
      rw [cleaned, if_neg pair]

theorem cleaned_append {left right : List Byte}
    (unbroken : ¬ (left.getLast? = some carriageReturn ∧ right.head? = some lineFeed)) :
    cleaned (left ++ right) = cleaned left ++ cleaned right := by
  induction left using cleaned.induct with
  | case1 => rfl
  | case2 byte => exact cleaned_cons (by simpa using unbroken)
  | case3 first second rest pair ih =>
      rw [List.cons_append, List.cons_append, cleaned, if_pos pair, cleaned, if_pos pair]
      cases rest with
      | nil => rfl
      | cons third rest => rw [ih (by simpa using unbroken), List.cons_append]
  | case4 first second rest pair ih =>
      rw [List.cons_append, List.cons_append, cleaned, if_neg pair, cleaned, if_neg pair, ← List.cons_append,
        ih (by simpa using unbroken), List.append_assoc]

theorem length_cleaned_append (left right : List Byte) :
    (cleaned (left ++ right)).length ≤ (cleaned left).length + (cleaned right).length ∧
      (left.getLast? = some carriageReturn → right.head? = some lineFeed →
        (cleaned (left ++ right)).length < (cleaned left).length + (cleaned right).length) := by
  by_cases broken : left.getLast? = some carriageReturn ∧ right.head? = some lineFeed
  · obtain ⟨above, rfl⟩ := List.getLast?_eq_some_iff.mp broken.1
    obtain ⟨rest, rfl⟩ := List.head?_eq_some_iff.mp broken.2
    have first : cleaned (above ++ [carriageReturn]) = cleaned above ++ [lineFeed] :=
      cleaned_append (by simp [carriageReturn, lineFeed])
    have second : cleaned (lineFeed :: rest) = [lineFeed] ++ cleaned rest :=
      cleaned_cons (by simp [carriageReturn, lineFeed])
    have whole : cleaned (above ++ [carriageReturn] ++ lineFeed :: rest) = cleaned above ++ lineFeed :: cleaned rest := by
      have pair : cleaned (carriageReturn :: lineFeed :: rest) = lineFeed :: cleaned rest := by
        rw [cleaned, if_pos ⟨rfl, rfl⟩]
      rw [List.append_assoc, List.singleton_append, cleaned_append (by simp [carriageReturn, lineFeed]), pair]
    rw [whole, first, second]
    simp only [List.length_append, List.length_cons, List.length_nil]
    exact ⟨by omega, fun _ _ => by omega⟩
  · rw [cleaned_append broken, List.length_append]
    exact ⟨le_rfl, fun one two => absurd ⟨one, two⟩ broken⟩

theorem length_cleaned_flatten (chunks : List (List Byte)) :
    (cleaned chunks.flatten).length ≤ (chunks.flatMap cleaned).length := by
  induction chunks with
  | nil => exact le_rfl
  | cons chunk chunks ih =>
      rw [List.flatten_cons, List.flatMap_cons, List.length_append]
      exact (length_cleaned_append chunk chunks.flatten).1.trans (Nat.add_le_add_left ih _)

theorem cleaned_chunks_iff {chunks : List (List Byte)} (filled : ∀ chunk ∈ chunks, chunk ≠ []) :
    chunks.flatMap cleaned = cleaned chunks.flatten ↔ Unbroken chunks := by
  induction chunks with
  | nil => simp [Unbroken, cleaned]
  | cons chunk chunks ih =>
      have later := ih fun other member => filled other (List.mem_cons_of_mem _ member)
      rw [List.flatten_cons, List.flatMap_cons]
      cases chunks with
      | nil => simp [Unbroken]
      | cons second more =>
          have start : ((second :: more).flatten).head? = second.head? := by
            have inner := filled second (by simp)
            cases second with
            | nil => exact absurd rfl inner
            | cons => rfl
          rw [Unbroken, List.isChain_cons_cons, ← Unbroken, ← later, ← start]
          constructor
          · intro same
            have lengths := congrArg List.length same
            rw [List.length_append] at lengths
            have bound := length_cleaned_append chunk (second :: more).flatten
            have inner := length_cleaned_flatten (second :: more)
            have unbroken : ¬ (chunk.getLast? = some carriageReturn ∧
                ((second :: more).flatten).head? = some lineFeed) := by
              intro broken
              have short := bound.2 broken.1 broken.2
              omega
            rw [cleaned_append unbroken] at same
            exact ⟨unbroken, List.append_cancel_left same⟩
          · intro both
            rw [cleaned_append both.1, both.2]

theorem received_filled (reads : List InputRead) : ∀ chunk ∈ received reads, chunk ≠ [] := by
  induction reads with
  | nil => exact nofun
  | cons read more ih =>
      cases read with
      | timeout => exact ih
      | chunk bytes =>
          rw [received]
          split
          · exact nofun
          · rename_i filled
            exact List.forall_mem_cons.mpr ⟨filled, ih⟩

/-- The input of a terminal without a device is cleaned exactly when no read breaks a pair. -/
theorem pumpStdin_cleaned_iff (reads : List InputRead) :
    pumpStdin true true reads = cleaned (received reads).flatten ↔ Unbroken (received reads) := by
  have chunks : (received reads).flatMap (pumpChunk true true) = (received reads).flatMap cleaned :=
    List.flatMap_congr fun chunk _ => pumpChunk_fallback chunk
  rw [pumpStdin_eq, chunks]
  exact cleaned_chunks_iff (received_filled reads)

theorem pair_broken : ¬ ∀ reads, pumpStdin true true reads = cleaned (received reads).flatten := by
  intro same
  have broken := same [.chunk [97, carriageReturn], .chunk [lineFeed, 98]]
  revert broken
  decide

end PDocker.Engine
