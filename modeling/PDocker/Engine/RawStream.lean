import PDocker.Data.Utf8Stream
import PDocker.Engine.Terminal

/-!
# The raw stream of a container

The daemon frames what it reads of a log or a pipe; `decodeRawStream` of the
application takes the frames apart and decodes each one. Array indices are signed
numbers of 32 bits, as are the lengths that it reads.
-/

set_option autoImplicit false

namespace PDocker.Engine

open Data (Bytes Text decodeUtf8 uncut)

/-- `toInt` of a sum that is kept in 32 bits. -/
def int32 (n : Nat) : Int := (BitVec.ofNat 32 n).toInt

def lengthOf (b4 b5 b6 b7 : UInt8) : Nat :=
  ((b4.toNat * 256 + b5.toNat) * 256 + b6.toNat) * 256 + b7.toNat

/-- The loop of `decodeRawStream`, from an index and with what stands there; none where an index is
out of bounds or `copyOfRange` gets a range that ends before it begins. -/
def decodeFrames (size i : Nat) (rest : Bytes) (out : Text) : Option Text :=
  if int32 (i + 8) ≤ size then
    match rest with
    | _ :: _ :: _ :: _ :: b4 :: b5 :: b6 :: b7 :: rest =>
        let length := lengthOf b4 b5 b6 b7
        let i := i + 8
        if int32 length < 0 ∨ int32 (i + length) > size then some out
        else if int32 (i + length) < i then none
        else decodeFrames size (i + length) (rest.drop length) (out ++ decodeUtf8 (rest.take length))
    | _ => none
  else some out
termination_by rest.length
decreasing_by simp; omega

def decodeRawStream (body : Bytes) : Option Text :=
  (decodeFrames body.length 0 body []).map fun out => if out = [] ∧ body ≠ [] then decodeUtf8 body else out

def cutFrames (body : Bytes) : List Bytes × Bytes :=
  match body with
  | _ :: _ :: _ :: _ :: b4 :: b5 :: b6 :: b7 :: rest =>
      let length := lengthOf b4 b5 b6 b7
      if length ≤ rest.length then
        (rest.take length :: (cutFrames (rest.drop length)).1, (cutFrames (rest.drop length)).2)
      else ([], body)
  | body => ([], body)
termination_by body.length
decreasing_by all_goals clear * -; simp; omega

/-- An index wraps at the header where the frames end, `i` bytes from the start. -/
def Wraps (i : Nat) (tail : Bytes) : Prop :=
  match tail with
  | _ :: _ :: _ :: _ :: b4 :: b5 :: b6 :: b7 :: _ =>
      lengthOf b4 b5 b6 b7 < 2 ^ 31 ∧ 2 ^ 31 ≤ i + 8 + lengthOf b4 b5 b6 b7
  | _ => 2 ^ 31 ≤ i + 8

theorem int32_small {n : Nat} (small : n < 2 ^ 31) : int32 n = n := by
  rw [int32, BitVec.toInt_eq_toNat_cond]
  simp only [BitVec.toNat_ofNat]
  omega

theorem int32_wrapped {n : Nat} (large : 2 ^ 31 ≤ n) (bound : n < 2 ^ 32) : int32 n < 0 := by
  rw [int32, BitVec.toInt_eq_toNat_cond]
  simp only [BitVec.toNat_ofNat]
  omega

theorem lengthOf_lt (b4 b5 b6 b7 : UInt8) : lengthOf b4 b5 b6 b7 < 2 ^ 32 := by
  have := b4.toNat_lt
  have := b5.toNat_lt
  have := b6.toNat_lt
  have := b7.toNat_lt
  rw [lengthOf]
  omega

theorem decodeFrames_eq {size : Nat} (small : size < 2 ^ 31) (rest : Bytes) (i : Nat)
    (inside : i + rest.length = size) (out : Text) :
    (Wraps (size - (cutFrames rest).2.length) (cutFrames rest).2 → decodeFrames size i rest out = none) ∧
      (¬ Wraps (size - (cutFrames rest).2.length) (cutFrames rest).2 →
        decodeFrames size i rest out = some (out ++ ((cutFrames rest).1.map decodeUtf8).flatten)) := by
  induction rest using cutFrames.induct generalizing i out with
  | case1 a0 a1 a2 a3 b4 b5 b6 b7 rest length fits ih =>
      simp only [List.length_cons] at inside
      have here : lengthOf b4 b5 b6 b7 ≤ rest.length := fits
      have later := ih (i + 8 + lengthOf b4 b5 b6 b7) (by rw [List.length_drop]; omega)
        (out ++ decodeUtf8 (rest.take (lengthOf b4 b5 b6 b7)))
      have step : decodeFrames size i (a0 :: a1 :: a2 :: a3 :: b4 :: b5 :: b6 :: b7 :: rest) out =
          decodeFrames size (i + 8 + lengthOf b4 b5 b6 b7) (rest.drop (lengthOf b4 b5 b6 b7))
            (out ++ decodeUtf8 (rest.take (lengthOf b4 b5 b6 b7))) := by
        rw [decodeFrames, int32_small (by omega), if_pos (by omega)]
        dsimp only
        rw [int32_small (by omega), int32_small (by omega), if_neg (by omega), if_neg (by omega)]
      rw [step, cutFrames, if_pos fits]
      simpa using later
  | case2 a0 a1 a2 a3 b4 b5 b6 b7 rest length short =>
      simp only [List.length_cons] at inside
      have beyond : ¬ lengthOf b4 b5 b6 b7 ≤ rest.length := short
      have bound := lengthOf_lt b4 b5 b6 b7
      rw [decodeFrames, cutFrames, if_neg short, int32_small (by omega), if_pos (by omega)]
      simp only [Wraps, List.length_cons, List.map_nil, List.flatten_nil, List.append_nil]
      by_cases huge : 2 ^ 31 ≤ lengthOf b4 b5 b6 b7
      · have negative := int32_wrapped huge bound
        rw [if_pos (.inl negative)]
        exact ⟨fun wraps => absurd wraps.1 (by omega), fun _ => rfl⟩
      rw [@int32_small (lengthOf b4 b5 b6 b7) (by omega)]
      by_cases wraps : 2 ^ 31 ≤ i + 8 + lengthOf b4 b5 b6 b7
      · have negative := int32_wrapped wraps (by omega)
        rw [if_neg (by omega), if_pos (by omega)]
        exact ⟨fun _ => rfl, fun calm => absurd ⟨by omega, by omega⟩ calm⟩
      · rw [int32_small (by omega), if_pos (by omega)]
        exact ⟨fun wraps => absurd wraps.2 (by omega), fun _ => rfl⟩
  | case3 rest few =>
      have start : size - rest.length = i := by omega
      have cut : cutFrames rest = ([], rest) := by
        rw [cutFrames]
        exact few
      have wraps : Wraps i rest ↔ 2 ^ 31 ≤ i + 8 := by
        rw [Wraps]
        exact few
      have short : rest.length < 8 := by
        rcases rest with _ | ⟨_, _ | ⟨_, _ | ⟨_, _ | ⟨_, _ | ⟨_, _ | ⟨_, _ | ⟨_, _ | ⟨_, _⟩⟩⟩⟩⟩⟩⟩⟩
        all_goals first | exact (few _ _ _ _ _ _ _ _ _ rfl).elim | simp
      rw [cut, start, wraps, decodeFrames]
      by_cases beyond : 2 ^ 31 ≤ i + 8
      · rw [if_pos (by have := int32_wrapped beyond (by omega); omega)]
        exact ⟨fun _ => rfl, fun calm => absurd beyond calm⟩
      · rw [int32_small (by omega), if_neg (by omega)]
        exact ⟨fun wraps => absurd wraps beyond, fun _ => by simp⟩
      · exact few

/-- No index wraps before the loop ends. -/
def Calm (body : Bytes) : Prop := ¬ Wraps (body.length - (cutFrames body).2.length) (cutFrames body).2

def payloadText (body : Bytes) : Text := ((cutFrames body).1.map decodeUtf8).flatten

theorem decodeRawStream_eq {body : Bytes} (small : body.length < 2 ^ 31) :
    (Calm body → decodeRawStream body =
        some (if payloadText body = [] ∧ body ≠ [] then decodeUtf8 body else payloadText body)) ∧
      (¬ Calm body → decodeRawStream body = none) := by
  obtain ⟨wrapped, plain⟩ := decodeFrames_eq small body 0 (Nat.zero_add _) []
  constructor
  · intro calm
    rw [decodeRawStream, plain calm]
    rfl
  · intro wraps
    rw [decodeRawStream, wrapped (not_not.mp wraps)]
    rfl

/-- The payloads of the complete frames are returned, if there are any. -/
def Readable (body : Bytes) : Prop :=
  ∃ text, decodeRawStream body = some text ∧ (payloadText body ≠ [] → text = payloadText body)

theorem readable_iff {body : Bytes} (small : body.length < 2 ^ 31) : Readable body ↔ Calm body := by
  obtain ⟨plain, wrapped⟩ := decodeRawStream_eq small
  constructor
  · rintro ⟨text, read, _⟩
    by_contra wraps
    rw [wrapped wraps] at read
    cases read
  · intro calm
    exact ⟨_, plain calm, fun shown => if_neg fun empty => shown empty.1⟩

theorem lengthOf_frame {n : Nat} (small : n < 2 ^ 32) :
    lengthOf (UInt8.ofNat (n >>> 24)) (UInt8.ofNat (n >>> 16)) (UInt8.ofNat (n >>> 8)) (UInt8.ofNat (n >>> 0)) = n := by
  simp only [lengthOf, UInt8.toNat_ofNat', Nat.shiftRight_eq_div_pow]
  omega

/-- The chunks that are read, as `_tail_log_until_exit`, the logs route and, without a terminal,
`_pipe_to_multiplexed` send them. -/
def framed (reads : List (Byte × Bytes)) : Bytes :=
  reads.flatMap fun read => if read.2 = [] then [] else frame read.1 read.2

theorem cutFrames_framed {reads : List (Byte × Bytes)} (small : (framed reads).length < 2 ^ 32) :
    cutFrames (framed reads) = ((reads.map Prod.snd).filter (· ≠ []), []) := by
  induction reads with
  | nil =>
      show cutFrames [] = ([], [])
      rw [cutFrames]
      exact nofun
  | cons read reads ih =>
      obtain ⟨stream, chunk⟩ := read
      have both : framed ((stream, chunk) :: reads) =
          (if chunk = [] then [] else frame stream chunk) ++ framed reads := List.flatMap_cons
      rw [both, List.length_append] at small
      have later := ih (by omega)
      rw [both, List.map_cons]
      by_cases empty : chunk = []
      · simp [empty, later]
      have size : (frame stream chunk).length = 8 + chunk.length := by
        simp [frame]
        omega
      rw [if_neg empty, size] at small
      have whole : lengthOf _ _ _ _ = chunk.length := @lengthOf_frame chunk.length (by omega)
      rw [if_neg empty]
      simp only [frame, List.map_cons, List.map_nil, List.cons_append, List.nil_append]
      rw [cutFrames, whole, if_pos (by simp), List.take_left, List.drop_left, later]
      simp [empty]

theorem pipeToMultiplexed_framed (rawPty : Bool) (reads rests : List (Byte × Bytes)) :
    pipeToMultiplexed false rawPty reads rests = framed (reads ++ rests) := by
  suffices loop : ∀ (reads : List (Byte × Bytes)) (state : Bytes × Bool),
      reads.foldl (writeChunk false rawPty) state = (state.1 ++ framed reads, state.2) from
    congrArg Prod.fst (loop (reads ++ rests) ([], false))
  intro reads
  induction reads with
  | nil => simp [framed]
  | cons read reads ih =>
      intro state
      rw [List.foldl_cons, ih, writeChunk]
      split <;> simp [framed, *]

def Demultiplexes (reads : List (Byte × Bytes)) : Prop :=
  decodeRawStream (framed reads) = some (decodeUtf8 (reads.map Prod.snd).flatten)

theorem payloadText_framed {reads : List (Byte × Bytes)} (small : (framed reads).length < 2 ^ 32) :
    payloadText (framed reads) = ((reads.map Prod.snd).map decodeUtf8).flatten := by
  rw [payloadText, cutFrames_framed small]
  generalize reads.map Prod.snd = pieces
  induction pieces with
  | nil => rfl
  | cons piece pieces ih =>
      by_cases empty : piece = []
      · simpa [empty, decodeUtf8, Data.decodeFrom] using ih
      · simpa [empty] using ih

theorem demultiplexes_iff {reads : List (Byte × Bytes)} (small : (framed reads).length < 2 ^ 31) :
    Demultiplexes reads ↔ uncut (reads.map Prod.snd) = true ∧ Calm (framed reads) := by
  obtain ⟨plain, wrapped⟩ := decodeRawStream_eq small
  have text := @payloadText_framed reads (by omega)
  have sent : payloadText (framed reads) = [] → framed reads = [] := by
    rw [text]
    intro blank
    refine List.flatMap_eq_nil_iff.mpr fun read member => if_pos ?_
    by_contra filled
    refine Data.decode_filled filled (List.flatten_eq_nil_iff.mp blank _ ?_)
    exact List.mem_map_of_mem (List.mem_map_of_mem member)
  rw [Demultiplexes, ← Data.decode_pieces_iff, ← text]
  constructor
  · intro whole
    by_cases calm : Calm (framed reads)
    · rw [plain calm, if_neg fun blank => blank.2 (sent blank.1), Option.some.injEq] at whole
      exact ⟨whole, calm⟩
    · rw [wrapped calm] at whole
      cases whole
  · rintro ⟨whole, calm⟩
    rw [plain calm, if_neg fun blank => blank.2 (sent blank.1), whole]

/-- The framing is undone and every body read exactly if no chunk ends within a character
and no index wraps. -/
theorem raw_stream_iff {reads : List (Byte × Bytes)} {body : Bytes} (small : (framed reads).length < 2 ^ 31)
    (array : body.length < 2 ^ 31) :
    Demultiplexes reads ∧ Readable body ↔
      (uncut (reads.map Prod.snd) = true ∧ Calm (framed reads)) ∧ Calm body :=
  and_congr (demultiplexes_iff small) (readable_iff array)

theorem raw_stream_two :
    Demultiplexes [(1, [0xC3, 0xA9]), (1, []), (1, [0x21])] ∧ Readable [1, 0, 0, 0, 0, 0, 0, 1, 0x61, 1, 0] := by
  refine (raw_stream_iff (by decide) (by decide)).mpr ⟨⟨by decide, ?_⟩, ?_⟩
  · rw [Calm, cutFrames_framed (by decide)]
    simp [framed, frame, Wraps]
  · simp [Calm, cutFrames, lengthOf, Wraps]

/-- A character in two frames, and a length that is the largest number of the type. -/
theorem raw_stream_cut :
    ¬ Demultiplexes [(1, [0xC3]), (1, [0xA9])] ∧ ¬ Readable [1, 0, 0, 0, 0x7F, 0xFF, 0xFF, 0xFF] := by
  constructor
  · rw [demultiplexes_iff (by decide)]
    exact fun whole => absurd whole.1 (by decide)
  · rw [readable_iff (by decide)]
    simp [Calm, cutFrames, lengthOf, Wraps]

end PDocker.Engine
