import Mathlib.Data.List.Infix
import Mathlib.Data.List.TakeWhile
import Mathlib.Algebra.GroupWithZero.Nat

/-!
# The telemetry ring

A new line goes to the end of a bounded file of lines: the newest lines that leave room for it are
written to a temporary file, which then takes the place of the old one.
-/

set_option autoImplicit false

namespace PDocker.Pager

abbrev Bytes := List UInt8

def newline : UInt8 := 10

/-- The limits of `memory_telemetry_init_from_env`. -/
structure TelemetryLimits where
  maxBytes : Nat
  maxLines : Nat
  maxLineBytes : Nat
  maxBytes_least : 4096 ≤ maxBytes
  maxLines_least : 1 ≤ maxLines
  maxLineBytes_least : 4096 ≤ maxLineBytes

def memoryTelemetryInitFromEnv (maxBytes maxLines maxLineBytes : Option Nat) : TelemetryLimits where
  maxBytes := max (maxBytes.getD 1048576) 4096
  maxLines := max (maxLines.getD 240) 1
  maxLineBytes := max (maxLineBytes.getD 16384) 4096
  maxBytes_least := Nat.le_max_right _ _
  maxLines_least := Nat.le_max_right _ _
  maxLineBytes_least := Nat.le_max_right _ _

/-- A call with a ring configured, and what the calls that it makes answer. Reading may fail on the way,
and so may writing, flushing and syncing, each of which is only reported to who asks. -/
structure TelemetryAppend where
  limits : TelemetryLimits
  /-- The bytes of the ring file; none if it is not there. -/
  file : Bytes
  line : Bytes
  line_text : 0 ∉ line ∧ newline ∉ line
  mkdirs : Bool := true
  nameFits : Bool := true
  readFailed : Bool := false
  /-- What `getline` delivers. -/
  seen : Bytes
  seen_whole : readFailed = false → seen = file
  allocates : Bool := true
  opens : Bool := true
  streamFailed : Bool := false
  /-- What is in the temporary file after a failure. -/
  reached : Bytes := []
  closes : Bool := true
  renames : Bool := true

/-- The lines that `getline` delivers, each with the end of its line. -/
def getLines : Bytes → List Bytes
  | [] => []
  | byte :: rest =>
      if byte = newline then [byte] :: getLines rest
      else
        match getLines rest with
        | [] => [[byte]]
        | line :: lines => (byte :: line) :: lines

def cString (buffer : Bytes) : Bytes := buffer.takeWhile (· ≠ 0)

namespace TelemetryAppend

variable (call : TelemetryAppend)

def Admissible (line : Bytes) : Prop := line.getLast? = some newline ∧ line.length ≤ call.limits.maxLineBytes

instance : DecidablePred call.Admissible := fun _ => inferInstanceAs (Decidable (_ ∧ _))

def Room (count bytes : Nat) : Prop :=
  count + 1 ≤ call.limits.maxLines ∧ bytes + call.line.length + 1 ≤ call.limits.maxBytes

instance (count bytes : Nat) : Decidable (call.Room count bytes) := inferInstanceAs (Decidable (_ ∧ _))

def evict : List Bytes → Nat → List Bytes × Nat
  | [], bytes => ([], bytes)
  | first :: rest, bytes =>
      if call.Room (first :: rest).length bytes then (first :: rest, bytes)
      else evict rest (bytes - (cString first).length)

def keepLine (state : List Bytes × Nat) (line : Bytes) : List Bytes × Nat :=
  if call.Admissible line then call.evict (state.1 ++ [line]) (state.2 + line.length) else state

def kept : List Bytes := ((getLines call.seen).foldl call.keepLine ([], 0)).1

def text : Bytes := call.kept.flatMap cString ++ call.line ++ [newline]

/-- `memory_telemetry_append_bounded_jsonl`: the result, and what is renamed over the ring. -/
def memoryTelemetryAppendBoundedJsonl : Int × Option Bytes :=
  if call.limits.maxLineBytes < call.line.length + 1 ∨ call.limits.maxBytes < call.line.length + 1 then (-1, none)
  else if !call.mkdirs then (-1, none)
  else if !call.nameFits then (-1, none)
  else if !call.allocates then (-1, none)
  else if !call.opens then (-1, none)
  else if !call.closes then (-1, none)
  else if !call.renames then (-1, none)
  else (0, some (if call.streamFailed then call.reached else call.text))

def admissible : List Bytes := (getLines call.file).filter fun line => call.Admissible line

structure Longest (lines : List Bytes) : Prop where
  suffix : lines <:+ call.admissible
  room : call.Room lines.length lines.flatten.length
  longest : ∀ longer, longer <:+ call.admissible → call.Room longer.length longer.flatten.length →
    longer.length ≤ lines.length

structure Appended (content : Bytes) : Prop where
  lines : ∃ lines, call.Longest lines ∧ content = lines.flatten ++ call.line ++ [newline]
  count : (getLines content).length ≤ call.limits.maxLines
  bytes : content.length ≤ call.limits.maxBytes
  short : ∀ line ∈ getLines content, line.length ≤ call.limits.maxLineBytes

/-- A successful append leaves the ring that it is for, and a failure of any kind leaves the old one. -/
structure Faithful : Prop where
  success : call.memoryTelemetryAppendBoundedJsonl.1 = 0 →
    ∃ content, call.memoryTelemetryAppendBoundedJsonl.2 = some content ∧ call.Appended content
  failure : call.memoryTelemetryAppendBoundedJsonl.1 ≠ 0 ∨ call.readFailed = true ∨ call.streamFailed = true →
    call.memoryTelemetryAppendBoundedJsonl.2 = none

def Completes : Prop :=
  call.line.length + 1 ≤ call.limits.maxLineBytes ∧ call.line.length + 1 ≤ call.limits.maxBytes ∧
    call.mkdirs = true ∧ call.nameFits = true ∧ call.allocates = true ∧ call.opens = true ∧
      call.closes = true ∧ call.renames = true

def longestEnd : List Bytes → List Bytes
  | [] => []
  | line :: lines =>
      if call.Room (line :: lines).length (line :: lines).flatten.length then line :: lines else longestEnd lines

def hidden (lines : List Bytes) : Nat := (lines.map fun line => line.length - (cString line).length).sum

/-- No zero stands in the lines that stay, and those that stand in older lines leave them room. -/
structure Plain : Prop where
  text : ∀ line ∈ call.longestEnd call.admissible, 0 ∉ line
  room : call.longestEnd call.admissible = [] ∨
    ∀ older, call.admissible = older ++ call.longestEnd call.admissible →
      (call.longestEnd call.admissible).flatten.length + hidden older + call.line.length + 1 ≤ call.limits.maxBytes

theorem getLines_cons_newline (rest : Bytes) : getLines (newline :: rest) = [newline] :: getLines rest := by
  rw [getLines, if_pos rfl]

def Complete (line : Bytes) : Prop := ∃ body, line = body ++ [newline] ∧ newline ∉ body

variable {line : Bytes} {lines : List Bytes}

theorem complete_of_mem {bytes : Bytes} (member : line ∈ getLines bytes) (ended : line.getLast? = some newline) :
    Complete line := by
  induction bytes generalizing line with
  | nil => cases member
  | cons byte rest ih =>
      rw [getLines] at member
      split at member
      · rcases List.mem_cons.mp member with rfl | later
        · rename_i same
          exact ⟨[], by rw [same, List.nil_append], List.not_mem_nil⟩
        · exact ih later ended
      rename_i other
      split at member
      · rw [List.mem_singleton.mp member, List.getLast?_singleton, Option.some.injEq] at ended
        exact absurd ended other
      rename_i first lines shape
      rcases List.mem_cons.mp member with rfl | later
      · have filled : first ≠ [] := by
          rintro rfl
          rw [List.getLast?_singleton, Option.some.injEq] at ended
          exact other ended
        rw [List.getLast?_cons_of_ne_nil filled] at ended
        obtain ⟨body, same, outside⟩ := ih (shape ▸ List.mem_cons_self) ended
        refine ⟨byte :: body, by rw [same, List.cons_append], ?_⟩
        exact List.mem_cons.not.mpr (not_or.mpr ⟨Ne.symm other, outside⟩)
      · exact ih (shape ▸ List.mem_cons_of_mem _ later) ended

theorem getLines_complete (complete : Complete line) (rest : Bytes) :
    getLines (line ++ rest) = line :: getLines rest := by
  obtain ⟨body, rfl, outside⟩ := complete
  induction body with
  | nil => exact getLines_cons_newline rest
  | cons byte body ih =>
      rw [List.mem_cons, not_or] at outside
      have tail := ih outside.2
      rw [List.cons_append, List.cons_append, getLines, if_neg (Ne.symm outside.1), tail]

theorem getLines_flatten (complete : ∀ line ∈ lines, Complete line) (rest : Bytes) :
    getLines (lines.flatten ++ rest) = lines ++ getLines rest := by
  induction lines with
  | nil => rfl
  | cons line lines ih =>
      rw [List.flatten_cons, List.append_assoc, getLines_complete (complete line List.mem_cons_self),
        ih fun other member => complete other (List.mem_cons_of_mem line member), List.cons_append]

theorem cString_length (buffer : Bytes) : (cString buffer).length ≤ buffer.length :=
  (List.takeWhile_prefix _).length_le

theorem cString_eq {buffer : Bytes} : cString buffer = buffer ↔ 0 ∉ buffer := by
  rw [cString, List.takeWhile_eq_self_iff]
  constructor
  · intro each inside
    exact absurd rfl (of_decide_eq_true (each 0 inside))
  · intro absent byte inside
    exact decide_eq_true fun zero => absent (zero ▸ inside)

theorem hidden_append (left right : List Bytes) : hidden (left ++ right) = hidden left + hidden right := by
  rw [hidden, List.map_append, List.sum_append]
  rfl

theorem hidden_singleton (line : Bytes) : hidden [line] = line.length - (cString line).length := by
  rw [hidden, List.map_singleton, List.sum_singleton]

variable {call}

theorem Room.fewer {count bytes count' bytes' : Nat} (room : call.Room count bytes) (fewer : count' ≤ count)
    (less : bytes' ≤ bytes) : call.Room count' bytes' := by
  obtain ⟨lines, size⟩ := room
  exact ⟨by omega, by omega⟩

theorem evict_spec (dropped kept : List Bytes) {bytes : Nat} (count : bytes = kept.flatten.length + hidden dropped) :
    ∃ more, kept = more ++ (call.evict kept bytes).1 ∧
      (call.evict kept bytes).2 = (call.evict kept bytes).1.flatten.length + hidden (dropped ++ more) ∧
      ((call.evict kept bytes).1 = [] ∨ call.Room (call.evict kept bytes).1.length (call.evict kept bytes).2) ∧
      ∀ less rest, kept = less ++ rest → call.Room rest.length (rest.flatten.length + hidden (dropped ++ less)) →
        more.length ≤ less.length := by
  induction kept generalizing dropped bytes with
  | nil => exact ⟨[], rfl, by rw [List.append_nil]; exact count, .inl rfl, fun _ _ _ _ => Nat.zero_le _⟩
  | cons first rest ih =>
      rw [evict]
      by_cases room : call.Room (first :: rest).length bytes
      · rw [if_pos room]
        exact ⟨[], rfl, by rw [List.append_nil]; exact count, .inr room, fun _ _ _ _ => Nat.zero_le _⟩
      rw [if_neg room]
      have short := cString_length first
      have next : bytes - (cString first).length = rest.flatten.length + hidden (dropped ++ [first]) := by
        rw [hidden_append, hidden_singleton, count, List.flatten_cons, List.length_append]
        omega
      obtain ⟨more, shape, counted, stops, least⟩ := ih (dropped ++ [first]) next
      refine ⟨first :: more, by rw [List.cons_append, ← shape], ?_, stops, ?_⟩
      · rw [counted, List.append_assoc, List.singleton_append]
      intro less tail split fits
      cases less with
      | nil =>
          rw [List.nil_append] at split
          rw [List.append_nil, ← split, ← count] at fits
          exact absurd fits room
      | cons other less =>
          rw [List.cons_append, List.cons.injEq] at split
          obtain ⟨rfl, split⟩ := split
          refine Nat.succ_le_succ (least less tail split ?_)
          rwa [List.append_assoc, List.singleton_append]

structure Keeps (call : TelemetryAppend) (lines : List Bytes) (state : List Bytes × Nat) (dropped : List Bytes) : Prop where
  parts : lines = dropped ++ state.1
  counted : state.2 = state.1.flatten.length + hidden dropped
  room : state.1 = [] ∨ call.Room state.1.length state.2
  least : ∀ older newer more, lines ++ more = older ++ newer →
    call.Room newer.length (newer.flatten.length + hidden older) → dropped.length ≤ older.length

theorem Keeps.next {dropped : List Bytes} {state : List Bytes × Nat} (keeps : Keeps call lines state dropped)
    (line : Bytes) :
    ∃ dropped, Keeps call (lines ++ [line]) (call.evict (state.1 ++ [line]) (state.2 + line.length)) dropped := by
  obtain ⟨parts, counted, -, least⟩ := keeps
  have count : state.2 + line.length = (state.1 ++ [line]).flatten.length + hidden dropped := by
    rw [counted, List.flatten_append, List.flatten_singleton, List.length_append]
    omega
  obtain ⟨more, shape, after, stops, fewest⟩ := @evict_spec call dropped (state.1 ++ [line]) _ count
  have whole : lines ++ [line] = dropped ++ (state.1 ++ [line]) := by rw [parts, List.append_assoc]
  generalize state.1 ++ [line] = held at *
  have lengths := congrArg List.length shape
  rw [List.length_append] at lengths
  refine ⟨dropped ++ more, ?_, after, stops, ?_⟩
  · rw [whole, List.append_assoc]
    exact congrArg _ shape
  intro older newer rest split fits
  have earlier := least older newer (line :: rest) (by rw [← split, List.append_assoc]; rfl) fits
  have split' : dropped ++ (held ++ rest) = older ++ newer := by
    rw [← split, whole, List.append_assoc]
  rw [List.length_append]
  rcases List.append_eq_append_iff.mp split' with ⟨less, rfl, tail⟩ | ⟨beyond, same, tail⟩
  · rw [List.length_append]
    refine Nat.add_le_add_left ?_ _
    rcases List.append_eq_append_iff.mp tail with ⟨beyond, rfl, -⟩ | ⟨front, within, rfl⟩
    · rw [List.length_append]
      omega
    refine fewest less front within (fits.fewer ?_ ?_)
    · rw [List.length_append]
      omega
    · rw [List.flatten_append, List.length_append]
      omega
  · have sizes := congrArg List.length same
    rw [List.length_append] at sizes
    have none_beyond : beyond = [] := List.eq_nil_of_length_eq_zero (by omega)
    subst none_beyond
    rw [List.append_nil] at same
    subst same
    refine Nat.add_le_add_left (fewest [] held rfl ?_) _
    rw [List.append_nil]
    refine fits.fewer ?_ ?_
    · rw [tail, List.nil_append, List.length_append]
      omega
    · rw [tail, List.nil_append, List.flatten_append, List.length_append]
      omega

theorem keeps_foldl (call : TelemetryAppend) (lines : List Bytes) :
    ∃ dropped, Keeps call (lines.filter fun line => call.Admissible line) (lines.foldl call.keepLine ([], 0)) dropped := by
  induction lines using List.reverseRecOn with
  | nil => exact ⟨[], rfl, rfl, .inl rfl, fun _ _ _ _ _ => Nat.zero_le _⟩
  | append_singleton lines line ih =>
      obtain ⟨dropped, keeps⟩ := ih
      rw [List.foldl_append, List.foldl_cons, List.foldl_nil, List.filter_append, keepLine]
      by_cases admissible : call.Admissible line
      · have own : [line].filter (fun line => call.Admissible line) = [line] := by simp [admissible]
        rw [if_pos admissible, own]
        exact keeps.next line
      · have own : [line].filter (fun line => call.Admissible line) = [] := by simp [admissible]
        rw [if_neg admissible, own, List.append_nil]
        exact ⟨dropped, keeps⟩

theorem longestEnd_suffix (lines : List Bytes) : call.longestEnd lines <:+ lines := by
  induction lines with
  | nil => exact List.suffix_refl _
  | cons line lines ih =>
      rw [longestEnd]
      split
      · exact List.suffix_refl _
      · exact ih.trans (List.suffix_cons _ _)

theorem longestEnd_room (room : call.Room 0 0) (lines : List Bytes) :
    call.Room (call.longestEnd lines).length (call.longestEnd lines).flatten.length := by
  induction lines with
  | nil => exact room
  | cons line lines ih =>
      rw [longestEnd]
      split
      · assumption
      · exact ih

theorem longestEnd_longest {longer : List Bytes} (suffix : longer <:+ lines)
    (room : call.Room longer.length longer.flatten.length) : longer.length ≤ (call.longestEnd lines).length := by
  induction lines with
  | nil => exact suffix.length_le
  | cons line lines ih =>
      rw [longestEnd]
      split
      · exact suffix.length_le
      rename_i crowded
      rcases List.suffix_cons_iff.mp suffix with rfl | shorter
      · exact absurd room crowded
      · exact ih shorter

theorem longest_iff (room : call.Room 0 0) :
    call.Longest lines ↔ lines = call.longestEnd call.admissible := by
  constructor
  · intro longest
    have less := longest.longest _ (longestEnd_suffix _) (longestEnd_room room _)
    have more := longestEnd_longest longest.suffix longest.room
    exact (List.suffix_of_suffix_length_le longest.suffix (longestEnd_suffix _) more).eq_of_length_le less
  · rintro rfl
    exact ⟨longestEnd_suffix _, longestEnd_room room _, fun _ suffix fits => longestEnd_longest suffix fits⟩

theorem length_flatMap_cString (lines : List Bytes) : (lines.flatMap cString).length ≤ lines.flatten.length := by
  induction lines with
  | nil => exact le_rfl
  | cons line lines ih =>
      rw [List.flatMap_cons, List.flatten_cons, List.length_append, List.length_append]
      exact Nat.add_le_add (cString_length line) ih

theorem flatMap_cString_eq : lines.flatMap cString = lines.flatten ↔ ∀ line ∈ lines, 0 ∉ line := by
  induction lines with
  | nil => simp
  | cons line lines ih =>
      rw [List.flatMap_cons, List.flatten_cons, List.forall_mem_cons, ← ih, ← cString_eq]
      constructor
      · intro same
        have lengths := congrArg List.length same
        rw [List.length_append, List.length_append] at lengths
        have short := cString_length line
        have rest := length_flatMap_cString lines
        exact List.append_inj same (by omega)
      · intro both
        rw [both.1, both.2]

theorem admissible_mem (member : line ∈ call.admissible) :
    Complete line ∧ line.length ≤ call.limits.maxLineBytes := by
  obtain ⟨inside, admissible⟩ := List.mem_filter.mp member
  have both := of_decide_eq_true admissible
  exact ⟨complete_of_mem inside both.1, both.2⟩

theorem text_iff (room : call.Room 0 0) (whole : call.seen = call.file) :
    call.text = (call.longestEnd call.admissible).flatten ++ call.line ++ [newline] ↔ call.Plain := by
  obtain ⟨dropped, keeps⟩ := keeps_foldl call (getLines call.seen)
  have lines : (getLines call.seen).filter (fun line => call.Admissible line) = call.admissible := by
    rw [whole, admissible]
  rw [lines] at keeps
  rw [text, List.append_left_inj, List.append_left_inj, kept]
  generalize (getLines call.seen).foldl call.keepLine ([], 0) = state at keeps
  obtain ⟨parts, counted, stops, least⟩ := keeps
  obtain ⟨older, ends⟩ := @longestEnd_suffix call call.admissible
  have longest : state.1.length ≤ (call.longestEnd call.admissible).length := by
    rcases stops with empty | fits
    · rw [empty]
      exact Nat.zero_le _
    · exact longestEnd_longest ⟨dropped, parts.symm⟩ (fits.fewer le_rfl (by omega))
  have suffix : state.1 <:+ call.longestEnd call.admissible :=
    List.suffix_of_suffix_length_le ⟨dropped, parts.symm⟩ (longestEnd_suffix _) longest
  constructor
  · intro same
    obtain ⟨front, shape⟩ := suffix
    have lengths := congrArg List.length same
    have short := length_flatMap_cString state.1
    rw [← shape, List.flatten_append, List.length_append] at lengths
    have none_before : front = [] := by
      cases front with
      | nil => rfl
      | cons line rest =>
          have member : line ∈ call.admissible :=
            (longestEnd_suffix _).subset (shape ▸ List.mem_append_left _ List.mem_cons_self)
          obtain ⟨body, rfl, -⟩ := (admissible_mem member).1
          rw [List.flatten_cons, List.length_append, List.length_append, List.length_singleton] at lengths
          omega
    rw [none_before, List.nil_append] at shape
    rw [shape] at same
    refine ⟨flatMap_cString_eq.mp same, ?_⟩
    rcases stops with empty | fits
    · exact .inl (shape ▸ empty)
    right
    intro older split
    rw [← shape, parts] at split
    have alike := List.append_cancel_right split
    rw [← shape, ← alike, ← counted]
    exact fits.2
  · intro plain
    have all : state.1 = call.longestEnd call.admissible := by
      refine suffix.eq_of_length_le ?_
      rcases plain.room with empty | roomy
      · rw [empty]
        exact Nat.zero_le _
      have fewest := least older (call.longestEnd call.admissible) [] (by rw [List.append_nil, ends])
        ⟨(longestEnd_room room _).1, roomy older ends.symm⟩
      have lengths := congrArg List.length (ends.trans parts)
      rw [List.length_append, List.length_append] at lengths
      omega
    rw [all, flatMap_cString_eq]
    exact plain.text

theorem append_of_completes (completes : call.Completes) :
    call.memoryTelemetryAppendBoundedJsonl = (0, some (if call.streamFailed then call.reached else call.text)) := by
  obtain ⟨short, fits, mkdirs, names, allocates, opens, closes, renames⟩ := completes
  have within : ¬ (call.limits.maxLineBytes < call.line.length + 1 ∨ call.limits.maxBytes < call.line.length + 1) := by
    omega
  rw [memoryTelemetryAppendBoundedJsonl, if_neg within]
  simp [mkdirs, names, allocates, opens, closes, renames]

theorem append_of_not_completes (fails : ¬ call.Completes) : call.memoryTelemetryAppendBoundedJsonl = (-1, none) := by
  rw [memoryTelemetryAppendBoundedJsonl]
  split
  · rfl
  rename_i within
  split
  · rfl
  split
  · rfl
  split
  · rfl
  split
  · rfl
  split
  · rfl
  split
  · rfl
  · simp only [Bool.not_eq_true', Bool.not_eq_false] at *
    exact absurd ⟨by omega, by omega, by assumption, by assumption, by assumption, by assumption,
      by assumption, by assumption⟩ fails

theorem Completes.room (completes : call.Completes) : call.Room 0 0 :=
  ⟨by have := call.limits.maxLines_least; omega, by have := completes.2.1; omega⟩

theorem appended_of_longest (completes : call.Completes) :
    call.Appended ((call.longestEnd call.admissible).flatten ++ call.line ++ [newline]) := by
  have longest := (longest_iff completes.room).mpr rfl
  have members : ∀ line ∈ call.longestEnd call.admissible, Complete line ∧ line.length ≤ call.limits.maxLineBytes :=
    fun line member => admissible_mem (longest.suffix.subset member)
  have lines : getLines ((call.longestEnd call.admissible).flatten ++ call.line ++ [newline]) =
      call.longestEnd call.admissible ++ [call.line ++ [newline]] := by
    rw [List.append_assoc, getLines_flatten fun line member => (members line member).1]
    have last := getLines_complete ⟨call.line, rfl, call.line_text.2⟩ []
    rw [List.append_nil] at last
    rw [last, getLines]
  refine ⟨⟨_, longest, rfl⟩, ?_, ?_, ?_⟩
  · rw [lines, List.length_append, List.length_singleton]
    exact longest.room.1
  · rw [List.length_append, List.length_append, List.length_singleton]
    exact longest.room.2
  intro line member
  rw [lines, List.mem_append, List.mem_singleton] at member
  rcases member with inside | rfl
  · exact (members line inside).2
  · rw [List.length_append, List.length_singleton]
    exact completes.1

/-- An append does what it is for exactly if nothing that is not asked for its result fails and no zero is
in the way. -/
theorem faithful_iff : call.Faithful ↔
    (call.Completes → call.readFailed = false ∧ call.streamFailed = false ∧ call.Plain) := by
  by_cases completes : call.Completes
  · have result := append_of_completes completes
    have failed : call.memoryTelemetryAppendBoundedJsonl.2 ≠ none := by
      rw [result]
      nofun
    constructor
    · intro faithful _
      have read : call.readFailed = false := Bool.eq_false_iff.mpr fun failing =>
        failed (faithful.failure (.inr (.inl failing)))
      have stream : call.streamFailed = false := Bool.eq_false_iff.mpr fun failing =>
        failed (faithful.failure (.inr (.inr failing)))
      refine ⟨read, stream, ?_⟩
      obtain ⟨content, written, appended⟩ := faithful.success (by rw [result])
      rw [result, stream, if_neg Bool.false_ne_true, Option.some.injEq] at written
      obtain ⟨lines, longest, shape⟩ := appended.lines
      rw [(longest_iff completes.room).mp longest] at shape
      exact (text_iff completes.room (call.seen_whole read)).mp (written.trans shape)
    · intro clear
      obtain ⟨read, stream, plain⟩ := clear completes
      constructor
      · intro _
        refine ⟨_, ?_, appended_of_longest completes⟩
        rw [result, stream, if_neg Bool.false_ne_true, (text_iff completes.room (call.seen_whole read)).mpr plain]
      intro failing
      rw [result, read, stream] at failing
      rcases failing with wrong | wrong | wrong
      · exact absurd rfl wrong
      · cases wrong
      · cases wrong
  · have result := append_of_not_completes completes
    refine iff_of_true ⟨?_, ?_⟩ fun fine => absurd fine completes
    · intro zero
      rw [result] at zero
      cases zero
    · intro _
      rw [result]

def unlimited : TelemetryLimits := memoryTelemetryInitFromEnv none none none

def syncFails : TelemetryAppend where
  limits := unlimited
  file := []
  seen := []
  seen_whole _ := rfl
  line := []
  line_text := by decide
  streamFailed := true

def zeroInside : TelemetryAppend where
  limits := unlimited
  file := [0, newline]
  seen := [0, newline]
  seen_whole _ := rfl
  line := []
  line_text := by decide

theorem append_unfaithful : ¬ syncFails.Faithful ∧ ¬ zeroInside.Faithful := by
  constructor
  · intro faithful
    exact absurd (faithful.failure (.inr (.inr rfl))) (by decide)
  intro faithful
  obtain ⟨content, written, appended⟩ := faithful.success (by decide)
  obtain ⟨lines, longest, shape⟩ := appended.lines
  have kept := longest.longest [[0, newline]] (by decide) (by decide)
  have whole : lines = [[0, newline]] := longest.suffix.eq_of_length_le kept
  have left : zeroInside.memoryTelemetryAppendBoundedJsonl.2 = some [newline] := by decide
  rw [left, shape, whole] at written
  exact absurd written (by decide)

end TelemetryAppend

end PDocker.Pager
