import PDocker.Data.Json
import PDocker.Engine.Events

/-!
# The event log

`events.jsonl` has a line for each event. The reader skips what it cannot decode,
and every write is an append.
-/

set_option autoImplicit false

namespace PDocker.Engine

open Data

def EventRecord.json (event : EventRecord) : Json :=
  let key (name : String) := Json.codes name.toList
  let attributes := event.attributes.entries.reverse.map fun entry => (Json.codes entry.1, Json.ofText entry.2)
  .object [(key "status", .ofText event.action), (key "id", .ofText event.id), (key "Type", .ofText event.type),
    (key "Action", .ofText event.action),
    (key "Actor", .object [(key "ID", .ofText event.id), (key "Attributes", .object attributes)]),
    (key "scope", .ofText "local".toList), (key "time", .ofInt event.time), (key "timeNano", .ofInt event.timeNano)]

/-- What `record_event` appends. -/
def EventRecord.line (event : EventRecord) : Text := event.json.dumps ++ ['\n']

def logOf (events : List EventRecord) : Text := events.flatMap EventRecord.line

/-- The lines of a file that is read as text. Each CR ends a line: where LF follows, one
more line is empty, and those are skipped. -/
def fileLines (file : Text) : List Text :=
  splitParts '\n' (file.map fun char => if char = '\r' then '\n' else char)

def loadLine (line : Text) : Option Json :=
  if stripSpace line = [] then none else Json.loads (stripSpace line)

def loadEvents (file : Text) : List Json := (fileLines file).filterMap loadLine

theorem codes_injective {left right : Text} (same : Json.codes left = Json.codes right) : left = right :=
  List.map_injective_iff.mpr (fun _ _ same => Char.toNat_inj.mp same) same

theorem valid_attributes (attributes : List (Sigma fun _ : Text => Text)) :
    Json.ValidFields (attributes.map fun entry => (Json.codes entry.1, Json.ofText entry.2)) := by
  induction attributes with
  | nil => trivial
  | cons entry attributes ih => exact ⟨Json.scalars_codes entry.1, Json.scalars_codes entry.2, ih⟩

theorem EventRecord.valid (event : EventRecord) : event.json.Valid := by
  have distinct : ((event.attributes.entries.reverse.map fun entry =>
      (Json.codes entry.1, Json.ofText entry.2)).map Prod.fst).Nodup := by
    have keys : (event.attributes.entries.map Sigma.fst).Nodup := event.attributes.nodupKeys
    rw [List.map_map, List.map_reverse, List.nodup_reverse]
    have same : (Prod.fst ∘ fun entry : Sigma fun _ : Text => Text => (Json.codes entry.1, Json.ofText entry.2)) =
        Json.codes ∘ Sigma.fst := rfl
    rw [same, ← List.map_map]
    exact keys.map fun _ _ => codes_injective
  have keys : (["status", "id", "Type", "Action", "Actor", "scope", "time", "timeNano"].map fun name =>
      Json.codes name.toList).Nodup := by decide
  have actorKeys : (["ID", "Attributes"].map fun name => Json.codes name.toList).Nodup := by decide
  refine ⟨keys, Json.scalars_codes _, Json.scalars_codes _, Json.scalars_codes _, Json.scalars_codes _,
    Json.scalars_codes _, Json.scalars_codes _, Json.scalars_codes _, Json.scalars_codes _, Json.scalars_codes _,
    ⟨actorKeys, Json.scalars_codes _, Json.scalars_codes _, Json.scalars_codes _, ⟨distinct, valid_attributes _⟩, trivial⟩,
    Json.scalars_codes _, Json.scalars_codes _, Json.scalars_codes _, Json.valid_ofInt _, Json.scalars_codes _,
    Json.valid_ofInt _, trivial⟩

theorem EventRecord.dumps_eq (event : EventRecord) :
    ∃ rest, event.json.dumps = '{' :: '"' :: 's' :: rest ++ ['}'] := by
  rw [json, Json.dumps, Json.dumpsFields]
  exact ⟨_, rfl⟩

theorem EventRecord.length_line (event : EventRecord) : 2 < event.line.length := by
  obtain ⟨rest, text⟩ := event.dumps_eq
  rw [line, text]
  simp only [List.length_append, List.length_cons]
  omega

variable {text : Text} {torn : EventRecord} {written : Nat}

variable (printable : ∀ char ∈ text, 32 ≤ char.toNat)

include printable

theorem newline_not_mem : '\n' ∉ text.map fun char => if char = '\r' then '\n' else char := by
  intro member
  obtain ⟨char, inside, same⟩ := List.mem_map.mp member
  have large := printable char inside
  split at same
  · rename_i return_
    subst return_
    exact absurd large (by decide)
  · subst same
    exact absurd large (by decide)

theorem map_printable : (text.map fun char => if char = '\r' then '\n' else char) = text := by
  refine (List.map_congr_left fun char member => if_neg ?_).trans (List.map_id _)
  rintro rfl
  exact absurd (printable _ member) (by decide)

theorem loadEvents_line (rest : Text) :
    loadEvents (text ++ '\n' :: rest) = (loadLine text).toList ++ loadEvents rest := by
  have away := newline_not_mem printable
  rw [map_printable printable] at away
  rw [loadEvents, fileLines, List.map_append, map_printable printable, List.map_cons, if_neg (by decide),
    splitParts_append away]
  cases found : loadLine text with
  | none => rw [List.filterMap_cons_none found]; rfl
  | some event => rw [List.filterMap_cons_some found]; rfl

theorem loadEvents_last : loadEvents text = (loadLine text).toList := by
  have away := newline_not_mem printable
  rw [map_printable printable] at away
  rw [loadEvents, fileLines, map_printable printable, splitParts_whole away]
  cases found : loadLine text with
  | none => rw [List.filterMap_cons_none found]; rfl
  | some event => rw [List.filterMap_cons_some found]; rfl

omit printable

theorem stripSpace_open (rest : Text) :
    ∃ kept spaces, stripSpace ('{' :: rest) = '{' :: kept ∧ rest = kept ++ spaces := by
  have trimmed : stripSpace ('{' :: rest) = ('{' :: rest).rdropWhile isPythonSpace := rfl
  obtain ⟨spaces, whole⟩ := @List.rdropWhile_prefix _ isPythonSpace ('{' :: rest)
  cases kept : ('{' :: rest).rdropWhile isPythonSpace with
  | nil =>
      have space := List.rdropWhile_eq_nil_iff.mp kept '{' List.mem_cons_self
      cases space
  | cons first kept' =>
      rw [kept, List.cons_append] at whole
      obtain ⟨head, tail⟩ := List.cons.inj whole
      exact ⟨kept', spaces, by rw [trimmed, kept, head], tail.symm⟩

theorem stripSpace_closed (rest : Text) : stripSpace ('{' :: rest ++ ['}']) = '{' :: rest ++ ['}'] := by
  have trimmed : stripSpace ('{' :: rest ++ ['}']) = ('{' :: rest ++ ['}']).rdropWhile isPythonSpace := rfl
  rw [trimmed, List.rdropWhile_concat_neg _ _ _ (by decide)]

variable (event : EventRecord)

theorem loadLine_dumps : loadLine event.json.dumps = some event.json := by
  obtain ⟨rest, text⟩ := event.dumps_eq
  have whole : stripSpace event.json.dumps = event.json.dumps := by
    rw [text]
    exact stripSpace_closed _
  rw [loadLine, whole, if_neg (by rw [text]; nofun), Json.loads_dumps event.valid]

theorem loadLine_broken (first : Text) : loadLine ('{' :: first ++ event.json.dumps) = none := by
  obtain ⟨rest, text⟩ := event.dumps_eq
  have whole : stripSpace ('{' :: first ++ event.json.dumps) = '{' :: first ++ event.json.dumps := by
    rw [text, ← List.append_assoc, List.cons_append]
    exact stripSpace_closed _
  have inert : Json.Inert 's' := ⟨by decide, by decide, by decide, by decide, rfl⟩
  rw [loadLine, whole, if_neg nofun]
  exact Json.loads_broken event.valid text inert

theorem loadLine_isPrefix {first rest : Text} (filled : first ≠ []) (left : rest ≠ [])
    (whole : first ++ rest = event.json.dumps) : loadLine first = none := by
  cases first with
  | nil => exact absurd rfl filled
  | cons char first =>
      obtain ⟨more, text⟩ := event.dumps_eq
      have head : char = '{' := (List.cons.inj (whole.trans text)).1
      subst head
      obtain ⟨kept, spaces, trimmed, split⟩ := stripSpace_open first
      rw [loadLine, trimmed, if_neg nofun]
      have torn : '{' :: kept ++ (spaces ++ rest) = event.json.dumps := by
        rw [← List.append_assoc, List.cons_append, ← split]
        exact whole
      refine Json.loads_prefix event.valid nofun ?_ torn
      exact List.append_ne_nil_of_right_ne_nil _ left

variable (events : List EventRecord)

theorem logOf_cons : logOf (event :: events) = event.json.dumps ++ '\n' :: logOf events := by
  rw [logOf, List.flatMap_cons, EventRecord.line, List.append_assoc]
  rfl

theorem loadEvents_logOf (rest : Text) :
    loadEvents (logOf events ++ rest) = events.map EventRecord.json ++ loadEvents rest := by
  induction events with
  | nil => rfl
  | cons event events ih =>
      rw [logOf_cons, List.append_assoc, List.cons_append, loadEvents_line (Json.printable_dumps _ event.valid),
        loadLine_dumps, ih]
      rfl

theorem loadEvents_whole : loadEvents (logOf events) = events.map EventRecord.json := by
  have nothing : loadEvents [] = [] := rfl
  have loaded := loadEvents_logOf events []
  rw [List.append_nil, nothing, List.append_nil] at loaded
  exact loaded

/-- A log in which the append of an event stopped after some characters. -/
def tornLog (log : List EventRecord) (torn : EventRecord) (written : Nat) (after : List EventRecord) : Text :=
  logOf log ++ torn.line.take written ++ logOf after

/-- The events of all completed calls are returned in order, and at most the torn one is missing. -/
def CompletedLoaded (log : List EventRecord) (torn : EventRecord) (written : Nat) (after : List EventRecord) : Prop :=
  ∃ kept, (kept = [] ∨ kept = [torn.json]) ∧
    loadEvents (tornLog log torn written after) = log.map EventRecord.json ++ kept ++ after.map EventRecord.json

variable (cut : written < torn.line.length)

include cut

theorem take_line : torn.line.take written = torn.json.dumps.take written := by
  rw [EventRecord.line, List.length_append, List.length_singleton] at cut
  rw [EventRecord.line, List.take_append_of_le_length (Nat.le_of_lt_succ cut)]

theorem loadEvents_torn :
    loadEvents (torn.line.take written) = [] ∨ loadEvents (torn.line.take written) = [torn.json] := by
  rw [take_line cut, loadEvents_last fun char member => Json.printable_dumps _ torn.valid char (List.mem_of_mem_take member)]
  by_cases nothing : torn.json.dumps.take written = []
  · rw [nothing]
    exact .inl rfl
  by_cases whole : torn.json.dumps.drop written = []
  · rw [List.take_of_length_le (List.drop_eq_nil_iff.mp whole), loadLine_dumps]
    exact .inr rfl
  · rw [loadLine_isPrefix torn nothing whole (List.take_append_drop _ _)]
    exact .inl rfl

theorem loadEvents_broken (some_left : written ≠ 0) (event : EventRecord) (after : List EventRecord) :
    loadEvents (torn.line.take written ++ logOf (event :: after)) = after.map EventRecord.json := by
  have printable : ∀ char ∈ torn.json.dumps.take written ++ event.json.dumps, 32 ≤ char.toNat :=
    Json.printable_append (fun char member => Json.printable_dumps _ torn.valid char (List.mem_of_mem_take member))
      (Json.printable_dumps _ event.valid)
  obtain ⟨rest, text⟩ := torn.dumps_eq
  obtain ⟨last, rfl⟩ := Nat.exists_eq_succ_of_ne_zero some_left
  have begins : ∃ first, torn.json.dumps.take (last + 1) = '{' :: first := by
    rw [text]
    exact ⟨_, rfl⟩
  obtain ⟨first, begins⟩ := begins
  have lost : loadLine (torn.json.dumps.take (last + 1) ++ event.json.dumps) = none := by
    rw [begins]
    exact loadLine_broken event first
  rw [take_line cut, logOf_cons, ← List.append_assoc, loadEvents_line printable, lost]
  exact loadEvents_whole after

theorem CompletedLoaded.untouched {log after : List EventRecord}
    (completed : CompletedLoaded log torn written after) : written = 0 ∨ after = [] := by
  obtain ⟨kept, -, loaded⟩ := completed
  refine or_iff_not_imp_left.mpr fun some_left => ?_
  cases after with
  | nil => rfl
  | cons event after =>
      rw [tornLog, List.append_assoc, loadEvents_logOf, loadEvents_broken cut some_left, List.append_assoc] at loaded
      have lengths := congrArg List.length (List.append_cancel_left loaded)
      rw [List.length_append, List.length_map, List.length_map, List.length_cons] at lengths
      omega

omit cut

/-- The completed events are returned exactly when the torn append has left nothing or
nothing has been appended since. -/
theorem completedLoaded_iff (log after : List EventRecord) (torn : EventRecord) {written : Nat}
    (cut : written < torn.line.length) :
    CompletedLoaded log torn written after ↔ written = 0 ∨ after = [] := by
  refine ⟨CompletedLoaded.untouched cut, ?_⟩
  rintro (rfl | rfl)
  · refine ⟨[], .inl rfl, ?_⟩
    rw [tornLog, List.take_zero, List.append_nil, List.append_nil, loadEvents_logOf, loadEvents_whole]
  · refine ⟨loadEvents (torn.line.take written), loadEvents_torn cut, ?_⟩
    have nothing : logOf [] = [] := rfl
    rw [tornLog, nothing, List.append_nil, loadEvents_logOf, List.map_nil, List.append_nil]

def startRecord : EventRecord := eventRecord "container".toList "start".toList "c1".toList ∅ 0

theorem completedLoaded_started : CompletedLoaded [startRecord] startRecord 2 [] :=
  (completedLoaded_iff [startRecord] [] startRecord startRecord.length_line).mpr (.inr rfl)

theorem next_event_lost : ¬ CompletedLoaded [] startRecord 1 [startRecord] := by
  intro completed
  rcases completed.untouched (Nat.lt_trans (by decide) startRecord.length_line) with zero | empty
  · cases zero
  · cases empty

end PDocker.Engine
