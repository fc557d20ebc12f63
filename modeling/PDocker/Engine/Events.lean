import PDocker.Data.Table
import PDocker.Data.Transition
import PDocker.Images.ShortName

/-!
# The event stream

Every event is appended to a file. A subscriber replays the file, then reads it
again whenever it wakes up, and keeps the number of events it has read.
-/

set_option autoImplicit false

namespace PDocker.Engine

open Data

/-- A line of `events.jsonl`: the time is kept in seconds and in nanoseconds. -/
structure EventRecord where
  type : Text
  action : Text
  id : Text
  attributes : Table Text Text
  time : Int
  timeNano : Int

def second : Int := 1000000000

/-- What `record_event` records at a time in nanoseconds. -/
def eventRecord (type action id : Text) (attributes : Table Text Text) (now : Int) : EventRecord :=
  ⟨type, action, id, attributes, now.tdiv second, now⟩

/-- `any_match` in `_event_matches` -/
def anyMatch (filters : Table Text (List Text)) (key : String) (values : List Text) : Bool :=
  match filters.lookup key.toList with
  | none => true
  | some [] => true
  | some wanted => (values.filter (· ≠ [])).any fun got => wanted.any fun want => want.isPrefixOf got

def labelMatches (attributes : Table Text Text) (item : Text) : Bool :=
  if '=' ∈ item then
    attributes.lookup (firstPart '=' item) = some ((item.dropWhile (· ≠ '=')).drop 1)
  else (attributes.lookup item).isSome

def eventMatches (event : EventRecord) (filters : Table Text (List Text)) : Bool :=
  let attr (key : String) := (event.attributes.lookup key.toList).getD []
  let name := (attr "name").dropWhile (· = '/')
  let image := if attr "image" = [] then attr "name" else attr "image"
  anyMatch filters "type" [event.type] && anyMatch filters "event" [event.action] &&
    anyMatch filters "container" [event.id, name] &&
    anyMatch filters "image" [image, Images.shortName image] &&
    anyMatch filters "network" [event.id, name] && anyMatch filters "volume" [event.id, name] &&
    ((filters.lookup "label".toList).getD []).all (labelMatches event.attributes)

/-- Where `_handle_events` is: before the replay, while it writes, in its wait, or through. -/
inductive Progress where
  | opening | writing | waiting | returned
  deriving DecidableEq

/-- What is asked for. The `until` is none when there is none, and 0 when it cannot be parsed. -/
structure EventRequest where
  since : Int
  untilTime : Option Int
  filters : Table Text (List Text)

structure Subscriber where
  request : EventRequest
  index : Nat
  pending : List EventRecord
  received : List EventRecord
  progress : Progress

/-- `selected` of the events from an index on, for one event. -/
def EventRequest.selects (request : EventRequest) (event : EventRecord) : Bool :=
  decide (request.since ≤ event.time * second) &&
    (request.untilTime.all fun untilTime =>
      decide (untilTime = 0) || decide (event.time * second ≤ untilTime)) &&
    eventMatches event request.filters

/-- The file, the events that have a time but are not in the file yet, and a subscriber. -/
structure EventServer where
  file : List EventRecord
  taken : List EventRecord
  subscriber : Subscriber

inductive EventStep where
  | take (type action id : Text) (attributes : Table Text Text) (now : Int)
  | append (index : Nat)
  | opens
  | write
  | check (now : Int)
  | wake

def EventServer.load (server : EventServer) : EventServer :=
  { server with
    subscriber := { server.subscriber with
      index := server.file.length
      pending := (server.file.drop server.subscriber.index).filter server.subscriber.request.selects
      progress := .writing } }

def EventServer.step (server : EventServer) : EventStep → Option EventServer
  | .take type action id attributes now =>
      some { server with taken := server.taken ++ [eventRecord type action id attributes now] }
  | .append index =>
      match server.taken[index]? with
      | some event =>
          some { server with file := server.file ++ [event], taken := server.taken.eraseIdx index }
      | none => none
  | .opens => if server.subscriber.progress = .opening then some server.load else none
  | .write =>
      match server.subscriber.progress, server.subscriber.pending with
      | .writing, event :: rest =>
          some { server with
            subscriber := { server.subscriber with
              pending := rest
              received := server.subscriber.received ++ [event] } }
      | _, _ => none
  | .check now =>
      match server.subscriber.progress, server.subscriber.pending with
      | .writing, [] =>
          let progress :=
            if server.subscriber.request.untilTime.all fun untilTime => decide (now ≤ untilTime) then .waiting
            else .returned
          some { server with subscriber := { server.subscriber with progress } }
      | _, _ => none
  | .wake => if server.subscriber.progress = .waiting then some server.load else none

/-! ## What is delivered -/

def EventRequest.wants (request : EventRequest) (event : EventRecord) : Bool :=
  decide (request.since ≤ event.timeNano) &&
    (request.untilTime.all fun untilTime => decide (event.timeNano ≤ untilTime)) &&
    eventMatches event request.filters

/-- What the subscriber has or is about to get are the events it wants of those it has
read. A wake-up brings it up to date, and when it is through these are all there are. -/
structure Delivers (server : EventServer) : Prop where
  read : server.subscriber.received ++ server.subscriber.pending =
    (server.file.take server.subscriber.index).filter server.subscriber.request.wants
  next : ∀ after, server.step .wake = some after → after.subscriber.index = after.file.length ∧
    after.subscriber.received ++ after.subscriber.pending =
      after.file.filter after.subscriber.request.wants
  all : server.subscriber.progress = .returned →
    server.subscriber.received = server.file.filter server.subscriber.request.wants

structure Aligned (request : EventRequest) (event : EventRecord) : Prop where
  since : request.since ≤ event.time * second ↔ request.since ≤ event.timeNano
  untilTime : ∀ untilTime, request.untilTime = some untilTime →
    untilTime ≠ 0 ∧ (event.time * second ≤ untilTime ↔ event.timeNano ≤ untilTime)

/-- Bounds at whole seconds of the events, and no event that is asked for is
written after the last read of the file. -/
structure Timely (server : EventServer) (step : EventStep) : Prop where
  aligned : ∀ type action id attributes now, step = .take type action id attributes now →
    Aligned server.subscriber.request (eventRecord type action id attributes now)
  late : ∀ index event, step = .append index → server.taken[index]? = some event →
    server.subscriber.progress = .returned → server.subscriber.request.wants event = false
  last : ∀ now untilTime, step = .check now → server.subscriber.request.untilTime = some untilTime → untilTime < now →
    ∀ event ∈ server.file.drop server.subscriber.index, server.subscriber.request.wants event = false

theorem Aligned.selects {request : EventRequest} {event : EventRecord}
    (aligned : Aligned request event) : request.selects event = request.wants event := by
  have bound : (request.untilTime.all fun untilTime =>
      decide (untilTime = 0) || decide (event.time * second ≤ untilTime)) =
        request.untilTime.all fun untilTime => decide (event.timeNano ≤ untilTime) := by
    cases limit : request.untilTime with
    | none => rfl
    | some untilTime =>
        have same := aligned.untilTime untilTime limit
        simp only [Option.all_some, same.1, decide_false, Bool.false_or, same.2]
  simp only [EventRequest.selects, EventRequest.wants, bound, aligned.since]

structure InStep (server : EventServer) : Prop where
  aligned : ∀ event ∈ server.file ++ server.taken, Aligned server.subscriber.request event
  within : server.subscriber.index ≤ server.file.length
  idle : server.subscriber.progress ≠ .writing → server.subscriber.pending = []
  read : server.subscriber.received ++ server.subscriber.pending =
    (server.file.take server.subscriber.index).filter server.subscriber.request.wants
  rest : server.subscriber.progress = .returned →
    ∀ event ∈ server.file.drop server.subscriber.index, server.subscriber.request.wants event = false

theorem InStep.load {server : EventServer} (inStep : InStep server)
    (pending : server.subscriber.pending = []) : InStep server.load where
  aligned := inStep.aligned
  within := Nat.le_refl _
  idle := fun away => absurd rfl away
  read := by
    have same : (server.file.drop server.subscriber.index).filter server.subscriber.request.selects =
        (server.file.drop server.subscriber.index).filter server.subscriber.request.wants := by
      apply List.filter_congr
      intro event member
      exact (inStep.aligned event (List.mem_append_left _ (List.mem_of_mem_drop member))).selects
    have read := inStep.read
    rw [pending, List.append_nil] at read
    change server.subscriber.received ++ (server.file.drop server.subscriber.index).filter
      server.subscriber.request.selects = (server.file.take server.file.length).filter server.subscriber.request.wants
    rw [same, read, ← List.filter_append, List.take_append_drop, List.take_length]
  rest := nofun

theorem InStep.delivers {server : EventServer} (inStep : InStep server) : Delivers server where
  read := inStep.read
  next := by
    intro after result
    simp only [EventServer.step] at result
    split at result
    · rename_i waiting
      cases result
      have read := (inStep.load (inStep.idle (waiting ▸ nofun))).read
      exact ⟨rfl, read.trans (congrArg _ (List.take_length))⟩
    · cases result
  all := by
    intro returned
    have none : (server.file.drop server.subscriber.index).filter server.subscriber.request.wants = [] := by
      rw [List.filter_eq_nil_iff]
      intro event member
      rw [inStep.rest returned event member]
      decide
    have read := inStep.read
    rw [inStep.idle (returned ▸ nofun), List.append_nil] at read
    rw [read]
    conv => rhs; rw [← List.take_append_drop server.subscriber.index server.file]
    rw [List.filter_append, none, List.append_nil]

theorem InStep.step {server after : EventServer} {step : EventStep} (inStep : InStep server)
    (timely : Timely server step) (result : server.step step = some after) : InStep after := by
  cases step with
  | take type action id attributes now =>
      cases result
      refine ⟨?_, inStep.within, inStep.idle, inStep.read, inStep.rest⟩
      intro event member
      rw [← List.append_assoc] at member
      rcases List.mem_append.mp member with earlier | last
      · exact inStep.aligned event earlier
      · rw [List.mem_singleton.mp last]
        exact timely.aligned type action id attributes now rfl
  | append index =>
      simp only [EventServer.step] at result
      split at result
      · rename_i event found
        cases result
        constructor
        · intro other member
          apply inStep.aligned
          rw [List.append_assoc] at member
          rcases List.mem_append.mp member with old | member
          · exact List.mem_append_left _ old
          rcases List.mem_append.mp member with this | left
          · rw [List.mem_singleton.mp this]
            exact List.mem_append_right _ (List.mem_of_getElem? found)
          · exact List.mem_append_right _ (List.mem_of_mem_eraseIdx left)
        · rw [List.length_append]
          exact Nat.le_add_right_of_le inStep.within
        · exact inStep.idle
        · rw [List.take_append_of_le_length inStep.within]
          exact inStep.read
        intro returned other member
        rw [List.drop_append_of_le_length inStep.within] at member
        rcases List.mem_append.mp member with old | this
        · exact inStep.rest returned other old
        · rw [List.mem_singleton.mp this]
          exact timely.late index event rfl found returned
      · cases result
  | opens =>
      simp only [EventServer.step] at result
      split at result
      · rename_i opening
        cases result
        exact inStep.load (inStep.idle (opening ▸ nofun))
      · cases result
  | write =>
      simp only [EventServer.step] at result
      split at result
      · rename_i event rest writing pending
        cases result
        refine ⟨inStep.aligned, inStep.within, fun away => absurd writing away, ?_, fun returned => ?_⟩
        · rw [← inStep.read, pending, List.append_assoc]
          rfl
        · exact inStep.rest returned
      · cases result
  | check now =>
      simp only [EventServer.step] at result
      split at result
      · rename_i writing pending
        cases result
        refine ⟨inStep.aligned, inStep.within, fun _ => pending, inStep.read, ?_⟩
        intro returned
        cases limit : server.subscriber.request.untilTime with
        | none => simp [limit] at returned
        | some untilTime =>
            by_cases open_ : now ≤ untilTime
            · simp [limit, open_] at returned
            · exact timely.last now untilTime rfl limit (Int.not_le.mp open_)
      · cases result
  | wake =>
      simp only [EventServer.step] at result
      split at result
      · rename_i waiting
        cases result
        exact inStep.load (inStep.idle (waiting ▸ nofun))
      · cases result

structure EventServer.Requested (server : EventServer) : Prop where
  progress : server.subscriber.progress = .opening
  index : server.subscriber.index = 0
  pending : server.subscriber.pending = []
  received : server.subscriber.received = []

section
variable (since : Int) (untilTime : Option Int)

private def askedBetween : EventServer :=
  ⟨[], [], ⟨⟨since, untilTime, ∅⟩, 0, [], [], .opening⟩⟩

private theorem askedBetween_requested : (askedBetween since untilTime).Requested :=
  ⟨rfl, rfl, rfl, rfl⟩

private def started (now : Int) : EventStep :=
  .take "container".toList "start".toList "c1".toList ∅ now

private def anyStep : EventServer → EventStep → Bool := fun _ _ => true

private def progressOf (server : EventServer) : Progress × Nat × Nat :=
  (server.subscriber.progress, server.subscriber.received.length,
    (server.file.filter server.subscriber.request.wants).length)

private theorem reaches_progress (steps : List EventStep) (progress : Progress × Nat × Nat)
    (result : (runAll EventServer.step anyStep (askedBetween since untilTime) steps).map progressOf =
      some progress) :
    ∃ last, Reaches EventServer.step (fun _ _ => True) (askedBetween since untilTime) last ∧
      progressOf last = progress := by
  obtain ⟨last, moved, shape⟩ := Option.map_eq_some_iff.mp result
  exact ⟨last, reaches_of_runAll (fun _ _ _ => trivial) steps .refl moved, shape⟩

end

private theorem not_delivers_of_returned {last : EventServer} {got wanted : Nat}
    (shape : progressOf last = (.returned, got, wanted)) (differ : got ≠ wanted) :
    last.subscriber.progress = .returned ∧ last.subscriber.received.length = got ∧ ¬ Delivers last := by
  simp only [progressOf, Prod.mk.injEq] at shape
  refine ⟨shape.1, shape.2.1, fun delivers => differ ?_⟩
  rw [← shape.2.1, ← shape.2.2, delivers.all shape.1]

end PDocker.Engine
