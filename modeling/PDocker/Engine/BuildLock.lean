import PDocker.Data.Table
import PDocker.Data.Text
import PDocker.Data.Transition

/-!
# The lock of a build

A build of a tag registers an operation with the tag as its key, and no other
build of the tag starts while that operation is registered. Nothing but the end
of the handler is meant to remove it.
-/

set_option autoImplicit false

namespace PDocker.Engine

open Data

/-- A value of `active_operations`. Times count from the epoch. -/
structure Operation where
  kind : Text
  title : Text
  detail : Text
  status : Text
  startedAt : Int
  updatedAt : Int
  exclusiveKey : Option Text
  deriving DecidableEq

abbrev Operations := Table Text Operation

def running : Text := "running".toList

def Operations.owner (operations : Operations) (key : Text) : Option Operation :=
  (operations.entries.map fun entry => entry.2).find? fun op =>
    op.exclusiveKey = some key && op.status = running

def startExclusiveOperation (operations : Operations) (id kind title detail : Text)
    (exclusiveKey : Option Text) (now : Int) : Operations × Option Operation :=
  match exclusiveKey.bind operations.owner with
  | some op => (operations, some op)
  | none => (operations.insert id ⟨kind, title, detail, running, now, now, exclusiveKey⟩, none)

/-- `update_operation` as the builds call it -/
def updateOperation (operations : Operations) (id detail : Text) (now : Int) : Operations :=
  match operations.lookup id with
  | none => operations
  | some op => operations.insert id { op with detail, updatedAt := now }

/-- `value or default` of a text -/
def orElse (value default : Text) : Text := if value = [] then default else value

def upsertOperation (operations : Operations) (id kind title detail status : Text) (now : Int) :
    Operations :=
  match operations.lookup id with
  | none =>
      operations.insert id
        { kind := orElse kind "operation".toList
          title := orElse title (orElse kind "operation".toList)
          detail
          status := orElse status running
          startedAt := now
          updatedAt := now
          exclusiveKey := none }
  | some op =>
      let kind := orElse kind op.kind
      operations.insert id
        { op with
          kind
          title := orElse title op.title
          detail
          status := orElse status op.status
          updatedAt := now }

def finishOperation (operations : Operations) (id : Text) : Operations := operations.erase id

/-- An operation that `prune_stale_operations` removes; `limit` is
OPERATION_IDLE_STALE_SECONDS. -/
def Operation.stale (limit now : Int) (op : Operation) : Bool :=
  let updated :=
    if op.updatedAt ≠ 0 then op.updatedAt else if op.startedAt ≠ 0 then op.startedAt else now
  decide (0 < limit) && decide (limit < now - updated)

def pruneStaleOperations (limit now : Int) (operations : Operations) : Operations :=
  operations.eraseWhere fun id => (operations.lookup id).any (Operation.stale limit now)

/-- Where `_handle_build` is after it has started its operation: before the
headers are sent, in its `try`, in its `except`, or through. -/
inductive Phase where
  | starting | building | failing | ended
  deriving DecidableEq

structure Build where
  tag : Text
  id : Text
  phase : Phase
  deriving DecidableEq

structure BuildServer where
  operations : Operations
  builds : List Build

/-- What happens next. The text of an `emit` is the line that it records, if any
is not blank; a write may raise what `emit` does not catch. -/
inductive Event where
  | request (tag id dockerfile : Text) (parsed : Bool) (now : Int)
  | headers (index : Nat) (sent : Bool)
  | emit (index : Nat) (line : Option Text) (written : Bool) (now : Int)
  | noDockerfile (index : Nat)
  | raise (index : Nat)
  | finish (index : Nat)
  | list (now : Int)
  | post (id kind title detail status : Text) (finished : Bool) (now : Int)

def buildKey (tag : Text) : Option Text := if tag = [] then none else some ("build:".toList ++ tag)

def buildTitle (tag : Text) : Text := "build ".toList ++ orElse tag "<none>".toList

def endStatuses : List Text :=
  ["done".toList, "failed".toList, "cancelled".toList, "stopped".toList]

def BuildServer.move (server : BuildServer) (index : Nat) (build : Build) (phase : Phase) : BuildServer :=
  { server with builds := server.builds.set index { build with phase } }

/-- Identifiers that are made up are new, and clients post about operations that are no build's. -/
def BuildServer.step (limit : Int) (server : BuildServer) : Event → Option BuildServer
  | .request tag id dockerfile parsed now =>
      if parsed = false then some server
      else if id ∈ server.operations ∨ id ∈ server.builds.map Build.id then none
      else
        match startExclusiveOperation server.operations id "build".toList (buildTitle tag)
            ("receiving ".toList ++ dockerfile) (buildKey tag) now with
        | (operations, some _) => some { server with operations }
        | (operations, none) => some ⟨operations, server.builds ++ [⟨tag, id, .starting⟩]⟩
  | .headers index sent =>
      match server.builds[index]? with
      | some build =>
          if build.phase = .starting then
            some (server.move index build (if sent then .building else .ended))
          else none
      | none => none
  | .emit index line written now =>
      match server.builds[index]? with
      | some build =>
          let operations :=
            match line with
            | some line => updateOperation server.operations build.id line now
            | none => server.operations
          match build.phase with
          | .building =>
              some (BuildServer.move ⟨operations, server.builds⟩ index build
                (if written then .building else .failing))
          | .failing =>
              some (BuildServer.move ⟨operations, server.builds⟩ index build
                (if written then .failing else .ended))
          | _ => none
      | none => none
  | .noDockerfile index =>
      match server.builds[index]? with
      | some build => if build.phase = .building then some (server.move index build .ended) else none
      | none => none
  | .raise index =>
      match server.builds[index]? with
      | some build => if build.phase = .building then some (server.move index build .failing) else none
      | none => none
  | .finish index =>
      match server.builds[index]? with
      | some build =>
          if build.phase = .building ∨ build.phase = .failing then
            some (BuildServer.move ⟨finishOperation server.operations build.id, server.builds⟩ index build
              .ended)
          else none
      | none => none
  | .list now => some { server with operations := pruneStaleOperations limit now server.operations }
  | .post id kind title detail status finished now =>
      if id ∈ server.builds.map Build.id then none
      else if finished ∨ status ∈ endStatuses then
        some { server with operations := finishOperation server.operations id }
      else
        some { server with operations := upsertOperation server.operations id kind title detail status now }

def Build.active (build : Build) : Prop := build.phase ≠ .ended

/-- Two builds of one tag never run at once, and a tag that no build runs for is free. -/
structure Exclusive (server : BuildServer) : Prop where
  apart : ∀ (first second : Nat) (one two : Build), server.builds[first]? = some one →
    server.builds[second]? = some two → one.active → two.active → one.tag = two.tag → one.tag ≠ [] →
    first = second
  free : ∀ tag key, buildKey tag = some key →
    (∀ build ∈ server.builds, build.tag = tag → ¬ build.active) → server.operations.owner key = none

structure Orderly (limit : Int) (server : BuildServer) (event : Event) : Prop where
  quiet : ∀ now, event = .list now → ∀ build ∈ server.builds, build.active →
    ∀ op, server.operations.lookup build.id = some op → op.stale limit now = false
  sent : ∀ index, event ≠ .headers index false
  found : ∀ index, event ≠ .noDockerfile index
  caught : ∀ index line now build, event = .emit index line false now →
    server.builds[index]? = some build → build.phase ≠ .failing

def Operations.lock (operations : Operations) (id : Text) : Option (Option Text × Text) :=
  (operations.lookup id).map fun op => (op.exclusiveKey, op.status)

variable {key tag : Text} {operations : Operations}

theorem owner_eq_none (free : ∀ id, operations.lock id ≠ some (some key, running)) : operations.owner key = none := by
  rw [Operations.owner, List.find?_eq_none]
  intro op member owns
  obtain ⟨⟨id, op'⟩, listed, rfl⟩ := List.mem_map.mp member
  have found : operations.lookup id = some op' := AList.mem_lookup_iff.mpr listed
  simp only [Bool.and_eq_true, decide_eq_true_eq] at owns
  apply free id
  rw [Operations.lock, found, Option.map_some, owns.1, owns.2]

theorem lock_ne_of_owner (free : operations.owner key = none)
    (id : Text) : operations.lock id ≠ some (some key, running) := by
  intro locked
  obtain ⟨op, found, pair⟩ := Option.map_eq_some_iff.mp locked
  rw [Operations.owner, List.find?_eq_none] at free
  have listed : Sigma.mk id op ∈ operations.entries := AList.mem_lookup_iff.mp found
  apply free op (List.mem_map_of_mem listed)
  simp only [Prod.mk.injEq] at pair
  simp only [pair.1, pair.2, decide_true, Bool.and_self]

theorem lock_insert (operations : Operations) (id other : Text) (op : Operation) :
    Operations.lock (operations.insert id op) other =
      if other = id then some (op.exclusiveKey, op.status) else operations.lock other := by
  rw [Operations.lock, Table.lookup_insert_eq_ite]
  split <;> rfl

theorem lock_updateOperation (operations : Operations) (id detail : Text) (now : Int) (other : Text) :
    (updateOperation operations id detail now).lock other = operations.lock other := by
  rw [updateOperation]
  cases found : operations.lookup id with
  | none => rfl
  | some op =>
      rw [lock_insert]
      split
      · rename_i same
        rw [same, Operations.lock, found]
        rfl
      · rfl

theorem lock_finishOperation (operations : Operations) (id other : Text) :
    (finishOperation operations id).lock other = if other = id then none else operations.lock other := by
  rw [finishOperation, Operations.lock]
  split
  · rename_i same
    rw [same, AList.lookup_erase]
    rfl
  · rename_i apart
    rw [AList.lookup_erase_ne apart]
    rfl

theorem lock_pruneStaleOperations (limit now : Int) (operations : Operations) (other : Text) :
    (pruneStaleOperations limit now operations).lock other =
      if (operations.lookup other).any (Operation.stale limit now) then none else operations.lock other := by
  rw [pruneStaleOperations, Operations.lock, Table.lookup_eraseWhere]
  split <;> rfl

theorem lock_upsertOperation (operations : Operations) (id kind title detail status : Text) (now : Int)
    (other : Text) : (other ≠ id → (upsertOperation operations id kind title detail status now).lock other =
        operations.lock other) ∧
      ((upsertOperation operations id kind title detail status now).lock other).bind Prod.fst =
        (operations.lock other).bind Prod.fst := by
  rw [upsertOperation]
  cases found : operations.lookup id with
  | none | some op =>
      rw [lock_insert]
      refine ⟨fun apart => if_neg apart, ?_⟩
      split
      · rename_i same
        rw [same, Operations.lock, found]
        rfl
      · rfl

structure Locked (server : BuildServer) : Prop where
  apart : ∀ (first second : Nat) (one two : Build), server.builds[first]? = some one →
    server.builds[second]? = some two → one.active → two.active → one.tag = two.tag → one.tag ≠ [] →
    first = second
  ids : ∀ (first second : Nat) (one two : Build), server.builds[first]? = some one →
    server.builds[second]? = some two → one.id = two.id → first = second
  held : ∀ build ∈ server.builds, build.active →
    server.operations.lock build.id = some (buildKey build.tag, running)
  owned : ∀ id key, (server.operations.lock id).bind Prod.fst = some key →
    ∃ build ∈ server.builds, build.id = id ∧ build.active ∧ buildKey build.tag = some key

theorem buildKey_eq_some (named : buildKey tag = some key) :
    tag ≠ [] ∧ key = "build:".toList ++ tag := by
  rw [buildKey] at named
  split at named
  · cases named
  · rename_i filled
    exact ⟨filled, (Option.some.inj named).symm⟩

theorem buildKey_of_ne_nil (filled : tag ≠ []) :
    buildKey tag = some ("build:".toList ++ tag) := if_neg filled

theorem Locked.exclusive {server : BuildServer} (locked : Locked server) : Exclusive server where
  apart := locked.apart
  free := by
    intro tag key named idle
    apply owner_eq_none
    intro id owner
    obtain ⟨build, member, _, active, key'⟩ := locked.owned id key (by rw [owner]; rfl)
    have tags : build.tag = tag := by
      have left := (buildKey_eq_some key').2
      have right := (buildKey_eq_some named).2
      rw [left] at right
      exact List.append_cancel_left right
    exact idle build member tags active

theorem Locked.table {server : BuildServer} (locked : Locked server) (kept : ∀ build ∈ server.builds, build.active →
      operations.lock build.id = server.operations.lock build.id)
    (bare : ∀ id key, (operations.lock id).bind Prod.fst = some key →
      (server.operations.lock id).bind Prod.fst = some key) :
    Locked { server with operations } where
  apart := locked.apart
  ids := locked.ids
  held := fun build member active => (kept build member active).trans (locked.held build member active)
  owned := fun id key owns => locked.owned id key (bare id key owns)

section
variable {server : BuildServer} {index : Nat} {build : Build} {phase : Phase}

variable {moved : Build} {operations : Operations} {other : Nat}

private theorem moved_cases (found : server.builds[index]? = some build)
    (there : (BuildServer.move ⟨operations, server.builds⟩ index build phase).builds[other]? = some moved) :
    ∃ before, server.builds[other]? = some before ∧ moved.tag = before.tag ∧ moved.id = before.id ∧
      (other = index ∧ moved.phase = phase ∨ other ≠ index ∧ moved = before) := by
  rcases getElem?_set_cases there with ⟨same, rfl⟩ | ⟨away, before⟩
  · exact ⟨build, same ▸ found, rfl, rfl, .inl ⟨same, rfl⟩⟩
  · exact ⟨moved, before, rfl, rfl, .inr ⟨away, rfl⟩⟩

private theorem active_before {before : Build} (running : build.active)
    (found : server.builds[index]? = some build) (there : server.builds[other]? = some before)
    (shape : other = index ∧ moved.phase = phase ∨ other ≠ index ∧ moved = before)
    (active : moved.active) : before.active := by
  rcases shape with ⟨same, _⟩ | ⟨_, rfl⟩
  · rw [same, found] at there
    exact Option.some.inj there ▸ running
  · exact active

theorem Locked.move (locked : Locked server) (found : server.builds[index]? = some build) (active : build.active)
    (kept : ∀ id, id ≠ build.id ∨ phase ≠ .ended → operations.lock id = server.operations.lock id)
    (given_up : phase = .ended → operations.lock build.id = none) :
    Locked (BuildServer.move ⟨operations, server.builds⟩ index build phase) where
  apart := by
    intro first second one two left right activeOne activeTwo tags filled
    obtain ⟨one', left', tagOne, _, shapeOne⟩ := moved_cases found left
    obtain ⟨two', right', tagTwo, _, shapeTwo⟩ := moved_cases found right
    apply locked.apart first second one' two' left' right'
      (active_before active found left' shapeOne activeOne)
      (active_before active found right' shapeTwo activeTwo)
    · rw [← tagOne, ← tagTwo, tags]
    · rwa [← tagOne]
  ids := by
    intro first second one two left right same
    obtain ⟨one', left', _, idOne, _⟩ := moved_cases found left
    obtain ⟨two', right', _, idTwo, _⟩ := moved_cases found right
    exact locked.ids first second one' two' left' right' (by rw [← idOne, ← idTwo, same])
  held := by
    intro moved member running
    obtain ⟨other, there⟩ := List.mem_iff_getElem?.mp member
    obtain ⟨before, there', tag, id, shape⟩ := moved_cases found there
    have holds := locked.held before (List.mem_of_getElem? there')
      (active_before active found there' shape running)
    have same : operations.lock before.id = server.operations.lock before.id := by
      apply kept
      rcases shape with ⟨_, phases⟩ | ⟨away, _⟩
      · exact .inr (phases ▸ running)
      · exact .inl fun equal => away (locked.ids _ _ _ _ there' found equal)
    rw [tag, id]
    exact same.trans holds
  owned := by
    intro id key owns
    change (operations.lock id).bind Prod.fst = some key at owns
    have open_ : id ≠ build.id ∨ phase ≠ .ended := by
      by_contra shut
      rw [not_or, Classical.not_not, Classical.not_not] at shut
      rw [shut.1, given_up shut.2] at owns
      cases owns
    rw [kept id open_] at owns
    obtain ⟨holder, member, same, running, named⟩ := locked.owned id key owns
    obtain ⟨other, there⟩ := List.mem_iff_getElem?.mp member
    by_cases own : other = index
    · rw [own, found] at there
      cases there
      have going : phase ≠ .ended := open_.resolve_left fun different => different same.symm
      refine ⟨{ build with phase }, ?_, same, going, named⟩
      exact List.mem_of_getElem? (List.getElem?_set_self (List.getElem?_eq_some_iff.mp found).1)
    · refine ⟨holder, ?_, same, running, named⟩
      apply List.mem_of_getElem?
      rw [← there]
      exact List.getElem?_set_ne fun same => own same.symm

end

private theorem active_of_phase {build : Build} {phase : Phase} (here : build.phase = phase)
    (going : phase ≠ .ended) : build.active := fun ended => going (here.symm.trans ended)

private theorem Locked.starts {server : BuildServer} {id : Text}
    {op : Operation} (locked : Locked server) (fresh : id ∉ server.builds.map Build.id)
    (free : ∀ key, buildKey tag = some key → server.operations.owner key = none)
    (shape : op.exclusiveKey = buildKey tag ∧ op.status = running)
    (inserted : operations = server.operations.insert id op) :
    Locked ⟨operations, server.builds ++ [⟨tag, id, .starting⟩]⟩ := by
  subst inserted
  have other : ∀ build ∈ server.builds, build.id ≠ id := by
    intro build member same
    exact fresh (same ▸ List.mem_map_of_mem member)
  have unowned : ∀ build ∈ server.builds, build.active → build.tag = tag → tag = [] := by
    intro build member active same
    by_contra filled
    have holds := locked.held build member active
    have key := buildKey_of_ne_nil filled
    rw [same, key] at holds
    exact lock_ne_of_owner (free _ key) build.id holds
  constructor
  · intro first second one two left right activeOne activeTwo tags filled
    rcases getElem?_concat_cases left with left | ⟨placeOne, rfl⟩ <;>
      rcases getElem?_concat_cases right with right | ⟨placeTwo, rfl⟩
    · exact locked.apart first second one two left right activeOne activeTwo tags filled
    · exact absurd (tags.trans (unowned one (List.mem_of_getElem? left) activeOne tags)) filled
    · exact absurd (unowned two (List.mem_of_getElem? right) activeTwo tags.symm) filled
    · rw [placeOne, placeTwo]
  · intro first second one two left right same
    rcases getElem?_concat_cases left with left | ⟨placeOne, rfl⟩ <;>
      rcases getElem?_concat_cases right with right | ⟨placeTwo, rfl⟩
    · exact locked.ids first second one two left right same
    · exact absurd same (other one (List.mem_of_getElem? left))
    · exact absurd same.symm (other two (List.mem_of_getElem? right))
    · rw [placeOne, placeTwo]
  · intro build member active
    rw [lock_insert]
    rcases List.mem_append.mp member with earlier | last
    · rw [if_neg (other build earlier)]
      exact locked.held build earlier active
    · rw [List.mem_singleton.mp last, if_pos rfl, shape.1, shape.2]
  intro own key owns
  change (Operations.lock (server.operations.insert id op) own).bind Prod.fst = some key at owns
  rw [lock_insert] at owns
  split at owns
  · rename_i same
    refine ⟨⟨tag, id, .starting⟩, List.mem_append_right _ List.mem_cons_self, same.symm, nofun, ?_⟩
    rw [← shape.1]
    exact owns
  · obtain ⟨build, member, same, active, named⟩ := locked.owned own key owns
    exact ⟨build, List.mem_append_left _ member, same, active, named⟩

theorem Locked.step {limit : Int} {server after : BuildServer} {event : Event} (locked : Locked server)
    (orderly : Orderly limit server event) (result : server.step limit event = some after) :
    Locked after := by
  cases event with
  | request tag id dockerfile parsed now =>
      simp only [BuildServer.step] at result
      split at result
      · cases result
        exact locked
      split at result
      · cases result
      rename_i fresh
      rw [not_or] at fresh
      cases owner : (buildKey tag).bind server.operations.owner with
      | some op =>
          simp only [startExclusiveOperation, owner, Option.some.injEq] at result
          exact result ▸ locked
      | none =>
          simp only [startExclusiveOperation, owner, Option.some.injEq] at result
          subst result
          refine locked.starts fresh.2 ?_ ⟨rfl, rfl⟩ rfl
          intro key named
          rwa [named] at owner
  | headers index sent =>
      simp only [BuildServer.step] at result
      split at result
      · rename_i build found
        split at result
        · rename_i starting
          cases sent with
          | false => exact absurd rfl (orderly.sent index)
          | true =>
              cases result
              exact locked.move found (active_of_phase starting nofun) (fun _ _ => rfl) nofun
        · cases result
      · cases result
  | emit index line written now =>
      simp only [BuildServer.step] at result
      split at result
      · rename_i build found
        have kept : ∀ id, (match line with
            | some line => updateOperation server.operations build.id line now
            | none => server.operations : Operations).lock id = server.operations.lock id := by
          intro id
          cases line with
          | none => rfl
          | some line => exact lock_updateOperation _ _ _ _ _
        split at result
        · rename_i phase
          cases result
          exact locked.move found (active_of_phase phase nofun) (fun id _ => kept id) (by cases written <;> nofun)
        · rename_i phase
          cases written with
          | false => exact absurd phase (orderly.caught index line now build rfl found)
          | true =>
              cases result
              exact locked.move found (active_of_phase phase nofun) (fun id _ => kept id) nofun
        · cases result
      · cases result
  | noDockerfile index => exact absurd rfl (orderly.found index)
  | raise index =>
      simp only [BuildServer.step] at result
      split at result
      · rename_i build found
        split at result
        · rename_i phase
          cases result
          exact locked.move found (active_of_phase phase nofun) (fun _ _ => rfl) nofun
        · cases result
      · cases result
  | finish index =>
      simp only [BuildServer.step] at result
      split at result
      · rename_i build found
        split at result
        · rename_i phase
          cases result
          have active : build.active := by
            rcases phase with phase | phase <;> exact active_of_phase phase nofun
          apply locked.move found active
          · intro id away
            rw [lock_finishOperation, if_neg (away.resolve_right fun going => going rfl)]
          · intro _
            rw [lock_finishOperation, if_pos rfl]
        · cases result
      · cases result
  | list now =>
      cases result
      apply locked.table
      · intro build member active
        rw [lock_pruneStaleOperations]
        cases found : server.operations.lookup build.id with
        | none => rfl
        | some op =>
            rw [Option.any_some, orderly.quiet now rfl build member active op found]
            rfl
      · intro id key owns
        rw [lock_pruneStaleOperations] at owns
        split at owns
        · cases owns
        · exact owns
  | post id kind title detail status finished now =>
      simp only [BuildServer.step] at result
      split at result
      · cases result
      rename_i foreign
      have other : ∀ build ∈ server.builds, build.id ≠ id :=
        fun build member same => foreign (same ▸ List.mem_map_of_mem member)
      split at result
      · cases result
        apply locked.table
        · intro build member _
          rw [lock_finishOperation, if_neg (other build member)]
        intro own key owns
        rw [lock_finishOperation] at owns
        split at owns
        · cases owns
        · exact owns
      · cases result
        apply locked.table
        · intro build member _
          exact (lock_upsertOperation _ _ _ _ _ _ _ _).1 (other build member)
        · intro own key owns
          rwa [(lock_upsertOperation _ _ _ _ _ _ _ _).2] at owns

def BuildServer.Idle (server : BuildServer) : Prop :=
  server.builds = [] ∧ ∀ id op, server.operations.lookup id = some op → op.exclusiveKey = none

section

def noBuilds : BuildServer := ⟨∅, []⟩

def startedBuild (id : String) (now : Int) : Event :=
  .request "app".toList id.toList "Dockerfile".toList true now

private theorem noBuilds_idle : noBuilds.Idle := ⟨rfl, fun id op found => by cases found⟩

private def anyEvent : BuildServer → Event → Bool := fun _ _ => true

private theorem reaches_any {last : BuildServer} (events : List Event)
    (result : runAll (BuildServer.step 900) anyEvent noBuilds events = some last) :
    Reaches (BuildServer.step 900) (fun _ _ => True) noBuilds last :=
  reaches_of_runAll (fun _ _ _ => trivial) events .refl result

end

end PDocker.Engine
