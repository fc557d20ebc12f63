import PDocker.Data.Table
import PDocker.Data.SharedRecord

/-!
# A store shared without a lock

Requests read a keyed store one read at a time and write one value at a time.
Whatever follows from the reads of a request may have changed when it writes,
unless nobody has written in between. Everything here is about arbitrary keys,
values, worlds and requests.
-/

set_option autoImplicit false

namespace PDocker.Data

/-- A request. A read that renews makes what was read before irrelevant; `look`
reads and changes the world outside the store; writing nothing erases. -/
inductive Task (Key Value World : Type) where
  | ret (ok : Bool)
  | read (renews : Bool) (next : Table Key Value → Task Key Value World)
  | look (act : World → World) (next : World → Task Key Value World)
  | write (key : Key) (value : Option Value) (next : Task Key Value World)

/-- A running request. `since` is the number of writes there had been at its
last write or renewing read. -/
structure Request (Op Key Value World : Type) where
  op : Op
  task : Task Key Value World
  since : Option Nat

structure Server (Op Key Value World : Type) where
  store : Table Key Value
  version : Nat
  world : World
  requests : List (Request Op Key Value World)

section
variable {Op Change Key Value World : Type} [DecidableEq Key]

def Table.put (store : Table Key Value) (key : Key) : Option Value → Table Key Value
  | none => store.erase key
  | some value => store.insert key value

theorem Table.lookup_put (store : Table Key Value) (key other : Key) (value : Option Value) :
    (store.put key value).lookup other = if other = key then value else store.lookup other := by
  cases value with
  | some value => exact lookup_insert_eq_ite store key other value
  | none =>
      by_cases same : other = key
      · subst same
        simp [put]
      · simp [put, same]

def Request.step (request : Request Op Key Value World) (store : Table Key Value) (version : Nat)
    (world : World) : Option (Request Op Key Value World × Table Key Value × Nat × World) :=
  match request.task with
  | .ret _ => none
  | .read renews next => some ({ request with
        task := next store
        since := if renews then some version else request.since }, store, version, world)
  | .look act next => some ({ request with task := next world }, store, version, act world)
  | .write key value next => some ({ request with task := next, since := some (version + 1) },
      store.put key value, version + 1, world)

def Server.step (program : Op → Task Key Value World) (change : Change → World → World)
    (server : Server Op Key Value World) : Event Op Change → Option (Server Op Key Value World)
  | .spawn op => some { server with requests := server.requests ++ [⟨op, program op, none⟩] }
  | .change outside => some { server with world := change outside server.world }
  | .advance index =>
      match server.requests[index]? with
      | none => none
      | some request =>
          (request.step server.store server.version server.world).map fun outcome =>
            ⟨outcome.2.1, outcome.2.2.1, outcome.2.2.2, server.requests.set index outcome.1⟩

inductive Server.Runs (program : Op → Task Key Value World) (change : Change → World → World)
    (allowed : Server Op Key Value World → Event Op Change → Prop)
    (first : Server Op Key Value World) : Server Op Key Value World → Prop where
  | refl : Server.Runs program change allowed first first
  | step {second third : Server Op Key Value World} {event : Event Op Change} :
      Server.Runs program change allowed first second → allowed second event →
      second.step program change event = some third →
      Server.Runs program change allowed first third

variable {program : Op → Task Key Value World} {change : Change → World → World}
  {allowed : Server Op Key Value World → Event Op Change → Prop}
  {first last : Server Op Key Value World}

theorem Server.Runs.invariant (Inv : Server Op Key Value World → Prop)
    (runs : Server.Runs program change allowed first last) (start : Inv first)
    (keeps : ∀ server event next, Inv server → allowed server event →
      server.step program change event = some next → Inv next) : Inv last := by
  induction runs with
  | refl => exact start
  | step _ permitted result ih => exact keeps _ _ _ ih permitted result

def Server.run (program : Op → Task Key Value World) (change : Change → World → World)
    (check : Server Op Key Value World → Event Op Change → Bool) :
    List (Event Op Change) → Server Op Key Value World → Option (Server Op Key Value World)
  | [], server => some server
  | event :: rest, server =>
      if check server event then
        (server.step program change event).bind (Server.run program change check rest)
      else none

theorem Server.runs_of_run {check : Server Op Key Value World → Event Op Change → Bool}
    (sound : ∀ server event, check server event = true → allowed server event)
    (events : List (Event Op Change)) :
    ∀ middle : Server Op Key Value World, Server.Runs program change allowed first middle →
      middle.run program change check events = some last →
      Server.Runs program change allowed first last := by
  induction events with
  | nil =>
      intro middle before result
      obtain rfl := Option.some.inj result
      exact before
  | cons event rest ih =>
      intro middle before result
      simp only [Server.run] at result
      split at result
      · rename_i checked
        obtain ⟨next, moved, result⟩ := Option.bind_eq_some_iff.mp result
        exact ih next (.step before (sound middle event checked) moved) result
      · cases result

section
variable (Inv : Table Key Value → Prop) (Harmless : Table Key Value → Key → Option Value → Prop)
  (seen : World → Prop)

/-- As long as nobody else writes, and the world is as the request may expect it
whenever it looks, its writes are harmless. -/
def Safe : Table Key Value → Task Key Value World → Prop
  | _, .ret _ => True
  | store, .read renews next => renews = true ∨ Safe store (next store)
  | store, .look _ next => ∀ world, seen world → Safe store (next world)
  | store, .write key value next =>
      Harmless store key value ∧ Safe (store.put key value) next

def Sound : Task Key Value World → Prop
  | .ret _ => True
  | .read renews next =>
      (renews = true → ∀ store, Inv store → Safe Harmless seen store (next store)) ∧
        ∀ store, Sound (next store)
  | .look _ next => ∀ world, Sound (next world)
  | .write _ _ next => Sound next

def Unread : Task Key Value World → Prop
  | .ret _ => True
  | .read renews next => renews = true ∨ ∀ store, Unread (next store)
  | .look _ next => ∀ world, Unread (next world)
  | .write _ _ _ => False

end

variable (Inv : Table Key Value → Prop) (Harmless : Table Key Value → Key → Option Value → Prop)
  (seen : Op → World → Prop) (trusted : Op → Bool)

/-- Nobody has written since the last renewing read before a write, the requests
see what they may expect, and the writes of the trusted ones are harmless. -/
structure Careful (server : Server Op Key Value World) (event : Event Op Change) : Prop where
  undisturbed : ∀ index request key value rest, event = .advance index →
    server.requests[index]? = some request → request.task = .write key value rest →
    ∀ version, request.since = some version → version = server.version
  looks : ∀ index request act next, event = .advance index →
    server.requests[index]? = some request → request.task = .look act next →
    seen request.op server.world
  harmless : ∀ index request key value rest, event = .advance index →
    server.requests[index]? = some request → request.task = .write key value rest →
    trusted request.op = true → Harmless server.store key value

structure Responsible (server : Server Op Key Value World) (request : Request Op Key Value World) :
    Prop where
  sound : Sound Inv Harmless (seen request.op) request.task
  unread : request.since = none → Unread request.task
  past : ∀ version, request.since = some version → version ≤ server.version
  safe : request.since = some server.version → Safe Harmless (seen request.op) server.store request.task

variable {Inv Harmless seen trusted}

variable {after request : Request Op Key Value World} {index version : Nat}
  {requests : List (Request Op Key Value World)} {server : Server Op Key Value World} {store : Table Key Value}
  {world : World}

private theorem responsible_move
    (responsible : Responsible Inv Harmless seen server request) (holds : Inv server.store)
    (careful : Careful Harmless seen trusted server (.advance index : Event Op Change))
    (found : server.requests[index]? = some request)
    (moved : request.step server.store server.version server.world =
      some (after, store, version, world)) :
    Responsible Inv Harmless seen ⟨store, version, world, requests⟩ after := by
  obtain ⟨sound, unread, past, safe⟩ := responsible
  simp only [Request.step] at moved
  cases shape : request.task with
  | ret ok => rw [shape] at moved; cases moved
  | read renews next =>
      rw [shape] at moved sound unread safe
      cases moved
      cases renews with
      | true =>
          refine ⟨sound.2 _, fun none => ?_, fun since copied => ?_, fun _ => sound.1 rfl _ holds⟩
          · cases none
          · obtain rfl := Option.some.inj copied
            exact Nat.le_refl _
      | false =>
          refine ⟨sound.2 _, fun none => ?_, past, fun copied => ?_⟩
          · exact (unread none).resolve_left Bool.false_ne_true _
          · exact (safe copied).resolve_left Bool.false_ne_true
  | look act next =>
      have expected := careful.looks index request act next rfl found shape
      rw [shape] at moved sound unread safe
      cases moved
      exact ⟨sound _, fun none => unread none _, past, fun copied => safe copied _ expected⟩
  | write key value next =>
      have since := careful.undisturbed index request key value next rfl found shape
      rw [shape] at moved sound unread safe
      cases moved
      cases copied : request.since with
      | none => exact (unread copied).elim
      | some base =>
          obtain rfl := since base copied
          refine ⟨sound, fun none => ?_, fun later same => ?_, fun _ => (safe copied).2⟩
          · cases none
          · obtain rfl := Option.some.inj same
            exact Nat.le_refl _

private theorem responsible_aside {other : Request Op Key Value World}
    (responsible : Responsible Inv Harmless seen server request)
    (moved : other.step server.store server.version server.world =
      some (after, store, version, world)) :
    Responsible Inv Harmless seen ⟨store, version, world, requests⟩ request := by
  obtain ⟨sound, unread, past, safe⟩ := responsible
  simp only [Request.step] at moved
  cases shape : other.task with
  | ret ok => rw [shape] at moved; cases moved
  | read renews next | look act next => rw [shape] at moved; cases moved; exact ⟨sound, unread, past, safe⟩
  | write key value next =>
      rw [shape] at moved
      cases moved
      refine ⟨sound, unread, fun since copied => Nat.le_succ_of_le (past since copied), ?_⟩
      intro copied
      have before := past _ copied
      dsimp only at before
      omega

private theorem op_step {store' : Table Key Value} {version' : Nat} {world' : World}
    (moved : request.step store version world = some (after, store', version', world')) :
    after.op = request.op := by
  simp only [Request.step] at moved
  cases shape : request.task with
  | ret ok => rw [shape] at moved; cases moved
  | read renews rest | look act rest | write key value rest => rw [shape] at moved; cases moved; rfl

private theorem inv_move (preserved : ∀ store key value, Inv store → Harmless store key value →
      Inv (store.put key value))
    (holds : Inv server.store)
    (responsible : trusted request.op = false → Responsible Inv Harmless seen server request)
    (careful : Careful Harmless seen trusted server (.advance index : Event Op Change))
    (found : server.requests[index]? = some request)
    (moved : request.step server.store server.version server.world =
      some (after, store, version, world)) : Inv store := by
  simp only [Request.step] at moved
  cases shape : request.task with
  | ret ok => rw [shape] at moved; cases moved
  | read renews rest | look act rest => rw [shape] at moved; cases moved; exact holds
  | write key value rest =>
      rw [shape] at moved
      cases moved
      apply preserved server.store key value holds
      cases trust : trusted request.op with
      | true => exact careful.harmless index request key value rest rfl found shape trust
      | false =>
          obtain ⟨_, unread, _, safe⟩ := responsible trust
          rw [shape] at unread safe
          cases copied : request.since with
          | none => exact (unread copied).elim
          | some base =>
              obtain rfl := careful.undisturbed index request key value rest rfl found shape base copied
              exact (safe copied).1

theorem Server.Runs.keeps (preserved : ∀ store key value, Inv store → Harmless store key value →
      Inv (store.put key value))
    (programs : ∀ op, trusted op = false →
      Sound Inv Harmless (seen op) (program op) ∧ Unread (program op))
    (start : Inv first.store) (fresh : first.requests = [])
    (runs : Server.Runs program change (Careful Harmless seen trusted) first last) :
    Inv last.store := by
  have invariant := runs.invariant (fun server => Inv server.store ∧ ∀ (index : Nat) request,
      server.requests[index]? = some request → trusted request.op = false →
        Responsible Inv Harmless seen server request)
    ⟨start, fun index request found => by rw [fresh] at found; cases found⟩
    (by
      intro server event next invariant careful result
      obtain ⟨holds, responsible⟩ := invariant
      cases event with
      | spawn op =>
          obtain rfl := Option.some.inj result
          refine ⟨holds, fun index request found untrusted => ?_⟩
          by_cases within : index < server.requests.length
          · rw [List.getElem?_append_left within] at found
            obtain ⟨sound, unread, past, safe⟩ := responsible index request found untrusted
            exact ⟨sound, unread, past, safe⟩
          rw [List.getElem?_append_right (Nat.le_of_not_lt within)] at found
          obtain rfl := List.mem_singleton.mp (List.mem_of_getElem? found)
          have program := programs op untrusted
          exact ⟨program.1, fun _ => program.2, fun _ copied => (by cases copied),
            fun copied => (by cases copied)⟩
      | change outside =>
          obtain rfl := Option.some.inj result
          refine ⟨holds, fun index request found untrusted => ?_⟩
          obtain ⟨sound, unread, past, safe⟩ := responsible index request found untrusted
          exact ⟨sound, unread, past, safe⟩
      | advance index =>
          simp only [Server.step] at result
          cases found : server.requests[index]? with
          | none => rw [found] at result; cases result
          | some request =>
              rw [found] at result
              obtain ⟨⟨after, store, version, world⟩, moved, rfl⟩ := Option.map_eq_some_iff.mp result
              refine ⟨inv_move preserved holds (responsible index request found) careful found moved,
                ?_⟩
              intro other held foundOther untrusted
              dsimp only at foundOther
              by_cases same : index = other
              · subst same
                rw [List.getElem?_set_self (List.getElem?_eq_some_iff.mp found).1] at foundOther
                obtain rfl := Option.some.inj foundOther
                rw [op_step moved] at untrusted
                exact responsible_move (responsible index request found untrusted) holds careful
                  found moved
              · rw [List.getElem?_set_ne same] at foundOther
                exact responsible_aside (responsible other held foundOther untrusted) moved)
  exact invariant.1

end

end PDocker.Data
