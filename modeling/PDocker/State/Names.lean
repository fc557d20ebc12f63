import PDocker.Data.SharedStore
import PDocker.Data.Text
import PDocker.State.Removal

/-!
# Container names

All of CONTAINERS_DIR: create looks for the requested name and saves much later,
rename does not look at all, and every other operation saves the name it has
loaded. Nothing is locked.
-/

set_option autoImplicit false

namespace PDocker.State

open Data

/-- What `state.json` holds. The container's id is its directory. -/
structure Document where
  name : Name
  created : Name
  state : ContainerState

abbrev Containers := Table Name Document

/-- Besides the processes of each container: the directories that a path under
CONTAINERS_DIR may name and that are no container's, with the state and its id
that a `state.json` there holds. -/
structure Surroundings where
  worlds : Name → World
  others : Name → Option (Option (Name × Document))

abbrev NameTask := Task Name Document Surroundings

/-- `lstrip("/")` -/
def stripSlashes (name : Name) : Name := name.dropWhile (· = '/')

/-- `_container_sort_key` in reverse: running first, then the youngest. -/
def sortsBefore (one two : Name × Document) : Bool :=
  if one.2.state.running ≠ two.2.state.running then one.2.state.running
  else if one.2.created ≠ two.2.created then decide (two.2.created < one.2.created)
  else decide (¬ one.1 < two.1)

def sortMatches (found : List (Name × Document)) : List (Name × Document) :=
  found.insertionSort fun one two => sortsBefore one two = true

/-- The loop of `find_containers` over CONTAINERS_DIR. -/
def collectMatches (identifier : Name) (next : List (Name × Document) → NameTask) :
    List Name → List (Name × Document) → List (Name × Document) → NameTask
  | [], exactName, initial => next (sortMatches (if exactName ≠ [] then exactName else initial))
  | cid :: rest, exactName, initial => .read false fun store =>
      match store.lookup cid with
      | none => collectMatches identifier next rest exactName initial
      | some document =>
          collectMatches identifier next rest
            (if stripSlashes document.name = identifier then exactName ++ [(cid, document)]
              else exactName)
            (if identifier.isPrefixOf cid then initial ++ [(cid, document)] else initial)

def findContainers (identifier : Name) (next : List (Name × Document) → NameTask) : NameTask :=
  .read true fun store =>
    if (store.lookup identifier).isSome then
      .read false fun store =>
        next ((store.lookup identifier).map fun document => (identifier, document)).toList
    else .look id fun around =>
      match around.others identifier with
      | some loaded => next loaded.toList
      | none => .read false fun store => collectMatches identifier next store.keys [] []

/-- The saves of `create_container`: the new document, and once more for each of
its networks. -/
def saveCreated (cid : Name) (document : Document) : List (Name × NetworkEntry) → NameTask
  | [] => .write cid (some document) (.ret true)
  | (network, entry) :: rest => .write cid (some document)
      (saveCreated cid { document with
        state := { document.state with networks := document.state.networks.insert network entry } }
        rest)

/-- `create_container`. An empty name stands for none. -/
def createContainer (cid name created : Name) (state : ContainerState)
    (networks : List (Name × NetworkEntry)) : NameTask :=
  if name = [] then
    saveCreated cid ⟨'/' :: ("c_".toList ++ cid.take 12), created, state⟩ networks
  else findContainers (stripSlashes name) fun existing =>
    if existing ≠ [] then .ret false else saveCreated cid ⟨'/' :: name, created, state⟩ networks

def renameContainer (identifier name : Name) : NameTask :=
  findContainers identifier fun
    | [] => .ret false
    | (cid, document) :: _ =>
        let newName := stripSlashes (stripSpace name)
        if newName = [] then .ret false
        else .write cid (some { document with name := '/' :: newName }) (.ret true)

/-- An operation on one container. `copy` is the document that its saves rest on;
nothing is saved that has not been loaded. -/
def onContainer (cid : Name) : Option Document → RemovalProg → NameTask
  | _, .ret ok => .ret ok
  | _, .load next => .read true fun store =>
      onContainer cid (store.lookup cid) (next ((store.lookup cid).map Document.state))
  | copy, .reload next => .read false fun store =>
      onContainer cid ((store.lookup cid).or copy) (next ((store.lookup cid).map Document.state))
  | copy, .peek next => .read false fun store =>
      onContainer cid copy (next ((store.lookup cid).map Document.state))
  | copy, .look act next => .look
      (fun around => { around with
        worlds := fun other => if other = cid then act (around.worlds cid) else around.worlds other })
      fun around => onContainer cid copy (next (around.worlds cid))
  | _, .save none next => .write cid none (onContainer cid none next)
  | none, .save (some _) _ => .ret false
  | some copy, .save (some state) next =>
      .write cid (some { copy with state }) (onContainer cid (some { copy with state }) next)

inductive NameOp where
  | create (cid name created : Name) (state : ContainerState) (networks : List (Name × NetworkEntry))
  | rename (identifier name : Name)
  | operate (cid : Name) (op : RemovalOp)

def NameOp.program : NameOp → NameTask
  | .create cid name created state networks => createContainer cid name created state networks
  | .rename identifier name => renameContainer identifier name
  | .operate cid op => onContainer cid none op.program

inductive NameChange where
  | process (cid : Name) (change : Change)
  | directories (others : Name → Option (Option (Name × Document)))

def NameChange.apply : NameChange → Surroundings → Surroundings
  | .process cid change, around =>
      { around with
        worlds := fun other =>
          if other = cid then change.apply (around.worlds cid) else around.worlds other }
  | .directories others, around => { around with others }

abbrev NameServer := Server NameOp Name Document Surroundings

def NameServer.empty (around : Surroundings) : NameServer := ⟨∅, 0, around, []⟩

def UniqueNames (store : Containers) : Prop :=
  ∀ one two first second, store.lookup one = some first → store.lookup two = some second →
    stripSlashes first.name = stripSlashes second.name → one = two

def NameFree (store : Containers) (cid : Name) : Option Document → Prop
  | none => True
  | some document => ∀ other held, store.lookup other = some held → other ≠ cid →
      stripSlashes held.name ≠ stripSlashes document.name

theorem uniqueNames_put (store : Containers) (cid : Name) (value : Option Document)
    (unique : UniqueNames store) (free : NameFree store cid value) :
    UniqueNames (store.put cid value) := by
  intro one two first second foundOne foundTwo same
  rw [Table.lookup_put] at foundOne foundTwo
  by_cases isOne : one = cid
  · by_cases isTwo : two = cid
    · rw [isOne, isTwo]
    rw [if_pos isOne] at foundOne
    rw [if_neg isTwo] at foundTwo
    subst foundOne
    exact absurd same.symm (free two second foundTwo isTwo)
  · rw [if_neg isOne] at foundOne
    by_cases isTwo : two = cid
    · rw [if_pos isTwo] at foundTwo
      subst foundTwo
      exact absurd same (free one first foundOne isOne)
    · rw [if_neg isTwo] at foundTwo
      exact unique one two first second foundOne foundTwo same

theorem nameFree_of_same {store : Containers} {cid : Name} {held document : Document}
    (unique : UniqueNames store) (found : store.lookup cid = some held)
    (same : document.name = held.name) : NameFree store cid (some document) := by
  intro other present foundOther elsewhere clash
  rw [same] at clash
  exact elsewhere (unique other cid present held foundOther found clash)

def NameOp.seen : NameOp → Surroundings → Prop
  | .create _ name _ _ _, around => around.others (stripSlashes name) = none
  | _, _ => True

def NameOp.unchecked : NameOp → Bool
  | .create _ name _ _ _ => name.isEmpty
  | .rename _ _ => true
  | .operate _ _ => false

section
variable {seen : Surroundings → Prop} {identifier : Name}
  {next : List (Name × Document) → NameTask}

theorem sound_collectMatches (sound : ∀ found, Sound UniqueNames NameFree seen (next found))
    (cids : List Name) : ∀ exactName initial,
      Sound UniqueNames NameFree seen (collectMatches identifier next cids exactName initial) := by
  induction cids with
  | nil => exact fun _ _ => sound _
  | cons cid rest ih =>
      intro exactName initial
      refine ⟨Bool.noConfusion, fun store => ?_⟩
      dsimp only
      split
      · exact ih _ _
      · exact ih _ _

theorem safe_collectMatches {store : Containers}
    (safe : ∀ found, (found = [] → ∀ cid document, store.lookup cid = some document →
      stripSlashes document.name ≠ identifier) → Safe NameFree seen store (next found))
    (cids : List Name) : ∀ exactName initial,
      (exactName = [] → ∀ cid document, store.lookup cid = some document →
        stripSlashes document.name = identifier → cid ∈ cids) →
      Safe NameFree seen store (collectMatches identifier next cids exactName initial) := by
  induction cids with
  | nil =>
      intro exactName initial left
      apply safe
      intro nothing cid document found named
      cases exactName with
      | nil => cases left rfl cid document found named
      | cons first others =>
          have length := congrArg List.length nothing
          rw [sortMatches, List.length_insertionSort, if_pos (List.cons_ne_nil _ _)] at length
          cases length
  | cons first rest ih =>
      intro exactName initial left
      refine .inr ?_
      dsimp only
      split
      · rename_i missing
        refine ih _ _ fun nothing cid document found named => ?_
        cases List.mem_cons.mp (left nothing cid document found named) with
        | inl same => rw [same, missing] at found; cases found
        | inr later => exact later
      rename_i document found
      refine ih _ _ fun nothing cid held foundHeld named => ?_
      by_cases matched : stripSlashes document.name = identifier
      · rw [if_pos matched] at nothing
        exact absurd nothing (List.append_ne_nil_of_right_ne_nil _ (List.cons_ne_nil _ _))
      rw [if_neg matched] at nothing
      cases List.mem_cons.mp (left nothing cid held foundHeld named) with
      | inl same =>
          subst same
          rw [found] at foundHeld
          obtain rfl := Option.some.inj foundHeld
          exact absurd named matched
      | inr later => exact later

theorem sound_saveCreated (cid : Name) (networks : List (Name × NetworkEntry)) :
    ∀ document, Sound UniqueNames NameFree seen (saveCreated cid document networks) := by
  induction networks with
  | nil => exact fun _ => trivial
  | cons entry rest ih => exact fun _ => ih _

theorem safe_saveCreated (cid : Name) (networks : List (Name × NetworkEntry)) :
    ∀ (store : Containers) document, NameFree store cid (some document) →
      Safe NameFree seen store (saveCreated cid document networks) := by
  induction networks with
  | nil => exact fun _ _ free => ⟨free, trivial⟩
  | cons entry rest ih =>
      intro store document free
      refine ⟨free, ih _ _ fun other held found elsewhere => ?_⟩
      rw [Table.lookup_put, if_neg elsewhere] at found
      exact free other held found elsewhere

end

theorem stripSlashes_slash (name : Name) : stripSlashes ('/' :: name) = stripSlashes name := by
  simp [stripSlashes]

theorem sound_createContainer (cid name created : Name) (state : ContainerState)
    (networks : List (Name × NetworkEntry)) (requested : name ≠ []) :
    Sound UniqueNames NameFree (NameOp.create cid name created state networks).seen
        (createContainer cid name created state networks) ∧
      Unread (createContainer cid name created state networks) := by
  rw [createContainer, if_neg requested]
  have sound : ∀ found : List (Name × Document), Sound UniqueNames NameFree
      (NameOp.create cid name created state networks).seen
      (if found ≠ [] then .ret false else saveCreated cid ⟨'/' :: name, created, state⟩ networks) := by
    intro found
    split
    · trivial
    · exact sound_saveCreated cid networks _
  refine ⟨⟨fun _ store unique => ?_, fun store => ?_⟩, .inl rfl⟩
  · dsimp only
    split
    · rename_i isContainer
      obtain ⟨document, found⟩ := Option.isSome_iff_exists.mp isContainer
      refine .inr ?_
      simp only [found, Option.map_some, Option.toList_some, ne_eq, List.cons_ne_nil,
        not_false_eq_true, ↓reduceIte]
      trivial
    intro around free
    dsimp only
    rw [show around.others (stripSlashes name) = none from free]
    refine .inr (safe_collectMatches (fun found complete => ?_) _ _ _ ?_)
    · by_cases nothing : found = []
      · rw [if_neg (not_not_intro nothing)]
        refine safe_saveCreated cid networks store _ fun other held foundOther _ clash => ?_
        rw [stripSlashes_slash] at clash
        exact complete nothing other held foundOther clash
      · rw [if_pos nothing]
        trivial
    · intro _ other held foundOther _
      exact AList.mem_keys.mp (AList.lookup_isSome.mp (Option.isSome_iff_exists.mpr ⟨held, foundOther⟩))
  · dsimp only
    split
    · exact ⟨Bool.noConfusion, fun store => sound _⟩
    intro around
    dsimp only
    split
    · exact sound _
    · exact ⟨Bool.noConfusion, fun store => sound_collectMatches sound _ _ _⟩

section
variable {seen : Surroundings → Prop} (cid : Name)

theorem safe_onContainer (prog : RemovalProg) : ∀ (store : Containers) (copy : Option Document),
    UniqueNames store →
    (∀ document, copy = some document → ∃ held, store.lookup cid = some held ∧
      document.name = held.name) →
    Safe NameFree seen store (onContainer cid copy prog) := by
  induction prog with
  | ret ok => exact fun _ _ _ _ => by trivial
  | load next ih => exact fun _ _ _ _ => .inl rfl
  | reload next ih =>
      intro store copy unique named
      refine .inr (ih _ store _ unique fun document taken => ?_)
      cases found : store.lookup cid with
      | none =>
          rw [found, Option.none_or] at taken
          obtain ⟨held, foundHeld, same⟩ := named document taken
          rw [found] at foundHeld
          cases foundHeld
      | some held =>
          rw [found, Option.some_or] at taken
          exact ⟨held, rfl, congrArg Document.name (Option.some.inj taken).symm⟩
  | peek next ih => exact fun store copy unique named => .inr (ih _ store copy unique named)
  | look act next ih => exact fun store copy unique named around _ => ih _ store copy unique named
  | save record next ih =>
      intro store copy unique named
      cases record with
      | none =>
          cases copy with
          | none | some document =>
              exact ⟨trivial, ih _ none (uniqueNames_put store cid none unique trivial)
                fun _ nothing => by cases nothing⟩
      | some state =>
          cases copy with
          | none => trivial
          | some document =>
              obtain ⟨held, found, same⟩ := named document rfl
              have free : NameFree store cid (some { document with state }) :=
                nameFree_of_same unique found same
              refine ⟨free, ih _ _ (uniqueNames_put store cid _ unique free) fun saved equal => ?_⟩
              obtain rfl := Option.some.inj equal
              exact ⟨_, by rw [Table.lookup_put, if_pos rfl], rfl⟩

theorem sound_onContainer (prog : RemovalProg) : ∀ copy : Option Document,
    Sound UniqueNames NameFree seen (onContainer cid copy prog) := by
  induction prog with
  | ret ok => exact fun _ => by trivial
  | load next ih =>
      refine fun copy => ⟨fun _ store unique => ?_, fun store => ih _ _⟩
      apply safe_onContainer cid _ store _ unique
      exact fun document found => ⟨document, found, rfl⟩
  | reload next ih | peek next ih => exact fun copy => ⟨Bool.noConfusion, fun store => ih _ _⟩
  | look act next ih => exact fun copy around => ih _ _
  | save record next ih =>
      intro copy
      cases record with
      | none =>
          cases copy with
          | none | some document => exact ih none
      | some state =>
          cases copy with
          | none => trivial
          | some document => exact ih _

theorem unread_onContainer (prog : RemovalProg) (unloaded : Unloaded prog) :
    Unread (onContainer cid none prog) := by
  induction prog with
  | ret ok => trivial
  | load next _ => exact .inl rfl
  | reload next _ | save record next _ => exact unloaded.elim
  | peek next ih => exact .inr fun store => ih _ (unloaded _)
  | look act next ih => exact fun around => ih _ (unloaded _)

end

theorem nameOp_sound (op : NameOp) (checked : op.unchecked = false) :
    Sound UniqueNames NameFree op.seen op.program ∧ Unread op.program := by
  cases op with
  | create cid name created state networks =>
      apply sound_createContainer
      rintro rfl
      cases checked
  | rename identifier name => cases checked
  | operate cid op =>
      exact ⟨sound_onContainer cid op.program none,
        unread_onContainer cid op.program (unloaded_removalOp op)⟩

/-- No two containers have the same name, whatever requests are served, as long
as nobody writes between the reads of a request and its write, no directory that
is no container's has the name that create looks for, and no other container
has the name that rename (or create without a name) saves. -/
theorem containerNames_unique (around : Surroundings) {last : NameServer}
    (runs : Server.Runs NameOp.program NameChange.apply
      (Careful NameFree NameOp.seen NameOp.unchecked) (NameServer.empty around) last) :
    ∀ one two first second, last.store.lookup one = some first →
      last.store.lookup two = some second → first.name = second.name → one = two := by
  have unique : UniqueNames last.store := by
    refine runs.keeps uniqueNames_put nameOp_sound ?_ rfl
    intro one two first second found
    cases found
  intro one two first second foundOne foundTwo same
  exact unique one two first second foundOne foundTwo (congrArg stripSlashes same)

/-- A container as `create_container` saves it. -/
def createdState : ContainerState :=
  { servingState with
    running := false
    status := .created
    pid := 0
    pidStartTime := none
    launcherPid := none
    launcherStartTime := none
    processGroupId := none
    knownPids := []
    startedAt := 0 }

def noProcess : Surroundings := ⟨fun _ => ⟨[], 9⟩, fun _ => none⟩

def createNamed (cid name : String) : NameOp :=
  .create cid.toList name.toList "2024".toList createdState []

def createTwo : List (Event NameOp NameChange) :=
  .spawn (createNamed "a1" "x") :: List.replicate 4 (.advance 0) ++
    .spawn (createNamed "b2" "y") :: List.replicate 5 (.advance 1)

def careful (server : NameServer) : Event NameOp NameChange → Bool
  | .advance index =>
      (server.requests[index]?).all fun request =>
        match request.task with
        | .write cid (some document) _ =>
            (request.since.all (· = server.version)) &&
              (!request.op.unchecked || server.store.keys.all fun other =>
                other = cid || (server.store.lookup other).all fun held =>
                  stripSlashes held.name ≠ stripSlashes document.name)
        | .write _ none _ => request.since.all (· = server.version)
        | .look _ _ =>
            match request.op with
            | .create _ name _ _ _ => (server.world.others (stripSlashes name)).isNone
            | _ => true
        | _ => true
  | _ => true

theorem careful_sound (server : NameServer) (event : Event NameOp NameChange)
    (checked : careful server event = true) :
    Careful NameFree NameOp.seen NameOp.unchecked server event := by
  constructor
  · intro index request key value rest advanced found writes version since
    subst advanced
    simp only [careful, found, Option.all_some, writes, since] at checked
    cases value with
    | none => exact of_decide_eq_true checked
    | some document => exact of_decide_eq_true (Bool.and_eq_true_iff.mp checked).1
  · intro index request act next advanced found looks
    subst advanced
    simp only [careful, found, Option.all_some, looks] at checked
    unfold NameOp.seen
    split
    · rename_i same
      rw [same] at checked
      exact Option.isNone_iff_eq_none.mp checked
    · trivial
  · intro index request key value rest advanced found writes unchecked
    subst advanced
    simp only [careful, found, Option.all_some, writes] at checked
    cases value with
    | none => trivial
    | some document =>
        intro other held foundOther elsewhere
        have all := (Bool.and_eq_true_iff.mp checked).2
        simp only [unchecked, Bool.not_true, Bool.false_or, List.all_eq_true] at all
        have member : other ∈ server.store.keys :=
          AList.mem_keys.mp (AList.lookup_isSome.mp (Option.isSome_iff_exists.mpr ⟨held, foundOther⟩))
        have apart := all other member
        simp only [elsewhere, decide_false, Bool.false_or, foundOther, Option.all_some] at apart
        exact of_decide_eq_true apart

/-- The second container is renamed and both are operated on. -/
theorem containerNames_unique_two : ∃ last : NameServer, Server.Runs NameOp.program NameChange.apply
      (Careful NameFree NameOp.seen NameOp.unchecked) (NameServer.empty noProcess) last ∧
    last.store.keys.length = 2 ∧
    ∀ one two first second, last.store.lookup one = some first →
      last.store.lookup two = some second → first.name = second.name → one = two := by
  have ran : ((NameServer.empty noProcess).run NameOp.program NameChange.apply careful
      (createTwo ++ .spawn (.rename "y".toList "z".toList) :: List.replicate 6 (.advance 2) ++
        .spawn (.operate "a1".toList .stop) :: List.replicate 8 (.advance 3))).any
      (fun last => last.store.keys.length = 2) = true := by decide +kernel
  obtain ⟨last, result, two⟩ := (Option.any_eq_true _ _).mp ran
  have runs := Server.runs_of_run careful_sound _ _ .refl result
  exact ⟨last, runs, of_decide_eq_true two, containerNames_unique noProcess runs⟩

/-- The second container is renamed to the name of the first. -/
theorem containerNames_clash : ∃ last : NameServer, ∃ first second,
    Server.Runs NameOp.program NameChange.apply (fun _ _ => True) (NameServer.empty noProcess) last ∧
    last.store.lookup "a1".toList = some first ∧ last.store.lookup "b2".toList = some second ∧
    first.name = second.name := by
  have ran : ((NameServer.empty noProcess).run NameOp.program NameChange.apply
      (fun _ _ => true) (createTwo ++
        .spawn (.rename "y".toList "x".toList) :: List.replicate 6 (.advance 2))).any
      (fun last => ((last.store.lookup "a1".toList).map Document.name) = some "/x".toList &&
        ((last.store.lookup "b2".toList).map Document.name) = some "/x".toList) = true := by
    decide +kernel
  obtain ⟨last, result, checked⟩ := (Option.any_eq_true _ _).mp ran
  simp only [Bool.and_eq_true, decide_eq_true_eq] at checked
  obtain ⟨⟨first, foundFirst, nameFirst⟩, second, foundSecond, nameSecond⟩ :=
    And.intro (Option.map_eq_some_iff.mp checked.1) (Option.map_eq_some_iff.mp checked.2)
  exact ⟨last, first, second, Server.runs_of_run (fun _ _ _ => trivial) _ _ .refl result,
    foundFirst, foundSecond, nameFirst.trans nameSecond.symm⟩

end PDocker.State
