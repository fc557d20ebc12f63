import PDocker.Data.Transition

/-!
# A record shared without a lock

Programs load a whole record, compute on their copy and save it back; loads and
saves are atomic, nothing else is. A save is undisturbed when no other save
came between it and the load its copy stems from. Everything here is about
arbitrary records, worlds and programs.
-/

set_option autoImplicit false

namespace PDocker.Data

/-- A program. `load` replaces the copy that later saves are based on. `reload`
brings the copy up to date, but what is saved later still depends on a decision
taken on the copy before it. `peek` only reads; `look` reads and changes the
world outside the record. -/
inductive Prog (Doc World : Type) where
  | ret (ok : Bool)
  | load (next : Doc → Prog Doc World)
  | reload (next : Doc → Prog Doc World)
  | peek (next : Doc → Prog Doc World)
  | look (act : World → World) (next : World → Prog Doc World)
  | save (doc : Doc) (next : Prog Doc World)

def Prog.alone {Doc World : Type} : Prog Doc World → Doc → World → Doc
  | .ret _, doc, _ => doc
  | .load next, doc, world => (next doc).alone doc world
  | .reload next, doc, world => (next doc).alone doc world
  | .peek next, doc, world => (next doc).alone doc world
  | .look act next, doc, world => (next world).alone doc (act world)
  | .save saved next, _, world => next.alone saved world

/-- A running operation. `base` is its copy of the record, with the number of
saves there had been when it last saved or loaded; a reload does not count. -/
structure Thread (Op Doc World : Type) where
  op : Op
  prog : Prog Doc World
  base : Option (Doc × Nat)

structure System (Op Doc World : Type) where
  doc : Doc
  version : Nat
  world : World
  threads : List (Thread Op Doc World)

inductive Event (Op Change : Type) where
  | spawn (op : Op)
  | advance (index : Nat)
  | change (change : Change)

section
variable {Op Change Doc World : Type}

def Thread.step (thread : Thread Op Doc World) (doc : Doc) (version : Nat) (world : World) :
    Option (Thread Op Doc World × Doc × Nat × World) :=
  match thread.prog with
  | .ret _ => none
  | .load next => some ({ thread with prog := next doc, base := some (doc, version) },
      doc, version, world)
  | .reload next => some ({ thread with
        prog := next doc
        base := thread.base.map fun copy => (doc, copy.2) }, doc, version, world)
  | .peek next => some ({ thread with prog := next doc }, doc, version, world)
  | .look act next => some ({ thread with prog := next world }, doc, version, act world)
  | .save saved next => some ({ thread with prog := next, base := some (saved, version + 1) },
      saved, version + 1, world)

def System.step (program : Op → Prog Doc World) (change : Change → World → World)
    (system : System Op Doc World) : Event Op Change → Option (System Op Doc World)
  | .spawn op =>
      some { system with threads := system.threads ++ [⟨op, program op, none⟩] }
  | .change outside => some { system with world := change outside system.world }
  | .advance index =>
      match system.threads[index]? with
      | none => none
      | some thread =>
          match thread.step system.doc system.version system.world with
          | none => none
          | some (after, doc, version, world) =>
              some ⟨doc, version, world, system.threads.set index after⟩

def Undisturbed (system : System Op Doc World) (event : Event Op Change) : Prop :=
  ∀ index thread doc next, event = .advance index → system.threads[index]? = some thread →
    thread.prog = .save doc next → ∃ base, thread.base = some (base, system.version)

inductive Runs (program : Op → Prog Doc World) (change : Change → World → World)
    (allowed : System Op Doc World → Event Op Change → Prop) (first : System Op Doc World) :
    System Op Doc World → Prop where
  | refl : Runs program change allowed first first
  | step {second third : System Op Doc World} {event : Event Op Change} :
      Runs program change allowed first second → allowed second event →
      second.step program change event = some third → Runs program change allowed first third

variable {program : Op → Prog Doc World} {change : Change → World → World}
  {allowed : System Op Doc World → Event Op Change → Prop} {first last : System Op Doc World}

theorem Runs.invariant (Inv : System Op Doc World → Prop)
    (runs : Runs program change allowed first last)
    (start : Inv first)
    (keeps : ∀ system event next, Inv system → allowed system event →
      system.step program change event = some next → Inv next) : Inv last := by
  induction runs with
  | refl => exact start
  | step _ permitted result ih => exact keeps _ _ _ ih permitted result

theorem Runs.mono {more : System Op Doc World → Event Op Change → Prop}
    (runs : Runs program change allowed first last)
    (wider : ∀ system event, allowed system event → more system event) :
    Runs program change more first last := by
  induction runs with
  | refl => exact .refl
  | step _ permitted result ih => exact .step ih (wider _ _ permitted) result

theorem Runs.trans {middle : System Op Doc World} (left : Runs program change allowed first middle)
    (right : Runs program change allowed middle last) : Runs program change allowed first last := by
  induction right with
  | refl => exact left
  | step _ permitted result ih => exact .step ih permitted result

def undisturbed (system : System Op Doc World) : Event Op Change → Bool
  | .advance index =>
      match system.threads[index]? with
      | some ⟨_, .save _ _, base⟩ => base.any fun copy => copy.2 = system.version
      | _ => true
  | _ => true

variable {event : Event Op Change} {system next : System Op Doc World} {index : Nat} {rest : Prog Doc World}
  {saved : Doc} {thread : Thread Op Doc World}

theorem undisturbed_sound (checked : undisturbed system event = true) : Undisturbed system event := by
  intro index thread doc next same found saves
  subst same
  obtain ⟨op, prog, base⟩ := thread
  dsimp only at saves
  subst saves
  simp only [undisturbed, found, Option.any_eq_true, decide_eq_true_eq] at checked
  obtain ⟨copy, copied, version⟩ := checked
  exact ⟨copy.1, by rw [← version]; exact copied⟩

def System.run (program : Op → Prog Doc World) (change : Change → World → World)
    (check : System Op Doc World → Event Op Change → Bool) :
    List (Event Op Change) → System Op Doc World → Option (System Op Doc World)
  | [], system => some system
  | event :: rest, system =>
      if check system event then
        (system.step program change event).bind (System.run program change check rest)
      else none

theorem runs_of_run {check : System Op Doc World → Event Op Change → Bool}
    (sound : ∀ system event, check system event = true → allowed system event)
    (events : List (Event Op Change)) :
    ∀ first : System Op Doc World, first.run program change check events = some last →
      Runs program change allowed first last := by
  induction events with
  | nil =>
      intro first result
      obtain rfl := Option.some.inj result
      exact .refl
  | cons event rest ih =>
      intro first result
      simp only [System.run] at result
      split at result
      · rename_i checked
        obtain ⟨middle, moved, result⟩ := Option.bind_eq_some_iff.mp result
        exact (Runs.refl.step (sound first event checked) moved).trans (ih middle result)
      · cases result

theorem step_cases (result : system.step program change event = some next) : (∃ op, event = .spawn op ∧
      next = { system with threads := system.threads ++ [⟨op, program op, none⟩] }) ∨
    (∃ outside, event = .change outside ∧
      next = { system with world := change outside system.world }) ∨
    ∃ index thread after doc version world, event = .advance index ∧
      system.threads[index]? = some thread ∧
      thread.step system.doc system.version system.world = some (after, doc, version, world) ∧
      next = ⟨doc, version, world, system.threads.set index after⟩ := by
  cases event with
  | spawn op => exact .inl ⟨op, rfl, (Option.some.inj result).symm⟩
  | change outside => exact .inr (.inl ⟨outside, rfl, (Option.some.inj result).symm⟩)
  | advance index =>
      simp only [System.step] at result
      cases found : system.threads[index]? with
      | none => rw [found] at result; cases result
      | some thread =>
          rw [found] at result
          dsimp only at result
          cases moved : thread.step system.doc system.version system.world with
          | none => rw [moved] at result; cases result
          | some outcome =>
              obtain ⟨after, doc, version, world⟩ := outcome
              rw [moved] at result
              exact .inr (.inr ⟨index, thread, after, doc, version, world, rfl, found, moved,
                (Option.some.inj result).symm⟩)

theorem forall_threads_set {threads : List (Thread Op Doc World)}
    {after : Thread Op Doc World} {P : Thread Op Doc World → Prop}
    (others : ∀ thread ∈ threads, P thread) (moved : P after) :
    ∀ thread ∈ threads.set index after, P thread := by
  intro thread member
  cases List.mem_or_eq_of_mem_set member with
  | inl old => exact others thread old
  | inr new => exact new ▸ moved

def CopiesCurrent (system : System Op Doc World) : Prop :=
  ∀ thread ∈ system.threads, ∀ base version, thread.base = some (base, version) →
    version ≤ system.version ∧ (version = system.version → base = system.doc)

theorem copiesCurrent_step (current : CopiesCurrent system) (result : system.step program change event = some next) :
    CopiesCurrent next := by
  obtain ⟨op, -, rfl⟩ | ⟨outside, -, rfl⟩ | ⟨index, thread, after, doc, version, world, -, found,
    moved, rfl⟩ := step_cases result
  · intro thread member base version copied
    cases List.mem_append.mp member with
    | inl old => exact current thread old base version copied
    | inr new =>
        rw [List.mem_singleton.mp new] at copied
        cases copied
  · exact current
  have member := List.mem_of_getElem? found
  simp only [Thread.step] at moved
  cases shape : thread.prog with
  | ret ok => rw [shape] at moved; cases moved
  | load rest =>
      rw [shape] at moved
      cases moved
      apply forall_threads_set current
      intro base copy copied
      obtain ⟨rfl, rfl⟩ := Prod.mk.inj (Option.some.inj copied)
      exact ⟨Nat.le_refl _, fun _ => rfl⟩
  | reload rest =>
      rw [shape] at moved
      cases moved
      apply forall_threads_set current
      intro base copy copied
      obtain ⟨⟨old, since⟩, before, same⟩ := Option.map_eq_some_iff.mp copied
      obtain ⟨rfl, rfl⟩ := Prod.mk.inj same
      exact ⟨(current thread member old since before).1, fun _ => rfl⟩
  | peek rest | look act rest =>
      rw [shape] at moved
      cases moved
      exact forall_threads_set current (current thread member)
  | save saved rest =>
      rw [shape] at moved
      cases moved
      apply forall_threads_set
      · intro other otherMember base copy copied
        have before := (current other otherMember base copy copied).1
        refine ⟨Nat.le_succ_of_le before, fun same => ?_⟩
        dsimp only at same
        omega
      · intro base copy copied
        obtain ⟨rfl, rfl⟩ := Prod.mk.inj (Option.some.inj copied)
        exact ⟨Nat.le_refl _, fun _ => rfl⟩

theorem base_eq_doc (current : CopiesCurrent system)
    (undisturbed : Undisturbed system (.advance index : Event Op Change))
    (found : system.threads[index]? = some thread) (saves : thread.prog = .save saved rest) :
    thread.base = some (system.doc, system.version) := by
  obtain ⟨base, copied⟩ := undisturbed index thread saved rest rfl found saves
  rw [copied, (current thread (List.mem_of_getElem? found) base _ copied).2 rfl]

def Leaves (R : Doc → Doc → Prop) : Option Doc → Prog Doc World → Prop
  | _, .ret _ => True
  | _, .load next => ∀ doc, Leaves R (some doc) (next doc)
  | base, .reload next => ∀ doc, Leaves R (base.map fun _ => doc) (next doc)
  | base, .peek next => ∀ doc, Leaves R base (next doc)
  | base, .look _ next => ∀ world, Leaves R base (next world)
  | base, .save doc next => (∃ copy ∈ base, R copy doc) ∧ Leaves R (some doc) next

def ThreadsLeave (R : Op → Doc → Doc → Prop) (system : System Op Doc World) : Prop :=
  ∀ thread ∈ system.threads, Leaves (R thread.op) (thread.base.map Prod.fst) thread.prog

theorem threadsLeave_step {R : Op → Doc → Doc → Prop} (programs : ∀ op, Leaves (R op) none (program op))
    (leave : ThreadsLeave R system) (result : system.step program change event = some next) :
    ThreadsLeave R next := by
  obtain ⟨op, -, rfl⟩ | ⟨outside, -, rfl⟩ | ⟨index, thread, after, doc, version, world, -, found,
    moved, rfl⟩ := step_cases result
  · intro thread member
    cases List.mem_append.mp member with
    | inl old => exact leave thread old
    | inr new =>
        rw [List.mem_singleton.mp new]
        exact programs op
  · exact leave
  apply forall_threads_set leave
  have here := leave thread (List.mem_of_getElem? found)
  simp only [Thread.step] at moved
  cases shape : thread.prog with
  | ret ok => rw [shape] at moved; cases moved
  | load rest | peek rest | look act rest => rw [shape] at moved here; cases moved; exact here _
  | reload rest =>
      rw [shape] at moved here
      cases moved
      have copied := here system.doc
      rw [Option.map_map] at copied ⊢
      exact copied
  | save saved rest => rw [shape] at moved here; cases moved; exact here.2

theorem undisturbed_save_leaves {R : Op → Doc → Doc → Prop}
    (current : CopiesCurrent system) (leave : ThreadsLeave R system)
    (undisturbed : Undisturbed system (.advance index : Event Op Change))
    (found : system.threads[index]? = some thread) (saves : thread.prog = .save saved rest) :
    R thread.op system.doc saved := by
  have here := leave thread (List.mem_of_getElem? found)
  rw [base_eq_doc current undisturbed found saves, saves] at here
  obtain ⟨⟨copy, same, left⟩, -⟩ := here
  obtain rfl := Option.some.inj same
  exact left

theorem step_doc (result : system.step program change event = some next) :
    next.doc = system.doc ∨ ∃ index thread rest, event = .advance index ∧
      system.threads[index]? = some thread ∧ thread.prog = .save next.doc rest := by
  obtain ⟨op, -, rfl⟩ | ⟨outside, -, rfl⟩ | ⟨index, thread, after, doc, version, world, rfl, found,
    moved, rfl⟩ := step_cases result
  · exact .inl rfl
  · exact .inl rfl
  simp only [Thread.step] at moved
  cases shape : thread.prog with
  | ret ok => rw [shape] at moved; cases moved
  | load rest | reload rest | peek rest | look act rest => rw [shape] at moved; cases moved; exact .inl rfl
  | save saved rest =>
      rw [shape] at moved
      cases moved
      exact .inr ⟨index, thread, rest, rfl, found, shape⟩

/-- What a run carries along when every operation leaves alone what it does not
own and no save is disturbed. -/
structure Orderly (R : Op → Doc → Doc → Prop) (system : System Op Doc World) : Prop where
  current : CopiesCurrent system
  leave : ThreadsLeave R system

theorem Runs.orderly {R : Op → Doc → Doc → Prop} (programs : ∀ op, Leaves (R op) none (program op))
    (start : Orderly R first) (runs : Runs program change allowed first last) : Orderly R last :=
  runs.invariant (Orderly R) start fun _ _ _ orderly _ result =>
    ⟨copiesCurrent_step orderly.current result, threadsLeave_step programs orderly.leave result⟩

theorem Runs.doc_related {R : Op → Doc → Doc → Prop} (S : Doc → Doc → Prop)
    (programs : ∀ op, Leaves (R op) none (program op))
    (refl : ∀ doc, S doc doc) (trans : ∀ one two three, S one two → S two three → S one three)
    (start : Orderly R first)
    (runs : Runs program change (fun system event => Undisturbed system event ∧
      ∀ index thread saved rest, event = .advance index → system.threads[index]? = some thread →
        thread.prog = .save saved rest → ∀ old new, R thread.op old new → S old new) first last) :
    S first.doc last.doc := by
  induction runs with
  | refl => exact refl _
  | step before permitted result ih =>
      cases step_doc result with
      | inl same => exact same ▸ ih
      | inr saving =>
          obtain ⟨index, thread, rest, rfl, found, saves⟩ := saving
          have orderly := before.orderly programs start
          have left := undisturbed_save_leaves orderly.current orderly.leave permitted.1 found saves
          exact trans _ _ _ ih (permitted.2 index thread _ rest rfl found saves _ _ left)

section
variable (quiet : Doc → Prop) (idle : World → Prop)

/-- On a quiet record and in an idle world the program saves quiet records and
keeps the world idle. -/
def Calm : Prog Doc World → Prop
  | .ret _ => True
  | .load next => ∀ doc, quiet doc → Calm (next doc)
  | .reload next => ∀ doc, quiet doc → Calm (next doc)
  | .peek next => ∀ doc, quiet doc → Calm (next doc)
  | .look act next => ∀ world, idle world → idle (act world) ∧ Calm (next world)
  | .save doc next => quiet doc ∧ Calm next

/-- Whatever the program has seen, it is calm once it loads a quiet record. -/
def Tame : Prog Doc World → Prop
  | .ret _ => True
  | .load next => (∀ doc, quiet doc → Calm quiet idle (next doc)) ∧ ∀ doc, Tame (next doc)
  | .reload next => ∀ doc, Tame (next doc)
  | .peek next => ∀ doc, Tame (next doc)
  | .look act next => (∀ world, idle world → idle (act world)) ∧ ∀ world, Tame (next world)
  | .save _ next => Tame next

/-- The program returns true only right after a quiet save whose idle world it
has looked at. -/
def Promises : Prog Doc World → Prop
  | .ret ok => ok = false
  | .load next => ∀ doc, Promises (next doc)
  | .reload next => ∀ doc, Promises (next doc)
  | .peek next => ∀ doc, Promises (next doc)
  | .look act next => ∀ world, Promises (next world) ∨
      (idle world ∧ idle (act world) ∧ ∃ doc, quiet doc ∧ next world = .save doc (.ret true))
  | .save _ next => Promises next

variable (starts : Op → Bool)

/-- The operations that can end the quiet are tame apart from the starters. -/
def TameThreads (system : System Op Doc World) : Prop :=
  ∀ thread ∈ system.threads, starts thread.op = false → Tame quiet idle thread.prog

/-- The record is quiet and stays so: whoever still holds an older copy cannot
save it undisturbed. -/
structure Settled (system : System Op Doc World) : Prop where
  quietDoc : quiet system.doc
  idleWorld : idle system.world
  fresh : ∀ thread ∈ system.threads, starts thread.op = false →
    ∀ base, thread.base = some (base, system.version) → Calm quiet idle thread.prog

def NoStart (system : System Op Doc World) (event : Event Op Change) : Prop :=
  ∀ index thread, event = .advance index → system.threads[index]? = some thread →
    starts thread.op = false

inductive OnTheWay (system : System Op Doc World) (prog : Prog Doc World) : Prop where
  | before (promises : Promises quiet idle prog)
  | last (idleWorld : idle system.world) (doc : Doc) (quietDoc : quiet doc)
      (saves : prog = .save doc (.ret true))
  | done (returned : prog = .ret true) (settled : Settled quiet idle starts system)

def noStart (system : System Op Doc World) : Event Op Change → Bool
  | .advance index => (system.threads[index]?).all fun thread => !starts thread.op
  | _ => true

variable {quiet idle starts}

variable {event : Event Op Change} {system next : System Op Doc World} {after thread : Thread Op Doc World}
  {doc : Doc} {version index : Nat} {world : World}

theorem noStart_sound (checked : noStart starts system event = true) : NoStart starts system event := by
  intro index thread same found
  subst same
  simpa [noStart, found] using checked

theorem tame_idle {doc' : Doc} {version' : Nat} {world' : World} (tame : Tame quiet idle thread.prog)
    (moved : thread.step doc version world = some (after, doc', version', world'))
    (idleWorld : idle world) : idle world' := by
  simp only [Thread.step] at moved
  cases shape : thread.prog with
  | ret ok => rw [shape] at moved; cases moved
  | load rest | reload rest | peek rest | save saved rest => rw [shape] at moved; cases moved; exact idleWorld
  | look act rest => rw [shape] at moved tame; cases moved; exact tame.1 _ idleWorld

theorem tameThreads_step (programs : ∀ op, starts op = false → Tame quiet idle (program op))
    (tame : TameThreads quiet idle starts system)
    (result : system.step program change event = some next) :
    TameThreads quiet idle starts next := by
  obtain ⟨op, -, rfl⟩ | ⟨outside, -, rfl⟩ | ⟨index, thread, after, doc, version, world, -, found,
    moved, rfl⟩ := step_cases result
  · intro thread member
    cases List.mem_append.mp member with
    | inl old => exact tame thread old
    | inr new =>
        rw [List.mem_singleton.mp new]
        exact programs op
  · exact tame
  apply forall_threads_set tame
  have here := tame thread (List.mem_of_getElem? found)
  simp only [Thread.step] at moved
  cases shape : thread.prog with
  | ret ok => rw [shape] at moved; cases moved
  | load rest | look act rest => rw [shape] at moved here; cases moved; exact fun other => (here other).2 _
  | reload rest | peek rest => rw [shape] at moved here; cases moved; exact fun other => here other _
  | save saved rest => rw [shape] at moved here; cases moved; exact here

theorem settled_step (worldKeeps : ∀ outside world, idle world → idle (change outside world))
    (current : CopiesCurrent system) (tame : TameThreads quiet idle starts system)
    (settled : Settled quiet idle starts system) (undisturbed : Undisturbed system event)
    (noStart : NoStart starts system event)
    (result : system.step program change event = some next) :
    Settled quiet idle starts next := by
  obtain ⟨op, -, rfl⟩ | ⟨outside, -, rfl⟩ | ⟨index, thread, after, doc, version, world, rfl, found,
    moved, rfl⟩ := step_cases result
  · refine ⟨settled.quietDoc, settled.idleWorld, fun thread member other base copied => ?_⟩
    cases List.mem_append.mp member with
    | inl old => exact settled.fresh thread old other base copied
    | inr new =>
        rw [List.mem_singleton.mp new] at copied
        cases copied
  · exact ⟨settled.quietDoc, worldKeeps outside _ settled.idleWorld, settled.fresh⟩
  have member := List.mem_of_getElem? found
  have notStart := noStart index thread rfl found
  have here := tame thread member notStart
  have freshHere := settled.fresh thread member notStart
  simp only [Thread.step] at moved
  cases shape : thread.prog with
  | ret ok => rw [shape] at moved; cases moved
  | load rest =>
      rw [shape] at moved here
      cases moved
      refine ⟨settled.quietDoc, settled.idleWorld, ?_⟩
      exact forall_threads_set settled.fresh fun _ _ _ => here.1 _ settled.quietDoc
  | reload rest =>
      rw [shape] at moved freshHere
      cases moved
      refine ⟨settled.quietDoc, settled.idleWorld, forall_threads_set settled.fresh ?_⟩
      intro _ base copied
      obtain ⟨⟨old, since⟩, before, same⟩ := Option.map_eq_some_iff.mp copied
      obtain ⟨rfl, rfl⟩ := Prod.mk.inj same
      exact freshHere old before _ settled.quietDoc
  | peek rest =>
      rw [shape] at moved freshHere
      cases moved
      refine ⟨settled.quietDoc, settled.idleWorld, ?_⟩
      exact forall_threads_set settled.fresh
        fun _ base copied => freshHere base copied _ settled.quietDoc
  | look act rest =>
      rw [shape] at moved here freshHere
      cases moved
      refine ⟨settled.quietDoc, here.1 _ settled.idleWorld, ?_⟩
      exact forall_threads_set settled.fresh
        fun _ base copied => (freshHere base copied _ settled.idleWorld).2
  | save saved rest =>
      have copied := base_eq_doc current undisturbed found shape
      rw [shape] at moved freshHere
      cases moved
      have calm := freshHere _ copied
      refine ⟨calm.1, settled.idleWorld, forall_threads_set ?_ fun _ _ _ => calm.2⟩
      -- the other copies have just become too old
      intro other otherMember _ base old
      have before := (current other otherMember base _ old).1
      dsimp only at before
      omega

private theorem onTheWay_move (current : CopiesCurrent system)
    (moved : thread.step system.doc system.version system.world = some (after, doc, version, world))
    (onTheWay : OnTheWay quiet idle starts system thread.prog) :
    OnTheWay quiet idle starts ⟨doc, version, world, system.threads.set index after⟩ after.prog := by
  simp only [Thread.step] at moved
  cases onTheWay with
  | done returned _ => rw [returned] at moved; cases moved
  | last idleWorld saved quietDoc saves =>
      rw [saves] at moved
      cases moved
      refine .done rfl ⟨quietDoc, idleWorld, forall_threads_set ?_ fun _ _ _ => trivial⟩
      intro other otherMember _ base old
      have before := (current other otherMember base _ old).1
      dsimp only at before
      omega
  | before promises =>
      cases shape : thread.prog with
      | ret ok => rw [shape] at moved; cases moved
      | load rest | reload rest | peek rest => rw [shape] at moved promises; cases moved; exact .before (promises _)
      | save saved rest => rw [shape] at moved promises; cases moved; exact .before promises
      | look act rest =>
          rw [shape] at moved promises
          cases moved
          cases promises system.world with
          | inl still => exact .before still
          | inr final =>
              obtain ⟨_, idleAfter, saved, quietDoc, saves⟩ := final
              exact .last idleAfter saved quietDoc saves

theorem quiet_of_returned (programs : ∀ op, starts op = false → Tame quiet idle (program op))
    (worldKeeps : ∀ outside world, idle world → idle (change outside world))
    (current : CopiesCurrent first) (tame : TameThreads quiet idle starts first)
    (promises : ∃ thread, first.threads[index]? = some thread ∧ Promises quiet idle thread.prog)
    (runs : Runs program change
      (fun system event => Undisturbed system event ∧ NoStart starts system event) first last)
    (found : last.threads[index]? = some thread)
    (returned : thread.prog = .ret true) : quiet last.doc := by
  have invariant := runs.invariant
    (fun system => CopiesCurrent system ∧ TameThreads quiet idle starts system ∧
      ∃ thread, system.threads[index]? = some thread ∧ OnTheWay quiet idle starts system thread.prog)
    ⟨current, tame, by
      obtain ⟨thread, found, promises⟩ := promises
      exact ⟨thread, found, .before promises⟩⟩
    (by
      intro system event next holds permitted result
      obtain ⟨current, tame, thread, found, onTheWay⟩ := holds
      refine ⟨copiesCurrent_step current result, tameThreads_step programs tame result, ?_⟩
      have settledNext := fun settled => settled_step worldKeeps current tame settled permitted.1
        permitted.2 result
      -- a thread that does not move stays on its way
      have stays : ∀ (moved : idle system.world → idle next.world),
          OnTheWay quiet idle starts next thread.prog := by
        intro moved
        cases onTheWay with
        | before promises => exact .before promises
        | last idleWorld doc quietDoc saves => exact .last (moved idleWorld) doc quietDoc saves
        | done returned settled => exact .done returned (settledNext settled)
      obtain ⟨op, -, rfl⟩ | ⟨outside, -, rfl⟩ | ⟨other, mover, after, doc, version, world, rfl,
        foundOther, moved, rfl⟩ := step_cases result
      · refine ⟨thread, ?_, stays fun idleWorld => idleWorld⟩
        rw [List.getElem?_append_left (List.getElem?_eq_some_iff.mp found).1]
        exact found
      · exact ⟨thread, found, stays (worldKeeps outside _)⟩
      by_cases same : other = index
      · subst same
        rw [found] at foundOther
        obtain rfl := Option.some.inj foundOther
        refine ⟨after, ?_, onTheWay_move current moved onTheWay⟩
        rw [List.getElem?_set_self (List.getElem?_eq_some_iff.mp found).1]
      · refine ⟨thread, by rw [List.getElem?_set_ne same]; exact found, stays fun idleWorld => ?_⟩
        have here := tame mover (List.mem_of_getElem? foundOther)
          (permitted.2 other mover rfl foundOther)
        exact tame_idle here moved idleWorld)
  obtain ⟨_, _, other, foundOther, onTheWay⟩ := invariant
  rw [found] at foundOther
  obtain rfl := Option.some.inj foundOther
  cases onTheWay with
  | before promises => rw [returned] at promises; cases promises
  | last _ _ _ saves => rw [returned] at saves; cases saves
  | done _ settled => exact settled.quietDoc

end

section
variable {quiet : Doc → Prop} {idle : World → Prop} {mover : Nat → Op → Prop}

/-- The program does not save before it has loaded. -/
def Unloaded : Prog Doc World → Prop
  | .ret _ => True
  | .load _ => True
  | .reload _ => False
  | .peek next => ∀ doc, Unloaded (next doc)
  | .look _ next => ∀ world, Unloaded (next world)
  | .save _ _ => False

theorem calm_of_unloaded (prog : Prog Doc World) (tame : Tame quiet idle prog)
    (unloaded : Unloaded prog) : Calm quiet idle prog := by
  induction prog with
  | ret ok => trivial
  | load next _ => exact tame.1
  | reload next _ | save doc next _ => exact unloaded.elim
  | peek next ih => exact fun doc _ => ih doc (tame doc) (unloaded doc)
  | look act next ih =>
      exact fun world idleWorld => ⟨tame.1 world idleWorld, ih world (tame.2 world) (unloaded world)⟩

def OnlyMoves (mover : Nat → Op → Prop) (system : System Op Doc World) (event : Event Op Change) :
    Prop :=
  ∀ index thread, event = .advance index → system.threads[index]? = some thread → mover index thread.op

structure Still (quiet : Doc → Prop) (idle : World → Prop) (mover : Nat → Op → Prop)
    (system : System Op Doc World) : Prop where
  quietDoc : quiet system.doc
  idleWorld : idle system.world
  calm : ∀ index thread, system.threads[index]? = some thread → mover index thread.op →
    Calm quiet idle thread.prog

variable {next system : System Op Doc World}

theorem still_step {event : Event Op Change}
    (programs : ∀ op, mover system.threads.length op → Calm quiet idle (program op))
    (worldKeeps : ∀ outside world, idle world → idle (change outside world))
    (still : Still quiet idle mover system) (moves : OnlyMoves mover system event)
    (result : system.step program change event = some next) : Still quiet idle mover next := by
  obtain ⟨op, -, rfl⟩ | ⟨outside, -, rfl⟩ | ⟨index, thread, after, doc, version, world, rfl, found,
    moved, rfl⟩ := step_cases result
  · refine ⟨still.quietDoc, still.idleWorld, fun index thread foundThread may => ?_⟩
    cases getElem?_concat_cases foundThread with
    | inl old => exact still.calm index thread old may
    | inr new =>
        obtain ⟨rfl, rfl⟩ := new
        exact programs op may
  · exact ⟨still.quietDoc, worldKeeps outside _ still.idleWorld, still.calm⟩
  have calm := still.calm index thread found (moves index thread rfl found)
  -- the others are as calm as they were
  have others : ∀ after : Thread Op Doc World, Calm quiet idle after.prog →
      ∀ other thread, (system.threads.set index after)[other]? = some thread →
        mover other thread.op → Calm quiet idle thread.prog := by
    intro after calmAfter other thread foundOther may
    cases getElem?_set_cases foundOther with
    | inl moved => exact moved.2 ▸ calmAfter
    | inr stayed => exact still.calm other thread stayed.2 may
  simp only [Thread.step] at moved
  cases shape : thread.prog with
  | ret ok => rw [shape] at moved; cases moved
  | load rest | reload rest | peek rest =>
      rw [shape] at moved calm
      cases moved
      exact ⟨still.quietDoc, still.idleWorld, others _ (calm _ still.quietDoc)⟩
  | look act rest =>
      rw [shape] at moved calm
      cases moved
      have seen := calm _ still.idleWorld
      exact ⟨still.quietDoc, seen.1, others _ seen.2⟩
  | save saved rest =>
      rw [shape] at moved calm
      cases moved
      exact ⟨calm.1, still.idleWorld, others _ calm.2⟩

theorem still_of_save {index : Nat} {thread : Thread Op Doc World} {saved : Doc} {rest : Prog Doc World}
    (found : system.threads[index]? = some thread) (saves : thread.prog = .save saved rest)
    (quietSaved : quiet saved) (idleWorld : idle system.world) (calm : Calm quiet idle rest)
    (others : ∀ other thread, system.threads[other]? = some thread → other ≠ index →
      mover other thread.op → Tame quiet idle thread.prog ∧ Unloaded thread.prog)
    (result : system.step program change (.advance index) = some next) :
    Still quiet idle mover next := by
  simp only [System.step, found, Thread.step, saves] at result
  obtain rfl := Option.some.inj result
  refine ⟨quietSaved, idleWorld, fun other thread foundOther may => ?_⟩
  cases getElem?_set_cases foundOther with
  | inl moved => exact moved.2 ▸ calm
  | inr stayed =>
      have here := others other thread stayed.2 stayed.1 may
      exact calm_of_unloaded _ here.1 here.2

end

end

end PDocker.Data
