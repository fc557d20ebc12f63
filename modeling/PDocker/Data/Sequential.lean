import PDocker.Data.SharedRecord

/-!
# One program at a time

A program starts only when every other one has returned, and the world changes
on its own between any two of its steps. What holds of every record that is
saved is shown program by program, with the help of what holds of the record
and the world whenever a program returns.
-/

set_option autoImplicit false

namespace PDocker.Data

section
variable {Doc World : Type} (Safe : Doc → Prop) (Good : Doc → World → Prop)
  (later : World → World → Prop) (expects : Doc → World → Prop)

def Upholds : Prog Doc World → Doc → World → Prop
  | .ret _, doc, world => Good doc world
  | .load next, doc, world => ∀ now, later world now → Upholds (next doc) doc now
  | .reload next, doc, world => ∀ now, later world now → Upholds (next doc) doc now
  | .peek next, doc, world => ∀ now, later world now → Upholds (next doc) doc now
  | .look act next, doc, world => ∀ now, later world now → expects doc now →
      Upholds (next now) doc (act now)
  | .save saved next, _, world => Safe saved ∧ ∀ now, later world now → Upholds next saved now

variable {Safe Good later expects}

theorem Upholds.onwards {prog : Prog Doc World} {doc : Doc} {world now : World}
    (trans : ∀ one two three, later one two → later two three → later one three)
    (goodLater : ∀ doc world now, Good doc world → later world now → Good doc now)
    (keeps : Upholds Safe Good later expects prog doc world) (after : later world now) :
    Upholds Safe Good later expects prog doc now := by
  cases prog with
  | ret ok => exact goodLater _ _ _ keeps after
  | load next | reload next | peek next | look act next => exact fun afterwards more => keeps afterwards (trans _ _ _ after more)
  | save saved next =>
      exact ⟨keeps.1, fun afterwards more => keeps.2 afterwards (trans _ _ _ after more)⟩

end

section
variable {Op Change Doc World : Type} {program : Op → Prog Doc World}
  {change : Change → World → World} {first last : System Op Doc World}

def System.ops (system : System Op Doc World) : List Op := system.threads.map Thread.op

def Thread.Returned (thread : Thread Op Doc World) : Prop := ∃ ok, thread.prog = .ret ok

variable (Safe : Doc → Prop) (Good : List Op → Doc → World → Prop)
  (later : List Op → World → World → Prop) (expects : Op → Doc → World → Prop)
  (ready : System Op Doc World → Op → Prop)

structure Sequential (change : Change → World → World) (system : System Op Doc World)
    (event : Event Op Change) : Prop where
  alone : ∀ op, event = .spawn op → ∀ thread ∈ system.threads, thread.Returned
  ready : ∀ op, event = .spawn op → ready system op
  changes : ∀ outside, event = .change outside →
    later system.ops system.world (change outside system.world)
  expects : ∀ index thread act next, event = .advance index →
    system.threads[index]? = some thread → thread.prog = .look act next →
    expects thread.op system.doc system.world

def Running (system : System Op Doc World) : Prop :=
  ∃ (index : Nat) (thread : Thread Op Doc World), system.threads[index]? = some thread ∧
    Upholds Safe (Good system.ops) (later system.ops) (expects thread.op) thread.prog system.doc
      system.world ∧
    ∀ (other : Nat) held, system.threads[other]? = some held → other ≠ index → held.Returned

variable {Safe Good later expects ready}

variable {system : System Op Doc World} {index : Nat}

private theorem good_of_running (running : Running Safe Good later expects system)
    (returned : ∀ thread ∈ system.threads, thread.Returned) :
    Good system.ops system.doc system.world := by
  obtain ⟨index, thread, found, keeps, _⟩ := running
  obtain ⟨ok, done⟩ := returned thread (List.mem_of_getElem? found)
  rw [done] at keeps
  exact keeps

private theorem ops_set {thread after : Thread Op Doc World} (found : system.threads[index]? = some thread)
    (sameOp : after.op = thread.op) :
    (system.threads.set index after).map Thread.op = system.ops := by
  rw [System.ops, List.map_set, sameOp]
  apply List.ext_getElem?
  intro place
  by_cases here : index = place
  · subst here
    have within := (List.getElem?_eq_some_iff.mp found).1
    rw [List.getElem?_set_self (by simpa using within), List.getElem?_map, found]
    rfl
  · rw [List.getElem?_set_ne here]

private theorem running_advance {next : System Op Doc World}
    (refl : ∀ ops world, later ops world world) (safe : Safe system.doc)
    (running : Running Safe Good later expects system)
    (sequential : Sequential later expects ready change system (.advance index))
    (result : system.step program change (.advance index) = some next) :
    Safe next.doc ∧ Running Safe Good later expects next := by
  obtain ⟨op, same, -⟩ | ⟨outside, same, -⟩ | ⟨mover, thread, after, doc, version, world, same, found,
    moved, rfl⟩ := step_cases result
  · cases same
  · cases same
  cases same
  obtain ⟨place, owner, foundOwner, keeps, others⟩ := running
  have isOwner : index = place := by
    by_contra elsewhere
    obtain ⟨ok, returned⟩ := others index thread found elsewhere
    rw [Thread.step, returned] at moved
    cases moved
  subst isOwner
  rw [found] at foundOwner
  obtain rfl := Option.some.inj foundOwner
  have now := refl system.ops system.world
  have expected := fun act rest => sequential.expects index thread act rest rfl found
  have moves : after.op = thread.op ∧ Safe doc ∧
      Upholds Safe (Good system.ops) (later system.ops) (expects after.op) after.prog doc world := by
    simp only [Thread.step] at moved
    cases shape : thread.prog with
    | ret ok => rw [shape] at moved; cases moved
    | load rest | reload rest | peek rest => rw [shape] at moved keeps; cases moved; exact ⟨rfl, safe, keeps _ now⟩
    | look act rest =>
        have seen := expected act rest shape
        rw [shape] at moved keeps
        cases moved
        exact ⟨rfl, safe, keeps _ now seen⟩
    | save saved rest =>
        rw [shape] at moved keeps
        cases moved
        exact ⟨rfl, keeps.1, keeps.2 _ now⟩
  have sameOps := ops_set found moves.1
  refine ⟨moves.2.1, index, after, ?_, ?_, fun other held foundOther elsewhere => ?_⟩
  · exact List.getElem?_set_self (List.getElem?_eq_some_iff.mp found).1
  · rw [System.ops, sameOps]
    exact moves.2.2
  · cases getElem?_set_cases foundOther with
    | inl here => exact absurd here.1 elsewhere
    | inr stayed => exact others other held stayed.2 elsewhere

theorem Runs.safe (refl : ∀ ops world, later ops world world)
    (trans : ∀ ops one two three, later ops one two → later ops two three → later ops one three)
    (goodLater : ∀ ops doc world now, Good ops doc world → later ops world now → Good ops doc now)
    (starts : ∀ (system : System Op Doc World) op, ready system op →
      Good system.ops system.doc system.world →
        Upholds Safe (Good (system.ops ++ [op])) (later (system.ops ++ [op])) (expects op)
          (program op) system.doc system.world)
    (safe : Safe first.doc) (good : Good [] first.doc first.world) (fresh : first.threads = [])
    (runs : Runs program change (Sequential later expects ready change) first last) :
    Safe last.doc := by
  have invariant := runs.invariant
    (fun system => Safe system.doc ∧ (Running Safe Good later expects system ∨
      system.threads = [] ∧ Good [] system.doc system.world))
    ⟨safe, .inr ⟨fresh, good⟩⟩
    (by
      intro system event next holds sequential result
      obtain ⟨safe, running⟩ := holds
      cases event with
      | advance index =>
          cases running with
          | inl running => 
              have after := running_advance refl safe running sequential result
              exact ⟨after.1, .inl after.2⟩
          | inr none_ =>
              rw [System.step, none_.1] at result
              cases result
      | change outside =>
          obtain rfl := Option.some.inj result
          have after := sequential.changes outside rfl
          refine ⟨safe, ?_⟩
          cases running with
          | inl running =>
              obtain ⟨index, thread, found, keeps, others⟩ := running
              exact .inl ⟨index, thread, found, keeps.onwards (trans _) (goodLater _) after, others⟩
          | inr none_ =>
              refine .inr ⟨none_.1, goodLater _ _ _ _ none_.2 ?_⟩
              rw [System.ops, none_.1] at after
              exact after
      | spawn op =>
          obtain rfl := Option.some.inj result
          have alone := sequential.alone op rfl
          have good : Good system.ops system.doc system.world := by
            cases running with
            | inl running => exact good_of_running running alone
            | inr none_ => rw [System.ops, none_.1]; exact none_.2
          have started := starts system op (sequential.ready op rfl) good
          refine ⟨safe, .inl ⟨system.threads.length, ⟨op, program op, none⟩, ?_, ?_, ?_⟩⟩
          · exact List.getElem?_concat_length
          · rw [System.ops, List.map_append]
            exact started
          intro other held foundOther elsewhere
          cases getElem?_concat_cases foundOther with
          | inl old => exact alone held (List.mem_of_getElem? old)
          | inr new => exact absurd new.1 elsewhere)
  exact invariant.1

end

end PDocker.Data
