import Mathlib.Logic.Relation
import Mathlib.Logic.Function.Basic

/-!
# Scripts that may stop anywhere

A script asks about a state and acts on it, one act at a time. Any act may raise
instead, which leads to a script that handles it, and the process that runs a
script may be killed between any two acts. What holds wherever it stops is
shown along the script, given what the others that share the state may do.
-/

set_option autoImplicit false

namespace PDocker.Data

inductive Script (Act View : Type) where
  | done (ok : Bool)
  | ask (next : View → Script Act View)
  | act (act : Act) (next failed : Script Act View)

structure Machine (Act View State : Type) where
  view : State → View
  does : Act → State → State → Prop
  raises : Act → State → Prop

structure Contract (State : Type) where
  rely : State → State → Prop
  guarantee : State → State → Prop
  inv : State → Prop
  post : Bool → State → Prop
  rely_refl : ∀ state, rely state state
  rely_trans : ∀ first second third, rely first second → rely second third → rely first third

section
variable {Act View State : Type}

def Contract.alone (inv : State → Prop) (post : Bool → State → Prop) : Contract State where
  rely := Eq
  guarantee := fun _ _ => True
  inv := inv
  post := post
  rely_refl := fun _ => rfl
  rely_trans := fun _ _ _ => Eq.trans

inductive Machine.Step (machine : Machine Act View State) :
    Script Act View × State → Script Act View × State → Prop where
  | asks (next : View → Script Act View) (state : State) :
      machine.Step (.ask next, state) (next (machine.view state), state)
  | acts (act : Act) (next failed : Script Act View) (state after : State)
      (does : machine.does act state after) :
      machine.Step (.act act next failed, state) (next, after)
  | raises (act : Act) (next failed : Script Act View) (state : State)
      (raises : machine.raises act state) :
      machine.Step (.act act next failed, state) (failed, state)

def Machine.Steps (machine : Machine Act View State) :
    Script Act View × State → Script Act View × State → Prop :=
  Relation.ReflTransGen machine.Step

def Script.advance (view : State → View) (apply : Act → State → Option State) :
    Nat → Script Act View × State → Script Act View × State
  | 0, reached => reached
  | _ + 1, (.done ok, state) => (.done ok, state)
  | count + 1, (.ask next, state) => Script.advance view apply count (next (view state), state)
  | count + 1, (.act one next failed, state) =>
      match apply one state with
      | some after => Script.advance view apply count (next, after)
      | none => Script.advance view apply count (failed, state)

theorem Script.advance_steps {machine : Machine Act View State} {apply : Act → State → Option State}
    (does : ∀ act state after, apply act state = some after → machine.does act state after)
    (raises : ∀ act state, apply act state = none → machine.raises act state) (count : Nat)
    (start : Script Act View × State) :
    machine.Steps start (Script.advance machine.view apply count start) := by
  induction count generalizing start with
  | zero => exact .refl
  | succ count ih =>
      obtain ⟨script, state⟩ := start
      cases script with
      | done ok => exact .refl
      | ask next => exact .head (.asks next state) (ih _)
      | act one next failed =>
          rw [Script.advance]
          cases applied : apply one state with
          | some after => exact .head (.acts one next failed state after (does _ _ _ applied)) (ih _)
          | none => exact .head (.raises one next failed state (raises _ _ applied)) (ih _)

def Script.eval (view : State → View) (apply : Act → State → Option State) :
    Script Act View → State → Bool × State
  | .done ok, state => (ok, state)
  | .ask next, state => Script.eval view apply (next (view state)) state
  | .act one next failed, state =>
      match apply one state with
      | some after => Script.eval view apply next after
      | none => Script.eval view apply failed state

def Script.returned : Script Act View → Option Bool
  | .done ok => some ok
  | _ => none

variable {script : Script Act View}

theorem Script.eq_done {ok : Bool} (returned : script.returned = some ok) : script = .done ok := by
  cases script with
  | done result => exact congrArg Script.done (Option.some.inj returned)
  | ask next | act one next failed => cases returned

def Script.Within (allowed : Act → Prop) : Script Act View → Prop
  | .done _ => True
  | .ask next => ∀ view, (next view).Within allowed
  | .act one next failed => allowed one ∧ next.Within allowed ∧ failed.Within allowed

theorem Script.within_done {allowed : Act → Prop} (ok : Bool) :
    (Script.done ok : Script Act View).Within allowed := trivial

theorem Script.Within.mono {allowed wider : Act → Prop} (weaker : ∀ act, allowed act → wider act)
    (within : script.Within allowed) : script.Within wider := by
  induction script with
  | done ok => trivial
  | ask next ih => exact fun view => ih view (within view)
  | act one next failed next_ih failed_ih =>
      exact ⟨weaker one within.1, next_ih within.2.1, failed_ih within.2.2⟩

theorem Script.Within.keeps {machine : Machine Act View State} {allowed : Act → Prop} {Inv : State → Prop}
    (kept : ∀ act state after, allowed act → machine.does act state after → Inv state → Inv after)
    {state : State} {reached : Script Act View × State}
    (within : script.Within allowed) (inv : Inv state) (steps : machine.Steps (script, state) reached) :
    reached.1.Within allowed ∧ Inv reached.2 := by
  induction steps with
  | refl => exact ⟨within, inv⟩
  | tail _ step ih =>
      cases step with
      | asks next state => exact ⟨ih.1 _, ih.2⟩
      | acts act next failed state after does => exact ⟨ih.1.2.1, kept act state after ih.1.1 does ih.2⟩
      | raises act next failed state raises => exact ⟨ih.1.2.2, ih.2⟩

section
variable (machine : Machine Act View State) (contract : Contract State)

/-- Before every step of the script the invariant holds, every act keeps the
guarantee, and the postcondition holds when it has returned. -/
def Holds : Script Act View → State → Prop
  | .done ok, state => ∀ now, contract.rely state now → contract.post ok now
  | .ask next, state => ∀ now, contract.rely state now →
      contract.inv now ∧ Holds (next (machine.view now)) now
  | .act act next failed, state => ∀ now, contract.rely state now →
      contract.inv now ∧ (machine.raises act now → Holds failed now) ∧
        ∀ after, machine.does act now after → contract.guarantee now after ∧ Holds next after

variable {machine contract}

theorem Holds.act {Own : State → Prop} {act : Act} {next failed : Script Act View} {state : State}
    (inv : ∀ {state}, Own state → contract.inv state)
    (rely : ∀ {state now}, Own state → contract.rely state now → Own now) (own : Own state)
    (raised : ∀ now, Own now → Holds machine contract failed now)
    (does : ∀ now after, Own now → machine.does act now after →
      contract.guarantee now after ∧ Holds machine contract next after) :
    Holds machine contract (.act act next failed) state := fun now moved =>
  ⟨inv (rely own moved), fun _ => raised now (rely own moved), fun after done => does now after (rely own moved) done⟩

theorem Holds.step {script next : Script Act View} {state after : State}
    (holds : Holds machine contract script state)
    (step : machine.Step (script, state) (next, after)) :
    (after = state ∨ contract.guarantee state after) ∧ Holds machine contract next after := by
  cases step with
  | asks next => exact ⟨.inl rfl, (holds state (contract.rely_refl state)).2⟩
  | acts act _ failed _ _ does =>
      have kept := (holds state (contract.rely_refl state)).2.2 after does
      exact ⟨.inr kept.1, kept.2⟩
  | raises act next _ _ raises => exact ⟨.inl rfl, (holds state (contract.rely_refl state)).2.1 raises⟩

theorem Holds.steps {start reached : Script Act View × State}
    (holds : Holds machine contract start.1 start.2) (steps : machine.Steps start reached) :
    Holds machine contract reached.1 reached.2 := by
  induction steps with
  | refl => exact holds
  | tail _ step ih => exact (ih.step step).2

theorem Holds.inv {script : Script Act View} {state : State}
    (holds : Holds machine contract script state)
    (final : ∀ ok state, contract.post ok state → contract.inv state) : contract.inv state := by
  cases script with
  | done ok => exact final ok state (holds state (contract.rely_refl state))
  | ask next | act act next failed => exact (holds state (contract.rely_refl state)).1

end

end

end PDocker.Data
