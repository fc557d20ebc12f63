import Mathlib.Data.List.Basic
import Mathlib.Algebra.GroupWithZero.Nat

/-!
# Runs of a step function

A system takes one event after the other, each of which may be impossible. What
a step keeps as long as its event is allowed, a run of allowed events keeps.
-/

set_option autoImplicit false

namespace PDocker.Data

section
variable {State Event : Type}

inductive Reaches (step : State → Event → Option State) (allowed : State → Event → Prop)
    (first : State) : State → Prop where
  | refl : Reaches step allowed first first
  | step {second third : State} {event : Event} (reached : Reaches step allowed first second)
      (permitted : allowed second event) (result : step second event = some third) :
      Reaches step allowed first third

variable {step : State → Event → Option State} {allowed : State → Event → Prop} {first last : State}

theorem Reaches.invariant (Inv : State → Prop) (reaches : Reaches step allowed first last)
    (start : Inv first)
    (keeps : ∀ state event next, Inv state → allowed state event → step state event = some next →
      Inv next) : Inv last := by
  induction reaches with
  | refl => exact start
  | step _ permitted result ih => exact keeps _ _ _ ih permitted result

def runAll (step : State → Event → Option State) (check : State → Event → Bool) :
    State → List Event → Option State
  | state, [] => some state
  | state, event :: events =>
      if check state event then (step state event).bind (runAll step check · events) else none

theorem reaches_of_runAll {check : State → Event → Bool}
    (sound : ∀ state event, check state event = true → allowed state event) (events : List Event)
    {state : State} (reached : Reaches step allowed first state)
    (result : runAll step check state events = some last) : Reaches step allowed first last := by
  induction events generalizing state with
  | nil =>
      cases result
      exact reached
  | cons event events ih =>
      rw [runAll] at result
      split at result
      · rename_i passed
        obtain ⟨next, moved, rest⟩ := Option.bind_eq_some_iff.mp result
        exact ih (.step reached (sound state event passed) moved) rest
      · cases result

end

theorem getElem?_set_cases {Item : Type} {items : List Item} {index other : Nat}
    {after item : Item} (found : (items.set index after)[other]? = some item) :
    other = index ∧ item = after ∨ other ≠ index ∧ items[other]? = some item := by
  by_cases same : index = other
  · subst same
    rw [List.getElem?_set_self (by simpa using (List.getElem?_eq_some_iff.mp found).1)] at found
    exact .inl ⟨rfl, (Option.some.inj found).symm⟩
  · rw [List.getElem?_set_ne same] at found
    exact .inr ⟨fun equal => same equal.symm, found⟩

theorem getElem?_concat_cases {Item : Type} {items : List Item} {other : Nat}
    {after item : Item} (found : (items ++ [after])[other]? = some item) :
    items[other]? = some item ∨ other = items.length ∧ item = after := by
  by_cases within : other < items.length
  · rw [List.getElem?_append_left within] at found
    exact .inl found
  have past : other = items.length := by
    have bound := (List.getElem?_eq_some_iff.mp found).1
    rw [List.length_append, List.length_singleton] at bound
    omega
  subst past
  rw [List.getElem?_concat_length] at found
  exact .inr ⟨rfl, (Option.some.inj found).symm⟩

end PDocker.Data
