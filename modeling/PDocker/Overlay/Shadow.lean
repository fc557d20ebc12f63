import PDocker.Overlay.View

/-!
# Unions that forget the kinds of entries

Where no entry counts as a leaf, nothing is shadowed: an upper file leaves what
a lower tree has below its path. The two unions of a stack differ exactly at
the stale paths, those that some layer holds, no later layer hides or holds,
and some later layer shadows.
-/

set_option autoImplicit false

namespace PDocker.Overlay

open Posix (Path)

section
variable {α β : Type} {other : View β} {upper : View α}

theorem hiddenFrom_congr (same : ∀ path, (upper path).isSome = (other path).isSome) :
    ∀ steps above, hiddenFrom upper above steps = hiddenFrom other above steps := by
  intro steps
  induction steps with
  | nil => exact fun _ => rfl
  | cons name rest ih =>
      intro above
      simp only [hiddenFrom, whiteoutAt, opaqueAt, same, ih]

theorem hidden_congr (same : ∀ path, (upper path).isSome = (other path).isSome) (path : Path) :
    hidden upper path = hidden other path :=
  hiddenFrom_congr same path []

@[simp] theorem shadowed_true (upper : View α) (path : Path) :
    shadowed (fun _ => true) upper path = false := by
  rw [Bool.eq_false_iff]
  intro shadow
  obtain ⟨_, _, entry, _, _, _, leaf⟩ := shadowed_iff.mp shadow
  cases leaf

theorem overlayAll_map {γ : Type} (left : α → γ) (right : β → γ) {path : Path} :
    ∀ (uppers : List (View α)) (others : List (View β)) (lower : View α) (base : View β),
      List.Forall₂ (fun upper other => ∀ path, (upper path).map left = (other path).map right)
        uppers others →
      (lower path).map left = (base path).map right →
        (overlayAll (fun _ => true) uppers lower path).map left =
          (overlayAll (fun _ => true) others base path).map right := by
  intro uppers others lower base layers start
  induction layers generalizing lower base with
  | nil => exact start
  | @cons upper other uppers others here _ ih =>
      rw [overlayAll_cons, overlayAll_cons]
      apply ih
      have domain : ∀ path, (upper path).isSome = (other path).isSome := by
        intro path
        simpa using congrArg Option.isSome (here path)
      have hiddenSame := hidden_congr domain path
      cases marked : hasMarker path with
      | true => simp [overlay_of_hasMarker marked]
      | false =>
          cases found : upper path with
          | some entry =>
              have both := here path
              rw [found] at both
              obtain ⟨entryOther, foundOther, reads⟩ := Option.map_eq_some_iff.mp both.symm
              rw [overlay_of_upper marked found, overlay_of_upper marked foundOther]
              simp [reads]
          | none =>
              have missing : other path = none := by
                have both := domain path
                rw [found] at both
                simpa using both.symm
              rw [overlay_of_not_upper marked found, overlay_of_not_upper marked missing, hiddenSame]
              cases hidden other path with
              | true => simp
              | false => simpa using start

end

section
variable {α : Type} {isDir : α → Bool}

/-- The layer says nothing about `path` itself. -/
def Silent (layer : View α) (path : Path) : Prop :=
  layer path = none ∧ hidden layer path = false

/-- Some layer holds `path`, and no later one speaks of it. -/
def Held (layers : List (View α)) (path : Path) : Prop :=
  ∃ before layer after, layers = before ++ layer :: after ∧ layer path ≠ none ∧
    ∀ later ∈ after, Silent later path

def Stale (isDir : α → Bool) (layers : List (View α)) (path : Path) : Prop :=
  ∃ before layer after, layers = before ++ layer :: after ∧ Held before path ∧
    shadowed isDir layer path = true ∧ ∀ later ∈ layer :: after, Silent later path

variable {layer : View α} {layers : List (View α)} {path : Path}

theorem held_append_singleton : Held (layers ++ [layer]) path ↔
      layer path ≠ none ∨ Silent layer path ∧ Held layers path := by
  constructor
  · intro held
    obtain ⟨before, holder, after, shape, holds, silent⟩ := held
    cases List.eq_nil_or_concat after with
    | inl last =>
        subst last
        obtain ⟨_, same⟩ := List.append_inj' shape rfl
        obtain rfl := List.cons.inj same |>.1
        exact .inl holds
    | inr more =>
        obtain ⟨init, last, rfl⟩ := more
        rw [List.concat_eq_append, ← List.cons_append, ← List.append_assoc] at shape
        obtain ⟨same, lastSame⟩ := List.append_inj' shape rfl
        obtain rfl := List.cons.inj lastSame |>.1
        exact .inr ⟨silent layer (by simp),
          before, holder, init, same, holds, fun later member => silent later (by simp [member])⟩
  · intro cases_
    cases cases_ with
    | inl holds => exact ⟨layers, layer, [], rfl, holds, by simp⟩
    | inr rest =>
        obtain ⟨quiet, before, holder, after, rfl, holds, silent⟩ := rest
        refine ⟨before, holder, after ++ [layer], by simp, holds, fun later member => ?_⟩
        cases List.mem_append.mp member with
        | inl old => exact silent later old
        | inr new => exact List.mem_singleton.mp new ▸ quiet

theorem stale_append_singleton : Stale isDir (layers ++ [layer]) path ↔ Silent layer path ∧
        (Stale isDir layers path ∨ Held layers path ∧ shadowed isDir layer path = true) := by
  constructor
  · intro stale
    obtain ⟨before, shadower, after, shape, held, shadow, silent⟩ := stale
    cases List.eq_nil_or_concat after with
    | inl last =>
        subst last
        obtain ⟨rfl, same⟩ := List.append_inj' shape rfl
        obtain rfl := List.cons.inj same |>.1
        exact ⟨silent layer (by simp), .inr ⟨held, shadow⟩⟩
    | inr more =>
        obtain ⟨init, last, rfl⟩ := more
        rw [List.concat_eq_append, ← List.cons_append, ← List.append_assoc] at shape
        obtain ⟨same, lastSame⟩ := List.append_inj' shape rfl
        obtain rfl := List.cons.inj lastSame |>.1
        refine ⟨silent layer (by simp), .inl ⟨before, shadower, init, same, held, shadow, ?_⟩⟩
        intro later member
        apply silent later
        simpa [or_assoc] using Or.inl (List.mem_cons.mp member)
  · intro cases_
    obtain ⟨quiet, stale | ⟨held, shadow⟩⟩ := cases_
    · obtain ⟨before, shadower, after, rfl, held, shadow, silent⟩ := stale
      refine ⟨before, shadower, after ++ [layer], by simp, held, shadow, fun later member => ?_⟩
      rw [← List.cons_append] at member
      cases List.mem_append.mp member with
      | inl old => exact silent later old
      | inr new => exact List.mem_singleton.mp new ▸ quiet
    · refine ⟨layers, layer, [], rfl, held, shadow, fun later member => ?_⟩
      exact List.mem_singleton.mp member ▸ quiet

theorem Stale.held (stale : Stale isDir layers path) : Held layers path := by
  obtain ⟨before, shadower, after, rfl, held, _, silentAfter⟩ := stale
  obtain ⟨first, holder, last, rfl, holds, silent⟩ := held
  refine ⟨first, holder, last ++ shadower :: after, by simp, holds, fun later member => ?_⟩
  cases List.mem_append.mp member with
  | inl old => exact silent later old
  | inr new => exact silentAfter later new

theorem overlayAll_true_ne_none_iff (plain : hasMarker path = false) (layers : List (View α)) :
    overlayAll (fun _ => true) layers (fun _ => none) path ≠ none ↔ Held layers path := by
  induction layers using List.reverseRecOn with
  | nil => simp [Held]
  | append_singleton layers layer ih =>
      rw [held_append_singleton, ← ih, overlayAll_append, overlayAll_cons, overlayAll_nil]
      cases found : layer path with
      | some entry => simp [overlay_of_upper plain found]
      | none =>
          rw [overlay_of_not_upper plain found]
          cases hiddenHere : hidden layer path <;> simp [Silent, found, hiddenHere]

theorem overlayAll_true_eq_iff (plain : hasMarker path = false) (layers : List (View α)) :
    overlayAll (fun _ => true) layers (fun _ => none) path =
      overlayAll isDir layers (fun _ => none) path ↔ ¬ Stale isDir layers path := by
  induction layers using List.reverseRecOn with
  | nil => simp [Stale]
  | append_singleton layers layer ih =>
      rw [stale_append_singleton, overlayAll_append, overlayAll_append]
      simp only [overlayAll_cons, overlayAll_nil]
      cases found : layer path with
      | some entry => simp [overlay_of_upper plain found, Silent, found]
      | none =>
          rw [overlay_of_not_upper plain found, overlay_of_not_upper plain found]
          cases hiddenHere : hidden layer path with
          | true => simp [Silent, hiddenHere]
          | false =>
              have quiet : Silent layer path := ⟨found, hiddenHere⟩
              cases shadow : shadowed isDir layer path with
              | true =>
                  -- the lower tree is cut off, so any held path is now stale
                  have either : Stale isDir layers path ∨ Held layers path ↔ Held layers path :=
                    or_iff_right_of_imp Stale.held
                  simp only [shadowed_true, Bool.or_self, Bool.false_eq_true, ↓reduceIte,
                    Bool.or_true, quiet, and_true, true_and, either]
                  rw [← overlayAll_true_ne_none_iff plain layers, not_not]
              | false => simpa [quiet] using ih

end

end PDocker.Overlay
