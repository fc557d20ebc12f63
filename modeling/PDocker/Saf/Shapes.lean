import PDocker.Saf.Documents

/-!
# What lies where

Of a tree of documents only the kind of each path is looked at here, with the bytes of a file: what
an update changes of it, and when it can be made.
-/

set_option autoImplicit false

namespace PDocker.Saf

open Data

namespace Doc

def kind : Doc → Option Bytes
  | .file bytes => some bytes
  | .dir _ => none

def kindAt (tree : Doc) (path : List Text) : Option (Option Bytes) := (tree.find path).map kind

variable {children : List (Text × Doc)} {name : Text} {rest path other : List Text} {leaf after tree : Doc}
  {act : Option Doc → Doc}

theorem kindAt_cons :
    (Doc.dir children).kindAt (name :: rest) = (children.lookup name).bind (kindAt · rest) := by
  rw [kindAt, find]
  cases children.lookup name <;> rfl

theorem kindAt_file_cons {bytes : Bytes} : (Doc.file bytes).kindAt (name :: rest) = none := rfl

structure Acts (act : Option Doc → Doc) : Prop where
  dir : ∀ children, act (some (.dir children)) = .dir children
  file : ∀ bytes, ∃ after, act (some (.file bytes)) = .file after
  new : act none = .dir [] ∨ ∃ bytes, act none = .file bytes

theorem kindAt_new (new : leaf = .dir [] ∨ ∃ bytes, leaf = .file bytes) (name : Text) (rest : List Text) :
    leaf.kindAt (name :: rest) = none := by
  obtain rfl | ⟨bytes, rfl⟩ := new <;> rfl

theorem kindAt_created (new : leaf = .dir [] ∨ ∃ bytes, leaf = .file bytes) (path other : List Text) :
    (created id leaf path).kindAt other =
      if other = path then some leaf.kind else if other <+: path then some none else none := by
  induction path generalizing other with
  | nil =>
      cases other with
      | nil => rfl
      | cons name rest =>
          rw [created, kindAt_new new, if_neg (List.cons_ne_nil _ _), if_neg (by simp)]
  | cons name path ih =>
      cases other with
      | nil => rfl
      | cons next rest =>
          rw [created, kindAt_cons, List.lookup_cons, id]
          by_cases same : next = name
          · subst same
            rw [beq_iff_eq.mpr rfl, Option.bind_some, ih]
            simp only [List.cons.injEq, true_and, List.cons_prefix_cons]
          · rw [beq_false_of_ne same]
            simp only [List.cons.injEq, same, false_and, ↓reduceIte, List.cons_prefix_cons]
            rfl

theorem kindAt_update (acts : Acts act) (updated : tree.update id act path = some after) (other : List Text) :
    after.kindAt other = if other = path then some (act (tree.find path)).kind
      else if tree.kindAt other = none then if other <+: path then some none else none
      else tree.kindAt other := by
  induction path generalizing tree after other with
  | nil =>
      obtain rfl := Option.some.inj updated
      cases other with
      | nil => rfl
      | cons name rest =>
          rw [if_neg (List.cons_ne_nil _ _)]
          cases tree with
          | file bytes =>
              obtain ⟨bytes', same⟩ := acts.file bytes
              rw [same, kindAt_file_cons, kindAt_file_cons, if_pos rfl, if_neg (by simp)]
          | dir children =>
              rw [acts.dir]
              split
              · rename_i absent
                rw [absent, if_neg (by simp)]
              · rfl
  | cons name path ih =>
      cases tree with
      | file => exact nomatch updated
      | dir children =>
          rw [update] at updated
          cases here : children.lookup name with
          | none =>
              rw [here] at updated
              obtain rfl := Option.some.inj updated
              cases other with
              | nil => rfl
              | cons next rest =>
                  rw [kindAt_cons, kindAt_cons, lookup_append_new, find, here]
                  by_cases same : next = name
                  · subst same
                    rw [here, Option.none_or, id, if_pos rfl, Option.bind_some, kindAt_created acts.new]
                    simp only [List.cons.injEq, true_and, Option.bind_none, ↓reduceIte, List.cons_prefix_cons]
                  · simp only [id, same, ↓reduceIte, Option.or_none, List.cons.injEq, false_and, List.cons_prefix_cons]
                    split
                    · assumption
                    · rfl
          | some child =>
              rw [here] at updated
              obtain ⟨child', below, rfl⟩ := Option.map_eq_some_iff.mp updated
              cases other with
              | nil => rfl
              | cons next rest =>
                  rw [kindAt_cons, kindAt_cons, lookup_setChild here, find, here]
                  by_cases same : next = name
                  · subst same
                    rw [if_pos rfl, here, Option.bind_some, Option.bind_some, Option.bind_some, ih below]
                    simp only [List.cons.injEq, true_and, List.cons_prefix_cons]
                  · simp only [same, ↓reduceIte, List.cons.injEq, false_and, List.cons_prefix_cons]
                    split
                    · assumption
                    · rfl

theorem kindAt_update_self (acts : Acts act)
    (updated : tree.update id act path = some after) : after.kindAt path = some (act (tree.find path)).kind := by
  rw [kindAt_update acts updated, if_pos rfl]

theorem kindAt_update_isSome (acts : Acts act)
    (updated : tree.update id act path = some after) (there : (tree.kindAt other).isSome = true) :
    (after.kindAt other).isSome = true := by
  rw [kindAt_update acts updated]
  split
  · rfl
  · rw [if_neg (Option.isSome_iff_ne_none.mp there)]
    exact there

theorem kindAt_update_file (acts : Acts act)
    (updated : tree.update id act path = some after) (apart : other ≠ path) (bytes : Bytes) :
    after.kindAt other = some (some bytes) ↔ tree.kindAt other = some (some bytes) := by
  rw [kindAt_update acts updated, if_neg apart]
  split
  · rename_i absent
    rw [absent]
    split
    · exact ⟨nofun, nofun⟩
    · exact ⟨nofun, nofun⟩
  · rfl

theorem update_isSome : (tree.update id act path).isSome = true ↔
      ∀ above, above <+: path → above ≠ path → ∀ bytes, tree.kindAt above ≠ some (some bytes) := by
  induction path generalizing tree with
  | nil =>
      refine iff_of_true rfl fun above inside other => ?_
      exact absurd (List.prefix_nil.mp inside) other
  | cons name path ih =>
      cases tree with
      | file bytes =>
          refine iff_of_false Bool.false_ne_true fun free => ?_
          exact free [] List.nil_prefix (List.cons_ne_nil _ _).symm bytes rfl
      | dir children =>
          rw [update]
          cases here : children.lookup name with
          | none =>
              refine iff_of_true rfl fun above inside other bytes => ?_
              cases above with
              | nil => exact fun same => by cases same
              | cons next above =>
                  obtain ⟨rfl, -⟩ := List.cons_prefix_cons.mp inside
                  rw [kindAt_cons, here]
                  exact fun same => by cases same
          | some child =>
              dsimp only
              rw [Option.isSome_map, ih]
              constructor
              · intro free above inside other bytes
                cases above with
                | nil => exact fun same => by cases same
                | cons next above =>
                    obtain ⟨rfl, deeper⟩ := List.cons_prefix_cons.mp inside
                    rw [kindAt_cons, here]
                    exact free above deeper (fun same => other (congrArg _ same)) bytes
              · intro free above inside other bytes
                have kept := free (name :: above) (List.cons_prefix_cons.mpr ⟨rfl, inside⟩)
                  (fun same => other (List.cons.inj same).2) bytes
                rwa [kindAt_cons, here] at kept

theorem kindAt_above {above : List Text} {kind : Option Bytes} (there : tree.kindAt path = some kind)
    (inside : above <+: path) (other : above ≠ path) : tree.kindAt above = some none := by
  induction above generalizing tree path with
  | nil =>
      cases path with
      | nil => exact absurd rfl other
      | cons name path =>
          cases tree with
          | file => exact nomatch there
          | dir => rfl
  | cons name above ih =>
      obtain ⟨rest, rfl, deeper⟩ := List.cons_prefix_iff.mp inside
      cases tree with
      | file => exact nomatch there
      | dir children =>
          rw [kindAt_cons] at there ⊢
          obtain ⟨child, here, below⟩ := Option.bind_eq_some_iff.mp there
          rw [here]
          exact ih below deeper fun same => other (congrArg _ same)

mutual

def height : Doc → Nat
  | .file _ => 0
  | .dir children => heights children + 1

def heights : List (Text × Doc) → Nat
  | [] => 0
  | (_, doc) :: rest => max doc.height (heights rest)

end

theorem height_le_of_lookup {child : Doc}
    (found : children.lookup name = some child) : child.height ≤ heights children := by
  induction children with
  | nil => exact nomatch found
  | cons first more ih =>
      obtain ⟨own, doc⟩ := first
      rw [heights]
      rw [List.lookup_cons] at found
      split at found
      · obtain rfl := Option.some.inj found
        exact Nat.le_max_left _ _
      · exact (ih found).trans (Nat.le_max_right _ _)

end Doc

end PDocker.Saf
