import PDocker.Data.Text

/-!
# Trees of documents

What a document provider holds: documents with display names, which need not be distinct. A path is
followed by name, and the first document of a name is taken, whatever its kind.
-/

set_option autoImplicit false

namespace PDocker.Saf

open Data

abbrev Bytes := List UInt8

inductive Doc where
  | file (bytes : Bytes)
  | dir (children : List (Text × Doc))
  deriving Repr, Inhabited

namespace Doc

def isDir : Doc → Bool
  | .file _ => false
  | .dir _ => true

/-- `findChild` from the root along a path. A file has no children. -/
def find : List Text → Doc → Option Doc
  | [], doc => some doc
  | _ :: _, .file _ => none
  | name :: rest, .dir children => (children.lookup name).bind (find rest)

theorem find_append (first rest : List Text) (doc : Doc) : doc.find (first ++ rest) = (doc.find first).bind (find rest) := by
  induction first generalizing doc with
  | nil => rfl
  | cons name first ih =>
      cases doc with
      | file => rfl
      | dir children =>
          rw [List.cons_append, find, find, Option.bind_assoc]
          exact congrArg _ (funext ih)

def setChild (name : Text) (doc : Doc) : List (Text × Doc) → List (Text × Doc)
  | [] => []
  | child :: more => if child.1 = name then (name, doc) :: more else child :: setChild name doc more

/-- What is created for a path: directories, and in the end the leaf. The provider may give a
document another name than the one it is asked for. -/
def created (rename : Text → Text) (leaf : Doc) : List Text → Doc
  | [] => leaf
  | name :: rest => .dir [(rename name, created rename leaf rest)]

/-- `resolveDocumentUri` with `createDirs`, and what is done with the document then: `act` is given
the document that is found, or `none` where one is created. -/
def update (rename : Text → Text) (act : Option Doc → Doc) : List Text → Doc → Option Doc
  | [], doc => some (act (some doc))
  | _ :: _, .file _ => none
  | name :: rest, .dir children =>
      match children.lookup name with
      | some child => (child.update rename act rest).map fun child => .dir (setChild name child children)
      | none => some (.dir (children ++ [(rename name, created rename (act none) rest)]))

variable {children : List (Text × Doc)} {name : Text} {doc after tree : Doc} {act : Option Doc → Doc}
  {path above : List Text} {rename : Text → Text}

theorem lookup_setChild {child : Doc} (found : children.lookup name = some child) (doc : Doc) (other : Text) :
    (setChild name doc children).lookup other = if other = name then some doc else children.lookup other := by
  induction children with
  | nil => exact nomatch found
  | cons first more ih =>
      rw [setChild]
      by_cases here : first.1 = name
      · rw [if_pos here, List.lookup_cons, List.lookup_cons]
        by_cases same : other = name
        · rw [if_pos same, beq_iff_eq.mpr same]
        · rw [if_neg same, beq_false_of_ne same, beq_false_of_ne (here ▸ same)]
      have later : more.lookup name = some child := by
        rwa [List.lookup_cons, beq_false_of_ne (Ne.symm here)] at found
      rw [if_neg here, List.lookup_cons, List.lookup_cons, ih later]
      by_cases same : other = first.1
      · have otherwise : other ≠ name := fun named => here (same.symm.trans named)
        simp only [if_neg otherwise]
      · rw [beq_false_of_ne same]

theorem lookup_append_new {other : Text} : (children ++ [(name, doc)]).lookup other =
      (children.lookup other).or (if other = name then some doc else none) := by
  rw [List.lookup_append, List.lookup_cons]
  by_cases same : other = name
  · rw [beq_iff_eq.mpr same, if_pos same]
  · rw [beq_false_of_ne same, if_neg same]
    rfl

theorem find_update (updated : tree.update rename act path = some after) (found : tree.find path = some doc) :
    after.find path = some (act (some doc)) := by
  induction path generalizing tree after with
  | nil =>
      obtain rfl := Option.some.inj found
      obtain rfl := Option.some.inj updated
      rfl
  | cons name rest ih =>
      cases tree with
      | file => exact nomatch updated
      | dir children =>
          obtain ⟨child, inside, deeper⟩ := Option.bind_eq_some_iff.mp found
          rw [update, inside] at updated
          obtain ⟨child', below, rfl⟩ := Option.map_eq_some_iff.mp updated
          rw [find, lookup_setChild inside, if_pos rfl, Option.bind_some]
          exact ih below deeper

def missing : List Text → Doc → List Text
  | [], _ => []
  | _ :: _, .file _ => []
  | name :: rest, .dir children =>
      match children.lookup name with
      | some child => missing rest child
      | none => name :: rest

theorem find_created {leaf : Doc} (path : List Text) :
    (created rename leaf path).find path = if ∀ name ∈ path, rename name = name then some leaf else none := by
  induction path with
  | nil => rw [if_pos fun _ member => absurd member List.not_mem_nil, created, find]
  | cons name rest ih =>
      rw [created, find, List.lookup_cons]
      by_cases kept : rename name = name
      · rw [kept, beq_iff_eq.mpr rfl, Option.bind_some, ih]
        simp only [List.forall_mem_cons, kept, true_and]
      · rw [beq_false_of_ne (Ne.symm kept), if_neg fun all => kept (all name List.mem_cons_self)]
        rfl

theorem find_update_created (updated : tree.update rename act path = some after) (absent : tree.find path = none) :
    after.find path = if ∀ name ∈ missing path tree, rename name = name then some (act none) else none := by
  induction path generalizing tree after with
  | nil => exact nomatch absent
  | cons name rest ih =>
      cases tree with
      | file => exact nomatch updated
      | dir children =>
          rw [update] at updated
          rw [missing]
          cases inside : children.lookup name with
          | none =>
              rw [inside] at updated
              obtain rfl := Option.some.inj updated
              rw [find, lookup_append_new, inside, Option.none_or]
              by_cases kept : name = rename name
              · rw [if_pos kept, Option.bind_some, find_created]
                simp only [List.forall_mem_cons, kept.symm, true_and]
              · rw [if_neg kept, if_neg fun all => kept (all name List.mem_cons_self).symm]
                rfl
          | some child =>
              rw [inside] at updated
              obtain ⟨child', below, rfl⟩ := Option.map_eq_some_iff.mp updated
              rw [find, lookup_setChild inside, if_pos rfl, Option.bind_some]
              rw [find, inside, Option.bind_some] at absent
              exact ih below absent

theorem find_created_above (inside : above <+: path)
    (proper : above ≠ path) : (created rename (.dir []) above).find path = none := by
  induction above generalizing path with
  | nil =>
      obtain ⟨name, rest, rfl⟩ := List.exists_cons_of_ne_nil proper.symm
      rfl
  | cons name above ih =>
      obtain ⟨rest, rfl, deeper⟩ := List.cons_prefix_iff.mp inside
      rw [created, find, List.lookup_cons]
      by_cases same : name = rename name
      · rw [← same, beq_iff_eq.mpr rfl, Option.bind_some]
        exact ih deeper fun equal => proper (congrArg _ equal)
      · rw [beq_false_of_ne same]
        rfl

theorem find_update_above (kept : ∀ doc, act (some doc) = doc) (made : act none = .dir [])
    (updated : tree.update rename act above = some after) (inside : above <+: path) (proper : above ≠ path) :
    after.find path = tree.find path := by
  induction above generalizing tree after path with
  | nil =>
      obtain rfl := Option.some.inj updated
      rw [kept]
  | cons name above ih =>
      obtain ⟨rest, rfl, deeper⟩ := List.cons_prefix_iff.mp inside
      have properBelow : above ≠ rest := fun same => proper (congrArg _ same)
      cases tree with
      | file => exact nomatch updated
      | dir children =>
          rw [update] at updated
          cases here : children.lookup name with
          | none =>
              rw [here] at updated
              obtain rfl := Option.some.inj updated
              rw [find, find, lookup_append_new, here, Option.none_or]
              by_cases same : name = rename name
              · rw [if_pos same, Option.bind_some, made]
                exact find_created_above deeper properBelow
              · rw [if_neg same]
          | some child =>
              rw [here] at updated
              obtain ⟨child', below, rfl⟩ := Option.map_eq_some_iff.mp updated
              rw [find, find, lookup_setChild here, if_pos rfl, here, Option.bind_some, Option.bind_some]
              exact ih below deeper properBelow

end Doc

end PDocker.Saf
