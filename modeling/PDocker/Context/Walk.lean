import PDocker.Context.DockerIgnore

/-!
# Walks over a build context

A path as a text is taken apart into its names again, and a walk that leaves
paths out packs the entries that have none of these on the way to them.
-/

set_option autoImplicit false

namespace PDocker.Context

open Data

theorem relText_cons (name next : ContextName) (path : List ContextName) :
    relText (name :: next :: path) = name.val ++ '/' :: relText (next :: path) := by
  rw [relText, List.map_cons, List.map_cons, intercalate_cons, List.append_assoc]
  rfl

theorem relText_singleton (name : ContextName) : relText [name] = name.val := intercalate_singleton _ _

variable {path between : List ContextName} {text : Text} {entry : Entry} {name : ContextName}

theorem splitParts_relText (filled : path ≠ []) : splitParts '/' (relText path) = path.map (·.val) := by
  refine splitParts_intercalate (mt List.map_eq_nil_iff.mp filled) fun part member => ?_
  obtain ⟨name, -, rfl⟩ := List.mem_map.mp member
  exact name.property.2.2.1

theorem relText_concat (filled : path ≠ []) (name : ContextName) :
    relText (path ++ [name]) = relText path ++ '/' :: name.val := by
  rw [relText, List.map_append, List.map_singleton, intercalate_concat (mt List.map_eq_nil_iff.mp filled),
    List.append_assoc]
  rfl

theorem not_backslash_relText (path : List ContextName) : '\\' ∉ relText path := by
  induction path with
  | nil => exact List.not_mem_nil
  | cons name path ih =>
      have plain : '\\' ∉ name.val := name.property.2.2.2
      cases path with
      | nil => rwa [relText_singleton]
      | cons next path =>
          rw [relText_cons, List.mem_append, List.mem_cons]
          rintro (here | same | later)
          · exact plain here
          · exact absurd same (by decide)
          · exact ih later

theorem forwardSlashes_eq (plain : '\\' ∉ text) : forwardSlashes text = text := by
  refine (List.map_congr_left fun char member => if_neg ?_).trans (List.map_id _)
  rintro rfl
  exact plain member

theorem trimStartSlashes_append (filled : text ≠ []) (away : '/' ∉ text) (rest : Text) :
    trimStartSlashes (text ++ rest) = text ++ rest := by
  obtain ⟨char, text, rfl⟩ := List.exists_cons_of_ne_nil filled
  refine List.dropWhile_cons_of_neg ?_
  rw [decide_eq_true_eq]
  rintro rfl
  exact away List.mem_cons_self

theorem trimEndSlashes_append (filled : text ≠ []) (away : '/' ∉ text) (front : Text) :
    trimEndSlashes (front ++ text) = front ++ text := by
  obtain ⟨text, char, rfl⟩ := List.eq_nil_or_concat text |>.resolve_left filled
  rw [List.concat_eq_append] at away ⊢
  rw [trimEndSlashes, ← List.append_assoc, List.rdropWhile_concat_neg]
  rw [decide_eq_true_eq]
  rintro rfl
  exact away (by simp)

theorem trimSlashes_relText (path : List ContextName) : trimSlashes (relText path) = relText path := by
  rcases List.eq_nil_or_concat path with rfl | ⟨path, name, rfl⟩
  · rfl
  have ends : ∃ front, relText (path ++ [name]) = front ++ name.val := by
    cases path with
    | nil => exact ⟨[], relText_singleton name⟩
    | cons first path => exact ⟨relText (first :: path) ++ ['/'], by rw [relText_concat (List.cons_ne_nil _ _)]; simp⟩
  have starts : ∃ first rest, relText (path ++ [name]) = first ++ rest ∧ first ≠ [] ∧ '/' ∉ first := by
    cases path with
    | nil => exact ⟨name.val, [], by simp [relText_singleton], name.property.1, name.property.2.2.1⟩
    | cons first path =>
        refine ⟨first.val, ?_⟩
        cases path with
        | nil => exact ⟨_, relText_cons first name [], first.property.1, first.property.2.2.1⟩
        | cons next path => exact ⟨_, relText_cons first next (path ++ [name]), first.property.1, first.property.2.2.1⟩
  obtain ⟨first, rest, start, filled, away⟩ := starts
  obtain ⟨front, tail⟩ := ends
  rw [List.concat_eq_append, trimSlashes, start, trimStartSlashes_append filled away, ← start, tail,
    trimEndSlashes_append name.property.1 name.property.2.2.1]

theorem relText_ne_nil (filled : path ≠ []) : relText path ≠ [] := by
  intro empty
  have parts := splitParts_relText filled
  rw [empty] at parts
  cases path with
  | nil => exact filled rfl
  | cons name path => exact name.property.1 (List.cons.inj parts).1.symm

mutual

theorem Node.prefix_of_mem {entry : Entry} :
    (node : Node) → (path : List ContextName) → entry ∈ node.entries path → path <+: entry.path
  | .file _, path, listed => by
      rw [Node.entries, List.mem_singleton] at listed
      rw [listed]
  | .symlink _, path, listed => by
      rw [Node.entries, List.mem_singleton] at listed
      rw [listed]
  | .dir children, path, listed => by
      rw [Node.entries, List.mem_cons] at listed
      rcases listed with rfl | below
      · exact List.prefix_refl _
      · obtain ⟨child, -, under⟩ := child_of_mem children path below
        exact (List.prefix_append path [child.1]).trans under

theorem child_of_mem {entry : Entry} :
    (children : List (ContextName × Node)) → (path : List ContextName) → entry ∈ childEntries path children →
      ∃ child ∈ children, path ++ [child.1] <+: entry.path
  | [], _, listed => nomatch listed
  | (name, node) :: rest, path, listed => by
      rw [childEntries, List.mem_append] at listed
      rcases listed with here | later
      · exact ⟨(name, node), List.mem_cons_self, node.prefix_of_mem _ here⟩
      · obtain ⟨child, member, under⟩ := child_of_mem rest path later
        exact ⟨child, List.mem_cons_of_mem _ member, under⟩

end

def Entry.dirAt (entry : Entry) (path : List ContextName) : Bool :=
  path ≠ entry.path || entry.kind = .dir

/-- The paths to an entry, the ones at or above `path` left out. -/
def Entry.Below (entry : Entry) (path between : List ContextName) : Prop :=
  path <+: between ∧ between ≠ path ∧ between <+: entry.path

theorem Entry.below_iff (under : path ++ [name] <+: entry.path) :
    entry.Below path between ↔ path ++ [name] <+: between ∧ between <+: entry.path := by
  constructor
  · rintro ⟨front, differs, inside⟩
    refine ⟨?_, inside⟩
    apply List.prefix_of_prefix_length_le under inside
    obtain ⟨rest, rfl⟩ := front
    cases rest with
    | nil => exact absurd (List.append_nil _) differs
    | cons first rest => simp
  · rintro ⟨front, inside⟩
    refine ⟨(List.prefix_append path [name]).trans front, ?_, inside⟩
    rintro rfl
    have longer := front.length_le
    rw [List.length_append, List.length_singleton] at longer
    omega

theorem Entry.prefix_iff (under : path <+: entry.path) :
    path <+: between ∧ between <+: entry.path ↔ between = path ∨ entry.Below path between := by
  constructor
  · rintro ⟨front, inside⟩
    by_cases same : between = path
    · exact .inl same
    · exact .inr ⟨front, same, inside⟩
  · rintro (rfl | ⟨front, -, inside⟩)
    · exact ⟨List.prefix_refl _, under⟩
    · exact ⟨front, inside⟩

theorem Entry.dirAt_above (under : path ++ [name] <+: entry.path) : entry.dirAt path = true := by
  have differs : path ≠ entry.path := by
    intro same
    have longer := under.length_le
    rw [← same, List.length_append, List.length_singleton] at longer
    omega
  rw [Entry.dirAt, decide_eq_true differs, Bool.true_or]

mutual

theorem Node.exists_above {entry : Entry} {between : List ContextName} :
    (node : Node) → (path : List ContextName) → entry ∈ node.entries path → path <+: between →
      between <+: entry.path →
      ∃ above ∈ node.entries path, above.path = between ∧ decide (above.kind = .dir) = entry.dirAt between
  | .file text, path, listed, front, inside => by
      rw [Node.entries, List.mem_singleton] at listed
      subst listed
      obtain rfl : between = path := inside.eq_of_length_le front.length_le
      exact ⟨_, List.mem_singleton_self _, rfl, by simp [Entry.dirAt]⟩
  | .symlink target, path, listed, front, inside => by
      rw [Node.entries, List.mem_singleton] at listed
      subst listed
      obtain rfl : between = path := inside.eq_of_length_le front.length_le
      exact ⟨_, List.mem_singleton_self _, rfl, by simp [Entry.dirAt]⟩
  | .dir children, path, listed, front, inside => by
      rw [Node.entries, List.mem_cons] at listed
      by_cases same : between = path
      · subst between
        refine ⟨⟨path, .dir⟩, List.mem_cons_self, rfl, ?_⟩
        rcases listed with rfl | below
        · simp [Entry.dirAt]
        · obtain ⟨child, -, under⟩ := child_of_mem children path below
          rw [Entry.dirAt_above under]
          rfl
      · rcases listed with rfl | below
        · exact absurd (inside.eq_of_length_le front.length_le) same
        · obtain ⟨above, member, facts⟩ := child_exists_above children path below ⟨front, same, inside⟩
          exact ⟨above, List.mem_cons_of_mem _ member, facts⟩

theorem child_exists_above {entry : Entry} {between : List ContextName} :
    (children : List (ContextName × Node)) → (path : List ContextName) → entry ∈ childEntries path children →
      entry.Below path between →
      ∃ above ∈ childEntries path children, above.path = between ∧
        decide (above.kind = .dir) = entry.dirAt between
  | [], _, listed, _ => nomatch listed
  | (name, node) :: rest, path, listed, below => by
      rw [childEntries, List.mem_append] at listed
      rcases listed with here | later
      · obtain ⟨front, inside⟩ := (Entry.below_iff (node.prefix_of_mem _ here)).mp below
        obtain ⟨above, member, facts⟩ := node.exists_above _ here front inside
        exact ⟨above, List.mem_append_left _ member, facts⟩
      · obtain ⟨above, member, facts⟩ := child_exists_above rest path later below
        exact ⟨above, List.mem_append_right _ member, facts⟩

end

section Sent

variable (rules : List IgnoreRule)

theorem leaf_iff {entry : Entry} {path : List ContextName} {kind : EntryKind} (leaf : kind ≠ .dir) :
    entry ∈ (if leftOut rules path false then [] else [Entry.mk path kind]) ↔
      entry ∈ [Entry.mk path kind] ∧ ∀ between, path <+: between → between <+: entry.path →
        leftOut rules between (entry.dirAt between) = false := by
  rw [List.mem_ite_nil_left, Bool.not_eq_true, and_comm]
  refine and_congr_right fun listed => ?_
  obtain rfl := List.mem_singleton.mp listed
  have plain : Entry.dirAt ⟨path, kind⟩ path = false := by simp [Entry.dirAt, leaf]
  constructor
  · intro sent between front inside
    obtain rfl : between = path := inside.eq_of_length_le front.length_le
    rwa [plain]
  · intro sent
    have kept := sent path (List.prefix_refl _) (List.prefix_refl _)
    rwa [plain] at kept

mutual

theorem mem_addTarPath {entry : Entry} : (node : Node) → (path : List ContextName) →
    (entry ∈ addTarPath rules path node ↔ entry ∈ node.entries path ∧
      ∀ between, path <+: between → between <+: entry.path →
        leftOut rules between (entry.dirAt between) = false)
  | .file text, path => by
      rw [addTarPath, Node.entries]
      exact leaf_iff rules nofun
  | .symlink target, path => by
      rw [addTarPath, Node.entries]
      exact leaf_iff rules nofun
  | .dir children, path => by
      rw [addTarPath, Node.entries, List.mem_ite_nil_left, Bool.not_eq_true, List.mem_cons, List.mem_cons,
        mem_addTarPaths children, and_comm]
      constructor
      · rintro ⟨rfl | ⟨listed, sent⟩, kept⟩
        · refine ⟨.inl rfl, fun between front inside => ?_⟩
          obtain rfl : between = path := inside.eq_of_length_le front.length_le
          simpa [Entry.dirAt] using kept
        obtain ⟨child, -, under⟩ := child_of_mem children path listed
        have above := (List.prefix_append path [child.1]).trans under
        refine ⟨.inr listed, fun between front inside => ?_⟩
        rcases (Entry.prefix_iff above).mp ⟨front, inside⟩ with rfl | below
        · rwa [Entry.dirAt_above under]
        · exact sent between below
      · rintro ⟨rfl | listed, sent⟩
        · refine ⟨.inl rfl, ?_⟩
          have kept := sent path (List.prefix_refl _) (List.prefix_refl _)
          simpa [Entry.dirAt] using kept
        obtain ⟨child, -, under⟩ := child_of_mem children path listed
        have above := (List.prefix_append path [child.1]).trans under
        refine ⟨.inr ⟨listed, fun between below => ?_⟩, ?_⟩
        · exact sent between below.1 below.2.2
        · have kept := sent path (List.prefix_refl _) above
          rwa [Entry.dirAt_above under] at kept

theorem mem_addTarPaths {entry : Entry} : (children : List (ContextName × Node)) → (path : List ContextName) →
    (entry ∈ addTarPaths rules path children ↔ entry ∈ childEntries path children ∧
      ∀ between, entry.Below path between → leftOut rules between (entry.dirAt between) = false)
  | [], _ => ⟨nofun, nofun⟩
  | (name, node) :: rest, path => by
      rw [addTarPaths, childEntries, List.mem_append, List.mem_append, mem_addTarPath node,
        mem_addTarPaths rest, or_and_right]
      refine or_congr (and_congr_right fun listed => ?_) Iff.rfl
      have under := node.prefix_of_mem _ listed
      simp only [Entry.below_iff under, and_imp]

end

end Sent

end PDocker.Context
