import PDocker.Saf.Sync

/-!
# A synchronisation into the tree

A report without errors says that every entry was transferred, but for two slips: an entry of the
mirror with a blank name is passed over, and a directory for which the tree has a file counts as
made.
-/

set_option autoImplicit false

namespace PDocker.Saf

open Data
open Context (isBlank)

/-! ## The mirror -/

def HostName (name : Text) : Prop :=
  name ≠ [] ∧ name ≠ ['.'] ∧ name ≠ ['.', '.'] ∧ '/' ∉ name ∧ Char.ofNat 0 ∉ name

instance : DecidablePred HostName := fun _ => inferInstanceAs (Decidable (_ ∧ _))

/-- A directory of directories and files, in which no two entries of a directory have one name. -/
structure Mirror where
  root : Doc
  directory : root.isDir = true
  named : ∀ path children, root.find path = some (.dir children) → ∀ child ∈ children, HostName child.1
  distinct : ∀ path children, root.find path = some (.dir children) → (children.map Prod.fst).Nodup

namespace Doc

mutual

def items (path : List Text) : Doc → List (List Text × Doc)
  | .file bytes => [(path, .file bytes)]
  | .dir children => (path, .dir children) :: itemsIn path children

def itemsIn (path : List Text) : List (Text × Doc) → List (List Text × Doc)
  | [] => []
  | (name, doc) :: rest => items (path ++ [name]) doc ++ itemsIn path rest

end

theorem mem_itemsIn {path : List Text} {children : List (Text × Doc)} {item : List Text × Doc} :
    item ∈ itemsIn path children ↔ ∃ child ∈ children, item ∈ child.2.items (path ++ [child.1]) := by
  induction children with
  | nil => simp [itemsIn]
  | cons first more ih =>
      obtain ⟨name, doc⟩ := first
      rw [itemsIn, List.mem_append, ih, List.exists_mem_cons_iff]

theorem lookup_eq_some_of_mem {children : List (Text × Doc)} (distinct : (children.map Prod.fst).Nodup)
    {child : Text × Doc} (member : child ∈ children) : children.lookup child.1 = some child.2 := by
  induction children with
  | nil => exact absurd member List.not_mem_nil
  | cons first more ih =>
      rw [List.map_cons, List.nodup_cons] at distinct
      rw [List.lookup_cons]
      rcases List.mem_cons.mp member with rfl | later
      · rw [beq_iff_eq.mpr rfl]
      · have other : child.1 ≠ first.1 := fun same => distinct.1 (same ▸ List.mem_map_of_mem later)
        rw [beq_false_of_ne other]
        exact ih distinct.2 later

theorem mem_of_lookup {children : List (Text × Doc)} {name : Text} {child : Doc}
    (found : children.lookup name = some child) : (name, child) ∈ children := by
  obtain ⟨first, last, rfl, -⟩ := List.lookup_eq_some_iff.mp found
  exact List.mem_append_right _ List.mem_cons_self

theorem mem_items {doc : Doc}
    (distinct : ∀ path children, doc.find path = some (.dir children) → (children.map Prod.fst).Nodup)
    {above path : List Text} {found : Doc} :
    (path, found) ∈ doc.items above ↔ ∃ rest, path = above ++ rest ∧ doc.find rest = some found := by
  generalize tall : doc.height = bound
  induction bound using Nat.strong_induction_on generalizing doc above path found with
  | _ bound ih =>
      cases doc with
      | file bytes =>
          rw [items, List.mem_singleton]
          constructor
          · rintro same
            obtain ⟨rfl, rfl⟩ := Prod.mk.inj same
            exact ⟨[], (List.append_nil _).symm, rfl⟩
          · rintro ⟨rest, rfl, there⟩
            cases rest with
            | nil => rw [List.append_nil, Option.some.inj there]
            | cons => exact nomatch there
      | dir children =>
          have below : ∀ child ∈ children, children.lookup child.1 = some child.2 := fun child member =>
            lookup_eq_some_of_mem (distinct [] children rfl) member
          have step : ∀ child ∈ children, ∀ above, (path, found) ∈ child.2.items above ↔
              ∃ rest, path = above ++ rest ∧ child.2.find rest = some found := by
            intro child member above
            refine ih child.2.height ?_ (fun path' children' there => ?_) rfl
            · rw [← tall, height]
              exact Nat.lt_succ_of_le (height_le_of_lookup (below child member))
            · refine distinct (child.1 :: path') children' ?_
              rw [find, below child member]
              exact there
          rw [items, List.mem_cons, mem_itemsIn]
          constructor
          · rintro (same | ⟨child, member, inside⟩)
            · obtain ⟨rfl, rfl⟩ := Prod.mk.inj same
              exact ⟨[], (List.append_nil _).symm, rfl⟩
            obtain ⟨rest, rfl, there⟩ := (step child member _).mp inside
            refine ⟨child.1 :: rest, by rw [List.append_assoc, List.singleton_append], ?_⟩
            rw [find, below child member]
            exact there
          · rintro ⟨rest, rfl, there⟩
            cases rest with
            | nil => exact .inl (by rw [List.append_nil, Option.some.inj there])
            | cons name rest =>
                rw [find] at there
                obtain ⟨child, here, there⟩ := Option.bind_eq_some_iff.mp there
                have member : (name, child) ∈ children := mem_of_lookup here
                refine .inr ⟨(name, child), member, (step (name, child) member _).mpr ⟨rest, ?_, there⟩⟩
                rw [List.append_assoc, List.singleton_append]

end Doc

def mirrorItem (item : List Text × Doc) : MirrorItem where
  relative := joinNames item.1
  kind :=
    match item.2 with
    | .file bytes => .file bytes
    | .dir _ => .directory

namespace Mirror

/-- `mirrorRoot.walkTopDown()`, the root itself first -/
def items (mirror : Mirror) : List (List Text × Doc) := mirror.root.items []

def entries (mirror : Mirror) : List (List Text × Doc) := mirror.items.tail

theorem items_eq (mirror : Mirror) : mirror.items = ([], mirror.root) :: mirror.entries := by
  have directory := mirror.directory
  rw [entries, items]
  cases root : mirror.root with
  | file => exact nomatch root ▸ directory
  | dir children => rfl

theorem mem_items {mirror : Mirror} {path : List Text} {doc : Doc} :
    (path, doc) ∈ mirror.items ↔ mirror.root.find path = some doc := by
  rw [items, Doc.mem_items mirror.distinct]
  constructor
  · rintro ⟨rest, rfl, found⟩
    exact found
  · exact fun found => ⟨path, rfl, found⟩

theorem mem_entries {mirror : Mirror} {path : List Text} {doc : Doc} :
    (path, doc) ∈ mirror.entries ↔ path ≠ [] ∧ mirror.root.find path = some doc := by
  constructor
  · intro member
    refine ⟨?_, mem_items.mp (List.mem_of_mem_tail member)⟩
    have directory := mirror.directory
    rw [entries, items] at member
    cases root : mirror.root with
    | file => exact nomatch root ▸ directory
    | dir children =>
        rw [root, Doc.items, List.tail_cons, Doc.mem_itemsIn] at member
        obtain ⟨child, inside, member⟩ := member
        have lookup : children.lookup child.1 = some child.2 :=
          Doc.lookup_eq_some_of_mem (mirror.distinct [] children (congrArg some root)) inside
        have distinct : ∀ path' children', child.2.find path' = some (.dir children') → (children'.map Prod.fst).Nodup := by
          intro path' children' found
          refine mirror.distinct (child.1 :: path') children' ?_
          rw [root, Doc.find, lookup]
          exact found
        obtain ⟨rest, rfl, -⟩ := (Doc.mem_items distinct).mp member
        exact List.cons_ne_nil _ _
  · rintro ⟨filled, found⟩
    have member := mem_items.mpr found
    rw [items_eq, List.mem_cons] at member
    rcases member with same | member
    · exact absurd (Prod.mk.inj same).1 filled
    · exact member

theorem hostName {doc : Doc}
    (named : ∀ path children, doc.find path = some (.dir children) → ∀ child ∈ children, HostName child.1)
    {path : List Text} {found : Doc} (there : doc.find path = some found) : ∀ name ∈ path, HostName name := by
  induction path generalizing doc with
  | nil => exact fun name member => absurd member List.not_mem_nil
  | cons first rest ih =>
      cases doc with
      | file => exact nomatch there
      | dir children =>
          rw [Doc.find] at there
          obtain ⟨child, here, there⟩ := Option.bind_eq_some_iff.mp there
          refine List.forall_mem_cons.mpr ⟨named [] children rfl _ (Doc.mem_of_lookup here), ?_⟩
          refine ih (fun path' children' found' => named (first :: path') children' ?_) there
          rw [Doc.find, here]
          exact found'

theorem entry_eq {mirror : Mirror} {left right : List Text × Doc} (isLeft : left ∈ mirror.items)
    (isRight : right ∈ mirror.items) (same : left.1 = right.1) : left.2 = right.2 := by
  have found := mem_items.mp isLeft
  rw [same, mem_items.mp isRight] at found
  exact (Option.some.inj found).symm

theorem parts_eq {mirror : Mirror} {item : List Text × Doc} (isItem : item ∈ mirror.items) {path : RelPath}
    (relative : path.val = joinNames item.1) : path.parts = item.1 := by
  have named := hostName mirror.named (mem_items.mp isItem)
  have filled : item.1 ≠ [] := by
    intro root
    have passes := path.property
    rw [relative, root] at passes
    exact nomatch passes
  rw [RelPath.parts, relative, joinNames]
  exact splitParts_intercalate filled fun name member => (named name member).2.2.2.1

end Mirror

inductive Entered (item : MirrorItem) (tree : Doc) (report : Report) : Doc → Report → Prop where
  | passed (skipped : isBlank item.relative = true ∨ item.kind = .other) : Entered item tree report tree report
  | directory {path : RelPath} {after : Doc} (filled : isBlank item.relative = false)
      (relative : path.val = item.relative) (kind : item.kind = .directory)
      (updated : tree.update id keepOrMake path.parts = some after) : Entered item tree report after report.withDirectory
  | file {path : RelPath} {bytes : Bytes} {after : Doc} (filled : isBlank item.relative = false)
      (relative : path.val = item.relative) (kind : item.kind = .file bytes)
      (opened : (tree.find path.parts).any Doc.isDir = false)
      (updated : tree.update id ((Stream.closed bytes.length).leaf bytes) path.parts = some after) :
      Entered item tree report after (report.withFile bytes.length false)

theorem ofText_val {text : Text} {path : RelPath} (passed : RelPath.ofText text = .ok path) : path.val = text := by
  unfold RelPath.ofText at passed
  split at passed
  · exact nomatch passed
  · rw [← Except.ok.inj passed]

variable {Digest : Type}

theorem resolveDocument_found {lookup : Lookup} {act : Option Doc → Doc} {path : RelPath} {tree : Doc}
    (resolved : resolveDocument lookup act path = (tree, true)) :
    lookup.tree.update lookup.rename act path.parts = some tree := by
  rw [resolveDocument] at resolved
  split at resolved
  · cases resolved
  split at resolved
  · cases resolved
  · rename_i updated
    rw [updated, (Prod.mk.inj resolved).1]

theorem recorded_copied {tree : Doc} {sidecars : Sidecars Digest} {path : RelPath} {sidecar : Sidecar Digest}
    {recording : Recording} {result : CopyResult} {state : State Digest} {bytes : Nat} {evicted : Bool}
    (copied : recorded tree sidecars path sidecar recording result = (state, .copied bytes evicted)) :
    state.tree = tree ∧ result = .copied bytes evicted := by
  rw [recorded] at copied
  split at copied
  · cases copied
  · obtain ⟨rfl, rfl⟩ := Prod.mk.inj copied
    exact ⟨rfl, rfl⟩

theorem syncDirectory_copied {path : RelPath} {available : Bool} {lookup : Lookup} {recording : Recording}
    {state after : State Digest} {bytes : Nat} {evicted : Bool}
    (copied : syncDirectory path available lookup recording state = (after, .copied bytes evicted)) :
    lookup.tree.update lookup.rename keepOrMake path.parts = some after.tree := by
  rw [syncDirectory] at copied
  split at copied
  · cases copied
  rename_i tree made
  rw [(recorded_copied copied).1]
  rw [ensureDirectory] at made
  split at made
  · exact resolveDocument_found made
  · cases made

theorem writeStream_ok {writing : Writing} {path : RelPath} {bytes : Bytes} {tree : Doc}
    (written : writeStream writing path bytes = (tree, .ok ())) :
    (∃ kept, writing.stream = .closed kept) ∧ writing.onDirectory path = false ∧
      writing.lookup.tree.update writing.lookup.rename (writing.stream.leaf bytes) path.parts = some tree := by
  rw [writeStream] at written
  split at written
  · exact nomatch written
  split at written
  · exact nomatch written
  rename_i resolved
  split at written
  · exact nomatch written
  · exact nomatch written
  rename_i kept closed
  split at written
  · exact nomatch written
  · rename_i opened
    obtain ⟨rfl, -⟩ := Prod.mk.inj written
    exact ⟨⟨kept, closed⟩, Bool.eq_false_iff.mpr opened, resolveDocument_found resolved⟩

variable [DecidableEq Digest]

theorem copyFileToTree_copied {sha256 : Bytes → Digest} {path : RelPath} {source : Source} {evict : Bool}
    {answers : Answers} {conflictWrite : SidecarWrite} {writing : Writing} {recording : Recording}
    {state after : State Digest} {count : Nat} {evicted : Bool}
    (copied : copyFileToTree sha256 path source evict answers conflictWrite writing recording state =
      (after, .copied count evicted)) :
    writeStream writing path source.copied = (after.tree, .ok ()) ∧ count = source.copied.length ∧
      evicted = (evict && evictableMirrorPayload path && source.deletable) := by
  rw [copyFileToTree, writeChecked] at copied
  split at copied
  · cases copied
  · cases copied
  split at copied
  · cases copied
  rename_i written
  obtain ⟨same, counted⟩ := recorded_copied copied
  obtain ⟨rfl, rfl⟩ := CopyResult.copied.inj counted
  exact ⟨written.trans (congrArg (·, Except.ok ()) same.symm), rfl, rfl⟩

theorem withError_errors (report : Report) (relative : Text) (error : CopyError) :
    (report.withError relative error).errors ≠ [] := List.append_ne_nil_of_right_ne_nil _ (List.cons_ne_nil _ _)

theorem syncEntry_entered {sha256 : Bytes → Digest} {course : Text → Course} {now after : State Digest × Report}
    {item : MirrorItem} (synced : syncEntry sha256 course false now item = some after) (clean : after.2.errors = []) :
    Entered item now.1.tree now.2 after.1.tree after.2 ∧ now.2.errors = [] := by
  rw [syncEntry] at synced
  split at synced
  · rename_i blank
    obtain rfl := Option.some.inj synced
    exact ⟨.passed (.inl blank), clean⟩
  rename_i filled
  have filled := Bool.eq_false_iff.mpr filled
  split at synced
  · rename_i kind
    obtain rfl := Option.some.inj synced
    exact ⟨.passed (.inr kind), clean⟩
  · rename_i kind
    split at synced
    · obtain rfl := Option.some.inj synced
      exact absurd clean (withError_errors _ _ _)
    rename_i path passed
    split at synced
    · rename_i state _ _ copied
      obtain rfl := Option.some.inj synced
      exact ⟨.directory filled (ofText_val passed) kind (syncDirectory_copied copied), clean⟩
    · obtain rfl := Option.some.inj synced
      exact absurd clean (withError_errors _ _ _)
    · exact nomatch synced
  · rename_i bytes kind
    split at synced
    · obtain rfl := Option.some.inj synced
      exact absurd clean (withError_errors _ _ _)
    rename_i path passed
    split at synced
    · rename_i state count evicted copied
      obtain rfl := Option.some.inj synced
      obtain ⟨written, rfl, rfl⟩ := copyFileToTree_copied copied
      obtain ⟨⟨kept, closed⟩, opened, updated⟩ := writeStream_ok written
      have whole : (course item.relative).transfer.stream bytes = .closed bytes.length := by
        cases transfer : (course item.relative).transfer with
        | whole => rfl
        | notOpened | stopped => rw [transfer] at closed; exact nomatch closed
      dsimp only at updated
      rw [whole] at updated
      exact ⟨.file filled (ofText_val passed) kind opened updated, clean⟩
    · obtain rfl := Option.some.inj synced
      exact absurd clean (withError_errors _ _ _)
    · exact nomatch synced

def counted (item : List Text × Doc) : Bool := !isBlank (joinNames item.1)

def tally (entries : List (List Text × Doc)) : Report where
  files := entries.countP fun item => !item.2.isDir
  directories := entries.countP fun item => item.2.isDir
  bytes := (entries.map fun item => (item.2.kind.getD []).length).sum
  evicted := 0
  errors := []

theorem tally_directory (entries : List (List Text × Doc)) (path : List Text) (children : List (Text × Doc)) :
    tally (entries ++ [(path, .dir children)]) = (tally entries).withDirectory := by
  simp [tally, Report.withDirectory, Doc.isDir, Doc.kind]

theorem tally_file (entries : List (List Text × Doc)) (path : List Text) (bytes : Bytes) :
    tally (entries ++ [(path, .file bytes)]) = (tally entries).withFile bytes.length false := by
  simp [tally, Report.withFile, Doc.isDir, Doc.kind]

theorem acts_keepOrMake : Doc.Acts keepOrMake where
  dir _ := rfl
  file bytes := ⟨bytes, rfl⟩
  new := .inl rfl

theorem kindAt_keepOrMake {path other : List Text} {tree after : Doc} {bytes : Bytes}
    (updated : tree.update id keepOrMake path = some after) :
    after.kindAt other = some (some bytes) ↔ tree.kindAt other = some (some bytes) := by
  by_cases here : other = path
  · subst here
    rw [Doc.kindAt_update_self acts_keepOrMake updated, Doc.kindAt]
    cases tree.find other with
    | none => simp [keepOrMake, Doc.kind]
    | some doc => exact Iff.rfl
  · exact Doc.kindAt_update_file acts_keepOrMake updated here bytes

theorem acts_leaf (bytes : Bytes) : Doc.Acts ((Stream.closed bytes.length).leaf bytes) where
  dir _ := rfl
  file _ := ⟨_, rfl⟩
  new := .inr ⟨_, rfl⟩

/-- After some entries, without an error: the report counts them, they are there, their names can be
in a path, and at a directory of the mirror there is a file where there was one. -/
structure Settled (mirror : Mirror) (before : Doc) (done : List (List Text × Doc)) (tree : Doc) (report : Report) :
    Prop where
  report : report = tally (done.filter counted)
  directories : ∀ path children, mirror.root.find path = some (.dir children) → ∀ bytes,
    tree.kindAt path = some (some bytes) ↔ before.kindAt path = some (some bytes)
  there : ∀ item ∈ done, counted item = true → (tree.kindAt item.1).isSome = true
  files : ∀ item ∈ done, counted item = true → ∀ bytes, item.2 = .file bytes → tree.kindAt item.1 = some (some bytes)
  admissible : ∀ item ∈ done, counted item = true → ∀ name ∈ item.1, AdmissibleName name

theorem Settled.step {mirror : Mirror} {before tree after : Doc} {done : List (List Text × Doc)} {report report' : Report}
    (settled : Settled mirror before done tree report) (known : ∀ item ∈ done, item ∈ mirror.items)
    {item : List Text × Doc} (isItem : item ∈ mirror.items)
    (entered : Entered (mirrorItem item) tree report after report') :
    Settled mirror before (done ++ [item]) after report' := by
  obtain ⟨path, doc⟩ := item
  cases entered with
  | passed skipped =>
      have blank : isBlank (joinNames path) = true := by
        rcases skipped with blank | other
        · exact blank
        · cases doc <;> exact nomatch other
      have uncounted : counted (path, doc) = false := by rw [counted, blank, Bool.not_true]
      have earlier : ∀ item ∈ done ++ [(path, doc)], counted item = true → item ∈ done := by
        intro item member isCounted
        rcases List.mem_append.mp member with earlier | last
        · exact earlier
        · rw [List.mem_singleton.mp last, uncounted] at isCounted
          exact nomatch isCounted
      refine ⟨?_, settled.directories, fun item member isCounted => ?_, fun item member isCounted => ?_,
        fun item member isCounted => ?_⟩
      · rw [List.filter_append, List.filter_singleton, uncounted]
        simpa using settled.report
      · exact settled.there item (earlier item member isCounted) isCounted
      · exact settled.files item (earlier item member isCounted) isCounted
      · exact settled.admissible item (earlier item member isCounted) isCounted
  | @directory checked _ filled relative kind updated =>
      have same : checked.parts = path := mirror.parts_eq isItem relative
      have admissible := checked.admissible
      rw [same] at updated admissible
      have isCounted : counted (path, doc) = true := by
        rw [counted, Bool.not_eq_true']
        exact filled
      cases doc with
      | file => exact nomatch kind
      | dir children =>
          refine ⟨?_, fun other children' found bytes => ?_, fun item member isCounted => ?_,
            fun item member isCounted bytes isFile => ?_, fun item member isCounted => ?_⟩
          · rw [List.filter_append, List.filter_singleton, isCounted, settled.report]
            exact (tally_directory _ _ _).symm
          · exact (kindAt_keepOrMake updated).trans (settled.directories other children' found bytes)
          · rcases List.mem_append.mp member with earlier | last
            · exact Doc.kindAt_update_isSome acts_keepOrMake updated (settled.there item earlier isCounted)
            · rw [List.mem_singleton.mp last, Doc.kindAt_update_self acts_keepOrMake updated]
              rfl
          · rcases List.mem_append.mp member with earlier | last
            · have apart : item.1 ≠ path := by
                intro here
                have otherwise := mirror.entry_eq (known item earlier) isItem here
                rw [isFile] at otherwise
                exact nomatch otherwise
              rw [Doc.kindAt_update_file acts_keepOrMake updated apart]
              exact settled.files item earlier isCounted bytes isFile
            · rw [List.mem_singleton.mp last] at isFile
              exact nomatch isFile
          · rcases List.mem_append.mp member with earlier | last
            · exact settled.admissible item earlier isCounted
            · rw [List.mem_singleton.mp last]
              exact admissible
  | @file checked bytes _ filled relative kind opened updated =>
      have same : checked.parts = path := mirror.parts_eq isItem relative
      have admissible := checked.admissible
      rw [same] at updated opened admissible
      have isCounted : counted (path, doc) = true := by
        rw [counted, Bool.not_eq_true']
        exact filled
      cases doc with
      | dir => exact nomatch kind
      | file own =>
          obtain rfl := MirrorKind.file.inj kind
          have stored : after.kindAt path = some (some own) := by
            rw [Doc.kindAt_update_self (acts_leaf own) updated]
            have notDir : ∀ doc, tree.find path = some doc → ∃ bytes, doc = .file bytes := by
              intro doc found
              rw [found] at opened
              cases doc with
              | file bytes => exact ⟨bytes, rfl⟩
              | dir => exact nomatch opened
            rw [leaf_closed notDir, List.take_length]
            rfl
          refine ⟨?_, fun other children' found bytes => ?_, fun item member isCounted => ?_,
            fun item member isCounted bytes isFile => ?_, fun item member isCounted => ?_⟩
          · rw [List.filter_append, List.filter_singleton, isCounted, settled.report]
            exact (tally_file _ _ _).symm
          · have apart : other ≠ path := by
              rintro rfl
              have otherwise := mirror.entry_eq (Mirror.mem_items.mpr found) isItem rfl
              exact nomatch otherwise
            rw [Doc.kindAt_update_file (acts_leaf own) updated apart]
            exact settled.directories other children' found bytes
          · rcases List.mem_append.mp member with earlier | last
            · exact Doc.kindAt_update_isSome (acts_leaf own) updated (settled.there item earlier isCounted)
            · rw [List.mem_singleton.mp last, stored]
              rfl
          · by_cases here : item.1 = path
            · have isMirror : item ∈ mirror.items := by
                rcases List.mem_append.mp member with earlier | last
                · exact known item earlier
                · exact List.mem_singleton.mp last ▸ isItem
              have otherwise := mirror.entry_eq isMirror isItem here
              rw [isFile] at otherwise
              obtain rfl := Doc.file.inj otherwise
              rw [here, stored]
            · rcases List.mem_append.mp member with earlier | last
              · rw [Doc.kindAt_update_file (acts_leaf own) updated here]
                exact settled.files item earlier isCounted bytes isFile
              · exact absurd (congrArg Prod.fst (List.mem_singleton.mp last)) here
          · rcases List.mem_append.mp member with earlier | last
            · exact settled.admissible item earlier isCounted
            · rw [List.mem_singleton.mp last]
              exact admissible

theorem foldlM_entered {sha256 : Bytes → Digest} {course : Text → Course}
    {motive : List (List Text × Doc) → Doc → Report → Prop} {items : List (List Text × Doc)}
    (step : ∀ done item tree report after report', item ∈ items → motive done tree report →
      Entered (mirrorItem item) tree report after report' → motive (done ++ [item]) after report')
    {todo : List (List Text × Doc)} (done : List (List Text × Doc)) {now after : State Digest × Report}
    (inside : ∀ item ∈ todo, item ∈ items)
    (start : now.2.errors = [] → motive done now.1.tree now.2)
    (synced : (todo.map mirrorItem).foldlM (syncEntry sha256 course false) now = some after)
    (clean : after.2.errors = []) : motive (done ++ todo) after.1.tree after.2 := by
  induction todo generalizing done now with
  | nil =>
      obtain rfl := Option.some.inj synced
      rw [List.append_nil]
      exact start clean
  | cons item todo ih =>
      rw [List.map_cons, List.foldlM_cons] at synced
      obtain ⟨next, entry, synced⟩ := Option.bind_eq_some_iff.mp synced
      obtain ⟨isItem, inside⟩ := List.forall_mem_cons.mp inside
      rw [List.append_cons]
      refine ih (done ++ [item]) inside (fun nextClean => ?_) synced
      obtain ⟨entered, nowClean⟩ := syncEntry_entered entry nextClean
      exact step done item _ _ _ _ isItem (start nowClean) entered

theorem ensureDirectory_update (course : Course) (tree : Doc) (path : RelPath) :
    (ensureDirectory true (course.lookup tree) path).1 = tree ∨ ∃ parts, parts <+: path.parts ∧
        tree.update id keepOrMake parts = some (ensureDirectory true (course.lookup tree) path).1 := by
  rw [ensureDirectory, if_pos rfl, resolveDocument]
  split
  · rename_i depth _
    cases updated : tree.update id keepOrMake (path.parts.dropLast.take depth) with
    | none =>
        left
        exact congrArg (Option.getD · tree) updated
    | some after =>
        refine .inr ⟨path.parts.dropLast.take depth, (List.take_prefix _ _).trans (List.dropLast_prefix _), ?_⟩
        exact updated.trans (congrArg (fun found => some (Option.getD found tree)) updated).symm
  · split
    · exact .inl rfl
    · rename_i after updated
      exact .inr ⟨path.parts, List.prefix_refl _, updated⟩

omit [DecidableEq Digest] in
theorem foundContract_keeps {motive : Doc → Prop}
    (step : ∀ tree after parts, (∀ part ∈ parts, AdmissibleName part) → motive tree →
      tree.update id keepOrMake parts = some after → motive after)
    {course : RelPath → Course} {write : SidecarWrite} {state after : State Digest} (start : motive state.tree)
    (found : foundContract course write state = some after) : motive after.tree := by
  obtain ⟨tree, made, rfl⟩ := Option.map_eq_some_iff.mp found
  dsimp only
  generalize contractDirectories = paths at made
  generalize state.tree = first at made start
  induction paths generalizing first with
  | nil =>
      obtain rfl := Option.some.inj made
      exact start
  | cons path paths ih =>
      rw [List.foldlM_cons] at made
      obtain ⟨next, own, made⟩ := Option.bind_eq_some_iff.mp made
      split at own
      · exact nomatch own
      obtain rfl := Option.some.inj own
      refine ih _ made ?_
      rcases ensureDirectory_update (course path) first path with same | ⟨parts, inside, updated⟩
      · rw [same]
        exact start
      · exact step _ _ parts (fun part member => path.admissible part (inside.subset member)) start updated

theorem syncToTree_settled {sha256 : Bytes → Digest} {contract : RelPath → Course} {contractWrite : SidecarWrite}
    {course : Text → Course} {mirror : Mirror} {state after : State Digest} {report : Report}
    (synced : syncToTree sha256 contract contractWrite course false (mirror.items.map mirrorItem) state =
      some (after, report))
    (success : report.success = true) : Settled mirror state.tree mirror.items after.tree report := by
  obtain ⟨begun, found, synced⟩ := Option.bind_eq_some_iff.mp synced
  have files : ∀ path bytes, begun.tree.kindAt path = some (some bytes) ↔ state.tree.kindAt path = some (some bytes) := by
    refine foundContract_keeps (motive := fun tree => ∀ path bytes,
      tree.kindAt path = some (some bytes) ↔ state.tree.kindAt path = some (some bytes)) ?_ (fun _ _ => Iff.rfl) found
    intro tree next parts _ same updated path bytes
    exact (kindAt_keepOrMake updated).trans (same path bytes)
  have start : Settled mirror state.tree [] begun.tree .empty :=
    ⟨rfl, fun path _ _ bytes => files path bytes, fun _ member => absurd member List.not_mem_nil,
      fun _ member => absurd member List.not_mem_nil, fun _ member => absurd member List.not_mem_nil⟩
  have clean : report.errors = [] := List.isEmpty_iff.mp success
  have run := foldlM_entered
    (motive := fun done tree report => (∀ item ∈ done, item ∈ mirror.items) ∧ Settled mirror state.tree done tree report)
    ?_ [] (fun _ member => member) (fun _ => ⟨fun _ member => absurd member List.not_mem_nil, start⟩) synced clean
  · exact run.2
  rintro done item tree report next report' isItem ⟨known, settled⟩ entered
  refine ⟨fun other member => ?_, settled.step known isItem entered⟩
  rcases List.mem_append.mp member with earlier | last
  · exact known other earlier
  · exact List.mem_singleton.mp last ▸ isItem

structure Carried (mirror : Mirror) (tree : Doc) (report : Report) : Prop where
  there : ∀ item ∈ mirror.entries, tree.kindAt item.1 = some item.2.kind
  report : report = tally mirror.entries

/-- No entry is passed over because its path is blank, and for no empty directory of the mirror does
the tree have a file. -/
structure Mirror.Noticed (mirror : Mirror) (tree : Doc) : Prop where
  named : ∀ item ∈ mirror.entries, isBlank (joinNames item.1) = false
  empty : ∀ path, (path, .dir []) ∈ mirror.entries → ∀ bytes, tree.kindAt path ≠ some (some bytes)

theorem filter_counted (mirror : Mirror) : mirror.items.filter counted = mirror.entries.filter counted := by
  rw [mirror.items_eq, List.filter_cons, if_neg (by exact Bool.false_ne_true)]

theorem tally_length (entries : List (List Text × Doc)) :
    (tally entries).files + (tally entries).directories = entries.length := by
  have split := List.length_eq_countP_add_countP (fun item : List Text × Doc => item.2.isDir) (l := entries)
  simp only [Bool.not_eq_true, Bool.decide_eq_false] at split
  rw [Nat.add_comm]
  exact split.symm

theorem Settled.carried_iff {mirror : Mirror} {before tree : Doc} {report : Report}
    (settled : Settled mirror before mirror.items tree report) :
    Carried mirror tree report ↔ mirror.Noticed before := by
  have isItem : ∀ item ∈ mirror.entries, item ∈ mirror.items := fun item member => List.mem_of_mem_tail member
  have reported := settled.report
  rw [filter_counted] at reported
  constructor
  · intro carried
    constructor
    · have same : (mirror.entries.filter counted).length = mirror.entries.length := by
        rw [← tally_length, ← tally_length, ← reported, ← carried.report]
      intro item member
      have isCounted := List.length_filter_eq_length_iff.mp same item member
      rwa [counted, Bool.not_eq_true'] at isCounted
    · intro path member bytes blocked
      have found := Mirror.mem_items.mp (isItem _ member)
      rw [← settled.directories path [] found bytes, carried.there _ member] at blocked
      exact nomatch Option.some.inj blocked
  · rintro ⟨named, empty⟩
    have allCounted : ∀ item ∈ mirror.entries, counted item = true := by
      intro item member
      rw [counted, named item member, Bool.not_false]
    refine ⟨fun item member => ?_, ?_⟩
    · obtain ⟨path, doc⟩ := item
      cases doc with
      | file bytes => exact settled.files _ (isItem _ member) (allCounted _ member) bytes rfl
      | dir children =>
          cases children with
          | nil =>
              have there := settled.there _ (isItem _ member) (allCounted _ member)
              obtain ⟨kind, here⟩ := Option.isSome_iff_exists.mp there
              cases kind with
              | none => exact here
              | some bytes =>
                  have found := Mirror.mem_items.mp (isItem _ member)
                  exact absurd ((settled.directories path [] found bytes).mp here) (empty path member bytes)
          | cons child more =>
              obtain ⟨filled, found⟩ := Mirror.mem_entries.mp member
              -- what it holds is there, so it is a directory
              have inside : mirror.root.find (path ++ [child.1]) = some child.2 := by
                rw [Doc.find_append, found, Option.bind_some, Doc.find, List.lookup_cons, beq_iff_eq.mpr rfl]
                rfl
              have isEntry : (path ++ [child.1], child.2) ∈ mirror.entries :=
                Mirror.mem_entries.mpr ⟨List.append_ne_nil_of_left_ne_nil filled _, inside⟩
              have there := settled.there _ (isItem _ isEntry) (allCounted _ isEntry)
              obtain ⟨kind, here⟩ := Option.isSome_iff_exists.mp there
              exact Doc.kindAt_above here (List.prefix_append _ _) fun same => List.cons_ne_nil _ _ (List.self_eq_append_right.mp same)
    · rw [reported, List.filter_eq_self.mpr allCounted]

end PDocker.Saf
