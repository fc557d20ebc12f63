import PDocker.Saf.IntoTree

/-!
# A synchronisation from the tree

The walk goes by the paths of the rows, so where each name can be in a path and the rows of one name
are of one kind, everything arrives in the mirror.
-/

set_option autoImplicit false

namespace PDocker.Saf

open Data
open Context (isBlank)

/-- Names that are not blank can be in a path, and rows of one name are of one kind. -/
structure TidyRows (children : List (Text × Doc)) : Prop where
  admissible : ∀ child ∈ children, isBlank child.1 = false → AdmissibleName child.1
  oneKind : ∀ left ∈ children, ∀ right ∈ children, isBlank left.1 = false → left.1 = right.1 →
    left.2.isDir = right.2.isDir

namespace Doc

def Orderly (doc : Doc) : Prop :=
  ∀ path children, (∀ name ∈ path, isBlank name = false) → doc.find path = some (.dir children) → TidyRows children

structure Tidy (tree : Doc) : Prop where
  root : tree.isDir = true
  rows : tree.Orderly

theorem orderly_file (bytes : Bytes) : (Doc.file bytes).Orderly := by
  intro path children _ found
  cases path <;> exact nomatch found

variable {children : List (Text × Doc)} {act : Option Doc → Doc} {after tree leaf : Doc} {path : List Text}

theorem orderly_dir : (Doc.dir children).Orderly ↔
      TidyRows children ∧ ∀ name child, isBlank name = false → children.lookup name = some child → child.Orderly := by
  constructor
  · intro orderly
    refine ⟨orderly [] children (fun _ member => absurd member List.not_mem_nil) rfl, ?_⟩
    intro name child shown here path rows visible found
    refine orderly (name :: path) rows (List.forall_mem_cons.mpr ⟨shown, visible⟩) ?_
    rw [find, here]
    exact found
  rintro ⟨own, below⟩ path rows visible found
  cases path with
  | nil =>
      obtain rfl := Doc.dir.inj (Option.some.inj found)
      exact own
  | cons name path =>
      rw [find] at found
      obtain ⟨child, here, found⟩ := Option.bind_eq_some_iff.mp found
      obtain ⟨shown, visible⟩ := List.forall_mem_cons.mp visible
      exact below name child shown here path rows visible found

theorem Acts.isDir (acts : Acts act) (doc : Doc) : (act (some doc)).isDir = doc.isDir := by
  cases doc with
  | file bytes =>
      obtain ⟨after, same⟩ := acts.file bytes
      rw [same]
      rfl
  | dir children => rw [acts.dir]

theorem isDir_update (acts : Acts act)
    (updated : tree.update id act path = some after) : after.isDir = tree.isDir := by
  cases path with
  | nil =>
      obtain rfl := Option.some.inj updated
      exact acts.isDir tree
  | cons name path =>
      cases tree with
      | file => exact nomatch updated
      | dir children =>
          rw [update] at updated
          split at updated
          · obtain ⟨_, -, rfl⟩ := Option.map_eq_some_iff.mp updated
            rfl
          · obtain rfl := Option.some.inj updated
            rfl

theorem mem_setChild {name : Text} {doc : Doc} {row : Text × Doc}
    (member : row ∈ setChild name doc children) : row = (name, doc) ∨ row ∈ children := by
  induction children with
  | nil => exact absurd member List.not_mem_nil
  | cons first more ih =>
      rw [setChild] at member
      split at member
      · exact (List.mem_cons.mp member).imp id (List.mem_cons_of_mem _)
      · rcases List.mem_cons.mp member with rfl | later
        · exact .inr List.mem_cons_self
        · exact (ih later).imp id (List.mem_cons_of_mem _)

theorem orderly_new (new : leaf = .dir [] ∨ ∃ bytes, leaf = .file bytes) : leaf.Orderly := by
  obtain rfl | ⟨bytes, rfl⟩ := new
  · exact orderly_dir.mpr ⟨⟨nofun, nofun⟩, nofun⟩
  · exact orderly_file bytes

theorem orderly_created (new : leaf = .dir [] ∨ ∃ bytes, leaf = .file bytes)
    (admissible : ∀ name ∈ path, AdmissibleName name) : (created id leaf path).Orderly := by
  induction path with
  | nil => exact orderly_new new
  | cons name path ih =>
      obtain ⟨first, rest⟩ := List.forall_mem_cons.mp admissible
      refine orderly_dir.mpr ⟨⟨?_, ?_⟩, ?_⟩
      · intro child member _
        rw [List.mem_singleton.mp member]
        exact first
      · intro left isLeft right isRight _ _
        rw [List.mem_singleton.mp isLeft, List.mem_singleton.mp isRight]
      intro other child _ here
      rw [List.lookup_cons] at here
      split at here
      · rw [← Option.some.inj here]
        exact ih rest
      · exact nomatch here

theorem orderly_update (acts : Acts act) (admissible : ∀ name ∈ path, AdmissibleName name) (orderly : tree.Orderly)
    (updated : tree.update id act path = some after) : after.Orderly := by
  induction path generalizing tree after with
  | nil =>
      obtain rfl := Option.some.inj updated
      cases tree with
      | file bytes =>
          obtain ⟨bytes', same⟩ := acts.file bytes
          rw [same]
          exact orderly_file bytes'
      | dir children =>
          rw [acts.dir]
          exact orderly
  | cons name path ih =>
      obtain ⟨first, rest⟩ := List.forall_mem_cons.mp admissible
      cases tree with
      | file => cases updated
      | dir children =>
          obtain ⟨rows, below⟩ := orderly_dir.mp orderly
          rw [update] at updated
          cases here : children.lookup name with
          | none =>
              rw [here] at updated
              obtain rfl := Option.some.inj updated
              have fresh : ∀ row ∈ children, row.1 ≠ name := by
                rintro row member rfl
                exact List.lookup_eq_none_iff.mp here row member |> fun other => by simp at other
              refine orderly_dir.mpr ⟨⟨?_, ?_⟩, ?_⟩
              · intro child member shown
                rcases List.mem_append.mp member with old | new
                · exact rows.admissible child old shown
                · rw [List.mem_singleton.mp new]
                  exact first
              · intro left isLeft right isRight shown same
                rcases List.mem_append.mp isLeft with oldLeft | newLeft
                · rcases List.mem_append.mp isRight with oldRight | newRight
                  · exact rows.oneKind left oldLeft right oldRight shown same
                  · rw [List.mem_singleton.mp newRight] at same
                    exact absurd same (fresh left oldLeft)
                · rcases List.mem_append.mp isRight with oldRight | newRight
                  · rw [List.mem_singleton.mp newLeft] at same
                    exact absurd same.symm (fresh right oldRight)
                  · rw [List.mem_singleton.mp newLeft, List.mem_singleton.mp newRight]
              · intro other child shown found
                rw [lookup_append_new] at found
                cases old : children.lookup other with
                | some earlier =>
                    rw [old, Option.some_or] at found
                    obtain rfl := Option.some.inj found
                    exact below other earlier shown old
                | none =>
                    rw [old, Option.none_or] at found
                    split at found
                    · rw [← Option.some.inj found]
                      exact orderly_created acts.new rest
                    · cases found
          | some child =>
              rw [here] at updated
              obtain ⟨child', deeper, rfl⟩ := Option.map_eq_some_iff.mp updated
              have shown : isBlank name = false := by
                have passes := first.1
                rw [admissiblePart, Bool.not_eq_true', Bool.or_eq_false_iff, Bool.or_eq_false_iff] at passes
                exact passes.1.1
              have kind : child'.isDir = child.isDir := isDir_update acts deeper
              have isRow : (name, child) ∈ children := mem_of_lookup here
              refine orderly_dir.mpr ⟨⟨?_, ?_⟩, ?_⟩
              · intro row member visible
                rcases mem_setChild member with rfl | old
                · exact first
                · exact rows.admissible row old visible
              · intro left isLeft right isRight visible same
                rcases mem_setChild isLeft with rfl | oldLeft
                · rcases mem_setChild isRight with rfl | oldRight
                  · rfl
                  · exact kind.trans (rows.oneKind _ isRow right oldRight shown same)
                · rcases mem_setChild isRight with rfl | oldRight
                  · exact (rows.oneKind left oldLeft _ isRow visible same).trans kind.symm
                  · exact rows.oneKind left oldLeft right oldRight visible same
              · intro other found visible there
                rw [lookup_setChild here] at there
                split at there
                · obtain rfl := Option.some.inj there
                  exact ih rest (below name child shown here) deeper
                · exact below other found visible there

theorem Tidy.update (acts : Acts act) (admissible : ∀ name ∈ path, AdmissibleName name) (tidy : tree.Tidy)
    (updated : tree.update id act path = some after) : after.Tidy where
  root := (isDir_update acts updated).trans tidy.root
  rows := orderly_update acts admissible tidy.rows updated

end Doc

variable {Digest : Type}

variable {after state : State Digest} {report : Report} {tree files : Doc} {path : List Text}
  {children : List (Text × Doc)} {bytes : Bytes} {course : Text → ReadCourse}

theorem foundContract_tidy {course : RelPath → Course} {write : SidecarWrite}
    (tidy : state.tree.Tidy) (found : foundContract course write state = some after) : after.tree.Tidy :=
  foundContract_keeps (fun _ _ _ admissible tidy updated => tidy.update acts_keepOrMake admissible updated) tidy found

theorem Entered.tidy {item : MirrorItem} {after : Doc} {report' : Report}
    (entered : Entered item tree report after report') (tidy : tree.Tidy) : after.Tidy := by
  cases entered with
  | passed => exact tidy
  | @directory path _ _ _ _ updated => exact tidy.update acts_keepOrMake path.admissible updated
  | @file path bytes _ _ _ _ _ updated => exact tidy.update (acts_leaf bytes) path.admissible updated

theorem syncToTree_tidy [DecidableEq Digest] {sha256 : Bytes → Digest} {contract : RelPath → Course}
    {contractWrite : SidecarWrite} {course : Text → Course} {items : List (List Text × Doc)}
    (tidy : state.tree.Tidy)
    (synced : syncToTree sha256 contract contractWrite course false (items.map mirrorItem) state = some (after, report))
    (success : report.success = true) : after.tree.Tidy := by
  obtain ⟨begun, found, synced⟩ := Option.bind_eq_some_iff.mp synced
  exact foldlM_entered (motive := fun _ tree _ => tree.Tidy) (fun _ _ _ _ _ _ _ tidy entered => entered.tidy tidy)
    [] (fun _ member => member) (fun _ => foundContract_tidy tidy found) synced (List.isEmpty_iff.mp success)

namespace Doc

def Below (left right : Doc) : Prop := ∀ path kind, left.kindAt path = some kind → right.kindAt path = some kind

theorem Below.refl (doc : Doc) : doc.Below doc := fun _ _ there => there

theorem Below.trans {first second third : Doc} (left : first.Below second) (right : second.Below third) :
    first.Below third := fun path kind there => right path kind (left path kind there)

variable {path : List Text} {tree : Doc}

theorem update_below {act : Option Doc → Doc} (acts : Acts act) {files : Doc} (below : files.Below tree)
    {kind : Option Bytes} (there : tree.kindAt path = some kind)
    (makes : (act (files.find path)).kind = kind) :
    ∃ after, files.update id act path = some after ∧ files.Below after ∧ after.Below tree ∧
      after.kindAt path = some kind := by
  have free : (files.update id act path).isSome = true := by
    rw [update_isSome]
    intro above inside other bytes blocked
    have directory := kindAt_above there inside other
    rw [below above _ blocked] at directory
    exact nomatch Option.some.inj directory
  obtain ⟨after, updated⟩ := Option.isSome_iff_exists.mp free
  have here : after.kindAt path = some kind := by rw [kindAt_update_self acts updated, makes]
  have within : after.Below tree := by
    intro other found found'
    by_cases same : other = path
    · subst same
      rw [here] at found'
      rw [there, found']
    rw [kindAt_update acts updated, if_neg same] at found'
    split at found'
    · split at found'
      · rename_i inside
        obtain rfl := Option.some.inj found'
        exact kindAt_above there inside same
      · exact nomatch found'
    · exact below other found found'
  refine ⟨after, updated, fun other found found' => ?_, within, here⟩
  have stays := kindAt_update_isSome acts updated (Option.isSome_iff_exists.mpr ⟨found, found'⟩)
  obtain ⟨now, stays⟩ := Option.isSome_iff_exists.mp stays
  have same := within other now stays
  rw [below other found found'] at same
  rw [stays, same]

theorem below_keepOrMake {after : Doc} (updated : tree.update id keepOrMake path = some after) :
    tree.Below after := by
  intro other kind there
  have stays := kindAt_update_isSome acts_keepOrMake updated (Option.isSome_iff_exists.mpr ⟨kind, there⟩)
  obtain ⟨now, stays⟩ := Option.isSome_iff_exists.mp stays
  cases kind with
  | some bytes => exact (kindAt_keepOrMake updated).mpr there
  | none =>
      cases now with
      | none => exact stays
      | some bytes =>
          rw [(kindAt_keepOrMake updated).mp stays] at there
          exact nomatch Option.some.inj there

end Doc

def hostPath (relative : Text) : Option (List Text) :=
  (splitParts '/' relative).foldlM (fun path part =>
    if part = [] ∨ part = ['.'] then some path
    else if part = ['.', '.'] then if path = [] then none else some path.dropLast
    else some (path ++ [part])) []

def storeFile (bytes : Bytes) : Option Doc → Doc
  | some (.dir children) => .dir children
  | some (.file _) | none => .file bytes

def docHost : Host Doc where
  mkdirs relative files := ((hostPath relative).bind fun path => files.update id keepOrMake path).getD files
  mkParent relative files := ((hostPath relative).bind fun path => files.update id keepOrMake path.dropLast).getD files
  write relative bytes files :=
    (hostPath relative).bind fun path =>
      if (files.find path).any Doc.isDir || !(files.find path.dropLast).any Doc.isDir then none
      else files.update id (storeFile bytes) path

theorem acts_storeFile (bytes : Bytes) : Doc.Acts (storeFile bytes) where
  dir _ := rfl
  file _ := ⟨_, rfl⟩
  new := .inr ⟨_, rfl⟩

theorem hostPath_joinNames (filled : path ≠ []) (admissible : ∀ name ∈ path, AdmissibleName name) :
    hostPath (joinNames path) = some path := by
  rw [hostPath, joinNames, splitParts_intercalate filled fun name member => (admissible name member).2.1]
  suffices walk : ∀ done : List Text, path.foldlM (fun path part =>
      if part = [] ∨ part = ['.'] then some path
      else if part = ['.', '.'] then if path = [] then none else some path.dropLast
      else some (path ++ [part])) done = some (done ++ path) from walk []
  clear filled
  induction path with
  | nil =>
      intro done
      rw [List.append_nil]
      rfl
  | cons name path ih =>
      intro done
      obtain ⟨first, rest⟩ := List.forall_mem_cons.mp admissible
      have passes := first.1
      rw [admissiblePart, Bool.not_eq_true', Bool.or_eq_false_iff, Bool.or_eq_false_iff, decide_eq_false_iff_not,
        decide_eq_false_iff_not] at passes
      obtain ⟨⟨visible, notDot⟩, notDots⟩ := passes
      have filled : name ≠ [] := by
        rintro rfl
        cases visible
      rw [List.foldlM_cons, if_neg (not_or.mpr ⟨filled, notDot⟩), if_neg notDots]
      exact (ih rest (done ++ [name])).trans (by rw [List.append_assoc, List.singleton_append])

/-! ## The walk -/

/-- The provider answers, the stream gives all, and the record throws no error. -/
structure ReadCourse.Works (course : ReadCourse) : Prop where
  available : course.available = true
  finds : course.finds = true
  transfer : course.transfer = .whole
  recording : course.recording.throws = false

theorem ofText_joinNames (filled : path ≠ []) (admissible : ∀ name ∈ path, AdmissibleName name) :
    RelPath.ofText (joinNames path) = .ok (RelPath.ofNames path filled admissible) := by
  unfold RelPath.ofText
  have passes := normalize_joinNames filled admissible false
  split
  · rename_i refused
    rw [passes] at refused
    exact nomatch refused
  · rfl

theorem kindAt_of_find {doc : Doc} (found : tree.find path = some doc) :
    tree.kindAt path = some doc.kind := by
  rw [Doc.kindAt, found]
  rfl

theorem find_dir_iff : (tree.find path).any Doc.isDir = true ↔ tree.kindAt path = some none := by
  rw [Doc.kindAt]
  cases tree.find path with
  | none => simp
  | some doc =>
      cases doc with
      | file => simp [Doc.isDir, Doc.kind]
      | dir => exact ⟨fun _ => rfl, fun _ => rfl⟩

theorem visible_of_admissible {name : Text} (admissible : AdmissibleName name) : isBlank name = false := by
  have passes := admissible.1
  rw [admissiblePart, Bool.not_eq_true', Bool.or_eq_false_iff, Bool.or_eq_false_iff] at passes
  exact passes.1.1

theorem listDocuments_dir
    (admissible : ∀ name ∈ path, AdmissibleName name) (found : tree.find path = some (.dir children)) :
    listDocuments tree (joinNames path) = some (children.filter fun child => !isBlank child.1) := by
  rw [listDocuments]
  by_cases filled : path = []
  · subst filled
    obtain rfl := Option.some.inj found
    rfl
  have parts : splitParts '/' (joinNames path) = path :=
    splitParts_intercalate filled fun name member => (admissible name member).2.1
  have all : path.filter (fun part => !isBlank part) = path := by
    rw [List.filter_eq_self]
    intro name member
    rw [visible_of_admissible (admissible name member), Bool.not_false]
  rw [normalize_joinNames filled admissible true]
  dsimp only
  rw [parts, all, found]

theorem childRelative_joinNames (admissible : ∀ name ∈ path, AdmissibleName name) (name : Text) :
    childRelative (joinNames path) name = joinNames (path ++ [name]) := by
  rw [childRelative]
  by_cases filled : path = []
  · subst filled
    rw [List.nil_append, joinNames, joinNames, intercalate_singleton]
    exact if_pos rfl
  obtain ⟨first, rest, rfl⟩ := List.exists_cons_of_ne_nil filled
  have shown := visible_of_admissible (admissible first List.mem_cons_self)
  have visible : isBlank (joinNames (first :: rest)) = false := by
    rw [isBlank, List.all_eq_false] at shown ⊢
    obtain ⟨char, inside, shown⟩ := shown
    exact ⟨char, mem_joinNames_of_mem List.mem_cons_self inside, shown⟩
  rw [visible, if_neg Bool.false_ne_true, joinNames_concat filled]

/-- What a walk leaves: the tree and its order, and in the mirror nothing less and nothing that is
not in the tree -/
structure Walked (state after : State Digest) (files files' : Doc) : Prop where
  tree : after.tree = state.tree
  grown : files.Below files'
  within : files'.Below state.tree

theorem mkdirs_walked (within : files.Below state.tree)
    (filled : path ≠ []) (admissible : ∀ name ∈ path, AdmissibleName name) (there : state.tree.kindAt path = some none) :
    Walked state state files (docHost.mkdirs (joinNames path) files) ∧
      (docHost.mkdirs (joinNames path) files).kindAt path = some none := by
  have makes : (keepOrMake (files.find path)).kind = none := by
    cases found : files.find path with
    | none => rfl
    | some doc =>
        have same := within path _ (kindAt_of_find found)
        rw [there] at same
        exact (Option.some.inj same).symm
  obtain ⟨after, updated, grown, within', here⟩ := Doc.update_below acts_keepOrMake within there makes
  have same : docHost.mkdirs (joinNames path) files = after := by
    simp only [docHost, hostPath_joinNames filled admissible, Option.bind_some, updated, Option.getD_some]
  rw [same]
  exact ⟨⟨rfl, grown, within'⟩, here⟩

theorem copyEntry_walked (within : files.Below state.tree) (filled : path ≠ [])
    (admissible : ∀ name ∈ path, AdmissibleName name) (works : (course (joinNames path)).Works)
    (there : state.tree.find path = some (.file bytes)) (report : Report) :
    ∃ after files', copyEntry docHost course (joinNames path) (state, files, report) =
        some (after, files', report.withFile bytes.length false) ∧
      Walked state after files files' ∧ files'.kindAt path = some (some bytes) := by
  have isFile : state.tree.kindAt path = some (some bytes) := kindAt_of_find there
  have shorter : path.dropLast ≠ path := by
    intro same
    have lengths := congrArg List.length same
    rw [List.length_dropLast] at lengths
    have := List.length_pos_of_ne_nil filled
    omega
  -- the directory above
  have above : state.tree.kindAt path.dropLast = some none :=
    Doc.kindAt_above isFile (List.dropLast_prefix _) shorter
  have makes : (keepOrMake (files.find path.dropLast)).kind = none := by
    cases found : files.find path.dropLast with
    | none => rfl
    | some doc =>
        have same := within _ _ (kindAt_of_find found)
        rw [above] at same
        exact (Option.some.inj same).symm
  obtain ⟨files₁, updated₁, grown₁, within₁, here₁⟩ := Doc.update_below acts_keepOrMake within above makes
  have parent : docHost.mkParent (joinNames path) files = files₁ := by
    simp only [docHost, hostPath_joinNames filled admissible, Option.bind_some, updated₁, Option.getD_some]
  -- the file
  have notDir : (files₁.find path).any Doc.isDir = false := by
    rw [← Bool.not_eq_true, find_dir_iff]
    intro directory
    have same := within₁ _ _ directory
    rw [isFile] at same
    exact nomatch Option.some.inj same
  have stores : (storeFile bytes (files₁.find path)).kind = some bytes := by
    cases found : files₁.find path with
    | none => rfl
    | some doc =>
        cases doc with
        | file => rfl
        | dir =>
            rw [found] at notDir
            exact nomatch notDir
  obtain ⟨files₂, updated₂, grown₂, within₂, here₂⟩ := Doc.update_below (acts_storeFile bytes) within₁ isFile stores
  have written : docHost.write (joinNames path) bytes files₁ = some files₂ := by
    simp only [docHost, hostPath_joinNames filled admissible, Option.bind_some, notDir, find_dir_iff.mpr here₁,
      Bool.not_true, Bool.or_self, Bool.false_eq_true, ↓reduceIte, updated₂]
  obtain ⟨available, finds, transfer, recording⟩ := works
  refine ⟨(recorded state.tree state.sidecars (RelPath.ofNames path filled admissible)
    (payloadSidecar bytes.length none true) (course (joinNames path)).recording (.copied bytes.length false)).1,
    files₂, ?_, ⟨recorded_tree _ _ _ _ _ _, grown₁.trans grown₂, within₂⟩, here₂⟩
  rw [copyEntry, ofText_joinNames filled admissible]
  simp only [available, finds, Bool.and_self, ↓reduceIte, RelPath.parts_ofNames, there, Option.isSome_some, parent,
    fileBytes, Option.getD_some, written, transfer, Transfer.stream, copyFileFromTree, Bool.not_true,
    Bool.false_eq_true, List.take_length, recorded, recording, Option.bind_some]

theorem Walked.trans {first second third : State Digest} {files' files'' : Doc}
    (left : Walked first second files files') (right : Walked second third files' files'') :
    Walked first third files files'' where
  tree := right.tree.trans left.tree
  grown := left.grown.trans right.grown
  within := left.tree ▸ right.within

theorem foldlM_rows {act : State Digest × Doc × Report → Text × Doc → Option (State Digest × Doc × Report)}
    {reached : Text × Doc → Doc → Prop} {rows : List (Text × Doc)}
    (each : ∀ row ∈ rows, ∀ state files report, state.tree = tree → files.Below tree →
      ∃ after files' report', act (state, files, report) row = some (after, files', report') ∧
        report'.errors = report.errors ∧ Walked state after files files' ∧ reached row files')
    (kept : ∀ row files files', files.Below files' → reached row files → reached row files')
    (state : State Digest) (files : Doc) (report : Report) (same : state.tree = tree) (within : files.Below tree) :
    ∃ after files' report', rows.foldlM act (state, files, report) = some (after, files', report') ∧
      report'.errors = report.errors ∧ Walked state after files files' ∧ ∀ row ∈ rows, reached row files' := by
  induction rows generalizing state files report with
  | nil =>
      exact ⟨state, files, report, rfl, rfl, ⟨rfl, .refl files, same ▸ within⟩, fun _ member => absurd member List.not_mem_nil⟩
  | cons row rows ih =>
      obtain ⟨own, others⟩ := List.forall_mem_cons.mp each
      obtain ⟨state₁, files₁, report₁, first, clean₁, walked₁, reached₁⟩ := own state files report same within
      obtain ⟨after, files', report', rest, clean, walked, reachedRest⟩ :=
        ih others state₁ files₁ report₁ (walked₁.tree.trans same) (same ▸ walked₁.within)
      refine ⟨after, files', report', ?_, clean.trans clean₁, walked₁.trans walked, ?_⟩
      · rw [List.foldlM_cons, first]
        exact rest
      · exact List.forall_mem_cons.mpr ⟨kept row files₁ files' walked.grown reached₁, reachedRest⟩

def Arrived (tree : Doc) (path : List Text) (files : Doc) : Prop :=
  ∀ rest kind, rest ≠ [] → (∀ name ∈ rest, isBlank name = false) → tree.kindAt (path ++ rest) = some kind →
    files.kindAt (path ++ rest) = some kind

def ArrivedWhole (tree : Doc) (path : List Text) (files : Doc) : Prop :=
  ∀ rest kind, (∀ name ∈ rest, isBlank name = false) → tree.kindAt (path ++ rest) = some kind →
    files.kindAt (path ++ rest) = some kind

theorem ArrivedWhole.of_arrived (arrived : Arrived tree path files)
    (here : ∀ kind, tree.kindAt path = some kind → files.kindAt path = some kind) : ArrivedWhole tree path files := by
  intro rest kind visible there
  by_cases whole : rest = []
  · subst whole
    rw [List.append_nil] at there ⊢
    exact here kind there
  · exact arrived rest kind whole visible there

def Steps (state : State Digest) (files : Doc) (report : Report) (wanted : Doc → Prop)
    (result : Option (State Digest × Doc × Report)) : Prop :=
  ∃ after files' report', result = some (after, files', report') ∧ report'.errors = report.errors ∧
    Walked state after files files' ∧ wanted files'

theorem copyRow_steps (works : ∀ relative, (course relative).Works)
    {copyBelow : Text → State Digest × Doc × Report → Option (State Digest × Doc × Report)}
    (admissible : ∀ name ∈ path, AdmissibleName name)
    (found : state.tree.find path = some (.dir children)) (rows : TidyRows children)
    (walk : ∀ name inner files report, AdmissibleName name → children.lookup name = some (.dir inner) →
      files.Below state.tree → Steps state files report (Arrived state.tree (path ++ [name]))
        (copyBelow (joinNames (path ++ [name])) (state, files, report)))
    {row : Text × Doc} (isRow : row ∈ children) (shown : isBlank row.1 = false)
    (within : files.Below state.tree) (report : Report) :
    Steps state files report (ArrivedWhole state.tree (path ++ [row.1]))
      (copyRow docHost course copyBelow (joinNames path) (state, files, report) row) := by
  obtain ⟨name, doc⟩ := row
  obtain ⟨first, here⟩ : ∃ first, children.lookup name = some first := by
    rw [← Option.isSome_iff_exists, List.lookup_isSome_iff]
    exact ⟨(name, doc), isRow, beq_iff_eq.mpr rfl⟩
  have kind : doc.isDir = first.isDir := rows.oneKind _ isRow _ (Doc.mem_of_lookup here) shown rfl
  have own : AdmissibleName name := rows.admissible _ isRow shown
  have filled : path ++ [name] ≠ [] := List.append_ne_nil_of_right_ne_nil _ (List.cons_ne_nil _ _)
  have admissibleChild : ∀ part ∈ path ++ [name], AdmissibleName part := by
    intro part inside
    rcases List.mem_append.mp inside with above | last
    · exact admissible part above
    · exact List.mem_singleton.mp last ▸ own
  have there : state.tree.find (path ++ [name]) = some first := by
    rw [Doc.find_append, found, Option.bind_some, Doc.find, here]
    rfl
  rw [copyRow]
  dsimp only
  rw [childRelative_joinNames admissible, kind]
  cases first with
  | dir inner =>
      obtain ⟨made, isThere⟩ := mkdirs_walked within filled admissibleChild (kindAt_of_find there)
      obtain ⟨after, files', report', copied, clean, walked, arrived⟩ :=
        walk name inner (docHost.mkdirs (joinNames (path ++ [name])) files) report.withDirectory own here made.within
      refine ⟨after, files', report', copied, clean, made.trans walked, .of_arrived arrived fun kind known => ?_⟩
      rw [kindAt_of_find there] at known
      rw [← Option.some.inj known]
      exact walked.grown _ _ isThere
  | file bytes =>
      obtain ⟨after, files', copied, walked, isThere⟩ :=
        copyEntry_walked within filled admissibleChild (works _) there report
      refine ⟨after, files', report.withFile bytes.length false, copied, rfl, walked,
        .of_arrived (fun rest kind whole _ known => ?_) fun kind known => ?_⟩
      · obtain ⟨deeper, rest, rfl⟩ := List.exists_cons_of_ne_nil whole
        rw [Doc.kindAt, Doc.find_append, there] at known
        cases known
      · rw [kindAt_of_find there] at known
        rw [← Option.some.inj known]
        exact isThere

theorem copyChildren_steps (works : ∀ relative, (course relative).Works) {fuel : Nat} (orderly : state.tree.Orderly)
    (admissible : ∀ name ∈ path, AdmissibleName name) (found : state.tree.find path = some (.dir children))
    (deep : Doc.heights children < fuel) (within : files.Below state.tree) (report : Report) :
    Steps state files report (Arrived state.tree path)
      (copyChildren docHost course fuel (joinNames path) (state, files, report)) := by
  induction fuel generalizing state path children files report with
  | zero => exact absurd deep (Nat.not_lt_zero _)
  | succ fuel ih =>
      have rows : TidyRows children :=
        orderly path children (fun name member => visible_of_admissible (admissible name member)) found
      have each : ∀ row ∈ children.filter (fun child => !isBlank child.1), ∀ now : State Digest, ∀ files report,
          now.tree = state.tree → files.Below state.tree →
            Steps now files report (ArrivedWhole state.tree (path ++ [row.1]))
              (copyRow docHost course (copyChildren docHost course fuel) (joinNames path) (now, files, report) row) := by
        intro row member now files report same within
        obtain ⟨isRow, shown⟩ := List.mem_filter.mp member
        rw [Bool.not_eq_true'] at shown
        rw [← same] at found within orderly ⊢
        refine copyRow_steps works admissible found rows ?_ isRow shown within report
        intro name inner files report own here within
        have depth := Doc.height_le_of_lookup here
        rw [Doc.height] at depth
        have shallower : Doc.heights inner < fuel := by omega
        refine ih orderly ?_ ?_ shallower within report
        · intro part inside
          rcases List.mem_append.mp inside with above | last
          · exact admissible part above
          · exact List.mem_singleton.mp last ▸ own
        · rw [Doc.find_append, found, Option.bind_some, Doc.find, here]
          rfl
      obtain ⟨after, files', report', copied, clean, walked, all⟩ :=
        foldlM_rows each (fun row files files' grown own rest kind shown there => grown _ _ (own rest kind shown there))
          state files report rfl within
      refine ⟨after, files', report', ?_, clean, walked, ?_⟩
      · rw [copyChildren, listDocuments_dir admissible found]
        exact copied
      intro rest kind filled shown known
      obtain ⟨name, rest, rfl⟩ := List.exists_cons_of_ne_nil filled
      obtain ⟨shownFirst, shownRest⟩ := List.forall_mem_cons.mp shown
      obtain ⟨first, isRow⟩ : ∃ first, (name, first) ∈ children := by
        rw [Doc.kindAt, Doc.find_append, found, Option.bind_some, Doc.find] at known
        cases here : children.lookup name with
        | none =>
            rw [here] at known
            cases known
        | some first => exact ⟨first, Doc.mem_of_lookup here⟩
      have member : (name, first) ∈ children.filter (fun child => !isBlank child.1) := by
        rw [List.mem_filter, shownFirst]
        exact ⟨isRow, rfl⟩
      rw [List.append_cons] at known ⊢
      exact all _ member rest kind shownRest known

theorem foundContract_isSome {course : RelPath → Course} (write : SidecarWrite) (state : State Digest)
    (quiet : ∀ path, (course path).recording.throws = false) :
    ∃ after, foundContract course write state = some after := by
  rw [← Option.isSome_iff_exists, foundContract, Option.isSome_map]
  generalize contractDirectories = paths
  generalize state.tree = tree
  induction paths generalizing tree with
  | nil => rfl
  | cons path paths ih =>
      rw [List.foldlM_cons, quiet path, if_neg Bool.false_ne_true]
      exact ih _

/-- A synchronisation from the tree that meets no failure succeeds, and what the mirror should hold
is there afterwards. -/
structure ReadsBack (state : State Digest) (wanted : List (List Text × Doc)) : Prop where
  reads : ∀ (contract : RelPath → Course) (contractWrite : SidecarWrite) (course : Text → ReadCourse),
    (∀ path, (contract path).recording.throws = false) → (∀ relative, (course relative).Works) →
      ∃ after files report, syncFromTree docHost contract contractWrite course (.dir []) state =
          some (after, files, report) ∧
        report.success = true ∧ ∀ item ∈ wanted, files.kindAt item.1 = some item.2.kind

theorem readsBack_of_tidy (tidy : state.tree.Tidy) {wanted : List (List Text × Doc)}
    (named : ∀ item ∈ wanted, item.1 ≠ [] ∧ ∀ name ∈ item.1, AdmissibleName name)
    (there : ∀ item ∈ wanted, state.tree.kindAt item.1 = some item.2.kind) : ReadsBack state wanted where
  reads contract contractWrite course quiet works := by
    obtain ⟨begun, found⟩ := foundContract_isSome contractWrite state quiet
    have begunTidy := foundContract_tidy tidy found
    have grown : state.tree.Below begun.tree :=
      foundContract_keeps (motive := fun tree => state.tree.Below tree)
        (fun _ _ _ _ below updated => below.trans (Doc.below_keepOrMake updated)) (.refl _) found
    obtain ⟨children, root⟩ : ∃ children, begun.tree = .dir children := by
      have directory := begunTidy.root
      cases tree : begun.tree with
      | file => exact nomatch tree ▸ directory
      | dir children => exact ⟨children, rfl⟩
    have empty : (Doc.dir []).Below begun.tree := by
      intro path kind known
      cases path with
      | nil =>
          rw [root]
          exact known
      | cons => exact nomatch known
    have deep : Doc.heights children < begun.tree.height + 1 := by
      rw [root, Doc.height]
      omega
    obtain ⟨after, files, report, copied, clean, -, arrived⟩ :=
      copyChildren_steps works begunTidy.rows (fun _ member => absurd member List.not_mem_nil) (congrArg some root) deep
        empty .empty
    refine ⟨after, files, report, ?_, List.isEmpty_iff.mpr clean, fun item member => ?_⟩
    · rw [syncFromTree, found]
      exact copied
    · obtain ⟨filled, admissible⟩ := named item member
      exact arrived item.1 item.2.kind filled (fun name inside => visible_of_admissible (admissible name inside))
        (grown _ _ (there item member))

variable [DecidableEq Digest]

/-- A synchronisation into the tree that reports success has transferred the mirror exactly if no
entry went unnoticed, and the way back then restores the mirror if the tree was tidy. -/
theorem sync_faithful {sha256 : Bytes → Digest} {contract : RelPath → Course} {contractWrite : SidecarWrite}
    {course : Text → Course} {mirror : Mirror} {state : State Digest} {result : State Digest × Report}
    (synced : syncToTree sha256 contract contractWrite course false (mirror.items.map mirrorItem) state = some result)
    (success : result.2.success = true) :
    (Carried mirror result.1.tree result.2 ↔ mirror.Noticed state.tree) ∧
      (mirror.Noticed state.tree → state.tree.Tidy → ReadsBack result.1 mirror.entries) := by
  have settled := syncToTree_settled synced success
  refine ⟨settled.carried_iff, fun noticed tidy => ?_⟩
  refine readsBack_of_tidy (syncToTree_tidy tidy synced success) ?_ (settled.carried_iff.mpr noticed).there
  rintro ⟨path, doc⟩ member
  refine ⟨(Mirror.mem_entries.mp member).1, settled.admissible _ (List.mem_of_mem_tail member) ?_⟩
  rw [counted, noticed.named _ member, Bool.not_false]

theorem find_dir_induct {motive : List (Text × Doc) → Prop} (own : motive children)
    (below : ∀ child ∈ children, ∀ path inner, child.2.find path = some (.dir inner) → motive inner)
    (path : List Text) (inner : List (Text × Doc)) (found : (Doc.dir children).find path = some (.dir inner)) :
    motive inner := by
  cases path with
  | nil =>
      obtain rfl := Doc.dir.inj (Option.some.inj found)
      exact own
  | cons name path =>
      obtain ⟨child, here, found⟩ := Option.bind_eq_some_iff.mp found
      exact below _ (Doc.mem_of_lookup here) path inner found

theorem find_file_dir {inner : List (Text × Doc)} : (Doc.file bytes).find path ≠ some (.dir inner) := by
  cases path <;> exact nofun

def singleDirectory (name : Text) (inside : List (Text × Doc)) (isName : HostName name)
    (files : ∀ child ∈ inside, HostName child.1 ∧ child.2.isDir = false) (distinct : (inside.map Prod.fst).Nodup) :
    Mirror where
  root := .dir [(name, .dir inside)]
  directory := rfl
  named := find_dir_induct (List.forall_mem_singleton.mpr isName) (List.forall_mem_singleton.mpr
    (find_dir_induct (fun child member => (files child member).1) fun child member path inner found => by
      have isFile := (files child member).2
      cases kind : child.2 with
      | file => exact absurd (kind ▸ found) find_file_dir
      | dir => exact nomatch kind ▸ isFile))
  distinct := find_dir_induct (List.nodup_singleton _) (List.forall_mem_singleton.mpr
    (find_dir_induct distinct fun child member path inner found => by
      have isFile := (files child member).2
      cases kind : child.2 with
      | file => exact absurd (kind ▸ found) find_file_dir
      | dir => exact nomatch kind ▸ isFile))

def noteMirror : Mirror :=
  singleDirectory ['d'] [(['n'], .file [1])] (by decide) (List.forall_mem_singleton.mpr ⟨by decide, rfl⟩)
    (List.nodup_singleton _)

def emptyMirror : Mirror := singleDirectory ['d'] [] (by decide) nofun List.nodup_nil

def blankMirror : Mirror := singleDirectory [' '] [] (by decide) nofun List.nodup_nil

def goodCourse : Course := ⟨true, none, honest 0, .written, .whole, ⟨false, .written⟩⟩

def syncMirror (mirror : Mirror) (tree : Doc) : Option (State Bytes × Report) :=
  syncToTree id (fun _ => goodCourse) .written (fun _ => goodCourse) false (mirror.items.map mirrorItem)
    ⟨tree, fun _ => .absent⟩

theorem sync_faithful_note :
    (syncMirror noteMirror (.dir [])).any (fun result => result.2.success) = true ∧
      ∃ result, syncMirror noteMirror (.dir []) = some result ∧ Carried noteMirror result.1.tree result.2 ∧
        ReadsBack result.1 noteMirror.entries := by
  refine ⟨rfl, _, rfl, ?_⟩
  have noticed : noteMirror.Noticed (.dir []) := by
    refine ⟨by decide, ?_⟩
    intro path member bytes blocked
    cases path with
    | nil | cons => exact nomatch blocked
  have tidy : (Doc.dir []).Tidy := ⟨rfl, Doc.orderly_new (.inl rfl)⟩
  have synced : syncToTree (id : Bytes → Bytes) (fun _ => goodCourse) .written (fun _ => goodCourse) false
      (noteMirror.items.map mirrorItem) ⟨.dir [], fun _ => .absent⟩ = some _ := rfl
  have faithful := sync_faithful synced rfl
  exact ⟨faithful.1.mpr noticed, faithful.2 noticed tidy⟩

theorem untransferred_unnoticed :
    (∃ result, syncMirror emptyMirror (.dir [(['d'], .file [7])]) = some result ∧ result.2.success = true ∧
        ¬ Carried emptyMirror result.1.tree result.2) ∧
      ∃ result, syncMirror blankMirror (.dir []) = some result ∧ result.2.success = true ∧
        ¬ Carried blankMirror result.1.tree result.2 := by
  refine ⟨⟨_, rfl, rfl, fun carried => ?_⟩, _, rfl, rfl, fun carried => ?_⟩
  · have there := carried.there ([['d']], .dir []) List.mem_cons_self
    exact nomatch Option.some.inj there
  · exact nomatch carried.there ([[' ']], .dir []) List.mem_cons_self

end PDocker.Saf
