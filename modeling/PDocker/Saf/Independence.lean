import PDocker.Saf.Mediator

/-!
# Records of different paths

All records lie in one directory, and the name of a record is the path with its slashes replaced. So
operations on a path leave the record of another one alone exactly when the names differ, the
contract's name included.
-/

set_option autoImplicit false

namespace PDocker.Saf

open Data

variable {Digest : Type} [DecidableEq Digest]

def WritesOnly (names : Text → Prop) (before after : Sidecars Digest) : Prop :=
  after = before ∨ ∃ name sidecar write, names name ∧ after = writeSidecar name sidecar write before

omit [DecidableEq Digest] in
theorem WritesOnly.readSidecar_eq {names : Text → Prop} {before after : Sidecars Digest} {path : RelPath}
    (only : WritesOnly names before after)
    (apart : fileNameFits (sidecarName path) = true → ∀ name, names name → name ≠ sidecarName path) :
    readSidecar after path = readSidecar before path := by
  obtain rfl | ⟨name, sidecar, write, named, rfl⟩ := only
  · rfl
  · exact readSidecar_other (fun fits => apart fits name named) sidecar write before

theorem writesOnly_check (sha256 : Bytes → Digest) (answers : Answers) (write : SidecarWrite) (tree : Doc)
    (path : RelPath) (sidecars : Sidecars Digest) :
    (checkNoProviderConflict sha256 answers write tree path sidecars).1 = sidecars ∨
      (∃ reason, (checkNoProviderConflict sha256 answers write tree path sidecars).2 = .refused reason) ∧
        ∃ previous, (checkNoProviderConflict sha256 answers write tree path sidecars).1 =
          writeSidecar (sidecarName path) (conflictSidecar previous) write sidecars := by
  unfold checkNoProviderConflict
  split
  · exact .inl rfl
  split
  · exact .inl rfl
  split
  · exact .inl rfl
  split
  · exact .inl rfl
  split
  · exact .inl rfl
  · exact .inr ⟨⟨_, rfl⟩, _, rfl⟩

omit [DecidableEq Digest] in
theorem writesOnly_recorded {names : Text → Prop} (tree : Doc) (sidecars : Sidecars Digest) (path : RelPath)
    (named : names (sidecarName path)) (sidecar : Sidecar Digest) (recording : Recording) (result : CopyResult) :
    WritesOnly names sidecars (recorded tree sidecars path sidecar recording result).1.sidecars := by
  rw [recorded]
  split
  · exact .inl rfl
  · exact .inr ⟨_, _, _, named, rfl⟩

theorem writesOnly_writeChecked {names : Text → Prop} (sha256 : Bytes → Digest) {path : RelPath}
    (named : names (sidecarName path)) (bytes : Bytes) (answers : Answers) (conflictWrite : SidecarWrite)
    (writing : Writing) (sidecar : Sidecar Digest) (recording : Recording) (result : CopyResult)
    (state : State Digest) :
    WritesOnly names state.sidecars
      (writeChecked sha256 path bytes answers conflictWrite writing sidecar recording result state).1.sidecars := by
  have checked := writesOnly_check sha256 answers conflictWrite state.tree path state.sidecars
  rw [writeChecked]
  cases check : checkNoProviderConflict sha256 answers conflictWrite state.tree path state.sidecars with
  | mk sidecars found =>
      rw [check] at checked
      rcases checked with same | ⟨⟨reason, refused⟩, previous, same⟩
      · obtain rfl : sidecars = state.sidecars := same
        cases found with
        | refused | thrown => exact .inl rfl
        | passed =>
            dsimp only
            split
            · exact .inl rfl
            · exact writesOnly_recorded _ _ path named _ _ _
      · obtain rfl : found = .refused reason := refused
        exact .inr ⟨_, _, _, named, same⟩

omit [DecidableEq Digest] in
theorem writesOnly_copyFileFromTree {names : Text → Prop} {path : RelPath} (named : names (sidecarName path))
    (reading : Reading) (recording : Recording) (state : State Digest) :
    WritesOnly names state.sidecars (copyFileFromTree path reading recording state).1.1.sidecars := by
  unfold copyFileFromTree
  split
  · exact .inl rfl
  split
  · exact .inl rfl
  · exact .inl rfl
  split
  · exact .inl rfl
  · exact .inl rfl
  · exact writesOnly_recorded _ _ path named _ _ _

def Op.Names (op : Op) (name : Text) : Prop :=
  name = contractName ∨ ∃ path, op.path? = some path ∧ name = sidecarName path

theorem Op.writesOnly_step (sha256 : Bytes → Digest) (state : State Digest) (op : Op) :
    WritesOnly op.Names state.sidecars (op.step sha256 state).sidecars := by
  cases op with
  | initializeContract available makings write =>
      change WritesOnly _ _ (Saf.initializeContract available makings write state).sidecars
      rw [Saf.initializeContract]
      split
      · exact .inl rfl
      split
      · exact .inl rfl
      · exact .inr ⟨contractName, contractSidecar, write, .inl rfl, rfl⟩
  | syncDirectory path available lookup recording =>
      change WritesOnly _ _ (Saf.syncDirectory path available lookup recording state).1.sidecars
      rw [Saf.syncDirectory]
      split
      · exact .inl rfl
      · exact writesOnly_recorded _ _ path (.inr ⟨path, rfl, rfl⟩) _ _ _
  | copyFileToTree path | writeFile path => exact writesOnly_writeChecked sha256 (.inr ⟨path, rfl, rfl⟩) ..
  | copyFileFromTree path => exact writesOnly_copyFileFromTree (.inr ⟨path, rfl, rfl⟩) ..
  | writeBytes path bytes answers conflictWrite writing recording =>
      change WritesOnly _ _
        (Saf.writeBytes sha256 path bytes answers conflictWrite writing recording state).1.sidecars
      rw [Saf.writeBytes]
      split
      · exact .inl rfl
      · exact writesOnly_writeChecked sha256 (.inr ⟨path, rfl, rfl⟩) ..
  | writeMirrorFallbackFile path copied left recording =>
      change WritesOnly _ _ (Saf.writeMirrorFallbackFile sha256 path copied left recording state).1.sidecars
      unfold Saf.writeMirrorFallbackFile
      split
      · exact .inl rfl
      · exact writesOnly_recorded _ _ path (.inr ⟨path, rfl, rfl⟩) _ _ _
  | outside => exact .inl rfl

def Op.OnPath (path : RelPath) (op : Op) : Prop := op.path? = none ∨ op.path? = some path

theorem readSidecar_run {sha256 : Bytes → Digest} {path other : RelPath}
    (apart : fileNameFits (sidecarName other) = true →
      sidecarName path ≠ sidecarName other ∧ contractName ≠ sidecarName other)
    {ops : List Op} (on : ∀ op ∈ ops, op.OnPath path) (state : State Digest) :
    readSidecar (Op.run sha256 state ops).sidecars other = readSidecar state.sidecars other := by
  induction ops generalizing state with
  | nil => rfl
  | cons op ops ih =>
      rw [List.forall_mem_cons] at on
      rw [Op.run, List.foldl_cons]
      refine (ih on.2 _).trans ((op.writesOnly_step sha256 state).readSidecar_eq fun fits name named => ?_)
      rcases named with rfl | ⟨own, here, rfl⟩
      · exact (apart fits).2
      rcases on.1 with none | same
      · rw [none] at here
        exact nomatch here
      · rw [same] at here
        obtain rfl := Option.some.inj here
        exact (apart fits).1

def Lookup.plain : Lookup where
  tree := .dir []
  rename := id
  fails := none

def Recording.done : Recording where
  throws := false
  write := .written

def State.empty : State Digest where
  tree := .dir []
  sidecars := fun _ => .absent

omit [DecidableEq Digest] in
theorem readSidecar_empty (path : RelPath) : readSidecar (State.empty : State Digest).sidecars path = none := by
  unfold readSidecar
  split <;> rfl

omit [DecidableEq Digest] in
theorem syncDirectory_plain (path : RelPath) :
    (syncDirectory path true .plain .done (State.empty : State Digest)).1.sidecars =
      writeSidecar (sidecarName path) directorySidecar .written (State.empty : State Digest).sidecars := by
  obtain ⟨name, rest, parts⟩ := List.exists_cons_of_ne_nil (splitParts_ne_nil '/' path.val)
  have cut : path.parts = name :: rest := parts
  rw [syncDirectory, ensureDirectory, if_pos rfl, resolveDocument, Lookup.plain, cut]
  rfl

/-- Operations on one path never touch the record of another one, exactly when the record of the
other cannot be there at all or has a name of its own. -/
theorem readSidecar_independent_iff (sha256 : Bytes → Digest) (path other : RelPath) :
    (∀ (state : State Digest) (ops : List Op), (∀ op ∈ ops, op.OnPath path) →
        readSidecar (Op.run sha256 state ops).sidecars other = readSidecar state.sidecars other) ↔
      (fileNameFits (sidecarName other) = true →
        sidecarName path ≠ sidecarName other ∧ contractName ≠ sidecarName other) := by
  constructor
  · intro kept fits
    constructor
    · intro same
      have read := kept .empty [.syncDirectory path true .plain .done] (by
        rw [List.forall_mem_singleton]
        exact .inr rfl)
      have wrote : (Op.run sha256 State.empty [.syncDirectory path true .plain .done]).sidecars =
          writeSidecar (sidecarName other) directorySidecar .written (State.empty : State Digest).sidecars := by
        rw [← same]
        exact syncDirectory_plain path
      rw [wrote, readSidecar_written fits, readSidecar_empty] at read
      exact nomatch read
    · intro same
      have read := kept .empty [.initializeContract true (fun _ => ⟨.plain, false⟩) .written] (by
        rw [List.forall_mem_singleton]
        exact .inl rfl)
      have wrote : (Op.run sha256 State.empty [.initializeContract true (fun _ => ⟨.plain, false⟩) .written]).sidecars =
          writeSidecar (sidecarName other) contractSidecar .written (State.empty : State Digest).sidecars := by
        rw [← same]
        rfl
      rw [wrote, readSidecar_written fits, readSidecar_empty] at read
      exact nomatch read
  · exact fun apart state ops on => readSidecar_run apart on state

def slashPath : RelPath := ⟨['a', '/', 'b'], rfl⟩
def underscorePath : RelPath := ⟨['a', '_', 'b'], rfl⟩

def contractPath : RelPath := ⟨['c', 'o', 'n', 't', 'r', 'a', 'c', 't'], rfl⟩

/-- A directory `a/b` makes a record for a file `a_b`, and every synchronisation one for `contract`. -/
theorem record_of_other_path : slashPath ≠ underscorePath ∧
      readSidecar (Op.run (id : Bytes → Bytes) .empty [.syncDirectory slashPath true .plain .done]).sidecars
        underscorePath ≠ readSidecar (State.empty : State Bytes).sidecars underscorePath ∧
      slashPath ≠ contractPath ∧
      readSidecar (Op.run (id : Bytes → Bytes) .empty
          [.initializeContract true (fun _ => ⟨.plain, false⟩) .written]).sidecars contractPath ≠
        readSidecar (State.empty : State Bytes).sidecars contractPath := by
  decide

end PDocker.Saf
