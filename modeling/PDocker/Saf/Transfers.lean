import PDocker.Saf.Conflicts

/-!
# Transfers and failures

A file is copied over the one on the other side, which is cut off before anything is known about the
copy, and a mirror file may be deleted after it. What is kept is read off the point at which a call
ends.
-/

set_option autoImplicit false

namespace PDocker.Saf

open Data

inductive Side where
  | mirror
  | tree
  deriving DecidableEq, Repr

def fileBytes : Option Doc → Option Bytes
  | some (.file bytes) => some bytes
  | some (.dir _) | none => none

structure ToTree where
  path : RelPath
  source : Source
  evictMirrorPayload : Bool
  answers : Answers
  conflictWrite : SidecarWrite
  writing : Writing
  recording : Recording

/-- A call of `copyFileFromTree`, with what the mirror holds before it -/
structure FromTree where
  path : RelPath
  reading : Reading
  recording : Recording
  before : Option Bytes

variable {Digest : Type} [DecidableEq Digest]

theorem fileBytes_eq_some {doc : Option Doc} {bytes : Bytes} : fileBytes doc = some bytes ↔ doc = some (.file bytes) := by
  cases doc with
  | none => exact ⟨nofun, nofun⟩
  | some doc =>
      cases doc with
      | file old => exact ⟨fun same => congrArg _ (congrArg _ (Option.some.inj same)), fun same => congrArg fileBytes same⟩
      | dir => exact ⟨nofun, nofun⟩

theorem leaf_stopped {found : Option Doc} (file : ∀ doc, found = some doc → ∃ bytes, doc = .file bytes) (count : Nat)
    (bytes : Bytes) : (Stream.stopped count).leaf bytes found = .file (bytes.take count) := by
  cases found with
  | none => rfl
  | some doc =>
      obtain ⟨old, rfl⟩ := file doc rfl
      rfl

theorem leaf_closed {found : Option Doc} (file : ∀ doc, found = some doc → ∃ bytes, doc = .file bytes) (count : Nat)
    (bytes : Bytes) : (Stream.closed count).leaf bytes found = .file (bytes.take count) := leaf_stopped file count bytes

/-! ## Into the tree -/

namespace ToTree

def write (call : ToTree) : Write :=
  ⟨call.path, call.source.copied, call.answers, call.conflictWrite, call.writing⟩

def after (sha256 : Bytes → Digest) (state : State Digest) (call : ToTree) : State Digest × CopyResult :=
  copyFileToTree sha256 call.path call.source call.evictMirrorPayload call.answers call.conflictWrite call.writing
    call.recording state

def passes (sha256 : Bytes → Digest) (state : State Digest) (call : ToTree) : Prop :=
  (call.write.checked sha256 state).2 = .passed

instance (sha256 : Bytes → Digest) (state : State Digest) (call : ToTree) : Decidable (call.passes sha256 state) :=
  inferInstanceAs (Decidable (_ = _))

def found (sha256 : Bytes → Digest) (state : State Digest) (call : ToTree) : Option Doc :=
  (if call.passes sha256 state then call.writing.lookup.tree else state.tree).find call.path.parts

def evicts (call : ToTree) : Bool :=
  call.evictMirrorPayload && evictableMirrorPayload call.path && call.source.deletable

def streamed (call : ToTree) : Bool :=
  match (writeStream call.writing call.path call.source.copied).2 with
  | .ok () => true
  | .error _ => false

def deleted (sha256 : Bytes → Digest) (state : State Digest) (call : ToTree) : Bool :=
  decide (call.passes sha256 state) && call.streamed && call.evicts

def mirrorAfter (sha256 : Bytes → Digest) (state : State Digest) (call : ToTree) : Option Bytes :=
  if call.deleted sha256 state then none else call.source.left

def newest (sha256 : Bytes → Digest) (state : State Digest) (newer : Side) (call : ToTree) : Option Bytes :=
  match newer with
  | .mirror => call.source.left
  | .tree => fileBytes (call.found sha256 state)

structure KeepsPayload (sha256 : Bytes → Digest) (state : State Digest) (newer : Side) (call : ToTree) : Prop where
  newest : ∀ bytes, call.newest sha256 state newer = some bytes → call.mirrorAfter sha256 state = some bytes ∨
    (call.after sha256 state).1.tree.find call.path.parts = some (.file bytes)
  evicted : call.deleted sha256 state = true → ∀ bytes, call.source.left = some bytes →
    (call.after sha256 state).1.tree.find call.path.parts = some (.file bytes)
  failed : (∀ bytes evicted, (call.after sha256 state).2 ≠ .copied bytes evicted) →
    (call.after sha256 state).1.tree.find call.path.parts = call.found sha256 state

def Reaches (sha256 : Bytes → Digest) (state : State Digest) (call : ToTree) : Prop :=
  call.passes sha256 state ∧ call.writing.available = true ∧ call.writing.lookup.fails = none ∧
    (call.writing.lookup.tree.update call.writing.lookup.rename (call.writing.stream.leaf call.source.copied)
      call.path.parts).isSome = true ∧ call.writing.onDirectory call.path = false

def there (call : ToTree) : Option Doc := call.writing.lookup.tree.find call.path.parts

/-- The file has the path: it was there, or the provider gives new documents the names asked for. -/
def Stored (call : ToTree) : Prop :=
  call.there ≠ none ∨
    ∀ name ∈ Doc.missing call.path.parts call.writing.lookup.tree, call.writing.lookup.rename name = name

instance (call : ToTree) : Decidable call.Stored := by
  unfold Stored
  cases call.there with
  | none => exact decidable_of_iff _ (or_iff_right fun absent => absurd rfl absent).symm
  | some doc => exact isTrue (.inl nofun)

/-- Where the call comes to open a file, nothing is lost under this condition: no empty document is
left behind, what is written when the call fails is what was there, what is deleted was not changed
since the copy and is kept by the tree, and bytes of the tree that are newer are the ones written. -/
def Complete (sha256 : Bytes → Digest) (state : State Digest) (newer : Side) (call : ToTree) : Prop :=
  call.Reaches sha256 state →
    match call.writing.stream with
    | .notOpened => call.there = none → ¬ call.Stored
    | .stopped kept => call.Stored → call.there = some (.file (call.source.copied.take kept))
    | .closed kept =>
        (call.recording.throws = true → call.Stored → call.there = some (.file (call.source.copied.take kept))) ∧
          (call.evicts = true → ∀ left ∈ call.source.left, call.Stored ∧ left = call.source.copied.take kept) ∧
            (newer = .tree → ∀ bytes, call.there = some (.file bytes) →
              bytes = call.source.copied.take kept ∨ call.evicts = false ∧ call.source.left = some bytes)

end ToTree

namespace ToTree

variable {sha256 : Bytes → Digest} {state : State Digest} {call : ToTree}

theorem after_of_not_passes (stopped : ¬ call.passes sha256 state) :
    (call.after sha256 state).1.tree = state.tree ∧
      ∀ bytes evicted, (call.after sha256 state).2 ≠ .copied bytes evicted := by
  unfold passes Write.checked at stopped
  unfold after copyFileToTree writeChecked
  change ¬ (checkNoProviderConflict sha256 call.answers call.conflictWrite state.tree call.path state.sidecars).2 = _
    at stopped
  generalize checkNoProviderConflict sha256 call.answers call.conflictWrite state.tree call.path state.sidecars =
    check at stopped ⊢
  obtain ⟨sidecars, result⟩ := check
  cases result with
  | passed => exact absurd rfl stopped
  | refused | thrown => exact ⟨rfl, nofun⟩

theorem after_of_passes (passes : call.passes sha256 state) :
    (call.after sha256 state).1.tree = (writeStream call.writing call.path call.source.copied).1 ∧
      (call.after sha256 state).2 =
        match (writeStream call.writing call.path call.source.copied).2 with
        | .error error => .failed error
        | .ok () =>
            if call.recording.throws then .thrown else .copied call.source.copied.length call.evicts := by
  unfold ToTree.passes Write.checked at passes
  unfold after copyFileToTree writeChecked
  change (checkNoProviderConflict sha256 call.answers call.conflictWrite state.tree call.path state.sidecars).2 = _
    at passes
  generalize checkNoProviderConflict sha256 call.answers call.conflictWrite state.tree call.path state.sidecars =
    check at passes ⊢
  obtain ⟨sidecars, result⟩ := check
  obtain rfl : result = .passed := passes
  generalize writeStream call.writing call.path call.source.copied = wrote
  obtain ⟨tree, result⟩ := wrote
  cases result with
  | error => exact ⟨rfl, rfl⟩
  | ok => exact ⟨recorded_tree _ _ _ _ _ _, recorded_result _ _ _ _ _ _⟩

theorem after_of_not_reaches (short : ¬ call.Reaches sha256 state) :
    (call.after sha256 state).1.tree.find call.path.parts = call.found sha256 state ∧
      (∀ bytes evicted, (call.after sha256 state).2 ≠ .copied bytes evicted) ∧
      call.deleted sha256 state = false := by
  by_cases passes : call.passes sha256 state
  · obtain ⟨sameTree, sameResult⟩ := after_of_passes passes
    have unchanged : (writeStream call.writing call.path call.source.copied).1.find call.path.parts =
          call.writing.lookup.tree.find call.path.parts ∧
        ∃ error, (writeStream call.writing call.path call.source.copied).2 = .error error := by
      unfold writeStream
      cases available : call.writing.available with
      | false => exact ⟨rfl, _, rfl⟩
      | true =>
          rw [Bool.not_true, if_neg Bool.false_ne_true]
          unfold resolveDocument
          cases fails : call.writing.lookup.fails with
          | some depth =>
              refine ⟨?_, _, rfl⟩
              dsimp only
              cases made : call.writing.lookup.tree.update call.writing.lookup.rename keepOrMake
                (call.path.parts.dropLast.take depth) with
              | none => rfl
              | some tree =>
                  have above : call.path.parts.dropLast.take depth <+: call.path.parts :=
                    (List.take_prefix _ _).trans (List.dropLast_prefix _)
                  refine Doc.find_update_above (fun _ => rfl) rfl made above fun whole => ?_
                  have shorter := congrArg List.length whole
                  rw [List.length_take, List.length_dropLast] at shorter
                  have some_part := List.length_pos_iff.mpr (splitParts_ne_nil '/' call.path.val)
                  change 0 < call.path.parts.length at some_part
                  omega
          | none =>
              dsimp only
              cases updated : call.writing.lookup.tree.update call.writing.lookup.rename
                (call.writing.stream.leaf call.source.copied) call.path.parts with
              | none => exact ⟨rfl, _, rfl⟩
              | some tree =>
                  have directory : call.writing.onDirectory call.path = true := by
                    by_contra file
                    refine short ⟨passes, available, fails, ?_, Bool.eq_false_iff.mpr file⟩
                    rw [updated]
                    rfl
                  constructor
                  · unfold Writing.onDirectory at directory
                    cases found : call.writing.lookup.tree.find call.path.parts with
                    | none =>
                        rw [found] at directory
                        exact nomatch directory
                    | some doc =>
                        rw [found] at directory
                        have kept : tree.find call.path.parts = _ := Doc.find_update updated found
                        cases doc with
                        | file => exact nomatch directory
                        | dir children =>
                            dsimp only
                            cases call.writing.stream <;> exact kept
                  · dsimp only
                    cases call.writing.stream with
                    | notOpened | stopped => exact ⟨_, rfl⟩
                    | closed =>
                        refine ⟨.stream, ?_⟩
                        dsimp only
                        rw [if_pos directory]
    obtain ⟨sameContent, error, failed⟩ := unchanged
    refine ⟨?_, ?_, ?_⟩
    · rw [sameTree, sameContent, found, if_pos passes]
    · rw [sameResult, failed]
      exact nofun
    · rw [deleted, streamed, failed, Bool.and_false, Bool.false_and]
  · obtain ⟨sameTree, failed⟩ := after_of_not_passes passes
    refine ⟨?_, failed, ?_⟩
    · rw [sameTree, found, if_neg passes]
    · rw [deleted, decide_eq_false passes, Bool.false_and, Bool.false_and]

theorem writeStream_of_reaches (reaches : call.Reaches sha256 state) :
    (writeStream call.writing call.path call.source.copied).1.find call.path.parts =
        (if call.Stored then some (call.writing.stream.leaf call.source.copied call.there) else none) ∧
      (writeStream call.writing call.path call.source.copied).2 =
        match call.writing.stream with
        | .notOpened | .stopped _ => .error .stream
        | .closed _ => .ok () := by
  obtain ⟨-, available, fails, updated, file⟩ := reaches
  obtain ⟨tree, updated⟩ := Option.isSome_iff_exists.mp updated
  have content : tree.find call.path.parts =
      if call.Stored then some (call.writing.stream.leaf call.source.copied call.there) else none := by
    cases found : call.there with
    | some doc =>
        have stored : call.Stored := .inl fun absent => nomatch found.symm.trans absent
        rw [Doc.find_update updated found, if_pos stored]
    | none =>
        have same : call.Stored ↔ _ := or_iff_right fun there => absurd found there
        rw [Doc.find_update_created updated found]
        by_cases stored : call.Stored
        · rw [if_pos stored, if_pos (same.mp stored)]
        · rw [if_neg stored, if_neg fun named => stored (same.mpr named)]
  unfold writeStream resolveDocument
  rw [available, Bool.not_true, if_neg Bool.false_ne_true, fails]
  dsimp only
  rw [updated]
  dsimp only
  cases stream : call.writing.stream with
  | notOpened | stopped =>
      rw [stream] at content
      exact ⟨content, rfl⟩
  | closed =>
      rw [stream] at content
      refine ⟨content, ?_⟩
      dsimp only
      rw [file, if_neg Bool.false_ne_true]

end ToTree

namespace FromTree

def after (state : State Digest) (call : FromTree) : (State Digest × CopyResult) × Option Bytes :=
  copyFileFromTree call.path call.reading call.recording state

def mirrorAfter (state : State Digest) (call : FromTree) : Option Bytes := (call.after state).2.or call.before

def newest (state : State Digest) (newer : Side) (call : FromTree) : Option Bytes :=
  match newer with
  | .mirror => call.before
  | .tree => fileBytes (state.tree.find call.path.parts)

structure KeepsPayload (state : State Digest) (newer : Side) (call : FromTree) : Prop where
  newest : ∀ bytes, call.newest state newer = some bytes → call.mirrorAfter state = some bytes ∨
    (call.after state).1.1.tree.find call.path.parts = some (.file bytes)
  failed : (∀ bytes evicted, (call.after state).1.2 ≠ .copied bytes evicted) → call.mirrorAfter state = call.before

/-- Where a document is opened, nothing is lost when what is written by a call that fails is what was
there, and bytes of the mirror that are newer are the ones written, or the ones of the tree. -/
def Complete (state : State Digest) (newer : Side) (call : FromTree) : Prop :=
  call.reading.available = true → call.reading.finds = true →
    ∀ bytes, state.tree.find call.path.parts = some (.file bytes) →
      match call.reading.stream with
      | .notOpened => True
      | .stopped kept => call.before = some (bytes.take kept)
      | .closed kept =>
          (call.recording.throws = true → call.before = some (bytes.take kept)) ∧
            (newer = .mirror → ∀ old, call.before = some old → old = bytes.take kept ∨ old = bytes)

end FromTree

namespace ToTree

variable {sha256 : Bytes → Digest} {state : State Digest} {newer : Side} {call : ToTree}

theorem Reaches.file (reaches : call.Reaches sha256 state) : call.found sha256 state = call.there ∧
      ∀ doc, call.there = some doc → ∃ bytes, doc = .file bytes := by
  obtain ⟨passes, -, -, -, file⟩ := reaches
  constructor
  · rw [found, if_pos passes]
    rfl
  intro doc there
  change call.there.any Doc.isDir = false at file
  rw [there] at file
  cases doc with
  | file bytes => exact ⟨bytes, rfl⟩
  | dir => exact nomatch file

theorem keepsPayload_of_same (kept : call.deleted sha256 state = false)
    (same : (call.after sha256 state).1.tree.find call.path.parts = call.found sha256 state) :
    call.KeepsPayload sha256 state newer where
  newest := by
    intro bytes newest
    cases newer with
    | mirror =>
        left
        rw [mirrorAfter, kept, if_neg Bool.false_ne_true]
        exact newest
    | tree =>
        right
        rw [same]
        exact fileBytes_eq_some.mp newest
  evicted deleted := by
    rw [kept] at deleted
    exact nomatch deleted
  failed _ := same

theorem not_stored_there (unstored : ¬ call.Stored) : call.there = none := by
  by_contra there
  exact unstored (.inl there)

theorem keepsPayload_iff : call.KeepsPayload sha256 state newer ↔ call.Complete sha256 state newer := by
  by_cases reaches : call.Reaches sha256 state
  · obtain ⟨sameTree, sameResult⟩ := after_of_passes reaches.1
    obtain ⟨content, streamed⟩ := writeStream_of_reaches reaches
    obtain ⟨foundThere, file⟩ := reaches.file
    rw [← sameTree] at content
    rw [Complete, imp_iff_right reaches]
    cases stream : call.writing.stream with
    | notOpened =>
        rw [stream] at content streamed
        rw [streamed] at sameResult
        have kept : call.deleted sha256 state = false := by
          rw [deleted, ToTree.streamed, streamed, Bool.and_false, Bool.false_and]
        constructor
        · intro keeps absent stored
          have same := keeps.failed (by rw [sameResult]; exact nofun)
          rw [content, if_pos stored, foundThere, absent] at same
          exact nomatch same
        intro empty
        refine keepsPayload_of_same kept ?_
        rw [content, foundThere]
        cases there : call.there with
        | none => rw [if_neg (empty there)]
        | some doc =>
            obtain ⟨bytes, rfl⟩ := file doc there
            have stored : call.Stored := .inl fun absent => nomatch there.symm.trans absent
            rw [if_pos stored]
            rfl
    | stopped count =>
        rw [stream] at content streamed
        rw [streamed] at sameResult
        have kept : call.deleted sha256 state = false := by
          rw [deleted, ToTree.streamed, streamed, Bool.and_false, Bool.false_and]
        constructor
        · intro keeps stored
          have same := keeps.failed (by rw [sameResult]; exact nofun)
          rw [content, if_pos stored, foundThere, leaf_stopped file] at same
          exact same.symm
        intro written
        refine keepsPayload_of_same kept ?_
        rw [content, foundThere]
        by_cases stored : call.Stored
        · rw [if_pos stored, leaf_stopped file, written stored]
        · rw [if_neg stored, not_stored_there stored]
    | closed count =>
        rw [stream] at content streamed
        rw [streamed] at sameResult
        dsimp only at sameResult
        rw [leaf_closed file] at content
        have deletes : call.deleted sha256 state = call.evicts := by
          rw [deleted, ToTree.streamed, streamed, decide_eq_true reaches.1]
          rfl
        constructor
        · intro keeps
          refine ⟨fun throws stored => ?_, fun evicts left held => ?_, fun newTree bytes there => ?_⟩
          · have same := keeps.failed (by rw [sameResult, if_pos throws]; exact nofun)
            rw [content, if_pos stored, foundThere] at same
            exact same.symm
          · have same := keeps.evicted (deletes.trans evicts) left held
            rw [content] at same
            by_cases stored : call.Stored
            · rw [if_pos stored] at same
              exact ⟨stored, (Doc.file.inj (Option.some.inj same)).symm⟩
            · rw [if_neg stored] at same
              exact nomatch same
          · subst newTree
            have isNewest : call.newest sha256 state .tree = some bytes := by
              rw [newest, foundThere, there]
              rfl
            rcases keeps.newest bytes isNewest with held | same
            · rw [mirrorAfter, deletes] at held
              split at held
              · exact nomatch held
              · rename_i stays
                exact .inr ⟨Bool.eq_false_iff.mpr stays, held⟩
            · have stored : call.Stored := .inl fun absent => nomatch there.symm.trans absent
              rw [content, if_pos stored] at same
              exact .inl (Doc.file.inj (Option.some.inj same)).symm
        · rintro ⟨failing, evicting, newTree⟩
          have evicted : call.deleted sha256 state = true → ∀ bytes, call.source.left = some bytes →
              (call.after sha256 state).1.tree.find call.path.parts = some (.file bytes) := by
            intro isDeleted bytes held
            obtain ⟨stored, rfl⟩ := evicting (deletes.symm.trans isDeleted) bytes held
            rw [content, if_pos stored]
          refine ⟨fun bytes isNewest => ?_, evicted, fun uncopied => ?_⟩
          · cases newer with
            | mirror =>
                by_cases isDeleted : call.deleted sha256 state = true
                · exact .inr (evicted isDeleted bytes isNewest)
                · left
                  rw [mirrorAfter, if_neg isDeleted]
                  exact isNewest
            | tree =>
                have there := fileBytes_eq_some.mp isNewest
                rw [foundThere] at there
                rcases newTree rfl bytes there with rfl | ⟨stays, held⟩
                · have stored : call.Stored := .inl fun absent => nomatch there.symm.trans absent
                  right
                  rw [content, if_pos stored]
                · left
                  rw [mirrorAfter, deletes, stays, if_neg Bool.false_ne_true]
                  exact held
          · have throws : call.recording.throws = true := by
              by_contra quiet
              exact uncopied _ _ (sameResult.trans (if_neg quiet))
            rw [content, foundThere]
            by_cases stored : call.Stored
            · rw [if_pos stored, failing throws stored]
            · rw [if_neg stored, not_stored_there stored]
  · obtain ⟨sameContent, -, kept⟩ := after_of_not_reaches reaches
    exact iff_of_true (keepsPayload_of_same kept sameContent) fun reaches' => absurd reaches' reaches

end ToTree

namespace FromTree

omit [DecidableEq Digest]

variable {state : State Digest} {newer : Side} {call : FromTree}

theorem after_tree : (call.after state).1.1.tree = state.tree := by
  unfold after copyFileFromTree
  split
  · rfl
  split
  · rfl
  · rfl
  split
  · rfl
  · rfl
  · exact recorded_tree _ _ _ _ _ _

theorem keepsPayload_of_same (same : call.mirrorAfter state = call.before) : call.KeepsPayload state newer where
  newest := by
    intro bytes newest
    cases newer with
    | mirror => exact .inl (same.trans newest)
    | tree =>
        right
        rw [after_tree]
        exact fileBytes_eq_some.mp newest
  failed _ := same

theorem after_of_opens (available : call.reading.available = true) (finds : call.reading.finds = true) {bytes : Bytes}
    (there : state.tree.find call.path.parts = some (.file bytes)) :
    call.after state =
      match call.reading.stream with
      | .notOpened => ((state, .failed .stream), none)
      | .stopped kept => ((state, .failed .stream), some (bytes.take kept))
      | .closed kept =>
          (recorded state.tree state.sidecars call.path (payloadSidecar (bytes.take kept).length none true)
            call.recording (.copied (bytes.take kept).length false), some (bytes.take kept)) := by
  cases stream : call.reading.stream <;>
    simp only [after, copyFileFromTree, available, Bool.not_true, Bool.false_eq_true, ↓reduceIte, finds, there, stream]

theorem keepsPayload_iff : call.KeepsPayload state newer ↔ call.Complete state newer := by
  by_cases opens : call.reading.available = true ∧ call.reading.finds = true ∧
      ∃ bytes, state.tree.find call.path.parts = some (.file bytes)
  · obtain ⟨available, finds, bytes, there⟩ := opens
    have after := after_of_opens available finds there
    have complete : call.Complete state newer ↔
        match call.reading.stream with
        | .notOpened => True
        | .stopped kept => call.before = some (bytes.take kept)
        | .closed kept =>
            (call.recording.throws = true → call.before = some (bytes.take kept)) ∧
              (newer = .mirror → ∀ old, call.before = some old → old = bytes.take kept ∨ old = bytes) := by
      constructor
      · exact fun complete => complete available finds bytes there
      · intro complete _ _ other thereToo
        obtain rfl := Doc.file.inj (Option.some.inj (there.symm.trans thereToo))
        exact complete
    rw [complete]
    cases stream : call.reading.stream with
    | notOpened =>
        rw [stream] at after
        refine iff_of_true (keepsPayload_of_same ?_) trivial
        rw [mirrorAfter, after]
        rfl
    | stopped kept =>
        rw [stream] at after
        have written : call.mirrorAfter state = some (bytes.take kept) := by
          rw [mirrorAfter, after]
          rfl
        constructor
        · intro keeps
          exact (keeps.failed (by rw [after]; exact nofun)).symm.trans written
        · exact fun same => keepsPayload_of_same (written.trans same.symm)
    | closed kept =>
        rw [stream] at after
        have written : call.mirrorAfter state = some (bytes.take kept) := by
          rw [mirrorAfter, after]
          rfl
        have result : (call.after state).1.2 =
            if call.recording.throws then .thrown else .copied (bytes.take kept).length false := by
          rw [after]
          exact recorded_result _ _ _ _ _ _
        constructor
        · intro keeps
          constructor
          · intro throws
            exact (keeps.failed (by rw [result, if_pos throws]; exact nofun)).symm.trans written
          rintro rfl old before
          rcases keeps.newest old before with held | same
          · exact .inl (Option.some.inj (held.symm.trans written))
          · rw [after_tree, there] at same
            exact .inr (Doc.file.inj (Option.some.inj same)).symm
        · rintro ⟨failing, newMirror⟩
          constructor
          · intro newest isNewest
            cases newer with
            | tree =>
                right
                rw [after_tree]
                exact fileBytes_eq_some.mp isNewest
            | mirror =>
                rcases newMirror rfl newest isNewest with rfl | rfl
                · exact .inl written
                · right
                  rw [after_tree]
                  exact there
          · intro uncopied
            have throws : call.recording.throws = true := by
              by_contra quiet
              exact uncopied _ _ (result.trans (if_neg quiet))
            exact written.trans (failing throws).symm
  · refine iff_of_true (keepsPayload_of_same ?_) fun available finds bytes there =>
      absurd ⟨available, finds, bytes, there⟩ opens
    rw [mirrorAfter, after, copyFileFromTree]
    split
    · rfl
    split
    · rfl
    · rfl
    rename_i available _ bytes there
    have open_ : call.reading.available = true := by simpa using available
    split at there
    · rename_i finds
      exact absurd ⟨open_, finds, bytes, there⟩ opens
    · exact nomatch there

end FromTree

/-- A call loses nothing exactly under its condition, in both directions. -/
theorem keepsPayload_iff_complete (sha256 : Bytes → Digest) (state : State Digest) (newer : Side) :
    (∀ call : ToTree, call.KeepsPayload sha256 state newer ↔ call.Complete sha256 state newer) ∧
      ∀ call : FromTree, call.KeepsPayload state newer ↔ call.Complete state newer :=
  ⟨fun _ => ToTree.keepsPayload_iff, fun _ => FromTree.keepsPayload_iff⟩

def stoppedCall : ToTree where
  path := notePath
  source := ⟨[4, 5, 6], some [4, 5, 6], true⟩
  evictMirrorPayload := false
  answers := honest 3
  conflictWrite := .written
  writing := ⟨true, ⟨noteTree [1, 2, 3], id, none⟩, .stopped 1⟩
  recording := ⟨false, .written⟩

def exportPath : RelPath :=
  ⟨['p', 'd', 'o', 'c', 'k', 'e', 'r', '-', 'e', 'x', 'p', 'o', 'r', 't', 's', '/', 'n'], rfl⟩

def evictedCall : ToTree where
  path := exportPath
  source := ⟨[1], some [2], true⟩
  evictMirrorPayload := true
  answers := honest 1
  conflictWrite := .written
  writing := ⟨true, ⟨.dir [], id, none⟩, .closed 1⟩
  recording := ⟨false, .written⟩

theorem stopped_or_evicted_lost :
    ¬ stoppedCall.KeepsPayload (id : Bytes → Bytes) ⟨noteTree [1, 2, 3], fun _ => .absent⟩ .mirror ∧
      ¬ evictedCall.KeepsPayload (id : Bytes → Bytes) ⟨.dir [], fun _ => .absent⟩ .mirror := by
  constructor
  · intro keeps
    have same := keeps.failed nofun
    exact absurd (Doc.file.inj (Option.some.inj same)) (by decide)
  · intro keeps
    have same := keeps.evicted rfl [2] rfl
    exact absurd (Doc.file.inj (Option.some.inj same)) (by decide)

end PDocker.Saf
