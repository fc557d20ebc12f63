import PDocker.Saf.Independence

/-!
# Writes and outside changes

A document that the mediator has published should never be overwritten unless it still holds what
the mediator last wrote or read there. What was transferred and recorded is kept in a ledger beside
the state, and a run is sound where the records vouch for the ledger and the provider's answers
show every change.
-/

set_option autoImplicit false

namespace PDocker.Saf

open Data

variable {Digest : Type} [DecidableEq Digest]

/-- The last state that was recorded for a path, and the bytes that the mediator last wrote to its
document or read there. -/
structure Ledger (Digest : Type) where
  record : RelPath → Option (Sidecar Digest)
  last : RelPath → Option Bytes

structure Write where
  path : RelPath
  bytes : Bytes
  answers : Answers
  conflictWrite : SidecarWrite
  writing : Writing

def Op.write? : Op → Option Write
  | .copyFileToTree path source _ answers conflictWrite writing _ => some ⟨path, source.copied, answers, conflictWrite, writing⟩
  | .writeFile path source answers conflictWrite writing _ => some ⟨path, source.copied, answers, conflictWrite, writing⟩
  | .writeBytes path bytes answers conflictWrite writing _ => some ⟨path, bytes, answers, conflictWrite, writing⟩
  | _ => none

namespace Write

def checked (sha256 : Bytes → Digest) (state : State Digest) (write : Write) : Sidecars Digest × Check :=
  checkNoProviderConflict sha256 write.answers write.conflictWrite state.tree write.path state.sidecars

def opens (write : Write) : Bool :=
  write.writing.available && write.writing.lookup.fails.isNone &&
    (write.writing.lookup.tree.update write.writing.lookup.rename
      (write.writing.stream.leaf write.bytes) write.path.parts).isSome &&
    !write.writing.onDirectory write.path && write.writing.stream ≠ .notOpened

def Overwrites (sha256 : Bytes → Digest) (state : State Digest) (write : Write) : Prop :=
  (write.checked sha256 state).2 = .passed ∧ write.opens = true

instance (sha256 : Bytes → Digest) (state : State Digest) (write : Write) :
    Decidable (write.Overwrites sha256 state) := inferInstanceAs (Decidable (_ ∧ _))

def wrote (sha256 : Bytes → Digest) (state : State Digest) (write : Write) : Option Bytes :=
  if write.Overwrites sha256 state then
    match write.writing.stream with
    | .notOpened => none
    | .stopped kept => some (write.bytes.take kept)
    | .closed _ => some write.bytes
  else none

end Write

def Op.transferred (sha256 : Bytes → Digest) (state : State Digest) (op : Op) : Option Bytes :=
  match op with
  | .copyFileFromTree path reading recording => (Saf.copyFileFromTree path reading recording state).2
  | op => op.write?.bind (·.wrote sha256 state)

def Ledger.after (sha256 : Bytes → Digest) (state : State Digest) (ledger : Ledger Digest) (op : Op) :
    Ledger Digest where
  record path :=
    if op.path? = some path then (readSidecar (op.step sha256 state).sidecars path).or (ledger.record path)
    else ledger.record path
  last path :=
    if op.path? = some path then (op.transferred sha256 state).or (ledger.last path) else ledger.last path

def Along (sha256 : Bytes → Digest) (holds : State Digest → Ledger Digest → Op → Prop) :
    State Digest → Ledger Digest → List Op → Prop
  | _, _, [] => True
  | state, ledger, op :: ops =>
      holds state ledger op ∧ Along sha256 holds (op.step sha256 state) (ledger.after sha256 state op) ops

def Sidecar.InConflict (sidecar : Sidecar Digest) : Prop := sidecar.conflictState = some .externalProviderChange

def Sidecar.Published (sidecar : Sidecar Digest) : Prop :=
  sidecar.directSafPublished = true ∧ ¬ sidecar.InConflict

def Holds (tree : Doc) (path : RelPath) (bytes : Option Bytes) : Prop :=
  ∃ content, bytes = some content ∧ tree.find path.parts = some (.file content)

structure Guarded (sha256 : Bytes → Digest) (state : State Digest) (ledger : Ledger Digest) (op : Op) : Prop where
  overwrites : ∀ write record, op.write? = some write → ledger.record write.path = some record →
    record.Published → write.Overwrites sha256 state →
      Holds write.writing.lookup.tree write.path (ledger.last write.path)
  changed : ∀ write record, op.write? = some write → ledger.record write.path = some record →
    record.Published → write.writing.available = true →
    ¬ Holds state.tree write.path (ledger.last write.path) → ¬ write.Overwrites sha256 state ∧
        ∃ conflict, (ledger.after sha256 state op).record write.path = some conflict ∧ conflict.InConflict
  refused : ∀ write record, op.write? = some write → ledger.record write.path = some record →
    record.InConflict → ¬ write.Overwrites sha256 state
  stays : ∀ path record, ledger.record path = some record → record.InConflict →
    ∃ conflict, (ledger.after sha256 state op).record path = some conflict ∧ conflict.InConflict ∧
      readSidecar (op.step sha256 state).sidecars path = some conflict

/-- The answers tell the document from the bytes that were last transferred. -/
def Tells (sha256 : Bytes → Digest) (answers : Answers) (record : Sidecar Digest) (found : Option Doc)
    (last : Bytes) : Prop :=
  answers.finds = false ∨ found = none ∨ answers.throws = false ∧
      match record.sha256 with
      | some _ => answers.readable = true ∧ ∃ bytes, found = some (.file bytes) ∧ sha256 bytes ≠ sha256 last
      | none => ∃ size, answers.row = some size ∧ size ≠ last.length

def Op.Records : Op → Prop
  | .syncDirectory _ _ _ recording | .copyFileFromTree _ _ recording
  | .writeMirrorFallbackFile _ _ _ recording => recording = ⟨false, .written⟩
  | .copyFileToTree _ _ _ _ conflictWrite _ recording | .writeFile _ _ _ conflictWrite _ recording
  | .writeBytes _ _ _ conflictWrite _ recording => recording = ⟨false, .written⟩ ∧ conflictWrite = .written
  | .initializeContract .. | .outside _ => True

def Op.Finishes : Op → Prop
  | .copyFileToTree _ _ _ _ _ writing _ | .writeFile _ _ _ _ writing _ | .writeBytes _ _ _ _ writing _ =>
      ∀ kept, writing.stream ≠ .stopped kept
  | .copyFileFromTree _ reading _ => ∀ kept, reading.stream ≠ .stopped kept
  | _ => True

def Op.HashesCopied : Op → Prop
  | .copyFileToTree _ source _ _ _ _ _ | .writeFile _ source _ _ _ _ => ∀ left ∈ source.left, left = source.copied
  | _ => True

structure Sound (sha256 : Bytes → Digest) (state : State Digest) (ledger : Ledger Digest) (op : Op) : Prop where
  records : op.Records
  finishes : op.Finishes
  hashes : op.HashesCopied
  /-- The record has a name that no other record has. -/
  named : ∀ path, op.path? = some path → fileNameFits (sidecarName path) = true ∧
    sidecarName path ≠ contractName ∧
      ∀ other record, ledger.record other = some record → other ≠ path → sidecarName other ≠ sidecarName path
  /-- Nothing changes between the check and the write. -/
  between : ∀ write, op.write? = some write →
    write.writing.lookup.tree.find write.path.parts = state.tree.find write.path.parts
  /-- A published document that was changed is seen to be changed. -/
  tells : ∀ write record last, op.write? = some write → ledger.record write.path = some record →
    record.Published → ledger.last write.path = some last → Holds state.tree write.path (some last) ∨
      Tells sha256 write.answers record (state.tree.find write.path.parts) last
  /-- Of a document in conflict nothing is recorded but by a write, which is refused. -/
  spares : ∀ path record, op.path? = some path → ledger.record path = some record → record.InConflict →
    op.write?.isSome = true ∨ (op.step sha256 state).sidecars = state.sidecars

/-- A record vouches for the bytes by their hash, or else by their size. -/
def Vouches (sha256 : Bytes → Digest) (record : Sidecar Digest) (bytes : Bytes) : Prop :=
  match record.sha256 with
  | some digest => digest = sha256 bytes
  | none => record.size = some bytes.length

structure Faithful (sha256 : Bytes → Digest) (state : State Digest) (ledger : Ledger Digest) : Prop where
  read : ∀ path record, ledger.record path = some record → readSidecar state.sidecars path = some record
  vouches : ∀ path record, ledger.record path = some record → record.Published →
    ∃ last, ledger.last path = some last ∧ Vouches sha256 record last
  known : ∀ name, state.sidecars name ≠ .absent →
    name = contractName ∨ ∃ path record, ledger.record path = some record ∧ name = sidecarName path
  contract : ∀ path record, ledger.record path = some record → sidecarName path ≠ contractName

/-- What an operation leaves for its path: nothing at all, or one record that vouches for what was
transferred. -/
def Outcome (sha256 : Bytes → Digest) (state : State Digest) (op : Op) (path : RelPath) : Prop :=
  (op.step sha256 state).sidecars = state.sidecars ∧ op.transferred sha256 state = none ∨
    ∃ record, (op.step sha256 state).sidecars = writeSidecar (sidecarName path) record .written state.sidecars ∧
      (record.Published → ∃ bytes, op.transferred sha256 state = some bytes ∧ Vouches sha256 record bytes)

variable {answers : Answers} {path : RelPath} {record : Sidecar Digest} {sha256 : Bytes → Digest}
  {sidecars : Sidecars Digest} {tree : Doc} {state : State Digest} {write : Write} {op : Op} {ledger : Ledger Digest}

theorem checkNoProviderConflict_conflict {write : SidecarWrite}
    (read : readSidecar sidecars path = some record) (conflict : record.InConflict) :
    checkNoProviderConflict sha256 answers write tree path sidecars =
      (sidecars, .refused .externalProviderChange) := by
  rw [checkNoProviderConflict, read]
  exact if_pos conflict

theorem checkNoProviderConflict_tells {write : SidecarWrite} {last : Bytes}
    (read : readSidecar sidecars path = some record) (published : record.Published)
    (vouches : Vouches sha256 record last)
    (tells : Tells sha256 answers record (tree.find path.parts) last) :
    ∃ reason, checkNoProviderConflict sha256 answers write tree path sidecars =
      (writeSidecar (sidecarName path) (conflictSidecar record) write sidecars, .refused reason) := by
  have found : ∃ evidence reason, providerEvidence sha256 answers tree path record.sha256.isSome = some evidence ∧
      conflictReason record evidence = some reason := by
    rcases tells with hidden | missing | ⟨quiet, tells⟩
    · refine ⟨.absent, .payloadMissing, ?_, rfl⟩
      rw [providerEvidence, hidden]
      rfl
    · refine ⟨.absent, .payloadMissing, ?_, rfl⟩
      rw [providerEvidence, missing, ite_self]
    unfold providerEvidence
    cases asked : (if answers.finds then tree.find path.parts else none) with
    | none => exact ⟨.absent, .payloadMissing, rfl, rfl⟩
    | some doc =>
        simp only [quiet, Bool.false_eq_true, ↓reduceIte]
        cases hash : record.sha256 with
        | none =>
            rw [hash] at tells
            rw [Vouches, hash] at vouches
            obtain ⟨size, row, other⟩ := tells
            refine ⟨_, .sizeChanged, rfl, ?_⟩
            simp only [conflictReason, Bool.not_true, Bool.false_eq_true, ↓reduceIte, hash, vouches, row, other, ne_eq,
              not_false_eq_true]
        | some expected =>
            rw [hash] at tells
            rw [Vouches, hash] at vouches
            obtain ⟨readable, bytes, content, other⟩ := tells
            obtain rfl : doc = .file bytes := by
              split at asked
              · rw [content] at asked
                exact (Option.some.inj asked).symm
              · cases asked
            refine ⟨_, .hashChanged, rfl, ?_⟩
            obtain rfl : expected = sha256 last := vouches
            simp only [conflictReason, Bool.not_true, Bool.false_eq_true, ↓reduceIte, hash, readable, Option.isSome_some,
              Bool.and_self, other, ne_eq, not_false_eq_true]
  obtain ⟨evidence, reason, asked, against⟩ := found
  have clean : record.conflictState ≠ some .externalProviderChange := published.2
  refine ⟨reason, ?_⟩
  simp only [checkNoProviderConflict, read, if_neg clean, published.1, Bool.not_true, Bool.false_eq_true,
    ↓reduceIte, asked, against]

omit [DecidableEq Digest] in
theorem writeStream_result (write : Write) (finishes : ∀ kept, write.writing.stream ≠ .stopped kept) :
    (writeStream write.writing write.path write.bytes).2 = .ok () ∧ write.opens = true ∨
      (∃ error, (writeStream write.writing write.path write.bytes).2 = .error error) ∧ write.opens = false := by
  unfold writeStream Write.opens resolveDocument
  cases write.writing.available with
  | false => exact .inr ⟨⟨_, rfl⟩, rfl⟩
  | true =>
      cases write.writing.lookup.fails with
      | some depth => exact .inr ⟨⟨_, rfl⟩, rfl⟩
      | none =>
          cases write.writing.lookup.tree.update write.writing.lookup.rename
            (write.writing.stream.leaf write.bytes) write.path.parts with
          | none => exact .inr ⟨⟨_, rfl⟩, rfl⟩
          | some tree =>
              cases stream : write.writing.stream with
              | notOpened => exact .inr ⟨⟨_, rfl⟩, by simp⟩
              | stopped kept => exact absurd stream (finishes kept)
              | closed kept =>
                  cases write.writing.onDirectory write.path with
                  | true => exact .inr ⟨⟨_, rfl⟩, rfl⟩
                  | false => exact .inl ⟨rfl, rfl⟩

theorem wrote_eq
    (finishes : ∀ kept, write.writing.stream ≠ .stopped kept) (overwrites : write.Overwrites sha256 state) :
    write.wrote sha256 state = some write.bytes := by
  have opened := overwrites.2
  rw [Write.wrote, if_pos overwrites]
  cases stream : write.writing.stream with
  | notOpened =>
      rw [Write.opens, stream] at opened
      simp at opened
  | stopped kept => exact absurd stream (finishes kept)
  | closed => rfl

theorem wrote_eq_none (spared : ¬ write.Overwrites sha256 state) : write.wrote sha256 state = none := if_neg spared

theorem not_overwrites_of_check {result : Check}
    (check : write.checked sha256 state = (sidecars, result)) (stopped : result ≠ .passed) :
    ¬ write.Overwrites sha256 state := by
  rintro ⟨passed, -⟩
  rw [check] at passed
  exact stopped passed

omit [DecidableEq Digest] in
theorem vouches_payload {source : Source}
    (hashes : ∀ left ∈ source.left, left = source.copied) (evicted published : Bool) :
    Vouches sha256 (payloadSidecar source.copied.length (if evicted then none else source.left.map sha256) published)
      source.copied := by
  cases evicted with
  | true => rfl
  | false =>
      cases left : source.left with
      | none => rfl
      | some bytes =>
          rw [hashes bytes left]
          rfl

omit [DecidableEq Digest] in
theorem not_published_conflict (previous : Sidecar Digest) : ¬ (conflictSidecar previous).Published :=
  fun published => published.2 rfl

theorem outcome_writeChecked (write : Write)
    (vouches : Vouches sha256 record write.bytes) (finishes : ∀ kept, write.writing.stream ≠ .stopped kept)
    (conflictWritten : write.conflictWrite = .written) (result : CopyResult) (state : State Digest) :
    let after := (writeChecked sha256 write.path write.bytes write.answers write.conflictWrite write.writing record
      ⟨false, .written⟩ result state).1.sidecars
    after = state.sidecars ∧ write.wrote sha256 state = none ∨
      ∃ record, after = writeSidecar (sidecarName write.path) record .written state.sidecars ∧
        (record.Published → ∃ bytes, write.wrote sha256 state = some bytes ∧ Vouches sha256 record bytes) := by
  have only := writesOnly_check sha256 write.answers write.conflictWrite state.tree write.path state.sidecars
  rw [writeChecked]
  cases check : checkNoProviderConflict sha256 write.answers write.conflictWrite state.tree write.path
      state.sidecars with
  | mk sidecars found =>
      rw [check] at only
      cases found with
      | passed =>
          obtain rfl : sidecars = state.sidecars := by
            rcases only with same | ⟨⟨reason, refused⟩, -⟩
            · exact same
            · cases refused
          rcases writeStream_result write finishes with ⟨ok, opened⟩ | ⟨⟨error, failed⟩, unopened⟩
          · right
            refine ⟨record, ?_, fun _ => ⟨write.bytes, wrote_eq finishes ⟨?_, opened⟩, vouches⟩⟩
            · dsimp only
              split
              · rename_i wrote
                rw [wrote] at ok
                cases ok
              · rfl
            · exact congrArg Prod.snd check
          · left
            constructor
            · dsimp only
              split
              · rfl
              · rename_i wrote
                rw [wrote] at failed
                cases failed
            · refine wrote_eq_none ?_
              rintro ⟨-, opened⟩
              rw [unopened] at opened
              cases opened
      | thrown =>
          left
          refine ⟨?_, wrote_eq_none (not_overwrites_of_check check (fun same => by cases same))⟩
          rcases only with same | ⟨⟨reason, refused⟩, -⟩
          · exact same
          · cases refused
      | refused reason =>
          have stopped : ¬ write.Overwrites sha256 state := not_overwrites_of_check check (fun same => by cases same)
          have spared := wrote_eq_none stopped
          rcases only with same | ⟨-, previous, same⟩
          · exact .inl ⟨same, spared⟩
          · rw [conflictWritten] at same
            exact .inr ⟨conflictSidecar previous, same,
              fun published => absurd published (not_published_conflict previous)⟩

theorem outcome_step
    (own : op.path? = some path) (records : op.Records) (finishes : op.Finishes) (hashes : op.HashesCopied) :
    Outcome sha256 state op path := by
  cases op with
  | initializeContract | outside => cases own
  | syncDirectory path available lookup recording =>
      obtain rfl := Option.some.inj own
      obtain rfl : recording = ⟨false, .written⟩ := records
      change (syncDirectory path available lookup _ state).1.sidecars = _ ∧ _ ∨
        ∃ record, (syncDirectory path available lookup _ state).1.sidecars = _ ∧ _
      rw [syncDirectory]
      split
      · exact .inl ⟨rfl, rfl⟩
      · exact .inr ⟨directorySidecar, rfl, fun published => by cases published.1⟩
  | writeMirrorFallbackFile path copied left recording =>
      obtain rfl := Option.some.inj own
      obtain rfl : recording = ⟨false, .written⟩ := records
      cases copied with
      | none => exact .inl ⟨rfl, rfl⟩
      | some copied => exact .inr ⟨_, rfl, fun published => by cases published.1⟩
  | copyFileFromTree path reading recording =>
      obtain rfl := Option.some.inj own
      obtain rfl : recording = ⟨false, .written⟩ := records
      change (copyFileFromTree path reading _ state).1.1.sidecars = _ ∧
          (copyFileFromTree path reading _ state).2 = none ∨
        ∃ record, (copyFileFromTree path reading _ state).1.1.sidecars = _ ∧
          (_ → ∃ bytes, (copyFileFromTree path reading _ state).2 = _ ∧ _)
      unfold copyFileFromTree
      split
      · exact .inl ⟨rfl, rfl⟩
      split
      · exact .inl ⟨rfl, rfl⟩
      · exact .inl ⟨rfl, rfl⟩
      split
      · exact .inl ⟨rfl, rfl⟩
      · rename_i kept stream
        exact absurd stream (finishes kept)
      · exact .inr ⟨_, rfl, fun _ => ⟨_, rfl, rfl⟩⟩
  | copyFileToTree path source evict answers conflictWrite writing recording
  | writeFile path source answers conflictWrite writing recording =>
      obtain rfl := Option.some.inj own
      obtain ⟨rfl, rfl⟩ := records
      exact outcome_writeChecked ⟨path, source.copied, answers, .written, writing⟩
        (vouches_payload hashes _ _) finishes rfl _ state
  | writeBytes path bytes answers conflictWrite writing recording =>
      obtain rfl := Option.some.inj own
      obtain ⟨rfl, rfl⟩ := records
      change (writeBytes sha256 path bytes answers .written writing _ state).1.sidecars = _ ∧ _ ∨
        ∃ record, (writeBytes sha256 path bytes answers .written writing _ state).1.sidecars = _ ∧ _
      rw [writeBytes]
      split
      · rename_i unavailable
        refine .inl ⟨rfl, wrote_eq_none ?_⟩
        rintro ⟨-, opened⟩
        simp only [Write.opens, Bool.eq_false_iff.mpr (Bool.not_eq_true _ ▸ (Bool.not_eq_true' _).mp unavailable),
          Bool.false_and, Bool.false_eq_true] at opened
      · have vouched : Vouches sha256 (payloadSidecar bytes.length (some (sha256 bytes)) true) bytes := rfl
        exact outcome_writeChecked ⟨path, bytes, answers, .written, writing⟩ vouched finishes rfl _ state

theorem Faithful.read_none (faithful : Faithful sha256 state ledger) (fresh : ledger.record path = none)
    (contract : sidecarName path ≠ contractName)
    (apart : ∀ other record, ledger.record other = some record → other ≠ path → sidecarName other ≠ sidecarName path) :
    readSidecar state.sidecars path = none := by
  have absent : state.sidecars (sidecarName path) = .absent := by
    by_contra there
    rcases faithful.known _ there with named | ⟨other, record, listed, named⟩
    · exact contract named
    refine apart other record listed ?_ named.symm
    rintro rfl
    rw [fresh] at listed
    exact nomatch listed
  rw [readSidecar, absent, ite_self]

theorem faithful_step (faithful : Faithful sha256 state ledger) (sound : Sound sha256 state ledger op) :
    Faithful sha256 (op.step sha256 state) (ledger.after sha256 state op) := by
  cases own : op.path? with
  | none =>
      have sameLedger : ledger.after sha256 state op = ledger := by
        simp only [Ledger.after, own, reduceCtorEq, ↓reduceIte]
      rw [sameLedger]
      have only := op.writesOnly_step sha256 state
      have contractOnly : ∀ name, op.Names name → name = contractName := by
        rintro name (named | ⟨path, here, -⟩)
        · exact named
        · rw [own] at here
          exact nomatch here
      refine ⟨fun path record listed => ?_, faithful.vouches, fun name there => ?_, faithful.contract⟩
      · rw [only.readSidecar_eq fun _ name named => ?_]
        · exact faithful.read path record listed
        · rw [contractOnly name named]
          exact (faithful.contract path record listed).symm
      obtain same | ⟨written, sidecar, write, named, same⟩ := only
      · rw [same] at there
        exact faithful.known name there
      obtain rfl := contractOnly written named
      by_cases here : name = contractName
      · exact .inl here
      · refine faithful.known name ?_
        rwa [same, writeSidecar_other here] at there
  | some path =>
      obtain ⟨fits, contract, apart⟩ := sound.named path own
      have outcome : Outcome sha256 state op path := outcome_step own sound.records sound.finishes sound.hashes
      rcases outcome with ⟨same, nothing⟩ | ⟨record, wrote, vouches⟩
      · have sameLedger : ledger.after sha256 state op = ledger := by
          have records : (ledger.after sha256 state op).record = ledger.record := by
            funext other
            simp only [Ledger.after, own, Option.some.injEq]
            split
            · rename_i here
              subst here
              rw [same]
              cases listed : ledger.record path with
              | none => rw [faithful.read_none listed contract apart, Option.none_or]
              | some record => rw [faithful.read path record listed, Option.some_or]
            · rfl
          have lasts : (ledger.after sha256 state op).last = ledger.last := by
            funext other
            simp only [Ledger.after, nothing, Option.none_or, ite_self]
          calc ledger.after sha256 state op
              = ⟨(ledger.after sha256 state op).record, (ledger.after sha256 state op).last⟩ := rfl
            _ = ledger := by rw [records, lasts]
        rw [sameLedger]
        refine ⟨?_, faithful.vouches, ?_, faithful.contract⟩
        · rw [same]
          exact faithful.read
        · rw [same]
          exact faithful.known
      · have listedNow : (ledger.after sha256 state op).record path = some record := by
          simp only [Ledger.after, own, ↓reduceIte, wrote, readSidecar_written fits, Option.some_or]
        have otherRecord : ∀ other, other ≠ path → (ledger.after sha256 state op).record other = ledger.record other := by
          intro other apart
          simp only [Ledger.after, own, Option.some.injEq, if_neg apart.symm]
        have otherLast : ∀ other, other ≠ path → (ledger.after sha256 state op).last other = ledger.last other := by
          intro other apart
          simp only [Ledger.after, own, Option.some.injEq, if_neg apart.symm]
        constructor
        · intro other found listed
          by_cases here : other = path
          · subst here
            rw [listedNow] at listed
            obtain rfl := Option.some.inj listed
            rw [wrote, readSidecar_written fits]
          · rw [otherRecord other here] at listed
            rw [wrote, readSidecar_other fun _ => (apart other found listed here).symm]
            exact faithful.read other found listed
        · intro other found listed published
          by_cases here : other = path
          · subst here
            rw [listedNow] at listed
            obtain rfl := Option.some.inj listed
            obtain ⟨bytes, moved, vouched⟩ := vouches published
            refine ⟨bytes, ?_, vouched⟩
            simp only [Ledger.after, own, ↓reduceIte, moved, Option.some_or]
          · rw [otherRecord other here] at listed
            rw [otherLast other here]
            exact faithful.vouches other found listed published
        · intro name there
          by_cases here : name = sidecarName path
          · exact .inr ⟨path, record, listedNow, here⟩
          rw [wrote, writeSidecar_other here] at there
          refine (faithful.known name there).imp_right ?_
          rintro ⟨other, found, listed, rfl⟩
          have apart : other ≠ path := fun same => here (congrArg sidecarName same)
          exact ⟨other, found, (otherRecord other apart).trans listed, rfl⟩
        · intro other found listed
          by_cases here : other = path
          · rw [here]
            exact contract
          · rw [otherRecord other here] at listed
            exact faithful.contract other found listed

variable (writes : op.write? = some write)

include writes

theorem Op.path?_of_write? : op.path? = some write.path := by
  cases op with
  | copyFileToTree | writeFile | writeBytes =>
      obtain rfl := Option.some.inj writes
      rfl
  | initializeContract | syncDirectory | copyFileFromTree | writeMirrorFallbackFile | outside => exact nomatch writes

theorem Op.conflictWrite_of_records (records : op.Records) : write.conflictWrite = .written := by
  cases op with
  | copyFileToTree | writeFile | writeBytes =>
      obtain rfl := Option.some.inj writes
      exact records.2
  | initializeContract | syncDirectory | copyFileFromTree | writeMirrorFallbackFile | outside => exact nomatch writes

theorem step_refused {reason : ConflictReason}
    (check : write.checked sha256 state = (sidecars, .refused reason)) :
    (op.step sha256 state).sidecars = sidecars ∨
      write.writing.available = false ∧ (op.step sha256 state).sidecars = state.sidecars := by
  cases op with
  | initializeContract | syncDirectory | copyFileFromTree | writeMirrorFallbackFile | outside => exact nomatch writes
  | copyFileToTree path source evict answers conflictWrite writing recording =>
      obtain rfl := Option.some.inj writes
      change checkNoProviderConflict sha256 answers conflictWrite state.tree path state.sidecars = _ at check
      left
      change (copyFileToTree sha256 path source evict answers conflictWrite writing recording state).1.sidecars = _
      rw [copyFileToTree, writeChecked, check]
  | writeFile path source answers conflictWrite writing recording =>
      obtain rfl := Option.some.inj writes
      change checkNoProviderConflict sha256 answers conflictWrite state.tree path state.sidecars = _ at check
      left
      change (writeFile sha256 path source answers conflictWrite writing recording state).1.sidecars = _
      rw [writeFile, copyFileToTree, writeChecked, check]
  | writeBytes path bytes answers conflictWrite writing recording =>
      obtain rfl := Option.some.inj writes
      change checkNoProviderConflict sha256 answers conflictWrite state.tree path state.sidecars = _ at check
      change (writeBytes sha256 path bytes answers conflictWrite writing recording state).1.sidecars = _ ∨
        writing.available = false ∧ (writeBytes sha256 path bytes answers conflictWrite writing recording state).1.sidecars = _
      rw [writeBytes]
      cases writing.available with
      | false => exact .inr ⟨rfl, rfl⟩
      | true =>
          left
          rw [Bool.not_true, if_neg Bool.false_ne_true, writeChecked, check]

omit writes

theorem guarded_of_sound (faithful : Faithful sha256 state ledger) (sound : Sound sha256 state ledger op) :
    Guarded sha256 state ledger op := by
  have told : ∀ write record, op.write? = some write → ledger.record write.path = some record → record.Published →
      Holds state.tree write.path (ledger.last write.path) ∨ ∃ reason, write.checked sha256 state =
          (writeSidecar (sidecarName write.path) (conflictSidecar record) .written state.sidecars, .refused reason) := by
    intro write record writes listed published
    obtain ⟨last, transferred, vouches⟩ := faithful.vouches write.path record listed published
    rcases sound.tells write record last writes listed published transferred with holds | tells
    · rw [transferred]
      exact .inl holds
    · right
      rw [← Op.conflictWrite_of_records writes sound.records]
      exact checkNoProviderConflict_tells (faithful.read write.path record listed) published vouches tells
  have stopped : ∀ write record, op.write? = some write → ledger.record write.path = some record →
      record.InConflict → write.checked sha256 state = (state.sidecars, .refused .externalProviderChange) := by
    intro write record writes listed conflict
    exact checkNoProviderConflict_conflict (faithful.read write.path record listed) conflict
  constructor
  · intro write record writes listed published overwrites
    rcases told write record writes listed published with ⟨content, last, found⟩ | ⟨reason, check⟩
    · exact ⟨content, last, (sound.between write writes).trans found⟩
    · exact absurd overwrites (not_overwrites_of_check check nofun)
  · intro write record writes listed published available changed
    obtain ⟨reason, check⟩ := (told write record writes listed published).resolve_left changed
    refine ⟨not_overwrites_of_check check nofun, conflictSidecar record, ?_, rfl⟩
    have own := Op.path?_of_write? writes
    rcases step_refused writes check with same | ⟨unavailable, -⟩
    · simp only [Ledger.after, own, ↓reduceIte, same, readSidecar_written (sound.named write.path own).1,
        Option.some_or]
    · rw [available] at unavailable
      exact nomatch unavailable
  · intro write record writes listed conflict
    exact not_overwrites_of_check (stopped write record writes listed conflict) nofun
  intro path record listed conflict
  have kept : (ledger.after sha256 state op).record path = some record := by
    by_cases own : op.path? = some path
    · have same : (op.step sha256 state).sidecars = state.sidecars := by
        rcases sound.spares path record own listed conflict with writes | same
        · obtain ⟨write, writes⟩ := Option.isSome_iff_exists.mp writes
          obtain rfl : write.path = path := Option.some.inj ((Op.path?_of_write? writes).symm.trans own)
          rcases step_refused writes (stopped write record writes listed conflict) with same | ⟨-, same⟩
          · exact same
          · exact same
        · exact same
      simp only [Ledger.after, own, ↓reduceIte, same, faithful.read path record listed, Option.some_or]
    · simp only [Ledger.after, if_neg own, listed]
  exact ⟨record, kept, conflict, (faithful_step faithful sound).read path record kept⟩

def Ledger.empty : Ledger Digest where
  record _ := none
  last _ := none

omit [DecidableEq Digest] in
theorem faithful_empty (sha256 : Bytes → Digest) (tree : Doc) :
    Faithful sha256 (⟨tree, fun _ => .absent⟩ : State Digest) .empty where
  read := nofun
  vouches := nofun
  known _ there := absurd rfl there
  contract := nofun

theorem along_guarded {ops : List Op}
    (faithful : Faithful sha256 state ledger) (sound : Along sha256 (Sound sha256) state ledger ops) :
    Along sha256 (Guarded sha256) state ledger ops := by
  induction ops generalizing state ledger with
  | nil => trivial
  | cons op ops ih =>
      exact ⟨guarded_of_sound faithful sound.1, ih (faithful_step faithful sound.1) sound.2⟩

def notePath : RelPath := ⟨['n'], rfl⟩

def noteTree (bytes : Bytes) : Doc := .dir [(['n'], .file bytes)]

def honest (size : Int) : Answers where
  finds := true
  throws := false
  row := some size
  readable := true

def writeNote (size : Int) (before : Doc) (bytes : Bytes) : Op :=
  .writeBytes notePath bytes (honest size) .written ⟨true, ⟨before, id, none⟩, .closed bytes.length⟩ ⟨false, .written⟩

theorem sound_outside (sha256 : Bytes → Digest) (state : State Digest) (ledger : Ledger Digest) (tree : Doc) :
    Sound sha256 state ledger (.outside tree) where
  records := trivial
  finishes := trivial
  hashes := trivial
  named _ own := nomatch own
  between _ writes := nomatch writes
  tells _ _ _ writes := nomatch writes
  spares _ _ own := nomatch own

theorem sound_writeNote (state : State Bytes) (size : Int) (bytes : Bytes) :
    Sound id state .empty (writeNote size state.tree bytes) where
  records := ⟨rfl, rfl⟩
  finishes _ := nofun
  hashes := trivial
  named path own := by
    obtain rfl : notePath = path := Option.some.inj own
    exact ⟨rfl, by decide, fun _ _ listed => nomatch listed⟩
  between write writes := by
    obtain rfl := Option.some.inj writes
    rfl
  tells _ _ _ _ listed := nomatch listed
  spares _ _ _ listed := nomatch listed

end PDocker.Saf
