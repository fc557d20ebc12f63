import PDocker.Images.Prune
import PDocker.Images.Staging

/-!
# Pulls that stop anywhere

Pulls of one reference, each completed, raised or killed between any two steps,
with the clean-up run in between. The image is the one published last, or its
one backup is, and the next clean-up puts that back.
-/

set_option autoImplicit false

namespace PDocker.Images

open Data Layers

section
variable {Tree : Type}

structure Watched (Tree : Type) where
  store : Store Tree
  published : Option (ImageDir Tree)

def publishes (ref : Text) : Act Tree → Bool
  | .move .images source target => contains pullMarker source && target = imageToPath ref
  | _ => false

def restores (ref : Text) : Act Tree → Bool
  | .move .images source target =>
      contains oldMarker source && !contains pullMarker source && target = imageToPath ref
  | _ => false

def watching (ref : Text) (mayFail : Act Tree → Prop) :
    Machine (Act Tree) (Store Tree) (Watched Tree) where
  view := Watched.store
  does act state after := act.apply state.store = some after.store ∧ after.published =
      if publishes ref act then after.store.image (imageToPath ref) else state.published
  raises act state := act.apply state.store = none ∨ (act.isCheck = false ∧ mayFail act)

@[simp] theorem watching_view (ref : Text) (mayFail : Act Tree → Prop) (now : Watched Tree) :
    (watching ref mayFail).view now = now.store := rfl

def isBackupOf (ref name : Text) : Bool :=
  contains oldMarker name && !contains pullMarker name && before oldMarker name = imageToPath ref

/-- What `uuid` and `sha256` promise: new names of hexadecimal digits, and digests. -/
structure Draw.Genuine (draw : Draw Tree) (ref : Text) (store : Store Tree) : Prop where
  stageNew : store.image (draw.stage ref) = none
  backupHex : '.' ∉ draw.backupId
  digests : ∀ blob ∈ draw.blobs, isDigest blob.digest = true

/-- `os.listdir` names what is there, in any order. -/
def Sweep.Genuine (sweep : Sweep Tree) : Prop :=
  ∀ names name, name ∈ sweep.listing names ↔ name ∈ names

/-- Pulls of one reference and clean-ups, one after the other, each left at any
step. -/
inductive History (ops : TreeOps Tree) (ref : Text) (mayFail : Act Tree → Prop)
    (mayStart : Store Tree → Prop) (start : Watched Tree) : Watched Tree → Prop where
  | start : History ops ref mayFail mayStart start start
  | pull (now after : Watched Tree) (draw : Draw Tree) (left : ImageScript Tree) :
      History ops ref mayFail mayStart start now → mayStart now.store → draw.Genuine ref now.store →
      (watching ref mayFail).Steps (pullImage ops ref draw, now) (left, after) →
      History ops ref mayFail mayStart start after
  | prune (now after : Watched Tree) (sweep : Sweep Tree) (left : ImageScript Tree) :
      History ops ref mayFail mayStart start now → sweep.Genuine →
      (watching ref mayFail).Steps (pruneBuildArtifacts sweep (.done true), now) (left, after) →
      History ops ref mayFail mayStart start after

/-- The image is whole and published, or not there and nothing is left of it. -/
structure Begins (ops : TreeOps Tree) (ref : Text) (start : Watched Tree) : Prop where
  image : start.store.image (imageToPath ref) = start.published
  whole : ∀ dir, start.published = some dir → start.store.Whole ops ref dir
  clean : ∀ name, isBackupOf ref name = true → start.store.image name = none

/-- The image that can be seen is the one published last and complete, and after
the next clean-up it can be seen if there ever was one. -/
structure CrashSafe (ops : TreeOps Tree) (ref : Text) (mayFail : Act Tree → Prop)
    (now : Watched Tree) : Prop where
  shown : ∀ dir, now.store.image (imageToPath ref) = some dir → now.published = some dir ∧
    now.store.imageDirComplete (imageToPath ref) (some ref) = true ∧ now.store.Whole ops ref dir
  restored : ∀ (sweep : Sweep Tree) ok after, sweep.Genuine →
    (watching ref mayFail).Steps (pruneBuildArtifacts sweep (.done true), now) (.done ok, after) →
    after.published = now.published ∧ after.store.image (imageToPath ref) = now.published

structure PlainRef (ref : Text) : Prop where
  named : ref ≠ []
  trimmed : stripSpace ref = ref
  noPull : contains pullMarker (imageToPath ref) = false
  noOld : contains oldMarker (imageToPath ref) = false

def NoLeftover (ref : Text) (store : Store Tree) : Prop :=
  (store.image (imageToPath ref)).isSome = true →
    ∀ name, isBackupOf ref name = true → store.image name = none

theorem contains_stage (draw : Draw Tree) (ref : Text) : contains pullMarker (draw.stage ref) = true :=
  contains_iff.mpr ⟨imageToPath ref, draw.stageId, rfl⟩

theorem isBackupOf_stage (draw : Draw Tree) (ref : Text) : isBackupOf ref (draw.stage ref) = false := by
  simp [isBackupOf, contains_stage]

theorem isBackupOf_image {ref : Text} (plain : PlainRef ref) : isBackupOf ref (imageToPath ref) = false := by
  simp [isBackupOf, plain.noOld]

theorem stage_ne_image {ref : Text} (plain : PlainRef ref) (draw : Draw Tree) :
    draw.stage ref ≠ imageToPath ref := by
  intro same
  have marked := contains_stage draw ref
  rw [same, plain.noPull] at marked
  cases marked

theorem isBackupOf_backup {ref : Text} (plain : PlainRef ref) {draw : Draw Tree}
    (hex : '.' ∉ draw.backupId) : isBackupOf ref (draw.backup ref) = true := by
  have shape : draw.backup ref = imageToPath ref ++ (oldMarker ++ draw.backupId) :=
    List.append_assoc _ _ _
  have old : contains oldMarker (draw.backup ref) = true :=
    contains_iff.mpr ⟨imageToPath ref, draw.backupId, rfl⟩
  have noPull := plain.noPull
  have noOld := plain.noOld
  rw [pullMarker_eq] at noPull
  rw [oldMarker_eq] at shape noOld
  have pull : contains pullMarker (draw.backup ref) = false := by
    rw [← Bool.not_eq_true, pullMarker_eq, shape]
    intro marked
    rcases contains_append (by decide) marked with front | rest
    · rw [noPull] at front
      cases front
    rw [contains_iff] at rest
    rcases List.infix_cons_iff.mp rest with front | inner
    · exact absurd (List.cons_prefix_cons.mp (List.cons_prefix_cons.mp front).2).1 (by decide)
    have dot : '.' ∈ ['o', 'l', 'd', '-'] ++ draw.backupId := inner.subset List.mem_cons_self
    rcases List.mem_append.mp dot with inside | inside
    · exact absurd inside (by decide)
    · exact hex inside
  have base : before oldMarker (draw.backup ref) = imageToPath ref := by
    rw [shape, oldMarker_eq]
    exact before_append (by decide) noOld
  simp [isBackupOf, old, pull, base]

structure Safe (ops : TreeOps Tree) (ref : Text) (now : Watched Tree) : Prop where
  shown : ∀ dir, now.store.image (imageToPath ref) = some dir →
    now.published = some dir ∧ now.store.Whole ops ref dir
  hidden : now.store.image (imageToPath ref) = none →
    (now.published = none ∧ ∀ name, isBackupOf ref name = true → now.store.image name = none) ∨
      ∃ backup dir, now.published = some dir ∧ now.store.Whole ops ref dir ∧
        now.store.image backup = some dir ∧ isBackupOf ref backup = true ∧
        ∀ name, isBackupOf ref name = true → (now.store.image name).isSome = true → name = backup

def Act.Quiet (ref : Text) (act : Act Tree) : Prop :=
  ∀ name, name = imageToPath ref ∨ isBackupOf ref name = true → Place.image name ∉ act.touches

section
variable {ops : TreeOps Tree} {ref : Text} {mayFail : Act Tree → Prop} {now after : Watched Tree}
  {act : Act Tree}

theorem published_of_quiet (quiet : act.Quiet ref) (does : (watching ref mayFail).does act now after) :
    after.published = now.published := by
  have silent : publishes ref act = false := by
    cases act with
    | move area source target =>
        cases area with
        | images =>
            by_cases same : target = imageToPath ref
            · subst same
              exact absurd (List.mem_cons_of_mem _ List.mem_cons_self) (quiet _ (.inl rfl))
            · simp [publishes, same]
        | _ => rfl
    | _ => rfl
  simpa [silent] using does.2

variable {name : Text}

theorem image_of_quiet (quiet : act.Quiet ref) (does : (watching ref mayFail).does act now after)
    (watched : name = imageToPath ref ∨ isBackupOf ref name = true) :
    after.store.image name = now.store.image name :=
  Act.lookup_untouched does.1 (quiet name watched)

theorem Safe.quiet (safe : Safe ops ref now) (quiet : act.Quiet ref)
    (does : (watching ref mayFail).does act now after) (extend : now.store.Extends after.store) :
    Safe ops ref after := by
  have image := image_of_quiet quiet does (.inl rfl)
  have backups : ∀ name, isBackupOf ref name = true → after.store.image name = now.store.image name :=
    fun name backup => image_of_quiet quiet does (.inr backup)
  have published := published_of_quiet quiet does
  constructor
  · intro dir found
    obtain ⟨last, whole⟩ := safe.shown dir (image ▸ found)
    exact ⟨published.trans last, extend.whole whole⟩
  intro absent
  rcases safe.hidden (image ▸ absent) with ⟨never, clean⟩ | ⟨backup, dir, last, whole, found, own, only⟩
  · exact .inl ⟨published.trans never, fun name backup => (backups name backup).trans (clean name backup)⟩
  · refine .inr ⟨backup, dir, published.trans last, extend.whole whole,
      (backups backup own).trans found, own, fun name other there => only name other ?_⟩
    rwa [← backups name other]

theorem NoLeftover.quiet (clean : NoLeftover ref now.store) (quiet : act.Quiet ref)
    (does : (watching ref mayFail).does act now after) : NoLeftover ref after.store := by
  intro there name backup
  rw [image_of_quiet quiet does (.inl rfl)] at there
  rw [image_of_quiet quiet does (.inr backup)]
  exact clean there name backup

theorem Act.Spares.quiet {store : Store Tree} (spares : act.Spares store) : act.Quiet ref := by
  intro name _ touched
  obtain ⟨_, same, _⟩ := spares _ touched
  cases same

theorem quiet_of_image (touches : act.touches = [.image name])
    (other : name ≠ imageToPath ref) (plain : isBackupOf ref name = false) : act.Quiet ref := by
  intro watched shape touched
  rw [touches, List.mem_singleton, Place.mk.injEq] at touched
  rw [touched.2] at shape
  rcases shape with same | backup
  · exact other same
  · rw [plain] at backup
    cases backup

theorem extends_of_image (touches : act.touches = [.image name])
    (does : (watching ref mayFail).does act now after) : now.store.Extends after.store :=
  Act.extends does.1 fun _ _ touched => by simp [touches] at touched

theorem Safe.shed (safe : Safe ops ref now) (there : (now.store.image (imageToPath ref)).isSome = true)
    (touches : act.touches = [.image name]) (other : name ≠ imageToPath ref)
    (silent : publishes ref act = false) (does : (watching ref mayFail).does act now after) :
    Safe ops ref after ∧ after.published = now.published ∧
      (after.store.image (imageToPath ref)).isSome = true := by
  have image : after.store.image (imageToPath ref) = now.store.image (imageToPath ref) := by
    apply Act.lookup_untouched does.1
    simp [touches, Ne.symm other]
  have published : after.published = now.published := by simpa [silent] using does.2
  refine ⟨⟨fun dir found => ?_, fun absent => ?_⟩, published, image ▸ there⟩
  · obtain ⟨last, whole⟩ := safe.shown dir (image ▸ found)
    exact ⟨published.trans last, (extends_of_image touches does).whole whole⟩
  · rw [← image, absent] at there
    cases there

theorem Safe.restored (safe : Safe ops ref now) (backup : isBackupOf ref name = true)
    (does : (watching ref mayFail).does (.move .images name (imageToPath ref)) now after) :
    Safe ops ref after ∧ after.published = now.published ∧
      (after.store.image (imageToPath ref)).isSome = true := by
  obtain ⟨landed, absent, _⟩ := lookup_of_move does.1
  have silent : publishes ref (.move .images name (imageToPath ref) : Act Tree) = false := by
    simp only [isBackupOf, Bool.and_eq_true, Bool.not_eq_true'] at backup
    simp [publishes, backup.1.2]
  have published : after.published = now.published := by simpa [silent] using does.2
  have extend : now.store.Extends after.store :=
    Act.extends does.1 fun _ _ touched => by simp [Act.touches] at touched
  cases found : now.store.image name with
  | none =>
      have missing : now.store.lookup (.image name) = none := found
      have applied := does.1
      simp [Act.apply, missing] at applied
  | some dir =>
      rcases safe.hidden absent with ⟨_, clean⟩ | ⟨only, last, published_last, whole, there, _, unique⟩
      · rw [clean name backup] at found
        cases found
      have same : name = only := unique name backup (by rw [found]; rfl)
      subst same
      rw [found, Option.some.injEq] at there
      subst there
      have shown : after.store.image (imageToPath ref) = some dir := landed.trans found
      refine ⟨⟨fun other other_found => ?_, fun gone => ?_⟩, published, ?_⟩
      · rw [shown, Option.some.injEq] at other_found
        subst other_found
        exact ⟨published.trans published_last, extend.whole whole⟩
      · rw [shown] at gone
        cases gone
      · rw [shown]
        rfl

end

section
variable {ops : TreeOps Tree} {ref : Text} {mayFail : Act Tree → Prop} {draw : Draw Tree}

private abbrev pullContract (ops : TreeOps Tree) (ref : Text) : Contract (Watched Tree) :=
  .alone (Safe ops ref) fun _ => Safe ops ref

private theorem removes_backup {name : Text} (other : name ≠ imageToPath ref) :
    Removes (watching ref mayFail) (pullContract ops ref) (.image name)
      (fun now => Safe ops ref now ∧ (now.store.image (imageToPath ref)).isSome = true)
      (fun now => Safe ops ref now ∧ (now.store.image (imageToPath ref)).isSome = true) where
  inv := fun own => own.1
  rely := fun own same => same ▸ own
  lose := fun own does =>
    have kept := own.1.shed own.2 rfl other rfl does
    ⟨trivial, kept.1, kept.2.2⟩
  drop := fun own does =>
    have kept := own.1.shed own.2 rfl other rfl does
    ⟨trivial, kept.1, kept.2.2⟩

private theorem holds_finishPull (plain : PlainRef ref) (hex : '.' ∉ draw.backupId) (ok : Bool)
    {now : Watched Tree} (safe : Safe ops ref now)
    (fine : (now.store.image (imageToPath ref)).isSome = true ∨
      now.store.image (draw.backup ref) = none) :
    Holds (watching ref mayFail) (pullContract ops ref) (finishPull ref draw ok) now := by
  have other : draw.backup ref ≠ imageToPath ref := by
    intro same
    have backup := isBackupOf_backup plain hex
    rw [same, isBackupOf_image plain] at backup
    cases backup
  have stop : ∀ state, Safe ops ref state →
      Holds (watching ref mayFail) (pullContract ops ref) (.done ok) state :=
    fun state safe now same => same ▸ safe
  rcases fine with there | gone
  · exact (removes_backup other).holds_quietly (fun state own => stop state own.1)
      (fun state own => stop state own.1) _ ⟨safe, there⟩
  intro state same
  subst same
  refine ⟨safe, ?_⟩
  have absent : (now.store.lookup (.image (draw.backup ref))).isSome = false := by
    rw [show now.store.lookup (.image (draw.backup ref)) = none from gone]
    rfl
  simp only [watching_view, absent]
  exact stop now safe

private theorem holds_recoverPull (plain : PlainRef ref) (hex : '.' ∉ draw.backupId)
    (mends : ∀ act, mayFail act → restores ref act = false)
    {now : Watched Tree} (safe : Safe ops ref now) :
    Holds (watching ref mayFail) (pullContract ops ref) (recoverPull ref draw) now := by
  have backup := isBackupOf_backup plain hex
  have cleanup : ∀ {now : Watched Tree}, Safe ops ref now →
      ((now.store.image (imageToPath ref)).isSome = true ∨ now.store.image (draw.backup ref) = none) →
      Holds (watching ref mayFail) (pullContract ops ref)
        (removeQuietly (.image (draw.stage ref)) draw.lossesStage (finishPull ref draw false)) now := by
    intro now safe fine
    have kept : ∀ {act : Act Tree} {now after : Watched Tree}, act.touches = [.image (draw.stage ref)] →
        (Safe ops ref now ∧ ((now.store.image (imageToPath ref)).isSome = true ∨
          now.store.image (draw.backup ref) = none)) →
        (watching ref mayFail).does act now after →
        Safe ops ref after ∧ ((after.store.image (imageToPath ref)).isSome = true ∨
          after.store.image (draw.backup ref) = none) := by
      intro act now after touches own does
      have quiet := quiet_of_image touches (stage_ne_image plain draw) (isBackupOf_stage draw ref)
      rw [image_of_quiet quiet does (.inl rfl), image_of_quiet quiet does (.inr backup)]
      exact ⟨own.1.quiet quiet does (extends_of_image touches does), own.2⟩
    have removes : Removes (watching ref mayFail) (pullContract ops ref) (.image (draw.stage ref))
        (fun now => Safe ops ref now ∧ ((now.store.image (imageToPath ref)).isSome = true ∨
          now.store.image (draw.backup ref) = none))
        (fun now => Safe ops ref now ∧ ((now.store.image (imageToPath ref)).isSome = true ∨
          now.store.image (draw.backup ref) = none)) :=
      { inv := fun own => own.1
        rely := fun own same => same ▸ own
        lose := fun own does => ⟨trivial, kept rfl own does⟩
        drop := fun own does => ⟨trivial, kept rfl own does⟩ }
    exact removes.holds_quietly (fun state own => holds_finishPull plain hex false own.1 own.2)
      (fun state own => holds_finishPull plain hex false own.1 own.2) _ ⟨safe, fine⟩
  intro state same
  subst same
  refine ⟨safe, ?_⟩
  dsimp only
  split
  · rename_i restore
    simp only [watching_view, Bool.and_eq_true, Option.isNone_iff_eq_none] at restore
    obtain ⟨dir, found⟩ := Option.isSome_iff_exists.mp restore.1
    intro state same
    subst same
    refine ⟨safe, fun raises => ?_, fun after does => ⟨trivial, ?_⟩⟩
    · rcases raises with impossible | ⟨_, fails⟩
      · have there : now.store.lookup (.image (draw.backup ref)) = some dir := found
        have absent : now.store.lookup (.image (imageToPath ref)) = none := restore.2
        simp [Act.apply, there, absent] at impossible
      · have spared := mends _ fails
        simp only [isBackupOf, Bool.and_eq_true] at backup
        simp [restores, backup.1.1, backup.1.2] at spared
    · obtain ⟨kept, _, there⟩ := safe.restored backup does
      exact cleanup kept (.inl there)
  · rename_i restore
    simp only [watching_view] at restore
    apply cleanup safe
    cases image : now.store.image (imageToPath ref) with
    | some dir => exact .inl rfl
    | none =>
        cases own : now.store.image (draw.backup ref) with
        | none => exact .inr rfl
        | some dir => simp [image, own] at restore

variable {dir : ImageDir Tree}

private theorem holds_publishPull (plain : PlainRef ref) (hex : '.' ∉ draw.backupId)
    (mends : ∀ act, mayFail act → restores ref act = false) {now : Watched Tree}
    (safe : Safe ops ref now) (clean : NoLeftover ref now.store)
    (staged : now.store.image (draw.stage ref) = some dir) (whole : now.store.Whole ops ref dir) :
    Holds (watching ref mayFail) (pullContract ops ref) (publishPull ref draw) now := by
  have backup := isBackupOf_backup plain hex
  have recover : ∀ state, Safe ops ref state →
      Holds (watching ref mayFail) (pullContract ops ref) (recoverPull ref draw) state :=
    fun state safe => holds_recoverPull plain hex mends safe
  have replace : ∀ now : Watched Tree, Safe ops ref now →
      now.store.image (draw.stage ref) = some dir → now.store.Whole ops ref dir →
      Holds (watching ref mayFail) (pullContract ops ref)
        (.act (.move .images (draw.stage ref) (imageToPath ref)) (finishPull ref draw true)
          (recoverPull ref draw)) now := by
    intro now safe staged whole state same
    subst same
    refine ⟨safe, fun _ => recover now safe, fun after does => ⟨trivial, ?_⟩⟩
    obtain ⟨landed, _, _⟩ := lookup_of_move does.1
    have shown : after.store.image (imageToPath ref) = some dir := landed.trans staged
    have loud : publishes ref (.move .images (draw.stage ref) (imageToPath ref) : Act Tree) = true := by
      simp [publishes, contains_stage]
    have published : after.published = some dir := by
      rw [← shown]
      simpa [loud] using does.2
    have extend : now.store.Extends after.store :=
      Act.extends does.1 fun _ _ touched => by simp [Act.touches] at touched
    apply holds_finishPull plain hex
    · refine ⟨fun other found => ?_, fun gone => ?_⟩
      · rw [shown, Option.some.injEq] at found
        subst found
        exact ⟨published, extend.whole whole⟩
      · rw [shown] at gone
        cases gone
    · rw [shown]
      exact .inl rfl
  intro state same
  subst same
  refine ⟨safe, ?_⟩
  dsimp only
  split
  · rename_i there
    intro state same
    subst same
    refine ⟨safe, fun _ => recover now safe, fun after does => ⟨trivial, ?_⟩⟩
    obtain ⟨image, found⟩ := Option.isSome_iff_exists.mp there
    obtain ⟨last, complete⟩ := safe.shown image found
    obtain ⟨landed, _, gone⟩ := lookup_of_move does.1
    have silent : publishes ref (.move .images (imageToPath ref) (draw.backup ref) : Act Tree) = false := by
      simp [publishes, plain.noPull]
    have published : after.published = now.published := by simpa [silent] using does.2
    have extend : now.store.Extends after.store :=
      Act.extends does.1 fun _ _ touched => by simp [Act.touches] at touched
    have others : ∀ name, name ≠ imageToPath ref → name ≠ draw.backup ref →
        after.store.image name = now.store.image name := by
      intro name notImage notBackup
      apply Act.lookup_untouched does.1
      simp [Act.touches, notImage, notBackup]
    apply replace after
    · refine ⟨fun other found => ?_, fun _ => .inr ⟨draw.backup ref, image, published.trans last,
        extend.whole complete, landed.trans found, backup, fun name other present => ?_⟩⟩
      · rw [show after.store.image (imageToPath ref) = none from gone] at found
        cases found
      by_cases own : name = draw.backup ref
      · exact own
      have notImage : name ≠ imageToPath ref := by
        intro same
        rw [same, isBackupOf_image plain] at other
        cases other
      rw [others name notImage own, clean there name other] at present
      cases present
    · rw [others _ (stage_ne_image plain draw) ?_, staged]
      intro same
      rw [← same, isBackupOf_stage] at backup
      cases backup
    · exact extend.whole whole
  · exact replace now safe staged whole

private theorem pull_shelter (plain : PlainRef ref) :
    ImageShelter (watching ref mayFail) (pullContract ops ref) (fun _ _ => True) (draw.stage ref)
      (fun now => Safe ops ref now ∧ NoLeftover ref now.store) where
  sound := fun does => does.1
  refused := by
    intro did state raises
    rcases raises with impossible | ⟨notCheck, _⟩
    · simpa [Act.apply] using impossible
    · cases notCheck
  inv := fun own => own.1
  rely := fun own same => same ▸ own
  rely_marks := fun same _ => ⟨trivial, same ▸ rfl⟩
  rely_missing := fun same absent => same ▸ absent
  marks := fun _ _ => trivial
  marks_found := fun _ => trivial
  spares := fun own does spares =>
    ⟨trivial, own.1.quiet spares.quiet does (spares.extends does.1), own.2.quiet spares.quiet does⟩
  fills := by
    intro act state after dir own _ shape does
    have touches : act.touches = [.image (draw.stage ref)] := by
      rcases shape with rfl | ⟨change, rfl, _⟩ <;> rfl
    have quiet := quiet_of_image touches (stage_ne_image plain draw) (isBackupOf_stage draw ref)
    exact ⟨trivial, own.1.quiet quiet does (extends_of_image touches does), own.2.quiet quiet does⟩

private abbrev Pulling (ops : TreeOps Tree) (ref : Text) (mayFail : Act Tree → Prop) (draw : Draw Tree)
    (held : List (Text × Tree)) (dir : ImageDir Tree) (now : Watched Tree) : Prop :=
  Filling (watching ref mayFail) (fun _ _ => True) (draw.stage ref)
      (fun now => Safe ops ref now ∧ NoLeftover ref now.store) dir now ∧
    Fetching (watching ref mayFail) (fun _ _ => True)
      (fun now => Safe ops ref now ∧ NoLeftover ref now.store) held none now

private theorem holds_fillStage (plain : PlainRef ref) (hex : '.' ∉ draw.backupId)
    (mends : ∀ act, mayFail act → restores ref act = false) {held : List (Text × Tree)}
    {trees : List Tree}
    (layers : List.Forall₂ (fun did tree => (did, tree) ∈ held)
      (draw.config.diffIds.map bareDiffId) trees)
    (fresh : dir.rootfs = none) {now : Watched Tree}
    (own : Pulling ops ref mayFail draw held dir now) :
    Holds (watching ref mayFail) (pullContract ops ref)
      (saveImageManifest (draw.stage ref) (draw.config.diffIds.map bareDiffId) draw.config
        (mergeLayersInto ops (.image (draw.stage ref)) (draw.config.diffIds.map bareDiffId)
          (writeRef (draw.stage ref) ref (publishPull ref draw) (recoverPull ref draw))
          (recoverPull ref draw))
        (recoverPull ref draw)) now := by
  have work := (@pull_shelter Tree ops ref mayFail draw plain).imageWork held
  have recover : ∀ dir state, Pulling ops ref mayFail draw held dir state →
      Holds (watching ref mayFail) (pullContract ops ref) (recoverPull ref draw) state :=
    fun _ state own => holds_recoverPull plain hex mends own.1.base.1
  refine work.holds_saveImageManifest (fun state saved => ?_) recover own
  have stays : List.Forall₂ (fun did tree => ∀ dir state, Pulling ops ref mayFail draw held dir state →
      ((watching ref mayFail).view state).HoldsLayer did tree)
      (draw.config.diffIds.map bareDiffId) trees :=
    layers.imp fun did tree member dir state own => (own.2.held _ member).2
  have unmerged : ({ dir with
      manifest := some ((draw.config.diffIds.map bareDiffId).map fullDiffId)
      config := some draw.config } : ImageDir Tree).rootfs = none := fresh
  refine work.holds_mergeLayersInto ops stays unmerged (fun state merged => ?_) recover saved
  refine work.holds_writeRef (fun state after written does => ?_) recover merged
  have touches : (Act.edit (.image (draw.stage ref)) fun dir : ImageDir Tree =>
      { dir with imageRef := some ref }).touches = [.image (draw.stage ref)] := rfl
  have quiet := quiet_of_image touches (stage_ne_image plain draw) (isBackupOf_stage draw ref)
  have extend := extends_of_image touches does
  have whole : after.store.Whole ops ref ⟨some draw.config,
      some ((draw.config.diffIds.map bareDiffId).map fullDiffId), some (ops.merge trees), some ref⟩ :=
    Store.whole_of_layers plain.named plain.trimmed
      (layers.imp fun did tree member => extend.holdsLayer (written.2.held _ member).2)
  refine ⟨trivial, holds_publishPull plain hex mends (written.1.base.1.quiet quiet does extend)
    (written.1.base.2.quiet quiet does) ?_ whole⟩
  rw [Store.image, lookup_of_edit does.1,
    show state.store.lookup (.image (draw.stage ref)) = _ from written.1.here]
  rfl

private theorem holds_pullImage (plain : PlainRef ref)
    (mends : ∀ act, mayFail act → restores ref act = false) {now : Watched Tree}
    (genuine : draw.Genuine ref now.store) (safe : Safe ops ref now)
    (clean : NoLeftover ref now.store) :
    Holds (watching ref mayFail) (pullContract ops ref) (pullImage ops ref draw) now := by
  have shelter := @pull_shelter Tree ops ref mayFail draw plain
  have work := shelter.imageWork []
  have recover : ∀ state, Safe ops ref state →
      Holds (watching ref mayFail) (pullContract ops ref) (recoverPull ref draw) state :=
    fun state safe => holds_recoverPull plain genuine.backupHex mends safe
  have outside : ∀ {dir state after}, Pulling ops ref mayFail draw [] dir state →
      (watching ref mayFail).does .outside state after → Pulling ops ref mayFail draw [] dir after := by
    intro dir state after own does
    have fetching : Fetching (watching ref mayFail) (fun _ _ => True)
        (Filling (watching ref mayFail) (fun _ _ => True) (draw.stage ref)
          (fun now => Safe ops ref now ∧ NoLeftover ref now.store) dir) [] none state :=
      ⟨own.1, own.2.held, nofun⟩
    have kept := (shelter.fetching dir).layerWork.outside fetching does
    exact ⟨kept.2.base, kept.2.base.base, kept.2.held, nofun⟩
  intro state same
  subst same
  refine ⟨safe, fun _ state same => same ▸ safe, fun made does => ⟨trivial, ?_⟩⟩
  have quiet : (Act.make true (.image (draw.stage ref)) : Act Tree).Quiet ref :=
    quiet_of_image rfl (stage_ne_image plain draw) (isBackupOf_stage draw ref)
  have staged : Pulling ops ref mayFail draw [] (Entry.empty .images) made := by
    have base := And.intro (safe.quiet quiet does (extends_of_image rfl does)) (clean.quiet quiet does)
    refine ⟨⟨base, trivial, ?_⟩, base, nofun, nofun⟩
    have found := lookup_of_make does.1
    rw [show now.store.lookup (.image (draw.stage ref)) = none from genuine.stageNew] at found
    exact found
  intro state same
  subst same
  refine ⟨staged.1.base.1, fun _ => recover _ staged.1.base.1, fun manifest does => ⟨trivial, ?_⟩⟩
  have staged := outside staged does
  intro state same
  subst same
  refine ⟨staged.1.base.1, fun _ => recover _ staged.1.base.1, fun config does => ⟨trivial, ?_⟩⟩
  have staged := outside staged does
  refine work.holds_writeConfig (fun state own => ?_) (fun _ state own => recover state own.1.base.1) staged
  split
  · exact recover state own.1.base.1
  rename_i lengths
  refine (shelter.fetching _).layerWork.holds_pullLayers (draw.config.diffIds.zip draw.blobs)
    (fun layer member => genuine.digests _ (List.of_mem_zip member).2) ?_
    (fun _ _ state own => recover state own.base.base.1) ⟨own.1, own.2.held, nofun⟩
  intro held state own _ covered
  have needed : ∀ did ∈ draw.config.diffIds.map bareDiffId, ∃ tree, (did, tree) ∈ held := by
    intro did member
    obtain ⟨full, place, rfl⟩ := List.mem_map.mp member
    obtain ⟨index, bound, rfl⟩ := List.getElem_of_mem place
    have zipped : index < (draw.config.diffIds.zip draw.blobs).length := by
      simp only [List.length_zip]
      omega
    have found := covered _ (List.getElem_mem zipped)
    simpa only [List.getElem_zip] using found
  obtain ⟨trees, layers⟩ := exists_trees needed
  exact holds_fillStage plain genuine.backupHex mends layers rfl
    ⟨own.base, own.base.base, own.held, nofun⟩

end

section
variable {ops : TreeOps Tree} {ref : Text} {mayFail : Act Tree → Prop} {sweep : Sweep Tree}
  {published : Option (ImageDir Tree)}

private abbrev pruneContract (ops : TreeOps Tree) (ref : Text) (published : Option (ImageDir Tree)) :
    Contract (Watched Tree) :=
  .alone (fun now => Safe ops ref now ∧ now.published = published) fun _ now =>
    Safe ops ref now ∧ now.published = published ∧ now.store.image (imageToPath ref) = published

private structure Restorable (ops : TreeOps Tree) (ref : Text) (published : Option (ImageDir Tree))
    (names : List Text) (now : Watched Tree) : Prop where
  safe : Safe ops ref now
  last : now.published = published
  coming : now.store.image (imageToPath ref) = none → ∀ name, isBackupOf ref name = true →
    (now.store.image name).isSome = true → name ∈ names

private theorem Restorable.image {now : Watched Tree} (own : Restorable ops ref published [] now) :
    now.store.image (imageToPath ref) = published := by
  cases found : now.store.image (imageToPath ref) with
  | some dir => rw [← own.last, (own.safe.shown dir found).1]
  | none =>
      rcases own.safe.hidden found with ⟨never, _⟩ | ⟨backup, dir, _, _, there, kind, _⟩
      · rw [← own.last, never]
      · have listed := own.coming found backup kind (by rw [there]; rfl)
        cases listed

variable {names : List Text} {name : Text} {next : ImageScript Tree}

private theorem Restorable.quiet {now after : Watched Tree} {act : Act Tree}
    (own : Restorable ops ref published names now) (quiet : act.Quiet ref)
    (does : (watching ref mayFail).does act now after) (extend : now.store.Extends after.store) :
    Restorable ops ref published names after where
  safe := own.safe.quiet quiet does extend
  last := (published_of_quiet quiet does).trans own.last
  coming := by
    intro absent name backup there
    rw [image_of_quiet quiet does (.inl rfl)] at absent
    rw [image_of_quiet quiet does (.inr backup)] at there
    exact own.coming absent name backup there

private theorem removes_quietly {names : List Text} {place : Place}
    (quiet : ∀ act : Act Tree, act.touches = [place] → act.Quiet ref)
    (extend : ∀ {act : Act Tree} {now after : Watched Tree}, act.touches = [place] →
      (watching ref mayFail).does act now after → now.store.Extends after.store) :
    Removes (watching ref mayFail) (pruneContract ops ref published) place
      (Restorable ops ref published names) (Restorable ops ref published names) where
  inv := fun own => ⟨own.safe, own.last⟩
  rely := fun own same => same ▸ own
  lose := fun own does => ⟨trivial, own.quiet (quiet _ rfl) does (extend rfl does)⟩
  drop := fun own does => ⟨trivial, own.quiet (quiet _ rfl) does (extend rfl does)⟩

private theorem Restorable.skip {now : Watched Tree}
    (own : Restorable ops ref published (name :: names) now) (other : isBackupOf ref name = false) :
    Restorable ops ref published names now where
  safe := own.safe
  last := own.last
  coming := by
    intro absent backup kind there
    rcases List.mem_cons.mp (own.coming absent backup kind there) with rfl | later
    · rw [other] at kind
      cases kind
    · exact later

private theorem Restorable.missing {now : Watched Tree} (own : Restorable ops ref published (name :: names) now)
    (absent : (now.store.image (imageToPath ref)).isNone = true)
    (impossible : (Act.move .images name (imageToPath ref) : Act Tree).apply now.store = none) :
    Restorable ops ref published names now where
  safe := own.safe
  last := own.last
  coming := by
    intro gone backup kind there
    rcases List.mem_cons.mp (own.coming gone backup kind there) with rfl | later
    · obtain ⟨dir, found⟩ := Option.isSome_iff_exists.mp there
      have present : now.store.lookup (.image backup) = some dir := found
      have target : now.store.lookup (.image (imageToPath ref)) = none :=
        Option.isNone_iff_eq_none.mp absent
      simp [Act.apply, present, target] at impossible
    · exact later

private theorem removes_leftover (other : name ≠ imageToPath ref) :
    Removes (watching ref mayFail) (pruneContract ops ref published) (.image name)
      (fun now => Restorable ops ref published names now ∧
        (now.store.image (imageToPath ref)).isSome = true)
      (Restorable ops ref published names) where
  inv := fun own => ⟨own.1.safe, own.1.last⟩
  rely := fun own same => same ▸ own
  lose := fun own does =>
    have kept := own.1.safe.shed own.2 rfl other rfl does
    ⟨trivial, ⟨kept.1, kept.2.1.trans own.1.last, fun absent => by rw [absent] at kept; cases kept.2.2⟩,
      kept.2.2⟩
  drop := fun own does =>
    have kept := own.1.safe.shed own.2 rfl other rfl does
    ⟨trivial, kept.1, kept.2.1.trans own.1.last, fun absent => by rw [absent] at kept; cases kept.2.2⟩

private theorem holds_pruneImages (plain : PlainRef ref) (mends : ∀ act, mayFail act → restores ref act = false)
    (rest : ∀ now, Restorable ops ref published [] now →
      Holds (watching ref mayFail) (pruneContract ops ref published) next now)
    (names : List Text) {now : Watched Tree} (own : Restorable ops ref published names now) :
    Holds (watching ref mayFail) (pruneContract ops ref published) (pruneImages sweep next names) now := by
  induction names generalizing now with
  | nil => exact rest now own
  | cons name names ih =>
      have onImage : name ≠ imageToPath ref → isBackupOf ref name = false →
          ∀ {now}, Restorable ops ref published names now →
          Holds (watching ref mayFail) (pruneContract ops ref published)
            (removeQuietly (.image name) (sweep.losses (.image name)) (pruneImages sweep next names))
            now := by
        intro other kind now own
        have removes := @removes_quietly Tree ops ref mayFail published names (.image name)
          (fun act touches => quiet_of_image touches other kind)
          (fun touches does => extends_of_image touches does)
        exact removes.holds_quietly (fun _ own => ih own) (fun _ own => ih own) _ own
      rw [pruneImages]
      split
      · rename_i pull
        have other : name ≠ imageToPath ref := by
          rintro rfl
          rw [plain.noPull] at pull
          cases pull
        have kind : isBackupOf ref name = false := by simp [isBackupOf, pull]
        exact onImage other kind (own.skip kind)
      · rename_i noPull
        split
        · rename_i old
          have other : name ≠ imageToPath ref := by
            rintro rfl
            rw [plain.noOld] at old
            cases old
          intro state same
          subst same
          refine ⟨⟨own.safe, own.last⟩, ?_⟩
          dsimp only
          by_cases mine : before oldMarker name = imageToPath ref
          · have kind : isBackupOf ref name = true := by
              simp only [Bool.not_eq_true] at noPull
              simp [isBackupOf, old, noPull, mine]
            rw [mine]
            split
            · intro state same
              subst same
              refine ⟨⟨own.safe, own.last⟩, fun raises => ?_, fun after does => ⟨trivial, ?_⟩⟩
              · rename_i absent
                rcases raises with impossible | ⟨_, fails⟩
                · exact ih (own.missing absent impossible)
                · have spared := mends _ fails
                  simp [restores, old, noPull] at spared
              · obtain ⟨safe, last, there⟩ := own.safe.restored kind does
                refine ih ⟨safe, last.trans own.last, fun absent => ?_⟩
                rw [absent] at there
                cases there
            · rename_i there
              have present : (now.store.image (imageToPath ref)).isSome = true :=
                Option.isSome_iff_ne_none.mpr (by simpa using there)
              have shown : Restorable ops ref published names now :=
                ⟨own.safe, own.last, fun absent => by rw [absent] at present; cases present⟩
              exact (removes_leftover other).holds_quietly (fun _ own => ih own)
                (fun _ own => ih own.1) _ ⟨shown, present⟩
          · have kind : isBackupOf ref name = false := by simp [isBackupOf, mine]
            split
            · intro state same
              subst same
              refine ⟨⟨own.safe, own.last⟩, fun _ => ih (own.skip kind), fun after does => ⟨trivial, ih ?_⟩⟩
              have base : isBackupOf ref (before oldMarker name) = false := by
                simp [isBackupOf, not_contains_before (by decide : oldMarker ≠ []) name]
              have quiet : (Act.move .images name (before oldMarker name) : Act Tree).Quiet ref := by
                intro watched shape touched
                rcases List.mem_cons.mp touched with same | target
                · cases same
                  rcases shape with same | backup
                  · exact other same
                  · rw [kind] at backup
                    cases backup
                · cases List.mem_singleton.mp target
                  rcases shape with same | backup
                  · exact mine same
                  · rw [base] at backup
                    cases backup
              exact (own.skip kind).quiet quiet does
                (Act.extends does.1 fun _ _ touched => by simp [Act.touches] at touched)
            · exact onImage other kind (own.skip kind)
        · rename_i noOld
          have kind : isBackupOf ref name = false := by simp [isBackupOf, noOld]
          exact ih (own.skip kind)

private theorem removes_partial :
    Removes (watching ref mayFail) (pruneContract ops ref published) (.layer name)
      (fun now => Restorable ops ref published [] now ∧
        (isDigest name = true → now.store.layerExists name = false))
      (fun now => Restorable ops ref published [] now) := by
  have kept : ∀ {act : Act Tree} {now after : Watched Tree}, act.touches = [.layer name] →
      Restorable ops ref published [] now ∧
        (isDigest name = true → now.store.layerExists name = false) →
      (watching ref mayFail).does act now after → Restorable ops ref published [] after := by
    intro act now after touches own does
    have spares : act.Spares now.store := by
      intro place member
      rw [touches, List.mem_singleton] at member
      exact ⟨name, member, own.2⟩
    exact own.1.quiet spares.quiet does (spares.extends does.1)
  exact {
    inv := fun own => ⟨own.1.safe, own.1.last⟩
    rely := fun own same => same ▸ own
    lose := fun {loss _ _} own does => ⟨trivial, kept rfl own does, fun digest =>
      Store.layerExists_lost (.inl ⟨loss, rfl⟩) does.1 digest (own.2 digest)⟩
    drop := fun own does => ⟨trivial, kept rfl own does⟩ }

private theorem holds_pruneLayers (rest : ∀ now, Restorable ops ref published [] now →
      Holds (watching ref mayFail) (pruneContract ops ref published) next now)
    (names : List Text) {now : Watched Tree} (own : Restorable ops ref published [] now) :
    Holds (watching ref mayFail) (pruneContract ops ref published) (pruneLayers sweep next names) now := by
  induction names generalizing now with
  | nil => exact rest now own
  | cons name names ih =>
      have remove : ∀ {now : Watched Tree}, Restorable ops ref published [] now →
          (isDigest name = true → now.store.layerExists name = false) →
          Holds (watching ref mayFail) (pruneContract ops ref published)
            (removeQuietly (.layer name) (sweep.losses (.layer name)) (pruneLayers sweep next names))
            now := by
        intro now own absent
        exact removes_partial.holds_quietly (fun _ own => ih own) (fun _ own => ih own.1) _ ⟨own, absent⟩
      rw [pruneLayers]
      split
      · rename_i tmp
        apply remove own
        intro digest
        have dot : '.' ∈ name := (contains_iff.mp tmp).subset List.mem_cons_self
        have hex := List.all_eq_true.mp (Bool.and_eq_true_iff.mp digest).2 '.' dot
        exact absurd hex (by decide)
      intro state same
      subst same
      refine ⟨⟨own.safe, own.last⟩, ?_⟩
      dsimp only
      split
      · rename_i absent
        simp only [Bool.and_eq_true, Bool.not_eq_true'] at absent
        exact remove own fun _ => absent.2
      · exact ih own

private theorem holds_pruneBuilds (rest : ∀ now, Restorable ops ref published [] now →
      Holds (watching ref mayFail) (pruneContract ops ref published) next now)
    (names : List Text) {now : Watched Tree} (own : Restorable ops ref published [] now) :
    Holds (watching ref mayFail) (pruneContract ops ref published) (pruneBuilds sweep next names) now := by
  induction names generalizing now with
  | nil => exact rest now own
  | cons name names ih =>
      rw [pruneBuilds]
      split
      · exact ih own
      have removes := @removes_quietly Tree ops ref mayFail published [] (.build name)
        (fun act touches _ _ touched => by simp [touches] at touched)
        (fun touches does => Act.extends does.1 fun _ _ touched => by simp [touches] at touched)
      exact removes.holds_quietly (fun _ own => ih own) (fun _ own => ih own) _ own

private theorem holds_pruneBuildArtifacts (plain : PlainRef ref)
    (mends : ∀ act, mayFail act → restores ref act = false) (genuine : sweep.Genuine)
    {now : Watched Tree} (safe : Safe ops ref now) (last : now.published = published) :
    Holds (watching ref mayFail) (pruneContract ops ref published)
      (pruneBuildArtifacts sweep (.done true)) now := by
  intro state same
  subst same
  refine ⟨⟨safe, last⟩, holds_pruneImages plain mends ?_ _ ⟨safe, last, fun _ name _ there => ?_⟩⟩
  · intro now own state same
    subst same
    refine ⟨⟨own.safe, own.last⟩, holds_pruneLayers ?_ _ own⟩
    intro now own state same
    subst same
    refine ⟨⟨own.safe, own.last⟩, holds_pruneBuilds ?_ _ own⟩
    intro now own state same
    subst same
    exact ⟨own.safe, own.last, own.image⟩
  · exact (genuine _ name).mpr (mem_names.mpr there)

end

section
variable {ops : TreeOps Tree} {ref : Text} {mayFail : Act Tree → Prop} {start now : Watched Tree}

theorem Begins.safe (begins : Begins ops ref start) : Safe ops ref start where
  shown := fun dir found =>
    have published : start.published = some dir := begins.image ▸ found
    ⟨published, begins.whole dir published⟩
  hidden := fun absent => .inl ⟨begins.image ▸ absent, begins.clean⟩

theorem History.safe (plain : PlainRef ref)
    (mends : ∀ act, mayFail act → restores ref act = false) (begins : Begins ops ref start)
    (history : History ops ref mayFail (NoLeftover ref) start now) : Safe ops ref now := by
  induction history with
  | start => exact begins.safe
  | pull now after draw left _ clean genuine steps ih =>
      have holds := holds_pullImage plain mends genuine ih clean
      have kept := Holds.steps holds steps
      exact kept.inv fun _ _ safe => safe
  | prune now after sweep left _ genuine steps ih =>
      have holds := holds_pruneBuildArtifacts plain mends genuine ih rfl
      have kept := Holds.steps holds steps
      exact (kept.inv fun _ _ ended => And.intro ended.1 ended.2.1).1

theorem Store.Whole.imageDirComplete {store : Store Tree} {dir : ImageDir Tree} (plain : PlainRef ref)
    (found : store.image (imageToPath ref) = some dir) (whole : store.Whole ops ref dir) :
    store.imageDirComplete (imageToPath ref) (some ref) = true := by
  simp only [Store.imageDirComplete, found, isInternal, plain.noPull, plain.noOld, Bool.or_self,
    Bool.not_false, Bool.true_and]
  exact whole.1

end

/-! ## What goes wrong with an older backup -/

def watch (ref : Text) (act : Act Tree) (now : Watched Tree) : Option (Watched Tree) :=
  (act.apply now.store).map fun after =>
    ⟨after, if publishes ref act then after.image (imageToPath ref) else now.published⟩

theorem advance_watching (ref : Text) (mayFail : Act Tree → Prop) (count : Nat) (script : ImageScript Tree)
    (now : Watched Tree) :
    (watching ref mayFail).Steps (script, now)
      (Script.advance Watched.store (watch ref) count (script, now)) := by
  apply @Script.advance_steps _ _ _ (watching ref mayFail)
  · intro act state after applied
    simp only [watch, Option.map_eq_some_iff] at applied
    obtain ⟨store, applied, rfl⟩ := applied
    exact ⟨applied, rfl⟩
  · intro act state impossible
    exact .inl (by simpa [watch] using impossible)

end

namespace Leftover

def ref : Text := "docker.io/library/a:1".toList

def layerDigest : Text := List.replicate 64 'a'

def draw (id : Char) : Draw Nat where
  stageId := [id]
  backupId := [id]
  config := ⟨["sha256:".toList ++ layerDigest], [id]⟩
  blobs := [⟨layerDigest, 7, [], [id], [], []⟩]
  lossesStage := []
  lossesBackup := [⟨some 0, true, true, true, true⟩]

def sweep : Sweep Nat := ⟨List.reverse, fun _ => false, fun _ => false, fun _ => []⟩

def pullFor (steps : Nat) (id : Char) (now : Watched Nat) : Watched Nat :=
  (Script.advance Watched.store (watch ref) steps (pullImage countOps ref (draw id), now)).2

def start : Watched Nat := ⟨∅, none⟩

def first : Watched Nat := pullFor 40 '1' start

def second : Watched Nat := pullFor 23 '2' first

def third : Watched Nat := pullFor 20 '3' second

def cleaned : ImageScript Nat × Watched Nat :=
  Script.advance Watched.store (watch ref) 40 (pruneBuildArtifacts sweep (.done true), third)

theorem pulled {mayFail : Act Nat → Prop} {mayStart : Store Nat → Prop} (steps : Nat) (id : Char)
    (hex : id ≠ '.') {now : Watched Nat} (starts : mayStart now.store)
    (fresh : now.store.image ((draw id).stage ref) = none)
    (history : History countOps ref mayFail mayStart start now) :
    History countOps ref mayFail mayStart start (pullFor steps id now) := by
  apply History.pull now _ (draw id) _ history starts
  · refine ⟨fresh, by simpa [draw] using Ne.symm hex, fun blob member => ?_⟩
    rw [List.mem_singleton.mp member]
    exact (by decide : isDigest layerDigest = true)
  · exact advance_watching ref _ steps _ now

theorem reached : History countOps ref (fun _ => False) (fun _ => True) start third :=
  pulled 20 '3' (by decide) trivial (by decide +kernel)
    (pulled 23 '2' (by decide) trivial (by decide +kernel)
      (pulled 40 '1' (by decide) trivial (by decide +kernel) .start))

theorem begins : Begins countOps ref start := ⟨rfl, nofun, fun _ _ => rfl⟩

theorem plain : PlainRef ref := ⟨by decide, by decide +kernel, by decide, by decide⟩

theorem first_clean : NoLeftover ref first.store := by
  intro _ name backup
  cases found : first.store.image name with
  | none => rfl
  | some dir =>
      have listed : name ∈ first.store.names .images :=
        mem_names.mpr (Option.isSome_iff_exists.mpr ⟨dir, found⟩)
      have names : first.store.names .images = [imageToPath ref] := by decide +kernel
      rw [names, List.mem_singleton] at listed
      rw [listed, isBackupOf_image plain] at backup
      cases backup

end Leftover

end PDocker.Images
