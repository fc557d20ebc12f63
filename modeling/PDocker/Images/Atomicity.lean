import PDocker.Images.Publish
import PDocker.Images.Staging

/-!
# Publishing in place

A load or the end of a build removes the directory of a tag and writes it anew.
Whatever was complete is so afterwards, with its old or its new content, unless
the script stops while its directory is being rewritten.
-/

set_option autoImplicit false

namespace PDocker.Images

open Data Layers

section
variable {Tree : Type}

structure Rewriting (Tree : Type) where
  store : Store Tree
  rewriting : Option Text

def Store.refText (store : Store Tree) (name : Text) : Option Text :=
  (store.image name).bind ImageDir.imageRef

/-- A directory is being rewritten from the first act on it until its `image_ref`
gets its text. -/
def Act.rewrites (act : Act Tree) (before after : Store Tree) (now : Option Text) : Option Text :=
  match act with
  | .make _ ⟨.images, name⟩ => some name
  | .drop ⟨.images, name⟩ => some name
  | .edit ⟨.images, name⟩ _ =>
      if before.refText name = some [] ∧ (after.refText name).getD [] ≠ [] then none else some name
  | _ => now

def rewriter (Tree : Type) : Machine (Act Tree) (Store Tree) (Rewriting Tree) where
  view := Rewriting.store
  does act state after := act.apply state.store = some after.store ∧
    after.rewriting = act.rewrites state.store after.store state.rewriting
  raises act state := act.apply state.store = none ∨ act.isCheck = false

@[simp] theorem rewriter_view (now : Rewriting Tree) : (rewriter Tree).view now = now.store := rfl

inductive Publication (Tree : Type) where
  | load (archive : List (ArchiveEntry Tree))
  | build (buildDir tag : Text) (config : Config) (dids : List Text)
      (lossesDest lossesBuild : List (Loss Tree))

def Publication.script (ops : TreeOps Tree) : Publication Tree → ImageScript Tree
  | .load archive => loadImages ops archive
  | .build buildDir tag config dids lossesDest lossesBuild =>
      storeBuiltImage buildDir (normalizeImage tag) config dids lossesDest lossesBuild

def Publication.Writes : Publication Tree → Text → Prop
  | .load archive, ref => ∃ entry ∈ archive, ∃ tag ∈ entry.repoTags, normalizeImage tag.name = ref
  | .build _ tag _ _ _ _, ref => normalizeImage tag = ref

/-- `sha256` gives digests, and the layers of a build are in the store. -/
def Publication.Ready : Publication Tree → Store Tree → Prop
  | .load archive, _ => ∀ entry ∈ archive, ∀ blob, some blob ∈ entry.layers → isDigest blob.digest = true
  | .build _ _ _ dids _ _, store => ∀ did ∈ dids, store.layerExists did = true

def Publication.New (ops : TreeOps Tree) (publication : Publication Tree) (start now : Store Tree)
    (ref : Text) (dir : ImageDir Tree) : Prop :=
  match publication with
  | .load archive => ∃ entry ∈ archive, ∃ (config : Config) (blobs : List (Blob Tree))
      (trees : List Tree), entry.config = some config ∧
      entry.layers = blobs.map some ∧ List.Forall₂ now.HoldsLayer (blobs.map Blob.digest) trees ∧
      dir = ⟨some (patchConfig config (blobs.map Blob.digest)),
        some ((blobs.map Blob.digest).map fullDiffId), some (ops.merge trees), some ref⟩
  | .build buildDir _ config dids _ _ => ∃ tree, start.build buildDir = some (some tree) ∧
      dir = ⟨some (patchConfig config dids), some (dids.map fullDiffId), some tree, some ref⟩

/-- No other reference is written to the directory of this one. -/
def Publication.Alone (publication : Publication Tree) (ref : Text) : Prop :=
  ∀ other, publication.Writes other → imageToPath other = imageToPath ref → other = ref

def OldOrNew (New : Store Tree → Text → ImageDir Tree → Prop) (start : Store Tree) (ref : Text)
    (now : Store Tree) : Prop :=
  now.imageDirComplete (imageToPath ref) (some ref) = true ∧
    (now.image (imageToPath ref) = start.image (imageToPath ref) ∨
      ∃ dir, now.image (imageToPath ref) = some dir ∧ New now ref dir)

theorem patchConfig_bare (config : Config) (dids : List Text) :
    (patchConfig config dids).diffIds.map bareDiffId = dids := by
  have each : (fun did => bareDiffId ("sha256:".toList ++ did)) = id := funext bareDiffId_sha256
  simp only [patchConfig, List.map_map]
  rw [show bareDiffId ∘ ("sha256:".toList ++ ·) = id from each, List.map_id]

/-- What is complete when a call starts, which references have a directory of their
own, and what the call makes of them. -/
structure Aim (Tree : Type) where
  start : Store Tree
  Alone : Text → Prop
  New : Store Tree → Text → ImageDir Tree → Prop
  grows : ∀ {before after ref dir}, before.Extends after → New before ref dir → New after ref dir

structure Atomic (aim : Aim Tree) (now : Rewriting Tree) : Prop where
  extend : aim.start.Extends now.store
  kept : ∀ ref, aim.start.imageDirComplete (imageToPath ref) (some ref) = true → aim.Alone ref →
    now.rewriting ≠ some (imageToPath ref) → OldOrNew aim.New aim.start ref now.store

section
variable {aim : Aim Tree} {now after : Rewriting Tree} {act : Act Tree}

variable {before later : Store Tree}

theorem Store.imageDirComplete_mono {name : Text} {expected : Option Text}
    (extend : before.Extends later) (same : later.image name = before.image name)
    (complete : before.imageDirComplete name expected = true) :
    later.imageDirComplete name expected = true := by
  simp only [Store.imageDirComplete, same] at complete ⊢
  cases found : before.image name with
  | none => simp [found] at complete
  | some dir =>
      simp only [found, Bool.and_eq_true] at complete ⊢
      exact ⟨complete.1, extend.filesComplete complete.2⟩

theorem Atomic.keep (atomic : Atomic aim now) (extend : now.store.Extends after.store)
    (images : ∀ name, after.rewriting ≠ some name →
      now.rewriting ≠ some name ∧ after.store.image name = now.store.image name) : Atomic aim after where
  extend := atomic.extend.trans extend
  kept := by
    intro ref complete alone finished
    obtain ⟨before, same⟩ := images _ finished
    obtain ⟨whole, content⟩ := atomic.kept ref complete alone before
    refine ⟨Store.imageDirComplete_mono extend same whole, ?_⟩
    rcases content with old | ⟨dir, found, new⟩
    · exact .inl (same.trans old)
    · exact .inr ⟨dir, same.trans found, aim.grows extend new⟩

theorem rewrites_of_spares {rewriting : Option Text}
    (spares : act.Spares before) : act.rewrites before later rewriting = rewriting := by
  have layers : ∀ place ∈ act.touches, place.area = .layers := by
    intro place member
    obtain ⟨_, same, _⟩ := spares place member
    rw [same]
  cases act with
  | make existOk place | edit place change | drop place =>
      obtain ⟨area, name⟩ := place
      have area_eq := layers _ List.mem_cons_self
      simp only at area_eq
      subst area_eq
      rfl
  | _ => rfl

theorem Atomic.spares (atomic : Atomic aim now) (does : (rewriter Tree).does act now after)
    (spares : act.Spares now.store) : Atomic aim after ∧ after.rewriting = now.rewriting := by
  have same : after.rewriting = now.rewriting := does.2.trans (rewrites_of_spares spares)
  refine ⟨atomic.keep (spares.extends does.1) fun name finished => ⟨same ▸ finished, ?_⟩, same⟩
  exact spares.image does.1 name

theorem Atomic.write (atomic : Atomic aim now) {dest : Text}
    (opened : now.rewriting = none ∨ now.rewriting = some dest)
    (touches : ∀ place ∈ act.touches, place = .image dest ∨ place.area = .builds)
    (does : (rewriter Tree).does act now after) (rewriting : after.rewriting = some dest) :
    Atomic aim after := by
  have extend : now.store.Extends after.store := by
    apply Act.extends does.1
    intro did _ touched
    rcases touches _ touched with same | builds
    · cases same
    · cases builds
  refine atomic.keep extend fun name finished => ⟨?_, ?_⟩
  · rcases opened with closed | same
    · rw [closed]
      nofun
    · rwa [same, ← rewriting]
  apply Act.lookup_untouched does.1
  intro touched
  rcases touches _ touched with same | builds
  · rw [rewriting] at finished
    cases same
    exact finished rfl
  · cases builds

theorem Atomic.finish (atomic : Atomic aim now) {dest : Text} {dir : ImageDir Tree}
    (opened : now.rewriting = some dest) (extend : now.store.Extends after.store)
    (others : ∀ name, name ≠ dest → after.store.image name = now.store.image name)
    (found : after.store.image dest = some dir)
    (new : ∀ ref, aim.start.imageDirComplete (imageToPath ref) (some ref) = true → aim.Alone ref →
      imageToPath ref = dest → after.store.filesComplete dir (some ref) = true ∧
        aim.New after.store ref dir) : Atomic aim after where
  extend := atomic.extend.trans extend
  kept := by
    intro ref complete alone _
    by_cases mine : imageToPath ref = dest
    · obtain ⟨files, content⟩ := new ref complete alone mine
      refine ⟨?_, .inr ⟨dir, mine ▸ found, content⟩⟩
      have visible : isInternal (imageToPath ref) = false := by
        simp only [Store.imageDirComplete] at complete
        split at complete
        · cases complete
        · simpa using (Bool.and_eq_true_iff.mp complete).1
      simp only [Store.imageDirComplete, mine ▸ found, visible, files]
      rfl
    · have before : now.rewriting ≠ some (imageToPath ref) := by
        rw [opened]
        exact fun same => mine (Option.some.inj same).symm
      obtain ⟨whole, content⟩ := atomic.kept ref complete alone before
      have same := others _ mine
      refine ⟨Store.imageDirComplete_mono extend same whole, ?_⟩
      rcases content with old | ⟨dir, found, new⟩
      · exact .inl (same.trans old)
      · exact .inr ⟨dir, same.trans found, aim.grows extend new⟩

theorem trimmed_of_complete {store : Store Tree} {ref : Text} (named : ref ≠ [])
    (complete : store.imageDirComplete (imageToPath ref) (some ref) = true) : stripSpace ref = ref := by
  simp only [Store.imageDirComplete] at complete
  split at complete
  · cases complete
  have files := (Bool.and_eq_true_iff.mp complete).2
  simp only [Store.filesComplete] at files
  split at files
  · simp only [Bool.and_eq_true, decide_eq_true_eq, Option.all_some, Bool.or_eq_true, named,
      false_or] at files
    have same := files.1.1.2
    rw [← same, stripSpace_idem]
  · cases files

end

/-! ## Along the scripts -/

section
variable {aim : Aim Tree} {next failed : ImageScript Tree} {dest : Text}

private abbrev atomicContract (aim : Aim Tree) : Contract (Rewriting Tree) :=
  .alone (Atomic aim) fun _ => Atomic aim

variable {dir : ImageDir Tree} {held : List (Text × Tree)} {config : Config} {dids : List Text} {buildDir : Text}

private theorem rewriting_of_edit {now after : Rewriting Tree} {change : ImageDir Tree → ImageDir Tree}
    (does : (rewriter Tree).does (.edit (.image dest) change) now after)
    (here : now.store.image dest = some dir)
    (unfilled : (change dir).imageRef = dir.imageRef ∨ (change dir).imageRef.getD [] = []) :
    after.rewriting = some dest := by
  have before : now.store.refText dest = dir.imageRef := by
    rw [Store.refText, here]
    rfl
  have later : after.store.refText dest = (change dir).imageRef := by
    rw [Store.refText, Store.image, lookup_of_edit does.1,
      show now.store.lookup (.image dest) = some dir from here]
    rfl
  rw [does.2, Act.rewrites, before, later, if_neg]
  rintro ⟨empty, filled⟩
  rcases unfilled with same | cleared
  · rw [same, empty] at filled
    exact filled rfl
  · exact filled cleared

private theorem image_shelter (dest : Text) :
    ImageShelter (rewriter Tree) (atomicContract aim) (fun _ _ => True) dest
      (fun now => Atomic aim now ∧ now.rewriting = some dest) where
  sound := fun does => does.1
  refused := by
    intro did state raises
    rcases raises with impossible | notCheck
    · simpa [Act.apply] using impossible
    · cases notCheck
  inv := fun own => own.1
  rely := fun own same => same ▸ own
  rely_marks := fun same _ => ⟨trivial, same ▸ rfl⟩
  rely_missing := fun same absent => same ▸ absent
  marks := fun _ _ => trivial
  marks_found := fun _ => trivial
  spares := fun own does spares =>
    have kept := own.1.spares does spares
    ⟨trivial, kept.1, kept.2.trans own.2⟩
  fills := by
    intro act now after dir own here shape does
    have rewriting : after.rewriting = some dest := by
      rcases shape with rfl | ⟨change, rfl, kept⟩
      · exact does.2
      · exact rewriting_of_edit does here (kept.imp_right fun cleared => by rw [cleared]; rfl)
    have touches : act.touches = [.image dest] := by
      rcases shape with rfl | ⟨change, rfl, _⟩ <;> rfl
    refine ⟨trivial, own.1.write (.inr own.2) (fun place member => .inl ?_) does rewriting, rewriting⟩
    rw [touches] at member
    exact List.mem_singleton.mp member

private theorem layer_shelter : Shelter (rewriter Tree) (atomicContract aim) (fun _ _ => True)
      (fun now => Atomic aim now ∧ now.rewriting = none) where
  sound := fun does => does.1
  refused := by
    intro did state raises
    rcases raises with impossible | notCheck
    · simpa [Act.apply] using impossible
    · cases notCheck
  inv := fun own => own.1
  rely := fun own same => same ▸ own
  rely_marks := fun same _ => ⟨trivial, same ▸ rfl⟩
  rely_missing := fun same absent => same ▸ absent
  marks := fun _ _ => trivial
  marks_found := fun _ => trivial
  spares := fun own does spares =>
    have kept := own.1.spares does spares
    ⟨trivial, kept.1, kept.2.trans own.2⟩

/-- What a call keeps while it clears the directory; `Keep` is what is known of the
other directories. -/
private structure Clearing (aim : Aim Tree) (dest : Text) (Keep : Store Tree → Prop)
    (now : Rewriting Tree) : Prop where
  atomic : Atomic aim now
  opened : now.rewriting = none ∨ now.rewriting = some dest
  keep : Keep now.store

private theorem Clearing.act {Keep : Store Tree → Prop} (stable : ∀ {before after : Store Tree},
      (∀ place, place ≠ .image dest → after.lookup place = before.lookup place) → Keep before → Keep after)
    {act : Act Tree} {now after : Rewriting Tree} (own : Clearing aim dest Keep now)
    (touches : act.touches = [.image dest]) (does : (rewriter Tree).does act now after)
    (rewriting : after.rewriting = some dest) : Clearing aim dest Keep after where
  atomic := by
    refine own.atomic.write own.opened (fun place member => .inl ?_) does rewriting
    rw [touches] at member
    exact List.mem_singleton.mp member
  opened := .inr rewriting
  keep := by
    refine stable (fun place other => Act.lookup_untouched does.1 ?_) own.keep
    rwa [touches, List.mem_singleton]

private theorem holds_clearDest {losses : List (Loss Tree)} {Keep : Store Tree → Prop}
    (stable : ∀ {before after : Store Tree},
      (∀ place, place ≠ .image dest → after.lookup place = before.lookup place) → Keep before → Keep after)
    (made : ∀ now, Atomic aim now → now.rewriting = some dest →
      now.store.image dest = some (Entry.empty .images) → Keep now.store →
      Holds (rewriter Tree) (atomicContract aim) next now)
    (raised : ∀ now, Atomic aim now → Holds (rewriter Tree) (atomicContract aim) failed now)
    {now : Rewriting Tree} (own : Clearing aim dest Keep now) :
    Holds (rewriter Tree) (atomicContract aim) (clearDest dest losses next failed) now := by
  have make : ∀ now, Clearing aim dest Keep now →
      Holds (rewriter Tree) (atomicContract aim) (.act (.make false (.image dest)) next failed) now := by
    intro now own state same
    subst same
    refine ⟨own.atomic, fun _ => raised now own.atomic, fun after does => ⟨trivial, ?_⟩⟩
    have there := own.act stable rfl does does.2
    refine made after there.atomic does.2 ?_ there.keep
    have applied := does.1
    cases found : now.store.lookup (.image dest) with
    | some dir => simp [Act.apply, found] at applied
    | none =>
        rw [Store.image, lookup_of_make applied, found]
        rfl
  have removes : Removes (rewriter Tree) (atomicContract aim) (.image dest)
      (Clearing aim dest Keep) (Clearing aim dest Keep) :=
    { inv := fun own => own.atomic
      rely := fun own same => same ▸ own
      lose := by
        intro loss now after own does
        have applied := does.1
        simp only [Act.apply, Option.map_eq_some_iff] at applied
        obtain ⟨dir, found, _⟩ := applied
        refine ⟨trivial, own.act stable rfl does (rewriting_of_edit does found ?_)⟩
        cases kept : loss.imageRef with
        | true => exact .inl (by simp [Entry.lose, kept])
        | false => exact .inr (by simp [Entry.lose, kept])
      drop := fun own does => ⟨trivial, own.act stable rfl does does.2⟩ }
  intro state same
  subst same
  refine ⟨own.atomic, ?_⟩
  dsimp only
  split
  · exact removes.holds make (fun now own => raised now own.atomic) losses own
  · exact make now own

private abbrev Between (aim : Aim Tree) (held : List (Text × Tree)) (now : Rewriting Tree) : Prop :=
  Fetching (rewriter Tree) (fun _ _ => True) (fun now => Atomic aim now ∧ now.rewriting = none) held
    none now

private abbrev Inside (aim : Aim Tree) (dest : Text) (held : List (Text × Tree)) (dir : ImageDir Tree)
    (now : Rewriting Tree) : Prop :=
  Filling (rewriter Tree) (fun _ _ => True) dest
      (fun now => Atomic aim now ∧ now.rewriting = some dest) dir now ∧
    Fetching (rewriter Tree) (fun _ _ => True)
      (fun now => Atomic aim now ∧ now.rewriting = some dest) held none now

private def Fits (aim : Aim Tree) (held : List (Text × Tree)) (written : Text) (dir : ImageDir Tree) :
    Prop :=
  ∀ store : Store Tree, (∀ layer ∈ held, store.HoldsLayer layer.1 layer.2) →
    ∀ ref, aim.start.imageDirComplete (imageToPath ref) (some ref) = true → aim.Alone ref →
      imageToPath ref = imageToPath written →
      store.filesComplete dir (some ref) = true ∧ aim.New store ref dir

private theorem holds_lastWrite {written : Text}
    (named : written ≠ []) (fits : Fits aim held written { dir with imageRef := some written })
    (finished : ∀ now, Between aim held now → Holds (rewriter Tree) (atomicContract aim) next now)
    (raised : ∀ now, Atomic aim now → Holds (rewriter Tree) (atomicContract aim) failed now)
    {now : Rewriting Tree} (own : Inside aim (imageToPath written) held dir now) :
    Holds (rewriter Tree) (atomicContract aim)
      (writeRef (imageToPath written) written next failed) now := by
  have work := (@image_shelter Tree aim (imageToPath written)).imageWork held
  refine work.holds_writeRef (fun now after own does => ⟨trivial, ?_⟩)
    (fun _ now own => raised now own.1.base.1) own
  have here := own.1.here
  have found : after.store.image (imageToPath written) = some { dir with imageRef := some written } := by
    rw [Store.image, lookup_of_edit does.1,
      show now.store.lookup (.image (imageToPath written)) = _ from here]
    rfl
  have extend : now.store.Extends after.store :=
    Act.extends does.1 fun _ _ touched => by simp [Act.touches] at touched
  have others : ∀ name, name ≠ imageToPath written → after.store.image name = now.store.image name :=
    fun name other => Act.lookup_untouched does.1 (by simp [Act.touches, other])
  have holding : ∀ layer ∈ held, after.store.HoldsLayer layer.1 layer.2 :=
    fun layer member => extend.holdsLayer (own.2.held layer member).2
  have atomic : Atomic aim after :=
    own.1.base.1.finish own.1.base.2 extend others found (fits after.store holding)
  have closed : after.rewriting = none := by
    have before : now.store.refText (imageToPath written) = some [] := by
      rw [Store.refText, show now.store.image (imageToPath written) = _ from here]
      rfl
    have later : after.store.refText (imageToPath written) = some written := by
      rw [Store.refText, found]
      rfl
    rw [does.2, Act.rewrites, before, later, if_pos]
    exact ⟨rfl, named⟩
  exact finished after ⟨⟨atomic, closed⟩, fun layer member => ⟨trivial, holding layer member⟩, fun _ _ work => by cases work⟩

private def FitsLoaded (aim : Aim Tree) (ops : TreeOps Tree) (config : Config) (dids : List Text)
    (written : Text) : Prop :=
  ∀ ref, aim.start.imageDirComplete (imageToPath ref) (some ref) = true → aim.Alone ref →
    imageToPath ref = imageToPath written → ref = written ∧
      ∀ store trees, List.Forall₂ store.HoldsLayer dids trees →
        aim.New store ref ⟨some config, some (dids.map fullDiffId), some (ops.merge trees), some ref⟩

private theorem holds_publishTags {ops : TreeOps Tree} {trees : List Tree}
    (bare : config.diffIds.map bareDiffId = dids)
    (layers : List.Forall₂ (fun did tree => (did, tree) ∈ held) dids trees)
    (tags : List (Tag Tree))
    (fits : ∀ tag ∈ tags, FitsLoaded aim ops config dids (normalizeImage tag.name))
    (finished : ∀ now, Between aim held now → Holds (rewriter Tree) (atomicContract aim) next now)
    (raised : ∀ now, Atomic aim now → Holds (rewriter Tree) (atomicContract aim) failed now)
    {now : Rewriting Tree} (own : Between aim held now) :
    Holds (rewriter Tree) (atomicContract aim) (publishTags ops config dids next failed tags) now := by
  induction tags generalizing now with
  | nil => exact finished now own
  | cons tag tags ih =>
      have rest : ∀ now, Between aim held now → Holds (rewriter Tree) (atomicContract aim)
          (publishTags ops config dids next failed tags) now :=
        fun now own => ih (fun tag member => fits tag (List.mem_cons_of_mem _ member)) own
      have work := (@image_shelter Tree aim (imageToPath (normalizeImage tag.name))).imageWork held
      have given_up : ∀ dir now, Inside aim (imageToPath (normalizeImage tag.name)) held dir now →
          Holds (rewriter Tree) (atomicContract aim) failed now :=
        fun _ now own => raised now own.1.base.1
      have clearing : Clearing aim (imageToPath (normalizeImage tag.name))
          (fun store => ∀ layer ∈ held, store.HoldsLayer layer.1 layer.2) now :=
        ⟨own.base.1, .inl own.base.2, fun layer member => (own.held layer member).2⟩
      rw [publishTags]
      refine holds_clearDest ?_ ?_ raised clearing
      · intro before after same holding layer member
        exact (holding layer member).congr (same _ (by simp))
      intro now atomic opened empty holding
      have inside : Inside aim (imageToPath (normalizeImage tag.name)) held (Entry.empty .images) now :=
        ⟨⟨⟨atomic, opened⟩, trivial, empty⟩, ⟨atomic, opened⟩,
          fun layer member => ⟨trivial, holding layer member⟩, nofun⟩
      refine work.holds_writeConfig (fun now configured => ?_) given_up inside
      refine work.holds_saveImageManifest (fun now saved => ?_) given_up configured
      have stays : List.Forall₂ (fun did tree => ∀ dir now,
          Inside aim (imageToPath (normalizeImage tag.name)) held dir now →
          ((rewriter Tree).view now).HoldsLayer did tree) dids trees :=
        layers.imp fun did tree member dir now own => (own.2.held _ member).2
      refine work.holds_mergeLayersInto ops stays rfl (fun now merged => ?_) given_up saved
      refine holds_lastWrite (normalizeImage_ne_nil _) ?_ rest raised merged
      intro store holding ref complete alone mine
      obtain ⟨same, new⟩ := fits tag List.mem_cons_self ref complete alone mine
      have full : List.Forall₂ store.HoldsLayer dids trees :=
        layers.imp fun _ _ member => holding _ member
      have named : ref ≠ [] := same ▸ normalizeImage_ne_nil _
      have whole := @Store.whole_of_layers Tree ops store ref config trees named
        (trimmed_of_complete named complete) (bare ▸ full)
      rw [bare] at whole
      rw [← same]
      exact ⟨whole.1, new store trees full⟩

private theorem holds_importLayers {next : List Text → ImageScript Tree} (blobs : List (Option (Blob Tree)))
    (digests : ∀ blob, some blob ∈ blobs → isDigest blob.digest = true) (dids : List Text)
    (imported : ∀ now held (present : List (Blob Tree)), blobs = present.map some →
      Between aim held now →
      (∀ did ∈ dids ++ present.map Blob.digest, ∃ tree, (did, tree) ∈ held) →
      Holds (rewriter Tree) (atomicContract aim) (next (dids ++ present.map Blob.digest)) now)
    (raised : ∀ now, Atomic aim now → Holds (rewriter Tree) (atomicContract aim) failed now)
    (covered : ∀ did ∈ dids, ∃ tree, (did, tree) ∈ held) {now : Rewriting Tree}
    (own : Between aim held now) :
    Holds (rewriter Tree) (atomicContract aim) (importLayers next failed dids blobs) now := by
  have work := (@layer_shelter Tree aim).layerWork
  induction blobs generalizing held dids now with
  | nil =>
      have ended := imported now held [] rfl own (by simpa using covered)
      rw [List.map_nil, List.append_nil] at ended
      exact ended
  | cons blob blobs ih =>
      cases blob with
      | none => exact raised now own.base.1
      | some blob =>
          have rest : ∀ tree now, Between aim ((blob.digest, tree) :: held) now →
              Holds (rewriter Tree) (atomicContract aim)
                (importLayers next failed (dids ++ [blob.digest]) blobs) now := by
            intro tree now own
            refine ih (fun blob member => digests blob (List.mem_cons_of_mem _ member)) _ ?_ ?_ own
            · intro now held present shape own covered
              have ended := imported now held (blob :: present) (by rw [shape]; rfl) own
                (by simpa using covered)
              simpa using ended
            intro did member
            rcases List.mem_append.mp member with earlier | here
            · obtain ⟨tree, found⟩ := covered did earlier
              exact ⟨tree, List.mem_cons_of_mem _ found⟩
            · rw [List.mem_singleton.mp here]
              exact ⟨tree, List.mem_cons_self⟩
          have given_up : ∀ held work now, Fetching (rewriter Tree) (fun _ _ => True)
              (fun now => Atomic aim now ∧ now.rewriting = none) held work now →
              Holds (rewriter Tree) (atomicContract aim) failed now :=
            fun _ _ now own => raised now own.base.1
          intro state same
          subst same
          refine ⟨own.base.1, fun _ => raised now own.base.1, fun after does => ⟨trivial, ?_⟩⟩
          have read := (work.outside own does).2
          intro state same
          subst same
          refine ⟨read.base.1, fun _ => ?_, fun after does => ⟨trivial, ?_⟩⟩
          · exact work.holds_extractLayer (digests blob List.mem_cons_self) rest given_up read
          · obtain ⟨_, tree, found⟩ := work.found read does
            exact rest tree after found

private theorem holds_loadEntries {ops : TreeOps Tree} (archive : List (ArchiveEntry Tree))
    (digests : ∀ entry ∈ archive, ∀ blob, some blob ∈ entry.layers → isDigest blob.digest = true)
    (fits : ∀ entry ∈ archive, ∀ config (present : List (Blob Tree)), entry.config = some config →
      entry.layers = present.map some → ∀ tag ∈ entry.repoTags,
      FitsLoaded aim ops (patchConfig config (present.map Blob.digest)) (present.map Blob.digest)
        (normalizeImage tag.name))
    {now : Rewriting Tree} (own : Between aim [] now) :
    Holds (rewriter Tree) (atomicContract aim) (loadEntries ops archive) now := by
  have stop : ∀ ok now, Atomic aim now → Holds (rewriter Tree) (atomicContract aim) (.done ok) now :=
    fun ok now atomic state same => same ▸ atomic
  induction archive generalizing now with
  | nil => exact stop true now own.base.1
  | cons entry archive ih =>
      have rest : ∀ now held, Between aim held now →
          Holds (rewriter Tree) (atomicContract aim) (loadEntries ops archive) now :=
        fun now held own => ih (fun entry member => digests entry (List.mem_cons_of_mem _ member))
          (fun entry member => fits entry (List.mem_cons_of_mem _ member)) ⟨own.base, nofun, nofun⟩
      rw [loadEntries]
      cases config : entry.config with
      | none => exact stop false now own.base.1
      | some config' =>
          refine holds_importLayers entry.layers (digests entry List.mem_cons_self) [] ?_ (stop false)
            nofun own
          intro now held present shape own covered
          simp only [List.nil_append] at covered ⊢
          obtain ⟨trees, layers⟩ := exists_trees covered
          refine holds_publishTags ?_ layers entry.repoTags
            (fits entry List.mem_cons_self config' present config shape) (fun now own => rest now held own)
            (stop false) own
          exact patchConfig_bare _ _

private theorem removes_build : Removes (rewriter Tree) (atomicContract aim) (.build buildDir)
      (fun now => Atomic aim now) (fun now => Atomic aim now) := by
  have kept : ∀ {act : Act Tree} {now after : Rewriting Tree}, act.touches = [.build buildDir] →
      Atomic aim now → (rewriter Tree).does act now after → after.rewriting = now.rewriting →
      Atomic aim after := by
    intro act now after touches atomic does same
    refine atomic.keep ?_ fun name finished => ⟨same ▸ finished, ?_⟩
    · exact Act.extends does.1 fun _ _ touched => by simp [touches] at touched
    · exact Act.lookup_untouched does.1 (by simp [touches])
  exact {
    inv := fun own => own
    rely := fun own same => same ▸ own
    lose := fun own does => ⟨trivial, kept rfl own does does.2⟩
    drop := fun own does => ⟨trivial, kept rfl own does does.2⟩ }

private structure Built (aim : Aim Tree) (buildDir : Text) (held : List (Text × Tree))
    (store : Store Tree) : Prop where
  rootfs : store.build buildDir = aim.start.build buildDir
  held : ∀ layer ∈ held, store.HoldsLayer layer.1 layer.2

private theorem holds_storeBuiltImage {ref : Text} {lossesDest lossesBuild : List (Loss Tree)} (named : ref ≠ [])
    (fits : ∀ tree, aim.start.build buildDir = some (some tree) → Fits aim held ref
      ⟨some (patchConfig config dids), some (dids.map fullDiffId), some tree, some ref⟩)
    {now : Rewriting Tree} (atomic : Atomic aim now) (closed : now.rewriting = none)
    (built : Built aim buildDir held now.store) :
    Holds (rewriter Tree) (atomicContract aim)
      (storeBuiltImage buildDir ref config dids lossesDest lossesBuild) now := by
  have stop : ∀ ok now, Atomic aim now → Holds (rewriter Tree) (atomicContract aim) (.done ok) now :=
    fun ok now atomic state same => same ▸ atomic
  have work := (@image_shelter Tree aim (imageToPath ref)).imageWork held
  have given_up : ∀ dir now, Inside aim (imageToPath ref) held dir now →
      Holds (rewriter Tree) (atomicContract aim) (.done false) now :=
    fun _ now own => stop false now own.1.base.1
  have clearing : Clearing aim (imageToPath ref) (Built aim buildDir held) now :=
    ⟨atomic, .inl closed, built⟩
  refine holds_clearDest ?_ ?_ (stop false) clearing
  · intro before after same built
    have rootfs : after.build buildDir = before.build buildDir := same _ (by simp)
    exact ⟨rootfs.trans built.rootfs,
      fun layer member => (built.held layer member).congr (same _ (by simp))⟩
  intro now atomic opened empty built state same
  subst same
  refine ⟨atomic, fun _ => stop false now atomic, fun after does => ⟨trivial, ?_⟩⟩
  have touches : ∀ place ∈ (Act.takeRootfs buildDir (imageToPath ref) : Act Tree).touches,
      place = .image (imageToPath ref) ∨ place.area = .builds := by
    intro place member
    rcases List.mem_cons.mp member with rfl | rest
    · exact .inr rfl
    · exact .inl (List.mem_singleton.mp rest)
  have still : after.rewriting = some (imageToPath ref) := does.2.trans opened
  have moved : Atomic aim after := atomic.write (.inr opened) touches does still
  have taken : ∃ tree, aim.start.build buildDir = some (some tree) ∧
      after.store.image (imageToPath ref) = some ⟨none, none, some tree, none⟩ := by
    have applied := does.1
    rw [← built.rootfs]
    simp only [Act.apply, empty] at applied
    split at applied
    · rename_i tree config' manifest' ref' rootfs shape
      cases shape
      rw [Option.some.injEq] at applied
      exact ⟨tree, rootfs, by rw [Store.image, ← applied, AList.lookup_insert]⟩
    · cases applied
  obtain ⟨tree, origin, here⟩ := taken
  have inside : Inside aim (imageToPath ref) held ⟨none, none, some tree, none⟩ after := by
    refine ⟨⟨⟨moved, still⟩, trivial, here⟩, ⟨moved, still⟩, fun layer member => ⟨trivial, ?_⟩, fun _ _ work => by cases work⟩
    exact (built.held layer member).congr (Act.lookup_untouched does.1 (by simp [Act.touches]))
  refine work.holds_writeConfig (fun now configured => ?_) given_up inside
  refine work.holds_saveImageManifest (fun now saved => ?_) given_up configured
  refine holds_lastWrite named (fits tree origin) (fun now own => ?_) (stop false) saved
  exact removes_build.holds_quietly (stop true) (stop true) _ own.base.1

end

section
variable {ops : TreeOps Tree} {publication : Publication Tree} {start : Store Tree}

private def aimOf (ops : TreeOps Tree) (publication : Publication Tree) (start : Store Tree) : Aim Tree where
  start := start
  Alone ref := ref ≠ [] ∧ publication.Alone ref
  New := publication.New ops start
  grows := by
    intro before after ref dir extend new
    cases publication with
    | load archive =>
        obtain ⟨entry, member, config, blobs, trees, found, layers, holding, shape⟩ := new
        exact ⟨entry, member, config, blobs, trees, found, layers,
          holding.imp fun _ _ => extend.holdsLayer, shape⟩
    | build buildDir tag config dids lossesDest lossesBuild => exact new

private theorem atomic_start : Atomic (aimOf ops publication start) ⟨start, none⟩ where
  extend := Store.Extends.refl start
  kept := fun _ complete _ _ => ⟨complete, .inl rfl⟩

private theorem exists_layerTrees {store : Store Tree} {dids : List Text}
    (complete : ∀ did ∈ dids, store.layerExists did = true) :
    ∃ held : List (Text × Tree), (∀ layer ∈ held, store.HoldsLayer layer.1 layer.2) ∧
      ∃ trees, List.Forall₂ (fun did tree => (did, tree) ∈ held) dids trees := by
  induction dids with
  | nil => exact ⟨[], nofun, [], .nil⟩
  | cons did dids ih =>
      obtain ⟨tree, holds⟩ := Store.exists_holdsLayer (complete did List.mem_cons_self)
      obtain ⟨held, holding, trees, layers⟩ :=
        ih fun did member => complete did (List.mem_cons_of_mem _ member)
      refine ⟨(did, tree) :: held, fun layer member => ?_, tree :: trees,
        .cons List.mem_cons_self (layers.imp fun _ _ => List.mem_cons_of_mem _)⟩
      rcases List.mem_cons.mp member with rfl | later
      · exact holds
      · exact holding layer later

private theorem holds_script (ready : publication.Ready start) :
    Holds (rewriter Tree) (atomicContract (aimOf ops publication start)) (publication.script ops)
      ⟨start, none⟩ := by
  cases publication with
  | load archive =>
      have work := (@layer_shelter Tree (aimOf ops (.load archive) start)).layerWork
      have own : Between (aimOf ops (.load archive) start) [] ⟨start, none⟩ :=
        ⟨⟨atomic_start, rfl⟩, nofun, nofun⟩
      intro now same
      subst same
      refine ⟨atomic_start, fun _ now same => same ▸ atomic_start, fun after does => ⟨trivial, ?_⟩⟩
      refine holds_loadEntries archive ready ?_ (work.outside own does).2
      intro entry member config present found layers tag tagged ref complete alone mine
      have same : ref = normalizeImage tag.name :=
        (alone.2 _ ⟨entry, member, tag, tagged, rfl⟩ mine.symm).symm
      exact ⟨same, fun store trees holding =>
        ⟨entry, member, config, present, trees, found, layers, holding, rfl⟩⟩
  | build buildDir tag config dids lossesDest lossesBuild =>
      obtain ⟨held, holding, trees, layers⟩ := exists_layerTrees ready
      have built : Built (aimOf ops (.build buildDir tag config dids lossesDest lossesBuild) start)
          buildDir held start := ⟨rfl, holding⟩
      refine holds_storeBuiltImage (normalizeImage_ne_nil tag) ?_ atomic_start rfl built
      intro tree origin store present other complete alone mine
      have same : normalizeImage tag = other := alone.2 _ rfl mine.symm
      subst same
      have full : List.Forall₂ store.HoldsLayer dids trees :=
        layers.imp fun _ _ member => present _ member
      have bare := patchConfig_bare config dids
      have whole := @Store.whole_of_layers Tree ops store _ (patchConfig config dids) trees alone.1
        (trimmed_of_complete alone.1 complete) (bare.symm ▸ full)
      rw [bare] at whole
      exact ⟨whole.1, tree, origin, rfl⟩

def rewrite (act : Act Tree) (now : Rewriting Tree) : Option (Rewriting Tree) :=
  (act.apply now.store).map fun after => ⟨after, act.rewrites now.store after now.rewriting⟩

theorem advance_rewriting (count : Nat) (script : ImageScript Tree) (now : Rewriting Tree) :
    (rewriter Tree).Steps (script, now)
      (Script.advance Rewriting.store rewrite count (script, now)) := by
  apply @Script.advance_steps _ _ _ (rewriter Tree)
  · intro act state after applied
    simp only [rewrite, Option.map_eq_some_iff] at applied
    obtain ⟨store, applied, rfl⟩ := applied
    exact ⟨applied, rfl⟩
  · intro act state impossible
    exact .inl (by simpa [rewrite] using impossible)

end

end

namespace Reload

def name : Text := "a:1".toList

def layerDigest : Text := List.replicate 64 'a'

def ref : Text := normalizeImage name

def start : Store Nat :=
  (∅ : Store Nat).insert (Place.image (imageToPath ref))
    (ImageDir.mk (some ⟨[], []⟩) (some []) (some 5) (some ref))

def archive : List (ArchiveEntry Nat) :=
  [⟨some ⟨[], ['2']⟩, [some ⟨layerDigest, 7, [], ['t'], [], []⟩], [⟨name, []⟩]⟩]

def loadFor (steps : Nat) : ImageScript Nat × Rewriting Nat :=
  Script.advance Rewriting.store rewrite steps (loadImages countOps archive, ⟨start, none⟩)

theorem ready : (Publication.load archive).Ready start := by
  intro entry member blob present
  rw [List.mem_singleton.mp member] at present
  cases List.mem_singleton.mp present
  exact (by decide : isDigest layerDigest = true)

theorem alone : (Publication.load archive).Alone (normalizeImage name) := by
  rintro other ⟨entry, member, tag, tagged, rfl⟩ _
  rw [List.mem_singleton.mp member] at tagged
  rw [List.mem_singleton.mp tagged]

theorem complete :
    start.imageDirComplete (imageToPath (normalizeImage name)) (some (normalizeImage name)) = true := by
  decide +kernel

end Reload

end PDocker.Images
