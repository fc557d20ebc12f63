import PDocker.Images.Evaluation
import PDocker.Images.Save

/-!
# Saved images come back

An archive loaded into an empty store gives the images that were saved, each
under the reference that its short name is normalised to. These are the
references that were saved exactly if every one of them can be abbreviated.
-/

set_option autoImplicit false

namespace PDocker.Images

open Data Layers

section
variable {Tree Tar : Type}

def Store.stack (store : Store Tree) (dir : ImageDir Tree) : Option (List Tree) :=
  dir.loadManifest.mapM fun did => (store.layer (bareDiffId did)).bind LayerDir.tree

def Store.Layered (store : Store Tree) (name : Text) : Prop :=
  store.imageDirComplete (imageToPath (normalizeImage name)) (some (normalizeImage name)) = true ∧
    ∃ dir, store.image (imageToPath (normalizeImage name)) = some dir ∧ dir.loadManifest ≠ []

/-- The image is there in both stores, with the same config up to `diff_ids`
and layers that merge to the same root file system. -/
def SameImage (ops : TreeOps Tree) (before after : Store Tree) (ref : Text) : Prop :=
  ∃ old new trees, before.image (imageToPath ref) = some old ∧ after.image (imageToPath ref) = some new ∧
    new.config.map Config.rest = old.config.map Config.rest ∧ before.stack old = some trees ∧
    (after.stack new).map ops.merge = some (ops.merge trees) ∧ new.rootfs = some (ops.merge trees)

/-- `save_images`, then `load_images` into an empty store. -/
def RoundTrip (tools : Tools Tree Tar) (ops : TreeOps Tree) (store : Store Tree) (names : List Text) :
    Prop :=
  ∃ saved, saveImages tools store names = some saved ∧ ∀ entries, saved.Reads tools entries →
    ∃ loaded, run (loadImages ops entries) ∅ = (true, loaded) ∧
      (∀ ref, loaded.imageDirComplete (imageToPath ref) (some ref) = true ↔
        ref ∈ names.map normalizeImage) ∧
      ∀ ref ∈ names.map normalizeImage, SameImage ops store loaded ref

section
variable (tools : Tools Tree Tar) (store : Store Tree) (names : List Text)

def LayerTar (tar : Tar) : Prop :=
  ∃ did tree, store.HoldsLayer did tree ∧
    (tar = tools.retar did tree ∨ tools.sha256 (.layer tar) = bareDiffId did)

def Rewritten (name : Text) (digests : List Text) (config : Config) : Prop :=
  ∃ dir original, store.image (imageToPath (normalizeImage name)) = some dir ∧
    dir.config = some original ∧ digests.length = dir.loadManifest.length ∧
    (∀ digest ∈ digests, ∃ tar, LayerTar tools store tar ∧ tools.sha256 (.layer tar) = digest) ∧
    config = patchConfig original digests

def Hashed : Content Tar → Prop
  | .layer tar => LayerTar tools store tar
  | .config config => ∃ name ∈ names, ∃ digests, Rewritten tools store name digests config
  | .manifest digest layers =>
      ∃ name ∈ names, ∃ config, Rewritten tools store name layers config ∧
        digest = tools.sha256 (.config config)

/-- An archive of a tree unpacks to the tree, and what is hashed has digests
that tell it apart. Layers have been unpacked from the archive they are named after. -/
structure Faithful : Prop where
  unpacks : ∀ did tree, tools.extract (tools.retar did tree) = tree
  digest : ∀ content, isDigest (tools.sha256 content) = true
  distinct : ∀ left right, Hashed tools store names left → Hashed tools store names right →
    tools.sha256 left = tools.sha256 right → left = right
  named : ∀ name ∈ store.names .layers, name ≠ [] ∧ ':' ∉ name
  imported : ∀ did tree, store.HoldsLayer did tree →
    ∃ tar, tools.sha256 (.layer tar) = bareDiffId did ∧ tools.extract tar = tree

end

variable {tools : Tools Tree Tar} {store : Store Tree} {names : List Text}

def Keyed (tools : Tools Tree Tar) (store : Store Tree) (names : List Text)
    (blobs : Table Text (Content Tar)) : Prop :=
  ∀ key content, blobs.lookup key = some content →
    Hashed tools store names content ∧ key = tools.sha256 content

def Grown (before after : Table Text (Content Tar)) : Prop :=
  ∀ key content, before.lookup key = some content → after.lookup key = some content

def Stored (tools : Tools Tree Tar) (blobs : Table Text (Content Tar)) (digest : Text) (tree : Tree) :
    Prop :=
  ∃ tar, blobs.lookup digest = some (.layer tar) ∧ tools.extract tar = tree

theorem Grown.refl (blobs : Table Text (Content Tar)) : Grown blobs blobs := fun _ _ found => found

theorem Grown.trans {first second third : Table Text (Content Tar)} (left : Grown first second)
    (right : Grown second third) : Grown first third :=
  fun key content found => right key content (left key content found)

variable {after before blobs : Table Text (Content Tar)} {digest did path : Text} {tree : Tree}
  {content : Content Tar} {rest : List Text} {trees : List Tree} {dir : ImageDir Tree} {expected : Option Text}
  {saved : Saved Tar} {bundles : List Bundle} {now : Store Tree}

theorem Stored.grown (stored : Stored tools before digest tree) (grown : Grown before after) :
    Stored tools after digest tree := by
  obtain ⟨tar, found, extracts⟩ := stored
  exact ⟨tar, grown _ _ found, extracts⟩

variable (keyed : Keyed tools store names blobs)

include keyed

theorem layerTar_of_stored (stored : Stored tools blobs digest tree) :
    ∃ tar, LayerTar tools store tar ∧ tools.sha256 (.layer tar) = digest := by
  obtain ⟨tar, found, _⟩ := stored
  have known := keyed digest (.layer tar) found
  exact ⟨tar, known.1, known.2.symm⟩

theorem Keyed.insert (hashed : Hashed tools store names content) :
    Keyed tools store names (blobs.insert (tools.sha256 content) content) := by
  intro key other found
  rw [Table.lookup_insert_eq_ite] at found
  split at found
  · cases found
    exact ⟨hashed, ‹_›⟩
  · exact keyed key other found

theorem Keyed.grown (faithful : Faithful tools store names) (hashed : Hashed tools store names content) :
    Grown blobs (blobs.insert (tools.sha256 content) content) := by
  intro key other found
  rw [Table.lookup_insert_eq_ite]
  split
  · rename_i same
    have known := keyed key other found
    rw [faithful.distinct content other hashed known.1 (same.symm.trans known.2)]
  · exact found

omit keyed

theorem bareDiffId_of_plain (plain : ':' ∉ did) : bareDiffId did = did := by
  have all : ∀ char ∈ did, decide (char ≠ ':') = true := by
    intro char member
    rw [decide_eq_true_eq]
    rintro rfl
    exact plain member
  rw [bareDiffId, List.dropWhile_eq_nil_iff.mpr all]

theorem plain_of_isDigest {name : Text} (digest : isDigest name = true) : ':' ∉ name := by
  intro member
  have hex := List.all_eq_true.mp (Bool.and_eq_true_iff.mp digest).2 ':' member
  revert hex
  decide

theorem filled_of_isDigest {name : Text} (digest : isDigest name = true) : name ≠ [] := by
  rintro rfl
  cases digest

private theorem edit_front (front rest : List Text) (did actual : Text) :
    ∃ front', (if actual = did then front ++ did :: rest
        else (front ++ did :: rest).set ((front ++ did :: rest).idxOf did) actual) = front' ++ rest ∧
      front'.length = front.length + 1 := by
  by_cases same : actual = did
  · rw [if_pos same]
    exact ⟨front ++ [did], by simp, by simp⟩
  rw [if_neg same]
  by_cases seen : did ∈ front
  · have early := List.idxOf_lt_length_of_mem seen
    rw [List.idxOf_append_of_mem seen, List.set_append_left _ _ early]
    exact ⟨front.set (front.idxOf did) actual ++ [did], by simp, by simp⟩
  · rw [List.idxOf_append_of_notMem seen, List.idxOf_cons_self, Nat.add_zero,
      List.set_append_right _ _ (Nat.le_refl _), Nat.sub_self, List.set_cons_zero]
    exact ⟨front ++ [actual], by simp, by simp⟩

private theorem retarLayers_spec (faithful : Faithful tools store names)
    (layers : List.Forall₂ store.HoldsLayer rest trees)
    (plain : ∀ did ∈ rest, ':' ∉ did) (front : List Text)
    (keyed : Keyed tools store names blobs) (seen : List Text) :
    ∃ blobs' digests, retarLayers tools store rest.length front.length (front ++ rest) blobs seen =
        some (blobs', seen ++ digests) ∧
      Keyed tools store names blobs' ∧ Grown blobs blobs' ∧
      List.Forall₂ (Stored tools blobs') digests trees := by
  induction layers generalizing front blobs seen with
  | nil => exact ⟨blobs, [], by simp [retarLayers], keyed, Grown.refl blobs, .nil⟩
  | @cons did tree rest trees holds _ ih =>
      have bare := bareDiffId_of_plain (plain did List.mem_cons_self)
      have later : ∀ other ∈ rest, ':' ∉ other := fun other member =>
        plain other (List.mem_cons_of_mem _ member)
      have here : (front ++ did :: rest)[front.length]? = some did := by simp
      have found := holds.2
      rw [bare] at found
      rw [List.length_cons, retarLayers]
      simp only [here]
      by_cases known : did ∈ blobs
      · rw [if_pos known]
        obtain ⟨blobs', digests, result, keyed', grown, stored⟩ :=
          ih later (front ++ [did]) keyed (seen ++ [did])
        have first : Stored tools blobs did tree := by
          obtain ⟨content, looked⟩ := Option.isSome_iff_exists.mp (AList.lookup_isSome.mpr known)
          obtain ⟨tar, digest, extracts⟩ := faithful.imported did tree holds
          have source : Hashed tools store names (.layer tar) := ⟨did, tree, holds, .inr digest⟩
          have kept := keyed did content looked
          have same : content = .layer tar := by
            apply faithful.distinct content _ kept.1 source
            rw [digest, bare, kept.2]
          exact ⟨tar, by rw [looked, same], extracts⟩
        refine ⟨blobs', did :: digests, ?_, keyed', grown, .cons (first.grown grown) stored⟩
        simpa using result
      · rw [if_neg known]
        simp only [found]
        have hashed : Hashed tools store names (.layer (tools.retar did tree)) :=
          ⟨did, tree, holds, .inl rfl⟩
        obtain ⟨front', edited, length⟩ :=
          edit_front front rest did (tools.sha256 (.layer (tools.retar did tree)))
        obtain ⟨blobs', digests, result, keyed', grown, stored⟩ :=
          ih later front' (keyed.insert hashed) (seen ++ [tools.sha256 (.layer (tools.retar did tree))])
        have first : Stored tools (blobs.insert (tools.sha256 (.layer (tools.retar did tree)))
            (.layer (tools.retar did tree))) (tools.sha256 (.layer (tools.retar did tree))) tree :=
          ⟨_, AList.lookup_insert _, faithful.unpacks did tree⟩
        refine ⟨blobs', tools.sha256 (.layer (tools.retar did tree)) :: digests, ?_, keyed',
          (keyed.grown faithful hashed).trans grown, .cons (first.grown grown) stored⟩
        rw [edited, ← length]
        simpa using result

private theorem bare_of_retarLayers (faithful : Faithful tools store names) (front : List Text) {seen : List Text}
    {result : Table Text (Content Tar) × List Text} (keys : ∀ key ∈ blobs, isDigest key = true)
    (packed : retarLayers tools store rest.length front.length (front ++ rest) blobs seen = some result) :
    (∀ did ∈ rest, did ≠ [] ∧ ':' ∉ did) ∧ ∀ key ∈ result.1, isDigest key = true := by
  induction rest generalizing front blobs seen with
  | nil =>
      cases packed
      exact ⟨by simp, keys⟩
  | cons did rest ih =>
      have here : (front ++ did :: rest)[front.length]? = some did := by simp
      rw [List.length_cons, retarLayers] at packed
      simp only [here] at packed
      by_cases known : did ∈ blobs
      · rw [if_pos known] at packed
        have later := ih (front ++ [did]) keys (by simpa using packed)
        have digest := keys did known
        exact ⟨List.forall_mem_cons.mpr ⟨⟨filled_of_isDigest digest, plain_of_isDigest digest⟩, later.1⟩,
          later.2⟩
      rw [if_neg known] at packed
      cases found : (store.layer did).bind LayerDir.tree with
      | none => simp [found] at packed
      | some tree =>
          simp only [found] at packed
          have named : did ≠ [] ∧ ':' ∉ did := by
            apply faithful.named
            obtain ⟨dir, there, _⟩ := Option.bind_eq_some_iff.mp found
            rw [mem_names, show store.lookup (.layer did) = some dir from there]
            rfl
          have keys' : ∀ key ∈ blobs.insert (tools.sha256 (.layer (tools.retar did tree)))
              (.layer (tools.retar did tree)), isDigest key = true := by
            intro key member
            rcases (AList.mem_insert _).mp member with rfl | old
            · exact faithful.digest _
            · exact keys key old
          obtain ⟨front', edited, length⟩ :=
            edit_front front rest did (tools.sha256 (.layer (tools.retar did tree)))
          rw [edited, ← length] at packed
          have later := ih front' keys' packed
          exact ⟨List.forall_mem_cons.mpr ⟨named, later.1⟩, later.2⟩

private theorem mapM_eq_some_iff {First Second : Type} {f : First → Option Second} {xs : List First}
    {ys : List Second} : xs.mapM f = some ys ↔ List.Forall₂ (fun x y => f x = some y) xs ys := by
  induction xs generalizing ys with
  | nil => cases ys <;> simp
  | cons x xs ih =>
      cases ys with
      | nil => simp [Option.bind_eq_some_iff]
      | cons y ys => simp [Option.bind_eq_some_iff, ih]

private theorem exists_right {First Second : Type} {Rel : First → Second → Prop} {xs : List First}
    {ys : List Second} (all : List.Forall₂ Rel xs ys) {x : First} (member : x ∈ xs) :
    ∃ y ∈ ys, Rel x y := by
  induction all with
  | nil => cases member
  | @cons _ y _ ys here _ ih =>
      rcases List.mem_cons.mp member with rfl | later
      · exact ⟨y, List.mem_cons_self, here⟩
      · obtain ⟨other, inside, related⟩ := ih later
        exact ⟨other, List.mem_cons_of_mem _ inside, related⟩

def Packed (tools : Tools Tree Tar) (store : Store Tree) (blobs : Table Text (Content Tar)) (name : Text)
    (entry : SavedEntry) : Prop :=
  ∃ dir config trees, store.image (imageToPath (normalizeImage name)) = some dir ∧
    dir.config = some config ∧ store.stack dir = some trees ∧
    entry.repoTag = shortName (normalizeImage name) ∧
    blobs.lookup entry.config = some (.config (patchConfig config entry.layers)) ∧
    List.Forall₂ (Stored tools blobs) entry.layers trees

theorem Packed.grown {name : Text} {entry : SavedEntry}
    (packed : Packed tools store before name entry) (grown : Grown before after) :
    Packed tools store after name entry := by
  obtain ⟨dir, config, trees, there, parsed, stack, tag, described, layers⟩ := packed
  exact ⟨dir, config, trees, there, parsed, stack, tag, grown _ _ described,
    layers.imp fun _ _ stored => stored.grown grown⟩

def PlainManifest (store : Store Tree) (name : Text) : Prop :=
  ∀ dir, store.image (imageToPath (normalizeImage name)) = some dir →
    ∀ did ∈ dir.loadManifest, isDigest did = true

private theorem layerExists_of_complete
    (complete : store.imageDirComplete path expected = true) (there : store.image path = some dir)
    (member : did ∈ dir.loadManifest) (filled : bareDiffId did ≠ []) :
    store.layerExists (bareDiffId did) = true := by
  simp only [Store.imageDirComplete, there, Bool.and_eq_true] at complete
  have files := complete.2
  simp only [Store.filesComplete] at files
  cases config : dir.config with
  | none => simp [config] at files
  | some config' =>
      cases text : dir.imageRef with
      | none => simp [config, text] at files
      | some text' =>
          simp only [config, text, Bool.and_eq_true, List.all_eq_true] at files
          apply files.2
          rw [ImageDir.requiredDiffIds, List.mem_eraseDups, List.mem_filter]
          exact ⟨List.mem_map_of_mem (List.mem_append_left _ member), decide_eq_true filled⟩

private theorem config_of_complete
    (complete : store.imageDirComplete path expected = true) (there : store.image path = some dir) :
    ∃ config, dir.config = some config := by
  simp only [Store.imageDirComplete, there, Store.filesComplete] at complete
  cases config : dir.config with
  | none => simp [config] at complete
  | some config' => exact ⟨config', rfl⟩

private theorem exists_stack {dids : List Text} (digests : ∀ did ∈ dids, isDigest did = true)
    (complete : ∀ did ∈ dids, store.layerExists (bareDiffId did) = true) :
    ∃ trees, List.Forall₂ store.HoldsLayer dids trees := by
  induction dids with
  | nil => exact ⟨[], .nil⟩
  | cons did dids ih =>
      rw [List.forall_mem_cons] at digests complete
      obtain ⟨trees, layers⟩ := ih digests.2 complete.2
      have here := complete.1
      rw [bareDiffId_of_isDigest digests.1] at here
      obtain ⟨tree, holds⟩ := Store.exists_holdsLayer here
      exact ⟨tree :: trees, .cons holds layers⟩

private theorem stack_of_layers
    (layers : List.Forall₂ store.HoldsLayer dir.loadManifest trees) : store.stack dir = some trees :=
  mapM_eq_some_iff.mpr (layers.imp fun _ _ holds => holds.2)

private theorem saveBundle_spec (faithful : Faithful tools store names) {name : Text}
    (member : name ∈ names) (layered : store.Layered name) (plain : PlainManifest store name)
    {bundle : Bundle} (collected : collectBundle store name = some bundle)
    (keyed : Keyed tools store names saved.blobs) :
    ∃ after entry, saveBundle tools store saved bundle = some after ∧
      after.manifest = saved.manifest ++ [entry] ∧ Keyed tools store names after.blobs ∧
      Grown saved.blobs after.blobs ∧ Packed tools store after.blobs name entry := by
  obtain ⟨complete, dir, there, filled⟩ := layered
  obtain ⟨config, parsed⟩ := config_of_complete complete there
  have shape : bundle = ⟨normalizeImage name, dir.loadManifest, config⟩ := by
    simp only [collectBundle, there, parsed, if_neg filled, Option.some.injEq] at collected
    exact collected.symm
  subst shape
  have digests := plain dir there
  obtain ⟨trees, layers⟩ := exists_stack digests fun did inside =>
    layerExists_of_complete complete there inside
      (by rw [bareDiffId_of_isDigest (digests did inside)]; exact filled_of_isDigest (digests did inside))
  obtain ⟨blobs, packed, result, keyed', grown, stored⟩ :=
    retarLayers_spec faithful layers (fun did inside => plain_of_isDigest (digests did inside)) [] keyed []
  rw [List.nil_append, List.nil_append] at result
  have rewritten : Rewritten tools store name packed (patchConfig config packed) := by
    refine ⟨dir, config, there, parsed, ?_, ?_, rfl⟩
    · rw [stored.length_eq, layers.length_eq]
    · have sources := stored.imp fun digest tree here =>
        And.intro (layerTar_of_stored keyed' here) here
      exact ((List.forall₂_and_left _ _).mp sources).1
  have first : Hashed tools store names (.config (patchConfig config packed)) :=
    ⟨name, member, packed, rewritten⟩
  have second : Hashed tools store names
      (.manifest (tools.sha256 (.config (patchConfig config packed))) packed) :=
    ⟨name, member, _, rewritten, rfl⟩
  have grows := (keyed'.grown faithful first).trans ((keyed'.insert first).grown faithful second)
  refine ⟨⟨_, _⟩, ⟨tools.sha256 (.config (patchConfig config packed)), shortName (normalizeImage name),
    packed⟩, ?_, rfl, (keyed'.insert first).insert second, ?_, ?_⟩
  · rw [saveBundle]
    simp only [List.length_nil] at result
    simp only [result]
    rfl
  · exact grown.trans grows
  · refine ⟨dir, config, trees, there, parsed, stack_of_layers layers, rfl, ?_,
      stored.imp fun _ _ here => here.grown grows⟩
    exact (keyed'.insert first).grown faithful second _ _ (AList.lookup_insert _)

private theorem saveBundles_spec (faithful : Faithful tools store names)
    (inside : ∀ name ∈ rest, name ∈ names) (layered : ∀ name ∈ rest, store.Layered name)
    (plain : ∀ name ∈ rest, PlainManifest store name)
    (collected : List.Forall₂ (fun name bundle => collectBundle store name = some bundle) rest bundles)
    (keyed : Keyed tools store names saved.blobs) :
    ∃ after entries, bundles.foldlM (saveBundle tools store) saved = some after ∧
      after.manifest = saved.manifest ++ entries ∧ Keyed tools store names after.blobs ∧
      Grown saved.blobs after.blobs ∧ List.Forall₂ (Packed tools store after.blobs) rest entries := by
  induction collected generalizing saved with
  | nil => exact ⟨saved, [], rfl, by simp, keyed, Grown.refl _, .nil⟩
  | @cons name bundle rest bundles here _ ih =>
      rw [List.forall_mem_cons] at inside layered plain
      obtain ⟨mid, entry, first, manifest, keyed', grown, packed⟩ :=
        saveBundle_spec faithful inside.1 layered.1 plain.1 here keyed
      obtain ⟨after, entries, result, manifest', keyed'', grown', rest'⟩ :=
        ih inside.2 layered.2 plain.2 keyed'
      refine ⟨after, entry :: entries, ?_, ?_, keyed'', grown.trans grown', .cons (packed.grown grown') rest'⟩
      · rw [List.foldlM_cons, first]
        exact result
      · rw [manifest', manifest, List.append_assoc]
        rfl

private theorem exists_bundles (layered : ∀ name ∈ rest, store.Layered name) :
    ∃ bundles, List.Forall₂ (fun name bundle => collectBundle store name = some bundle) rest bundles := by
  induction rest with
  | nil => exact ⟨[], .nil⟩
  | cons name rest ih =>
      rw [List.forall_mem_cons] at layered
      obtain ⟨bundles, later⟩ := ih layered.2
      obtain ⟨complete, dir, there, filled⟩ := layered.1
      obtain ⟨config, parsed⟩ := config_of_complete complete there
      refine ⟨⟨normalizeImage name, dir.loadManifest, config⟩ :: bundles, .cons ?_ later⟩
      simp only [collectBundle, there, parsed, if_neg filled]

variable (faithful : Faithful tools store names)

include faithful

theorem saveImages_spec
    (layered : ∀ name ∈ names, store.Layered name) (plain : ∀ name ∈ names, PlainManifest store name) :
    ∃ saved, saveImages tools store names = some saved ∧ Keyed tools store names saved.blobs ∧
      List.Forall₂ (Packed tools store saved.blobs) names saved.manifest := by
  obtain ⟨bundles, collected⟩ := exists_bundles layered
  have empty : Keyed tools store names (Saved.mk ∅ [] : Saved Tar).blobs := by
    intro key content found
    cases found
  obtain ⟨saved, entries, result, manifest, keyed, _, packed⟩ :=
    saveBundles_spec faithful (fun _ member => member) layered plain collected empty
  refine ⟨saved, ?_, keyed, ?_⟩
  · rw [saveImages, mapM_eq_some_iff.mpr collected]
    exact result
  · rw [manifest]
    exact packed

private theorem bare_of_saveBundles {after : Saved Tar} (keys : ∀ key ∈ saved.blobs, isDigest key = true)
    (result : bundles.foldlM (saveBundle tools store) saved = some after) :
    ∀ bundle ∈ bundles, ∀ did ∈ bundle.diffIds, did ≠ [] ∧ ':' ∉ did := by
  induction bundles generalizing saved with
  | nil => simp
  | cons bundle bundles ih =>
      rw [List.foldlM_cons] at result
      obtain ⟨mid, first, later⟩ := Option.bind_eq_some_iff.mp result
      rw [saveBundle] at first
      cases packed : retarLayers tools store bundle.diffIds.length 0 bundle.diffIds saved.blobs [] with
      | none => simp [packed] at first
      | some packed' =>
          obtain ⟨blobs, digests⟩ := packed'
          have here := bare_of_retarLayers faithful [] keys packed
          simp only [packed, Option.some.injEq] at first
          have keys' : ∀ key ∈ mid.blobs, isDigest key = true := by
            intro key member
            rw [← first] at member
            rcases (AList.mem_insert _).mp member with rfl | member
            · exact faithful.digest _
            rcases (AList.mem_insert _).mp member with rfl | old
            · exact faithful.digest _
            · exact here.2 key old
          exact List.forall_mem_cons.mpr ⟨here.1, ih keys' later⟩

theorem plain_of_saveImages (layered : ∀ name ∈ names, store.Layered name)
    (result : saveImages tools store names = some saved) :
    ∀ name ∈ names, PlainManifest store name := by
  obtain ⟨bundles, collected⟩ := exists_bundles layered
  rw [saveImages, mapM_eq_some_iff.mpr collected] at result
  have bare := bare_of_saveBundles faithful (fun key member => by cases member) result
  intro name member dir there did listed
  obtain ⟨bundle, inside, here⟩ := exists_right collected member
  have complete := (layered name member).1
  obtain ⟨config, parsed⟩ := config_of_complete complete there
  have shape : bundle.diffIds = dir.loadManifest := by
    simp only [collectBundle, there, parsed] at here
    split at here
    · cases here
    · cases here
      rfl
  have plain := bare bundle inside did (shape ▸ listed)
  have fixed := bareDiffId_of_plain plain.2
  have exist := layerExists_of_complete complete there listed (fixed.symm ▸ plain.1)
  have digest := store.isDigest_of_layerExists exist
  rwa [fixed, fixed] at digest

omit faithful

def Imported (tools : Tools Tree Tar) (store now : Store Tree) : Prop :=
  ∀ name dir, now.layer name = some dir → ∃ tar, LayerTar tools store tar ∧
    tools.sha256 (.layer tar) = name ∧ dir = extractedDir name (tools.extract tar)

structure LayersAdded (before after : Store Tree) : Prop where
  images : ∀ path, after.image path = before.image path
  layers : ∀ name dir, before.layer name = some dir → after.layer name = some dir

theorem LayersAdded.refl (now : Store Tree) : LayersAdded now now := ⟨fun _ => rfl, fun _ _ found => found⟩

theorem LayersAdded.trans {first second third : Store Tree} (left : LayersAdded first second)
    (right : LayersAdded second third) : LayersAdded first third where
  images := fun path => (right.images path).trans (left.images path)
  layers := fun name dir found => right.layers name dir (left.layers name dir found)

private theorem exists_dir_of_holds
    (holds : now.HoldsLayer did tree) : ∃ dir, now.layer (bareDiffId did) = some dir := by
  obtain ⟨dir, found, _⟩ := Option.bind_eq_some_iff.mp holds.2
  exact ⟨dir, found⟩

theorem LayersAdded.holdsLayer {before after : Store Tree} (added : LayersAdded before after)
    (holds : before.HoldsLayer did tree) : after.HoldsLayer did tree := by
  obtain ⟨dir, found⟩ := exists_dir_of_holds holds
  exact holds.congr ((added.layers _ dir found).trans found.symm)

private theorem run_importLayer (faithful : Faithful tools store names) {now : Store Tree}
    {next failed : ImageScript Tree} {blob : Blob Tree} {tar : Tar} (source : LayerTar tools store tar)
    (digest : blob.digest = tools.sha256 (.layer tar)) (tree : blob.tree = tools.extract tar)
    (imported : Imported tools store now) :
    ∃ after, run (importLayer blob next failed) now = run next after ∧
      Imported tools store after ∧ LayersAdded now after ∧ after.HoldsLayer blob.digest blob.tree := by
  have hex : isDigest blob.digest = true := digest ▸ faithful.digest _
  have holds : ∀ after : Store Tree, after.layer blob.digest = some (extractedDir blob.digest blob.tree) →
      after.HoldsLayer blob.digest blob.tree := by
    intro after found
    refine ⟨layerExists_of_extracted hex found, ?_⟩
    rw [bareDiffId_of_isDigest hex, found]
    rfl
  cases here : now.layer blob.digest with
  | some dir =>
      obtain ⟨tar', source', same, shape⟩ := imported blob.digest dir here
      have equal : Content.layer tar' = .layer tar :=
        faithful.distinct _ _ source' source (same.trans digest)
      cases equal
      have found : now.layer blob.digest = some (extractedDir blob.digest blob.tree) := by
        rw [here, shape, tree]
      refine ⟨now, ?_, imported, LayersAdded.refl now, holds now found⟩
      have exist := layerExists_of_extracted hex found
      simp only [importLayer, run, Script.eval, Act.apply, exist, ↓reduceIte]
  | none =>
      have unused : now.layer (blob.tmp blob.digest) = none := by
        cases there : now.layer (blob.tmp blob.digest) with
        | none => rfl
        | some dir =>
            obtain ⟨other, _, name, _⟩ := imported _ dir there
            have hex' := faithful.digest (.layer other)
            rw [name, isDigest_tmp] at hex'
            cases hex'
      obtain ⟨after, runs, put⟩ := @leads_extractLayer Tree next failed now _ blob hex here unused
      have absent : now.layerExists blob.digest = false := by
        simp only [Store.layerExists, bareDiffId_of_isDigest hex, here, Bool.and_false]
      have added : LayersAdded now after := by
        refine ⟨put.image, fun name dir found => ?_⟩
        have apart : Place.layer name ≠ .layer blob.digest := by
          intro same
          have names : name = blob.digest := congrArg Place.name same
          rw [names, here] at found
          cases found
        exact (put.frame _ apart).trans found
      refine ⟨after, ?_, ?_, added, holds after put.here⟩
      · rw [← runs]
        simp only [importLayer, run, Script.eval, Act.apply, absent, Bool.false_eq_true, ↓reduceIte]
      intro name dir found
      by_cases same : name = blob.digest
      · subst same
        have shape : some dir = some (extractedDir blob.digest blob.tree) := found.symm.trans put.here
        exact ⟨tar, source, digest.symm, by rw [Option.some.inj shape, tree]⟩
      · have apart : Place.layer name ≠ .layer blob.digest :=
          fun equal => same (congrArg Place.name equal)
        exact imported name dir ((put.frame _ apart).symm.trans found)

private theorem run_importLayers (faithful : Faithful tools store names) {saved : Saved Tar}
    (keyed : Keyed tools store names saved.blobs) {next : List Text → ImageScript Tree}
    {failed : ImageScript Tree} {digests : List Text} {trees : List Tree}
    (stored : List.Forall₂ (Stored tools saved.blobs) digests trees) {blobs : List (Option (Blob Tree))}
    (reads : blobs.map (Option.map fun blob => (blob.digest, blob.tree)) =
      digests.map (saved.layer tools)) {now : Store Tree} (imported : Imported tools store now)
    (seen : List Text) :
    ∃ after, run (importLayers next failed seen blobs) now = run (next (seen ++ digests)) after ∧
      Imported tools store after ∧ LayersAdded now after ∧ List.Forall₂ after.HoldsLayer digests trees := by
  induction stored generalizing blobs now seen with
  | nil =>
      obtain rfl : blobs = [] := List.map_eq_nil_iff.mp reads
      exact ⟨now, by rw [importLayers, List.append_nil], imported, LayersAdded.refl now, .nil⟩
  | @cons digest tree digests trees here _ ih =>
      obtain ⟨tar, found, extracts⟩ := here
      have known := keyed digest (.layer tar) found
      obtain ⟨read, rest, rfl, first, later⟩ := List.map_eq_cons_iff.mp reads
      have shape : read.map (fun blob => (blob.digest, blob.tree)) = some (digest, tree) := by
        rw [first, Saved.layer, found]
        simp only [known.2, extracts]
      obtain ⟨blob, rfl, pair⟩ := Option.map_eq_some_iff.mp shape
      cases pair
      obtain ⟨mid, runs, imported', added, holds⟩ :=
        @run_importLayer _ _ _ _ _ faithful now
          (importLayers next failed (seen ++ [blob.digest]) rest) failed blob tar known.1 known.2
          extracts.symm imported
      obtain ⟨after, runs', imported'', added', holds'⟩ := ih later imported' (seen ++ [blob.digest])
      have opened : run (importLayers next failed seen (some blob :: rest)) now =
          run (importLayer blob (importLayers next failed (seen ++ [blob.digest]) rest) failed) now := rfl
      refine ⟨after, ?_, imported'', added.trans added', .cons (added'.holdsLayer holds) holds'⟩
      rw [opened, runs, runs', List.append_assoc, List.singleton_append]

def Copy (ops : TreeOps Tree) (store now : Store Tree) (name : Text) (dir : ImageDir Tree) : Prop :=
  ∃ old config trees digests, store.image (imageToPath (normalizeImage name)) = some old ∧
    old.config = some config ∧ store.stack old = some trees ∧
    List.Forall₂ now.HoldsLayer digests trees ∧
    dir = loadedDir ops (patchConfig config digests) digests trees (loadedName (normalizeImage name))

theorem Copy.added {ops : TreeOps Tree} {before after : Store Tree} {name : Text}
    (copy : Copy ops store before name dir)
    (layers : ∀ did tree, before.HoldsLayer did tree → after.HoldsLayer did tree) :
    Copy ops store after name dir := by
  obtain ⟨old, config, trees, digests, there, parsed, stack, holds, shape⟩ := copy
  exact ⟨old, config, trees, digests, there, parsed, stack, holds.imp layers, shape⟩

structure Loading (tools : Tools Tree Tar) (ops : TreeOps Tree) (store now : Store Tree)
    (loaded : List Text) : Prop where
  imported : Imported tools store now
  origin : ∀ path dir, now.image path = some dir → ∃ name ∈ loaded,
    path = imageToPath (loadedName (normalizeImage name)) ∧ Copy ops store now name dir
  present : ∀ name ∈ loaded, (now.image (imageToPath (loadedName (normalizeImage name)))).isSome = true

variable {ops : TreeOps Tree}

private theorem run_loadEntry (faithful : Faithful tools store names) {saved : Saved Tar}
    (keyed : Keyed tools store names saved.blobs) {name : Text} {described : SavedEntry}
    (packed : Packed tools store saved.blobs name described) {entry : ArchiveEntry Tree}
    (reads : entry.contents = saved.contents tools described) {entries : List (ArchiveEntry Tree)}
    {now : Store Tree} {done : List Text} (loading : Loading tools ops store now done) :
    ∃ after, run (loadEntries ops (entry :: entries)) now = run (loadEntries ops entries) after ∧
      Loading tools ops store after (done ++ [name]) := by
  obtain ⟨old, config, trees, there, parsed, stack, named, found, stored⟩ := packed
  obtain ⟨readConfig, layers, repoTags⟩ := entry
  simp only [ArchiveEntry.contents, Saved.contents, Saved.config, found, Prod.mk.injEq] at reads
  obtain ⟨rfl, reads, tags⟩ := reads
  obtain ⟨tag, rfl, tagged⟩ := List.map_eq_singleton_iff.mp tags
  obtain ⟨mid, runs, imported, added, holds⟩ :=
    @run_importLayers _ _ _ _ _ faithful saved keyed
      (fun dids => publishTags ops (patchConfig (patchConfig config described.layers) dids) dids
        (loadEntries ops entries) (.done false) [tag])
      (.done false) described.layers trees stored layers reads now loading.imported []
  have dest : imageToPath (normalizeImage tag.name) = imageToPath (loadedName (normalizeImage name)) := by
    rw [tagged, named]
    rfl
  obtain ⟨after, published, put⟩ := @leads_publishTags Tree (loadEntries ops entries) (.done false) mid
    ops (patchConfig config described.layers) described.layers trees tag holds
  have grown : ∀ did tree, now.HoldsLayer did tree → after.HoldsLayer did tree :=
    fun did tree here => (added.holdsLayer here).congr (put.layer _)
  refine ⟨after, runs.trans published, ?_, ?_, ?_⟩
  · intro did dir here
    exact imported did dir ((put.layer did).symm.trans here)
  · intro path dir here
    by_cases own : path = imageToPath (normalizeImage tag.name)
    · subst own
      have shape := Option.some.inj (here.symm.trans put.here)
      refine ⟨name, List.mem_append_right _ List.mem_cons_self, dest, old, config, trees,
        described.layers, there, parsed, stack, holds.imp fun _ _ holds => holds.congr (put.layer _), ?_⟩
      rw [shape, tagged, named]
      rfl
    · have apart : Place.image path ≠ .image (imageToPath (normalizeImage tag.name)) :=
        fun same => own (congrArg Place.name same)
      have before : now.image path = some dir :=
        (added.images path).symm.trans ((put.frame _ apart).symm.trans here)
      obtain ⟨other, listed, at_path, copy⟩ := loading.origin path dir before
      exact ⟨other, List.mem_append_left _ listed, at_path, copy.added grown⟩
  · intro other member
    by_cases own : imageToPath (loadedName (normalizeImage other)) = imageToPath (normalizeImage tag.name)
    · have filled : after.image (imageToPath (normalizeImage tag.name)) = some _ := put.here
      rw [own, filled]
      rfl
    have apart : Place.image (imageToPath (loadedName (normalizeImage other))) ≠
        .image (imageToPath (normalizeImage tag.name)) := fun same => own (congrArg Place.name same)
    have same : after.image (imageToPath (loadedName (normalizeImage other))) =
        now.image (imageToPath (loadedName (normalizeImage other))) :=
      (put.frame _ apart).trans (added.images _)
    rw [same]
    rcases List.mem_append.mp member with earlier | this
    · exact loading.present other earlier
    · rw [List.mem_singleton.mp this, dest] at own
      exact absurd rfl own

private theorem run_loadEntries (faithful : Faithful tools store names)
    (keyed : Keyed tools store names saved.blobs) {manifest : List SavedEntry}
    (packed : List.Forall₂ (Packed tools store saved.blobs) rest manifest)
    {entries : List (ArchiveEntry Tree)}
    (reads : entries.map ArchiveEntry.contents = manifest.map (saved.contents tools))
    {done : List Text} (loading : Loading tools ops store now done) :
    ∃ loaded, run (loadEntries ops entries) now = (true, loaded) ∧
      Loading tools ops store loaded (done ++ rest) := by
  induction packed generalizing entries now done with
  | nil =>
      obtain rfl : entries = [] := List.map_eq_nil_iff.mp reads
      exact ⟨now, rfl, by rwa [List.append_nil]⟩
  | @cons name described rest manifest here _ ih =>
      obtain ⟨entry, entries, rfl, first, later⟩ := List.map_eq_cons_iff.mp reads
      obtain ⟨mid, runs, loading'⟩ :=
        @run_loadEntry _ _ _ _ _ ops faithful saved keyed name described here entry first entries now done
          loading
      obtain ⟨loaded, result, final⟩ := ih later loading'
      refine ⟨loaded, runs.trans result, ?_⟩
      rwa [List.append_assoc] at final

theorem loadImages_spec (faithful : Faithful tools store names) {saved : Saved Tar}
    (keyed : Keyed tools store names saved.blobs)
    (packed : List.Forall₂ (Packed tools store saved.blobs) names saved.manifest)
    {entries : List (ArchiveEntry Tree)} (reads : saved.Reads tools entries) :
    ∃ loaded, run (loadImages ops entries) ∅ = (true, loaded) ∧ Loading tools ops store loaded names := by
  have empty : Loading tools ops store (∅ : Store Tree) [] := by
    constructor
    · intro name dir found
      cases found
    · intro path dir found
      cases found
    · simp
  obtain ⟨loaded, result, loading⟩ := run_loadEntries faithful keyed packed reads empty
  exact ⟨loaded, result, loading⟩

private theorem exists_entries (tools : Tools Tree Tar) (saved : Saved Tar) :
    ∃ entries, saved.Reads tools entries := by
  let unpack (layer : Text × Tree) : Blob Tree := ⟨layer.1, layer.2, [], [], [], []⟩
  let read (described : SavedEntry) : ArchiveEntry Tree :=
    ⟨saved.config described.config, described.layers.map fun digest => (saved.layer tools digest).map unpack,
      [⟨described.repoTag, []⟩]⟩
  refine ⟨saved.manifest.map read, ?_⟩
  rw [Saved.Reads, List.map_map]
  apply List.map_congr_left
  intro described _
  simp [read, ArchiveEntry.contents, Saved.contents, unpack, Function.comp_def]

private theorem ref_of_complete {ref : Text}
    (complete : now.imageDirComplete path (some ref) = true) (there : now.image path = some dir)
    (filled : ref ≠ []) : ∃ text, dir.imageRef = some text ∧ stripSpace text = ref := by
  simp only [Store.imageDirComplete, there, Store.filesComplete, Bool.and_eq_true] at complete
  cases config : dir.config with
  | none => simp [config] at complete
  | some config' =>
      cases text : dir.imageRef with
      | none => simp [config, text] at complete
      | some text' =>
          refine ⟨text', rfl, ?_⟩
          simp only [config, text, Option.all_some, filled, decide_false, Bool.false_or,
            Bool.and_eq_true, decide_eq_true_eq] at complete
          exact complete.2.1.1.2

private theorem exists_image_of_complete
    (complete : now.imageDirComplete path expected = true) : ∃ dir, now.image path = some dir := by
  cases there : now.image path with
  | none => simp [Store.imageDirComplete, there] at complete
  | some dir => exact ⟨dir, rfl⟩

private theorem eq_of_strip {text : Text} (length : (stripSpace text).length = text.length) :
    stripSpace text = text :=
  (stripSpace_sublist text).eq_of_length length

theorem Loading.ref {loaded : List Text} (loading : Loading tools ops store now loaded)
    {ref : Text} (complete : now.imageDirComplete (imageToPath ref) (some ref) = true) :
    ∃ name ∈ loaded, loadedName (normalizeImage name) = ref := by
  obtain ⟨dir, there⟩ := exists_image_of_complete complete
  obtain ⟨name, member, path, copy⟩ := loading.origin _ dir there
  refine ⟨name, member, ?_⟩
  have lengths : ref.length = (loadedName (normalizeImage name)).length := by
    have := congrArg List.length path
    simpa [imageToPath] using this
  have filled : ref ≠ [] := by
    rintro rfl
    exact normalizeImage_ne_nil _ (List.eq_nil_of_length_eq_zero lengths.symm)
  obtain ⟨text, named, stripped⟩ := ref_of_complete complete there filled
  obtain ⟨_, _, _, _, _, _, _, _, rfl⟩ := copy
  cases named
  rw [← stripped] at lengths
  rw [← stripped, eq_of_strip lengths]

theorem Copy.complete {name : Text}
    (copy : Copy ops store now name dir) (same : loadedName (normalizeImage name) = normalizeImage name)
    (layered : store.Layered name)
    (there : now.image (imageToPath (normalizeImage name)) = some dir) :
    now.imageDirComplete (imageToPath (normalizeImage name)) (some (normalizeImage name)) = true := by
  obtain ⟨old, config, trees, digests, found, _, _, holds, rfl⟩ := copy
  have trimmed : stripSpace (normalizeImage name) = normalizeImage name := by
    obtain ⟨text, _, stripped⟩ := ref_of_complete layered.1 found (normalizeImage_ne_nil name)
    rw [← stripped, stripSpace_idem]
  have bare : (patchConfig config digests).diffIds.map bareDiffId = digests := by
    rw [patchConfig, List.map_map]
    conv => rhs; rw [← List.map_id digests]
    exact List.map_congr_left fun did _ => bareDiffId_sha256 did
  have whole := @Store.whole_of_layers Tree ops now (normalizeImage name) (patchConfig config digests) trees
    (normalizeImage_ne_nil name) trimmed (bare.symm ▸ holds)
  rw [bare] at whole
  have named := layered.1
  simp only [Store.imageDirComplete, found, Bool.and_eq_true] at named
  simp only [Store.imageDirComplete, there, Bool.and_eq_true]
  rw [same]
  exact ⟨named.1, whole.1⟩

private theorem norm_eq_of_path {first second : Text} (left : store.Layered first)
    (right : store.Layered second)
    (path : imageToPath (normalizeImage first) = imageToPath (normalizeImage second)) :
    normalizeImage first = normalizeImage second := by
  obtain ⟨dir, there⟩ := exists_image_of_complete left.1
  obtain ⟨text, named, stripped⟩ := ref_of_complete left.1 there (normalizeImage_ne_nil first)
  obtain ⟨text', named', stripped'⟩ :=
    ref_of_complete right.1 (path ▸ there) (normalizeImage_ne_nil second)
  rw [named] at named'
  cases named'
  rw [← stripped, stripped']

theorem Copy.sameImage {name : Text} (copy : Copy ops store now name dir)
    (there : now.image (imageToPath (normalizeImage name)) = some dir) :
    SameImage ops store now (normalizeImage name) := by
  obtain ⟨old, config, trees, digests, found, parsed, stack, holds, rfl⟩ := copy
  refine ⟨old, _, trees, found, there, ?_, stack, ?_, rfl⟩
  · rw [parsed]
    rfl
  have listed := @loadManifest_of_full Tree (loadedDir ops (patchConfig config digests) digests trees
    (loadedName (normalizeImage name))) digests rfl
  have full : now.stack (loadedDir ops (patchConfig config digests) digests trees
      (loadedName (normalizeImage name))) = some trees := by
    apply stack_of_layers
    rw [listed, List.forall₂_map_left_iff]
    exact holds.imp fun _ _ => Store.HoldsLayer.full
  rw [full]
  rfl

theorem RoundTrip.fine (faithful : Faithful tools store names)
    (layered : ∀ name ∈ names, store.Layered name) (roundTrip : RoundTrip tools ops store names) :
    ∀ name ∈ names, Abbreviates (normalizeImage name) ∧ PlainManifest store name := by
  obtain ⟨saved, result, loads⟩ := roundTrip
  have plain := plain_of_saveImages faithful layered result
  obtain ⟨saved', result', keyed, packed⟩ := saveImages_spec faithful layered plain
  obtain rfl : saved = saved' := Option.some.inj (result.symm.trans result')
  obtain ⟨entries, reads⟩ := exists_entries tools saved
  obtain ⟨loaded, runs, refs, _⟩ := loads entries reads
  obtain ⟨loaded', runs', loading⟩ := @loadImages_spec _ _ _ _ _ ops faithful saved keyed packed entries reads
  obtain rfl : loaded = loaded' := congrArg Prod.snd (runs.symm.trans runs')
  have onto : ∀ ref ∈ names.map normalizeImage,
      ∃ other ∈ names.map normalizeImage, loadedName other = ref := by
    intro ref member
    obtain ⟨name, inside, same⟩ := loading.ref ((refs ref).mpr member)
    exact ⟨normalizeImage name, List.mem_map_of_mem inside, same⟩
  have normal : ∀ ref ∈ names.map normalizeImage, ∃ name, normalizeImage name = ref := by
    intro ref member
    obtain ⟨name, _, same⟩ := List.mem_map.mp member
    exact ⟨name, same⟩
  intro name member
  have fixed := loadedName_fixes normal onto _ (List.mem_map_of_mem member)
  exact ⟨(loadedName_eq_iff name).mp fixed, plain name member⟩

theorem roundTrip_of_fine (faithful : Faithful tools store names)
    (layered : ∀ name ∈ names, store.Layered name)
    (fine : ∀ name ∈ names, Abbreviates (normalizeImage name) ∧ PlainManifest store name) :
    RoundTrip tools ops store names := by
  have same : ∀ name ∈ names, loadedName (normalizeImage name) = normalizeImage name :=
    fun name member => (loadedName_eq_iff name).mpr (fine name member).1
  obtain ⟨saved, result, keyed, packed⟩ :=
    saveImages_spec faithful layered fun name member => (fine name member).2
  refine ⟨saved, result, fun entries reads => ?_⟩
  obtain ⟨loaded, runs, loading⟩ := @loadImages_spec _ _ _ _ _ ops faithful saved keyed packed entries reads
  have copies : ∀ name ∈ names, ∃ dir, loaded.image (imageToPath (normalizeImage name)) = some dir ∧
      Copy ops store loaded name dir := by
    intro name member
    have present := loading.present name member
    rw [same name member] at present
    obtain ⟨dir, there⟩ := Option.isSome_iff_exists.mp present
    obtain ⟨other, inside, path, copy⟩ := loading.origin _ dir there
    rw [same other inside] at path
    have equal := norm_eq_of_path (layered name member) (layered other inside) path
    refine ⟨dir, there, ?_⟩
    rw [Copy, equal]
    exact copy
  refine ⟨loaded, runs, ?_, ?_⟩
  · intro ref
    constructor
    · intro complete
      obtain ⟨name, member, rfl⟩ := loading.ref complete
      rw [same name member]
      exact List.mem_map_of_mem member
    · intro member
      obtain ⟨name, inside, rfl⟩ := List.mem_map.mp member
      obtain ⟨dir, there, copy⟩ := copies name inside
      exact copy.complete (same name inside) (layered name inside) there
  · intro ref member
    obtain ⟨name, inside, rfl⟩ := List.mem_map.mp member
    obtain ⟨dir, there, copy⟩ := copies name inside
    exact copy.sameImage there

section
variable (name : Text)

def digestLetter : Content Nat → Char
  | .layer tar => if tar = 7 then 'a' else 'b'
  | .config _ => 'c'
  | .manifest _ _ => 'd'

def plainTools : Tools Nat Nat where
  retar := fun _ tree => tree
  extract := id
  sha256 := fun content => List.replicate 64 (digestLetter content)

def oneLayer : Text := List.replicate 64 'a'

def oneImage : ImageDir Nat :=
  ⟨some ⟨["sha256:".toList ++ oneLayer], "cmd".toList⟩, some ["sha256:".toList ++ oneLayer], some 7,
    some (normalizeImage name)⟩

def oneStore : Store Nat :=
  ((∅ : Store Nat).insert (Place.layer oneLayer) (extractedDir oneLayer 7)).insert
    (Place.image (imageToPath (normalizeImage name))) (oneImage name)

variable {did : Text}

private theorem layer_oneStore {dir : LayerDir Nat} (found : (oneStore name).layer did = some dir) :
    did = oneLayer ∧ dir = extractedDir oneLayer 7 := by
  rw [Store.layer, oneStore, AList.lookup_insert_ne (by rintro ⟨⟩)] at found
  by_cases same : did = oneLayer
  · subst same
    rw [AList.lookup_insert] at found
    exact ⟨rfl, (Option.some.inj found).symm⟩
  · rw [AList.lookup_insert_ne fun equal => same (congrArg Place.name equal)] at found
    cases found

private theorem holds_oneStore {tree : Nat} (holds : (oneStore name).HoldsLayer did tree) :
    bareDiffId did = oneLayer ∧ tree = 7 := by
  obtain ⟨dir, found, inside⟩ := Option.bind_eq_some_iff.mp holds.2
  obtain ⟨same, rfl⟩ := layer_oneStore name found
  exact ⟨same, (Option.some.inj inside).symm⟩

private theorem image_oneStore :
    (oneStore name).image (imageToPath (normalizeImage name)) = some (oneImage name) :=
  AList.lookup_insert _

private theorem tar_oneStore {tar : Nat} (layerTar : LayerTar plainTools (oneStore name) tar) : tar = 7 := by
  obtain ⟨did, tree, holds, origin⟩ := layerTar
  obtain ⟨bare, rfl⟩ := holds_oneStore name holds
  rcases origin with rfl | digest
  · rfl
  rw [bare] at digest
  by_contra other
  simp only [plainTools, digestLetter, if_neg other] at digest
  exact absurd digest (by decide)

private theorem rewritten_oneStore {digests : List Text} {config : Config}
    (rewritten : Rewritten plainTools (oneStore name) name digests config) :
    digests = [oneLayer] ∧ config = patchConfig ⟨["sha256:".toList ++ oneLayer], "cmd".toList⟩ [oneLayer] := by
  obtain ⟨dir, original, there, parsed, length, sources, rfl⟩ := rewritten
  rw [image_oneStore] at there
  cases there
  cases parsed
  have single : digests.length = 1 := length
  obtain ⟨digest, rfl⟩ := List.length_eq_one_iff.mp single
  obtain ⟨tar, layerTar, same⟩ := sources digest List.mem_cons_self
  have seven := tar_oneStore name layerTar
  subst seven
  cases same
  exact ⟨rfl, rfl⟩

private theorem faithful_oneStore : Faithful plainTools (oneStore name) [name] where
  unpacks := fun _ _ => rfl
  digest := by
    intro content
    have listed : digestLetter content ∈ ['a', 'b', 'c', 'd'] := by
      cases content with
      | layer tar => by_cases seven : tar = 7 <;> simp [digestLetter, seven]
      | config config | manifest config layers => simp [digestLetter]
    have hex : (['a', 'b', 'c', 'd'].all fun char => isDigest (List.replicate 64 char)) = true := by decide
    exact List.all_eq_true.mp hex _ listed
  distinct := by
    intro left right hashed hashed' same
    have letters : digestLetter left = digestLetter right := (List.replicate_right_inj (by decide)).mp same
    cases left with
    | layer tar =>
        have seven := tar_oneStore name hashed
        subst seven
        cases right with
        | layer other => rw [tar_oneStore name hashed']
        | config config => exact absurd letters (show 'a' ≠ 'c' by decide)
        | manifest config layers => exact absurd letters (show 'a' ≠ 'd' by decide)
    | config config =>
        cases right with
        | layer other =>
            have seven := tar_oneStore name hashed'
            subst seven
            exact absurd letters (show 'c' ≠ 'a' by decide)
        | config config' =>
            obtain ⟨_, member, _, rewritten⟩ := hashed
            obtain ⟨_, member', _, rewritten'⟩ := hashed'
            rw [List.mem_singleton.mp member] at rewritten
            rw [List.mem_singleton.mp member'] at rewritten'
            rw [(rewritten_oneStore name rewritten).2, (rewritten_oneStore name rewritten').2]
        | manifest config layers => exact absurd letters (show 'c' ≠ 'd' by decide)
    | manifest config layers =>
        cases right with
        | layer other =>
            have seven := tar_oneStore name hashed'
            subst seven
            exact absurd letters (show 'd' ≠ 'a' by decide)
        | config config' => exact absurd letters (show 'd' ≠ 'c' by decide)
        | manifest config' layers' =>
            obtain ⟨_, member, _, rewritten, rfl⟩ := hashed
            obtain ⟨_, member', _, rewritten', rfl⟩ := hashed'
            rw [List.mem_singleton.mp member] at rewritten
            rw [List.mem_singleton.mp member'] at rewritten'
            rw [(rewritten_oneStore name rewritten).1, (rewritten_oneStore name rewritten').1]
            rfl
  named := by
    intro did member
    obtain ⟨dir, there⟩ := Option.isSome_iff_exists.mp (mem_names.mp member)
    obtain ⟨rfl, _⟩ := layer_oneStore name there
    decide
  imported := by
    intro did tree holds
    obtain ⟨bare, rfl⟩ := holds_oneStore name holds
    exact ⟨7, bare.symm, rfl⟩

end

end

end PDocker.Images
