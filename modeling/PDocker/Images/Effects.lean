import PDocker.Images.Store

/-!
# What an act changes

An act leaves every directory alone that it does not touch, so what is said of
an image depends on its directory and on the layers it needs.
-/

set_option autoImplicit false

namespace PDocker.Images

open Data Layers

section
variable {Tree : Type}

def Act.touches : Act Tree → List Place
  | .outside => []
  | .checkLayer _ => []
  | .make _ place => [place]
  | .edit place _ => [place]
  | .move area source target => [⟨area, source⟩, ⟨area, target⟩]
  | .drop place => [place]
  | .takeRootfs build image => [.build build, .image image]

theorem Act.lookup_untouched {act : Act Tree} {before after : Store Tree} {place : Place}
    (applied : act.apply before = some after) (untouched : place ∉ act.touches) :
    after.lookup place = before.lookup place := by
  cases act with
  | outside =>
      cases applied
      rfl
  | checkLayer did =>
      simp only [Act.apply, Option.ite_none_right_eq_some, Option.some.injEq] at applied
      rw [applied.2]
  | make existOk made =>
      have other : place ≠ made := by simpa [Act.touches] using untouched
      simp only [Act.apply] at applied
      cases found : before.lookup made with
      | none =>
          simp only [found, Option.some.injEq] at applied
          rw [← applied, AList.lookup_insert_ne other]
      | some dir =>
          simp only [found, Option.ite_none_right_eq_some, Option.some.injEq] at applied
          rw [applied.2]
  | edit edited change =>
      have other : place ≠ edited := by simpa [Act.touches] using untouched
      simp only [Act.apply, Option.map_eq_some_iff] at applied
      obtain ⟨dir, _, rfl⟩ := applied
      exact AList.lookup_insert_ne other
  | move area source target =>
      have other : place ≠ ⟨area, source⟩ ∧ place ≠ ⟨area, target⟩ := by
        simpa [Act.touches] using untouched
      simp only [Act.apply] at applied
      split at applied
      · cases applied
        rw [AList.lookup_insert_ne other.2, AList.lookup_erase_ne other.1]
      · cases applied
  | drop dropped =>
      have other : place ≠ dropped := by simpa [Act.touches] using untouched
      simp only [Act.apply, Option.map_eq_some_iff] at applied
      obtain ⟨dir, _, rfl⟩ := applied
      exact AList.lookup_erase_ne other
  | takeRootfs build image =>
      have other : place ≠ .build build ∧ place ≠ .image image := by
        simpa [Act.touches] using untouched
      simp only [Act.apply] at applied
      split at applied
      · cases applied
        rw [AList.lookup_insert_ne other.2, AList.lookup_insert_ne other.1]
      · cases applied

theorem lookup_of_make {store after : Store Tree} {existOk : Bool} {place : Place}
    (applied : (Act.make existOk place).apply store = some after) :
    after.lookup place = some ((store.lookup place).getD (Entry.empty place.area)) := by
  simp only [Act.apply] at applied
  cases found : store.lookup place with
  | none =>
      simp only [found, Option.some.injEq] at applied
      rw [← applied, AList.lookup_insert]
      rfl
  | some dir =>
      simp only [found, Option.ite_none_right_eq_some, Option.some.injEq] at applied
      rw [← applied.2, found]
      rfl

theorem lookup_of_edit {store after : Store Tree} {place : Place} {change : Entry Tree place.area → Entry Tree place.area}
    (applied : (Act.edit place change).apply store = some after) :
    after.lookup place = (store.lookup place).map change := by
  simp only [Act.apply, Option.map_eq_some_iff] at applied
  obtain ⟨dir, found, rfl⟩ := applied
  rw [AList.lookup_insert, found]
  rfl

theorem lookup_of_move {store after : Store Tree} {area : Area} {source target : Text}
    (applied : (Act.move area source target).apply store = some after) :
    (after.lookup (Place.mk area target) : Option (Entry Tree area)) = store.lookup (Place.mk area source) ∧
      (store.lookup (Place.mk area target) : Option (Entry Tree area)) = none ∧
      (after.lookup (Place.mk area source) : Option (Entry Tree area)) = none := by
  simp only [Act.apply] at applied
  split at applied
  · rename_i dir found missing
    cases applied
    refine ⟨?_, missing, ?_⟩
    · rw [AList.lookup_insert]
      exact found.symm
    have other : Place.mk area source ≠ Place.mk area target := by
      intro same
      rw [← same, found] at missing
      cases missing
    rw [AList.lookup_insert_ne other, AList.lookup_erase]
  · cases applied

theorem lookup_of_drop {store after : Store Tree} {place : Place}
    (applied : (Act.drop place).apply store = some after) : after.lookup place = none := by
  simp only [Act.apply, Option.map_eq_some_iff] at applied
  obtain ⟨dir, _, rfl⟩ := applied
  exact AList.lookup_erase _ _

theorem mem_names {store : Store Tree} {area : Area} {name : Text} :
    name ∈ store.names area ↔ (store.lookup (Place.mk area name)).isSome := by
  rw [AList.lookup_isSome]
  simp only [Store.names, List.mem_filterMap, Option.ite_none_right_eq_some, Option.some.injEq]
  constructor
  · rintro ⟨⟨_, _⟩, member, rfl, rfl⟩
    exact AList.mem_keys.mp member
  · intro member
    exact ⟨⟨area, name⟩, AList.mem_keys.mpr member, rfl, rfl⟩

theorem bareDiffId_of_isDigest {name : Text} (digest : isDigest name = true) :
    bareDiffId name = name := by
  simp only [isDigest, Bool.and_eq_true, List.all_eq_true] at digest
  have plain : ∀ char ∈ name, (decide (char ≠ ':')) = true := by
    intro char member
    have hex := digest.2 char member
    rw [decide_eq_true_eq]
    intro colon
    subst colon
    exact absurd hex (by decide)
  have whole : name.dropWhile (fun char => decide (char ≠ ':')) = [] :=
    List.dropWhile_eq_nil_iff.mpr plain
  rw [bareDiffId, whole]

theorem bareDiffId_sha256 (bare : Text) : bareDiffId ("sha256:".toList ++ bare) = bare := by
  have cut : ("sha256:".toList ++ bare).dropWhile (fun char => decide (char ≠ ':')) = ':' :: bare := rfl
  rw [bareDiffId, cut]

theorem Store.layerExists_congr {before after : Store Tree} {did : Text}
    (same : after.layer (bareDiffId did) = before.layer (bareDiffId did)) :
    after.layerExists did = before.layerExists did := by
  simp only [Store.layerExists, same]

theorem Store.isDigest_of_layerExists {store : Store Tree} {did : Text}
    (complete : store.layerExists did = true) : isDigest (bareDiffId did) = true :=
  (Bool.and_eq_true_iff.mp complete).1

theorem Store.layerExists_bare {store : Store Tree} {did : Text}
    (complete : store.layerExists did = true) : store.layerExists (bareDiffId did) = true := by
  have fixed := bareDiffId_of_isDigest (store.isDigest_of_layerExists complete)
  simpa only [Store.layerExists, fixed] using complete

def Store.Extends (before after : Store Tree) : Prop :=
  ∀ did, before.layerExists did = true → after.layer (bareDiffId did) = before.layer (bareDiffId did)

theorem Store.Extends.refl (store : Store Tree) : store.Extends store := fun _ _ => rfl

theorem Store.Extends.layerExists {before after : Store Tree} (extend : before.Extends after)
    {did : Text} (complete : before.layerExists did = true) : after.layerExists did = true := by
  rw [Store.layerExists_congr (extend did complete), complete]

theorem Store.Extends.trans {first second third : Store Tree} (left : first.Extends second)
    (right : second.Extends third) : first.Extends third := by
  intro did complete
  rw [right did (left.layerExists complete), left did complete]

theorem Act.extends {act : Act Tree} {before after : Store Tree}
    (applied : act.apply before = some after)
    (spared : ∀ did, before.layerExists did = true → Place.layer (bareDiffId did) ∉ act.touches) :
    before.Extends after :=
  fun did complete => act.lookup_untouched applied (spared did complete)

theorem Store.layerExists_lost {before after : Store Tree} {act : Act Tree} {name : Text}
    (shape : (∃ loss, act = .edit (.layer name) (Entry.lose loss .layers)) ∨ act = .drop (.layer name))
    (applied : act.apply before = some after) (digest : isDigest name = true)
    (absent : before.layerExists name = false) : after.layerExists name = false := by
  have fixed := bareDiffId_of_isDigest digest
  simp only [Store.layerExists, fixed, digest, Bool.true_and] at absent ⊢
  rw [Store.layer] at absent ⊢
  rcases shape with ⟨loss, rfl⟩ | rfl
  · rw [lookup_of_edit applied]
    cases found : before.lookup (.layer name) with
    | none => rfl
    | some dir =>
        obtain ⟨tree, info⟩ := dir
        rw [found] at absent
        cases tree <;> cases info <;> cases kept : loss.info <;> cases left : loss.tree <;>
          simp_all [Entry.lose]
  · rw [lookup_of_drop applied]

def Store.HoldsLayer (store : Store Tree) (did : Text) (tree : Tree) : Prop :=
  store.layerExists did = true ∧ (store.layer (bareDiffId did)).bind LayerDir.tree = some tree

theorem Store.exists_holdsLayer {store : Store Tree} {did : Text}
    (complete : store.layerExists did = true) : ∃ tree, store.HoldsLayer did tree := by
  have shape := (Bool.and_eq_true_iff.mp complete).2
  cases found : store.layer (bareDiffId did) with
  | none => simp [found] at shape
  | some dir =>
      cases dir with
      | mk tree info =>
          cases tree with
          | none => simp [found] at shape
          | some tree => exact ⟨tree, complete, by simp [found]⟩

theorem Store.Extends.holdsLayer {before after : Store Tree} (extend : before.Extends after)
    {did : Text} {tree : Tree} (holds : before.HoldsLayer did tree) : after.HoldsLayer did tree :=
  ⟨extend.layerExists holds.1, by rw [extend did holds.1, holds.2]⟩

theorem Store.HoldsLayer.congr {before after : Store Tree} {did : Text} {tree : Tree}
    (holds : before.HoldsLayer did tree)
    (same : after.layer (bareDiffId did) = before.layer (bareDiffId did)) :
    after.HoldsLayer did tree :=
  ⟨by rw [Store.layerExists_congr same, holds.1], by rw [same, holds.2]⟩

/-- A complete image whose root file system is what its layers merge to. -/
def Store.Whole (ops : TreeOps Tree) (store : Store Tree) (ref : Text) (dir : ImageDir Tree) : Prop :=
  store.filesComplete dir (some ref) = true ∧
    ∃ trees, List.Forall₂ store.HoldsLayer dir.loadManifest trees ∧ dir.rootfs = some (ops.merge trees)

theorem Store.filesComplete_mono {before after : Store Tree} {dir : ImageDir Tree}
    {expected : Option Text} (grown : ∀ config, dir.config = some config →
      ∀ did ∈ dir.requiredDiffIds config, before.layerExists did = true → after.layerExists did = true)
    (complete : before.filesComplete dir expected = true) : after.filesComplete dir expected = true := by
  simp only [Store.filesComplete] at complete ⊢
  cases config : dir.config with
  | none => simp [config] at complete
  | some config' =>
      cases text : dir.imageRef with
      | none => simp [config, text] at complete
      | some text' =>
          simp only [config, text, Bool.and_eq_true, List.all_eq_true] at complete ⊢
          exact ⟨complete.1, fun did member => grown config' config did member (complete.2 did member)⟩

theorem Store.Extends.filesComplete {before after : Store Tree} (extend : before.Extends after)
    {dir : ImageDir Tree} {expected : Option Text}
    (complete : before.filesComplete dir expected = true) : after.filesComplete dir expected = true :=
  before.filesComplete_mono (fun _ _ _ _ => extend.layerExists) complete

theorem Store.Extends.whole {ops : TreeOps Tree} {before after : Store Tree}
    (extend : before.Extends after) {ref : Text} {dir : ImageDir Tree}
    (whole : before.Whole ops ref dir) : after.Whole ops ref dir := by
  obtain ⟨complete, trees, layers, rootfs⟩ := whole
  exact ⟨extend.filesComplete complete, trees, layers.imp fun _ _ => extend.holdsLayer, rootfs⟩

theorem fullDiffId_ne_nil (did : Text) : fullDiffId did ≠ [] := by
  rw [fullDiffId]
  split
  · rename_i front
    intro empty
    rw [empty] at front
    cases front
  · exact List.cons_ne_nil _ _

theorem Store.HoldsLayer.full {store : Store Tree} {did : Text} {tree : Tree}
    (holds : store.HoldsLayer did tree) : store.HoldsLayer (bareDiffId (fullDiffId did)) tree := by
  have fixed := bareDiffId_of_isDigest (store.isDigest_of_layerExists holds.1)
  rw [fullDiffId]
  split
  · exact ⟨Store.layerExists_bare holds.1, by rw [fixed, holds.2]⟩
  · rw [bareDiffId_sha256]
    exact holds

theorem loadManifest_of_full {dir : ImageDir Tree} {dids : List Text}
    (manifest : dir.manifest = some (dids.map fullDiffId)) :
    dir.loadManifest = dids.map fun did => bareDiffId (fullDiffId did) := by
  have whole : (dids.map fullDiffId).filter (fun did => decide (did ≠ [])) = dids.map fullDiffId := by
    apply List.filter_eq_self.mpr
    intro full member
    obtain ⟨did, _, rfl⟩ := List.mem_map.mp member
    exact decide_eq_true (fullDiffId_ne_nil did)
  rw [ImageDir.loadManifest, manifest, Option.getD_some, whole, List.map_map]
  rfl

private theorem layerExists_of_holds {store : Store Tree} {dids : List Text} {trees : List Tree}
    (layers : List.Forall₂ store.HoldsLayer dids trees) {did : Text} (member : did ∈ dids) :
    store.layerExists did = true := by
  induction layers with
  | nil => cases member
  | cons holds _ ih =>
      rcases List.mem_cons.mp member with rfl | later
      · exact holds.1
      · exact ih later

theorem Store.whole_of_layers {ops : TreeOps Tree} {store : Store Tree} {ref : Text}
    {config : Config} {trees : List Tree} (named : ref ≠ []) (trimmed : stripSpace ref = ref)
    (layers : List.Forall₂ store.HoldsLayer (config.diffIds.map bareDiffId) trees) :
    store.Whole ops ref ⟨some config, some ((config.diffIds.map bareDiffId).map fullDiffId),
      some (ops.merge trees), some ref⟩ := by
  have listed := @loadManifest_of_full Tree ⟨some config,
    some ((config.diffIds.map bareDiffId).map fullDiffId), some (ops.merge trees), some ref⟩ _ rfl
  have full : List.Forall₂ store.HoldsLayer
      ((config.diffIds.map bareDiffId).map fun did => bareDiffId (fullDiffId did)) trees := by
    rw [List.forall₂_map_left_iff]
    exact layers.imp fun _ _ => HoldsLayer.full
  have exist : ∀ did ∈ config.diffIds.map bareDiffId, store.layerExists did = true :=
    fun did member => layerExists_of_holds layers member
  refine ⟨?_, trees, ?_, rfl⟩
  · have required : (@ImageDir.requiredDiffIds Tree ⟨some config,
        some ((config.diffIds.map bareDiffId).map fullDiffId), some (ops.merge trees), some ref⟩
        config).all store.layerExists = true := by
      rw [List.all_eq_true]
      intro did member
      rw [ImageDir.requiredDiffIds, List.mem_eraseDups, List.mem_filter, List.mem_map] at member
      obtain ⟨⟨listed_did, place, rfl⟩, _⟩ := member
      rcases List.mem_append.mp place with inside | inside
      · rw [listed] at inside
        exact Store.layerExists_bare (layerExists_of_holds full inside)
      · exact exist _ (List.mem_map.mpr ⟨listed_did, inside, rfl⟩)
    simp only [Store.filesComplete, required, trimmed, Bool.and_true]
    simp [named]
  · rw [listed]
    exact full

end

end PDocker.Images
