import PDocker.Images.Staging
import PDocker.Images.Publish

/-!
# Loading without a failure

What the parts of `load_images` leave behind when no act raises that can be
done. Each changes one directory.
-/

set_option autoImplicit false

namespace PDocker.Images

open Data Layers

section
variable {Tree : Type}

def run (script : ImageScript Tree) (store : Store Tree) : Bool × Store Tree :=
  script.eval id Act.apply store

structure Store.Put (before after : Store Tree) (place : Place)
    (entry : Option (Entry Tree place.area)) : Prop where
  here : after.lookup place = entry
  frame : ∀ other, other ≠ place → after.lookup other = before.lookup other

theorem Store.Put.trans {first second third : Store Tree} {place : Place}
    {entry entry' : Option (Entry Tree place.area)} (left : first.Put second place entry)
    (right : second.Put third place entry') : first.Put third place entry' where
  here := right.here
  frame := fun other apart => (right.frame other apart).trans (left.frame other apart)

theorem Store.Put.layer {before after : Store Tree} {name : Text} {entry : Option (ImageDir Tree)}
    (put : before.Put after (.image name) entry) (did : Text) : after.layer did = before.layer did :=
  put.frame (.layer did) (by rintro ⟨⟩)

theorem Store.Put.image {before after : Store Tree} {name : Text} {entry : Option (LayerDir Tree)}
    (put : before.Put after (.layer name) entry) (path : Text) : after.image path = before.image path :=
  put.frame (.image path) (by rintro ⟨⟩)

/-- The script goes on as `next`, with this in the directory. -/
def Leads (script next : ImageScript Tree) (now : Store Tree) (place : Place)
    (entry : Option (Entry Tree place.area)) : Prop :=
  ∃ after, run script now = run next after ∧ now.Put after place entry

variable {script next last failed : ImageScript Tree} {now : Store Tree} {place : Place}

theorem Leads.trans {entry entry' : Option (Entry Tree place.area)}
    (first : Leads script next now place entry)
    (rest : ∀ after, now.Put after place entry → Leads next last after place entry') :
    Leads script last now place entry' := by
  obtain ⟨mid, runs, put⟩ := first
  obtain ⟨after, later, put'⟩ := rest mid put
  exact ⟨after, runs.trans later, put.trans put'⟩

theorem Leads.of_run {other : ImageScript Tree} {entry : Option (Entry Tree place.area)}
    (same : run script now = run other now) (leads : Leads other next now place entry) :
    Leads script next now place entry := by
  obtain ⟨after, runs, put⟩ := leads
  exact ⟨after, same.trans runs, put⟩

private theorem run_act {act : Act Tree} {after : Store Tree} (applied : act.apply now = some after) :
    run (.act act next failed) now = run next after := by
  simp only [run, Script.eval, applied]

private theorem run_act_failed {act : Act Tree} (refused : act.apply now = none) :
    run (.act act next failed) now = run failed now := by
  simp only [run, Script.eval, refused]

theorem leads_make {existOk : Bool} (missing : now.lookup place = none) :
    Leads (.act (.make existOk place) next failed) next now place (some (Entry.empty place.area)) := by
  refine ⟨now.insert place (Entry.empty place.area), run_act ?_, AList.lookup_insert _, ?_⟩
  · simp only [Act.apply, missing]
  · exact fun other apart => AList.lookup_insert_ne apart

theorem leads_make_again {entry : Entry Tree place.area} (found : now.lookup place = some entry) :
    Leads (.act (.make true place) next failed) next now place (some entry) := by
  refine ⟨now, run_act ?_, found, fun other apart => rfl⟩
  simp only [Act.apply, found, ↓reduceIte]

theorem leads_edit {entry : Entry Tree place.area}
    {change : Entry Tree place.area → Entry Tree place.area} (found : now.lookup place = some entry) :
    Leads (.act (.edit place change) next failed) next now place (some (change entry)) := by
  refine ⟨now.insert place (change entry), run_act ?_, AList.lookup_insert _, ?_⟩
  · rw [Act.apply, found]
    rfl
  · exact fun other apart => AList.lookup_insert_ne apart

theorem leads_drop {entry : Entry Tree place.area} (found : now.lookup place = some entry) :
    Leads (.act (.drop place) next failed) next now place none := by
  refine ⟨now.erase place, run_act ?_, AList.lookup_erase _ _, ?_⟩
  · rw [Act.apply, found]
    rfl
  · exact fun other apart => AList.lookup_erase_ne apart

private theorem run_move {area : Area} {source target : Text} {entry : Entry Tree area}
    (found : now.lookup ⟨area, source⟩ = some entry) (free : now.lookup ⟨area, target⟩ = none) :
    run (.act (.move area source target) next failed) now =
      run next ((now.erase ⟨area, source⟩).insert (Place.mk area target) entry) := by
  apply run_act
  simp only [Act.apply, found, free]

theorem leads_removeTree (losses : List (Loss Tree)) {entry : Entry Tree place.area}
    (found : now.lookup place = some entry) :
    Leads (removeTree place next failed losses) next now place none := by
  induction losses generalizing now entry with
  | nil => exact leads_drop found
  | cons loss losses ih =>
      apply (leads_edit found).trans
      intro after put
      exact ih put.here

private theorem run_removeQuietly {losses : List (Loss Tree)} (missing : now.lookup place = none) :
    run (removeQuietly place losses next) now = run next now := by
  simp only [removeQuietly, run, Script.eval, id_eq, missing, Option.isSome_none, Bool.false_eq_true,
    ↓reduceIte]

private theorem leads_unpackLayer {name : Text} {dir : LayerDir Tree} (parts : List Tree) (tree : Tree)
    (found : now.layer name = some dir) :
    Leads (unpackLayer name next failed (parts ++ [tree])) next now (.layer name)
      (some ⟨some tree, dir.info⟩) := by
  induction parts generalizing now dir with
  | nil => exact leads_edit found
  | cons part parts ih =>
      apply (leads_edit found).trans
      intro after put
      have filled : after.layer name = some ⟨some part, dir.info⟩ := put.here
      have rest := ih filled
      exact rest

private theorem leads_writeInfo {name info : Text} {dir : LayerDir Tree}
    (found : now.layer name = some dir) :
    Leads (writeInfo name info next failed) next now (.layer name) (some ⟨dir.tree, some info⟩) := by
  apply (leads_edit found).trans
  intro after put
  have cleared : after.layer name = some ⟨dir.tree, none⟩ := put.here
  have written := @leads_edit Tree next failed after (.layer name) _
    (fun dir : LayerDir Tree => { dir with info := some info }) cleared
  exact written

/-- The layer that `_extract_layer_tar` writes. -/
def extractedDir (bare : Text) (tree : Tree) : LayerDir Tree := ⟨some tree, some ("sha256:".toList ++ bare)⟩

theorem layerExists_of_extracted {bare : Text} {tree : Tree} (digest : isDigest bare = true)
    (found : now.layer bare = some (extractedDir bare tree)) : now.layerExists bare = true := by
  simp only [Store.layerExists, bareDiffId_of_isDigest digest, digest, found, extractedDir,
    bareDiffId_sha256, decide_true, Bool.and_self]

theorem leads_extractLayer {bare : Text} {blob : Blob Tree} (digest : isDigest bare = true)
    (missing : now.layer bare = none) (unused : now.layer (blob.tmp bare) = none) :
    Leads (extractLayer bare blob next failed) next now (.layer bare)
      (some (extractedDir bare blob.tree)) := by
  have absent : now.layerExists bare = false := by
    simp only [Store.layerExists, bareDiffId_of_isDigest digest, missing, Bool.and_false]
  have refused : (Act.checkLayer bare : Act Tree).apply now = none := by
    simp only [Act.apply, absent, Bool.false_eq_true, ↓reduceIte]
  have tmp : blob.tmp bare ≠ bare := by
    intro same
    have name := isDigest_tmp blob bare
    rw [same, digest] at name
    cases name
  let cleanup := removeQuietly (.layer (blob.tmp bare)) blob.lossesTmp failed
  -- the temporary directory is complete when it is moved
  have packed : Leads (extractLayer bare blob next failed)
      (.act (.move .layers (blob.tmp bare) bare) next cleanup) now (.layer (blob.tmp bare))
      (some (extractedDir bare blob.tree)) := by
    apply Leads.of_run ((run_act_failed refused).trans (run_removeQuietly missing))
    apply (leads_make unused).trans
    intro made put
    apply (leads_unpackLayer blob.partials blob.tree put.here).trans
    intro filled put
    have unpacked : filled.layer (blob.tmp bare) = some ⟨some blob.tree, none⟩ := put.here
    have written := @leads_writeInfo Tree (.act (.move .layers (blob.tmp bare) bare) next cleanup)
      cleanup filled (blob.tmp bare) ("sha256:".toList ++ bare) _ unpacked
    exact written
  obtain ⟨full, runs, put⟩ := packed
  have apart : Place.layer bare ≠ .layer (blob.tmp bare) :=
    fun same => tmp (congrArg Place.name same).symm
  have free : full.layer bare = none := (put.frame _ apart).trans missing
  refine ⟨_, runs.trans (run_move put.here free), AList.lookup_insert _, ?_⟩
  intro other away
  rw [AList.lookup_insert_ne away]
  by_cases inside : other = .layer (blob.tmp bare)
  · subst inside
    exact (AList.lookup_erase _ _).trans unused.symm
  · rw [AList.lookup_erase_ne inside, put.frame other inside]

section
variable {dest : Text} {dir : ImageDir Tree}

theorem leads_clearDest (losses : List (Loss Tree)) :
    Leads (clearDest dest losses next failed) next now (.image dest)
      (some (Entry.empty Area.images)) := by
  cases found : now.image dest with
  | none =>
      have here : run (clearDest dest losses next failed) now =
          run (.act (.make false (.image dest)) next failed) now := by
        simp only [clearDest, run, Script.eval, id_eq, found, Option.isSome_none, Bool.false_eq_true,
          ↓reduceIte]
      exact Leads.of_run here (leads_make found)
  | some dir =>
      have here : run (clearDest dest losses next failed) now =
          run (removeTree (.image dest) (.act (.make false (.image dest)) next failed) failed losses)
            now := by
        simp only [clearDest, run, Script.eval, id_eq, found, Option.isSome_some, ↓reduceIte]
      apply Leads.of_run here
      apply (leads_removeTree losses found).trans
      intro removed put
      exact leads_make put.here

theorem leads_writeFile {clear fill : ImageDir Tree → ImageDir Tree}
    (found : now.image dest = some dir) :
    Leads (writeFile dest clear fill next failed) next now (.image dest) (some (fill (clear dir))) := by
  apply (leads_edit found).trans
  intro after put
  exact leads_edit put.here

theorem leads_saveImageManifest {dids : List Text} {config : Config}
    (found : now.image dest = some dir) :
    Leads (saveImageManifest dest dids config next failed) next now (.image dest)
      (some ⟨some config, some (dids.map fullDiffId), dir.rootfs, dir.imageRef⟩) := by
  apply (leads_make_again found).trans
  intro made put
  apply (leads_writeFile put.here).trans
  intro listed put
  exact leads_writeFile put.here

variable {ops : TreeOps Tree}

private theorem leads_mergeFrom {dids : List Text} {trees : List Tree} {tree : Tree}
    (layers : List.Forall₂ now.HoldsLayer dids trees) (found : now.image dest = some dir)
    (rootfs : dir.rootfs = some tree) :
    Leads (mergeFrom ops (.image dest) next failed dids) next now (.image dest)
      (some { dir with rootfs := some (ops.strip (trees.foldl ops.overlay tree)) }) := by
  induction dids generalizing now dir tree trees with
  | nil =>
      cases layers
      have stripped := @leads_edit Tree next failed now (.image dest) dir
        (Entry.onRootfs (·.map ops.strip) .images) found
      rwa [Entry.onRootfs, rootfs] at stripped
  | cons did dids ih =>
      cases layers with
      | @cons _ first _ trees holds layers =>
          have here : run (mergeFrom ops (.image dest) next failed (did :: dids)) now =
              run (.act (.edit (.image dest) (Entry.onRootfs (·.map (ops.overlay · first)) .images))
                (mergeFrom ops (.image dest) next failed dids) failed) now := by
            simp only [mergeFrom, run, Script.eval, id_eq, holds.2]
          have merged := @leads_edit Tree (mergeFrom ops (.image dest) next failed dids) failed now
            (.image dest) dir (Entry.onRootfs (·.map (ops.overlay · first)) .images) found
          rw [Entry.onRootfs, rootfs] at merged
          obtain ⟨after, runs, put⟩ := merged.trans fun after put =>
            ih (layers.imp fun _ _ holds => holds.congr (put.layer _)) put.here rfl
          exact ⟨after, here.trans runs, put⟩

theorem leads_mergeLayersInto {dids : List Text} {trees : List Tree}
    (layers : List.Forall₂ now.HoldsLayer dids trees) (found : now.image dest = some dir)
    (fresh : dir.rootfs = none) :
    Leads (mergeLayersInto ops (.image dest) dids next failed) next now (.image dest)
      (some { dir with rootfs := some (ops.merge trees) }) := by
  apply (leads_make_again found).trans
  intro made put
  have kept := layers.imp fun _ _ holds => holds.congr (put.layer _)
  have started := @leads_edit Tree (mergeFrom ops (.image dest) next failed dids) failed made
    (.image dest) dir (Entry.onRootfs (fun now => some (now.getD ops.empty)) .images) put.here
  rw [Entry.onRootfs, fresh] at started
  apply started.trans
  intro after put
  have filled : after.image dest = some { dir with rootfs := some ops.empty } := put.here
  have kept := kept.imp fun _ _ holds => holds.congr (put.layer _)
  have merged := @leads_mergeFrom Tree next failed after dest _ ops dids trees ops.empty kept filled rfl
  exact merged

/-- What an image directory holds that `load_images` has written. -/
def loadedDir (ops : TreeOps Tree) (config : Config) (dids : List Text) (trees : List Tree) (norm : Text) :
    ImageDir Tree :=
  ⟨some config, some (dids.map fullDiffId), some (ops.merge trees), some norm⟩

theorem leads_publishTags {config : Config} {dids : List Text} {trees : List Tree} (tag : Tag Tree)
    (layers : List.Forall₂ now.HoldsLayer dids trees) :
    Leads (publishTags ops config dids next failed [tag]) next now
      (.image (imageToPath (normalizeImage tag.name)))
      (some (loadedDir ops config dids trees (normalizeImage tag.name))) := by
  apply (leads_clearDest tag.losses).trans
  intro cleared put
  have kept := layers.imp fun _ _ holds => holds.congr (put.layer _)
  apply (leads_writeFile put.here).trans
  intro named put
  have kept := kept.imp fun _ _ holds => holds.congr (put.layer _)
  apply (leads_saveImageManifest put.here).trans
  intro listed put
  have kept := kept.imp fun _ _ holds => holds.congr (put.layer _)
  apply (leads_mergeLayersInto kept put.here rfl).trans
  intro merged put
  exact leads_writeFile put.here

end

end

end PDocker.Images
