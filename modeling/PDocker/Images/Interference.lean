import PDocker.Images.Effects
import PDocker.Images.Publish

/-!
# Images do not interfere

All operations on a reference touch its own directory only, and those that a pull
makes up. Two references interfere if and only if they share a directory.
-/

set_option autoImplicit false

namespace PDocker.Images

open Data Layers

section
variable {Tree : Type}

def onStore (Tree : Type) : Machine (Act Tree) (Store Tree) (Store Tree) where
  view := id
  does act state after := act.apply state = some after
  raises act state := act.apply state = none ∨ act.isCheck = false

inductive OperationOn (ops : TreeOps Tree) (ref : Text) (fresh : Text → Prop) :
    ImageScript Tree → Prop where
  | pull (draw : Draw Tree) : fresh (draw.stage ref) → fresh (draw.backup ref) →
      OperationOn ops ref fresh (pullImage ops ref draw)
  | load (archive : List (ArchiveEntry Tree)) :
      (∀ entry ∈ archive, ∀ tag ∈ entry.repoTags, normalizeImage tag.name = ref) →
      OperationOn ops ref fresh (loadImages ops archive)
  | build (build : Text) (config : Config) (dids : List Text)
      (lossesDest lossesBuild : List (Loss Tree)) :
      OperationOn ops ref fresh (storeBuiltImage build ref config dids lossesDest lossesBuild)
  | remove (losses : List (Loss Tree)) : OperationOn ops ref fresh (removeImage ref losses)

inductive Operations (ops : TreeOps Tree) (ref : Text) (fresh : Text → Prop) (start : Store Tree) :
    Store Tree → Prop where
  | start : Operations ops ref fresh start start
  | operation (now after : Store Tree) (script left : ImageScript Tree) :
      Operations ops ref fresh start now → OperationOn ops ref fresh script →
      (onStore Tree).Steps (script, now) (left, after) → Operations ops ref fresh start after

def Act.StaysIn (names : List Text) (act : Act Tree) : Prop :=
  ∀ name, Place.image name ∈ act.touches → name ∈ names

section
variable {names : List Text} {next failed : ImageScript Tree}

variable {act : Act Tree} {name ref : Text} {place : Place} {config : Config} {dids : List Text}

private theorem staysIn_of_area (areas : ∀ place ∈ act.touches, place.area ≠ .images) :
    act.StaysIn names :=
  fun _ touched => absurd rfl (areas _ touched)

private theorem staysIn_of_image (own : name ∈ names)
    (touches : act.touches = [.image name]) : act.StaysIn names := by
  intro other touched
  rw [touches, List.mem_singleton, Place.mk.injEq] at touched
  exact touched.2 ▸ own

theorem within_removeTree (own : ∀ name, place = .image name → name ∈ names)
    (next_within : next.Within (Act.StaysIn names)) (failed_within : failed.Within (Act.StaysIn names))
    (losses : List (Loss Tree)) : (removeTree place next failed losses).Within (Act.StaysIn names) := by
  have stays : ∀ act : Act Tree, act.touches = [place] → act.StaysIn names := by
    intro act touches name touched
    rw [touches, List.mem_singleton] at touched
    exact own name touched.symm
  induction losses with
  | nil => exact ⟨stays _ rfl, next_within, failed_within⟩
  | cons loss losses ih => exact ⟨stays _ rfl, ih, failed_within⟩

theorem within_removeQuietly (own : ∀ name, place = .image name → name ∈ names)
    (next_within : next.Within (Act.StaysIn names)) (losses : List (Loss Tree)) :
    (removeQuietly place losses next).Within (Act.StaysIn names) := by
  intro store
  dsimp only
  split
  · exact within_removeTree own next_within next_within losses
  · exact next_within

theorem within_writeFile (own : name ∈ names) {clear fill : ImageDir Tree → ImageDir Tree}
    (next_within : next.Within (Act.StaysIn names)) (failed_within : failed.Within (Act.StaysIn names)) :
    (writeFile name clear fill next failed).Within (Act.StaysIn names) :=
  ⟨staysIn_of_image own rfl, ⟨staysIn_of_image own rfl, next_within, failed_within⟩, failed_within⟩

theorem within_saveImageManifest (own : name ∈ names)
    (next_within : next.Within (Act.StaysIn names)) (failed_within : failed.Within (Act.StaysIn names)) :
    (saveImageManifest name dids config next failed).Within (Act.StaysIn names) :=
  ⟨staysIn_of_image own rfl,
    within_writeFile own (within_writeFile own next_within failed_within) failed_within, failed_within⟩

theorem within_mergeLayersInto (own : name ∈ names) (ops : TreeOps Tree) (dids : List Text)
    (next_within : next.Within (Act.StaysIn names)) (failed_within : failed.Within (Act.StaysIn names)) :
    (mergeLayersInto ops (.image name) dids next failed).Within (Act.StaysIn names) := by
  have loop : (mergeFrom ops (.image name) next failed dids).Within (Act.StaysIn names) := by
    induction dids with
    | nil => exact ⟨staysIn_of_image own rfl, next_within, failed_within⟩
    | cons did dids ih =>
        intro store
        dsimp only
        split
        · exact failed_within
        · exact ⟨staysIn_of_image own rfl, ih, failed_within⟩
  exact ⟨staysIn_of_image own rfl, ⟨staysIn_of_image own rfl, loop, failed_within⟩, failed_within⟩

variable (next_within : next.Within (Act.StaysIn names))

include next_within

private theorem within_unpackLayer {tmp : Text}
    (failed_within : failed.Within (Act.StaysIn names)) (parts : List Tree) :
    (unpackLayer tmp next failed parts).Within (Act.StaysIn names) := by
  induction parts with
  | nil => exact next_within
  | cons part parts ih =>
      exact ⟨staysIn_of_area (by simp [Act.touches]), ih, failed_within⟩

theorem within_extractLayer {bare : Text} {blob : Blob Tree}
    (failed_within : failed.Within (Act.StaysIn names)) :
    (extractLayer bare blob next failed).Within (Act.StaysIn names) := by
  have cleanup : (removeQuietly (.layer (blob.tmp bare)) blob.lossesTmp failed).Within
      (Act.StaysIn names) := within_removeQuietly (by rintro _ ⟨⟩) failed_within _
  have stays : ∀ act : Act Tree, (∀ place ∈ act.touches, place.area ≠ .images) → act.StaysIn names :=
    fun act areas => staysIn_of_area areas
  refine ⟨stays _ nofun, next_within, within_removeQuietly (by rintro _ ⟨⟩) ?_ _⟩
  refine ⟨stays _ (by simp [Act.touches]), within_unpackLayer ?_ cleanup _, failed_within⟩
  refine ⟨stays _ (by simp [Act.touches]), ⟨stays _ (by simp [Act.touches]), ?_, cleanup⟩, cleanup⟩
  exact ⟨stays _ (by simp [Act.touches]), next_within, cleanup⟩

theorem within_pullLayers
    (failed_within : failed.Within (Act.StaysIn names)) (layers : List (Text × Blob Tree)) :
    (pullLayers next failed layers).Within (Act.StaysIn names) := by
  induction layers with
  | nil => exact next_within
  | cons layer layers ih =>
      refine ⟨staysIn_of_area nofun, ih, staysIn_of_area nofun, ?_, failed_within⟩
      split
      · exact within_extractLayer ih failed_within
      · exact failed_within

omit next_within

theorem within_clearDest {dest : Text} (own : dest ∈ names) {losses : List (Loss Tree)}
    (next_within : next.Within (Act.StaysIn names)) (failed_within : failed.Within (Act.StaysIn names)) :
    (clearDest dest losses next failed).Within (Act.StaysIn names) := by
  have make : (Script.act (.make false (.image dest)) next failed).Within (Act.StaysIn names) :=
    ⟨staysIn_of_image own rfl, next_within, failed_within⟩
  intro store
  dsimp only
  split
  · apply within_removeTree _ make failed_within
    rintro name ⟨⟩
    exact own
  · exact make

theorem within_pullImage (ops : TreeOps Tree) (ref : Text) (draw : Draw Tree) :
    (pullImage ops ref draw).Within
      (Act.StaysIn [imageToPath ref, draw.stage ref, draw.backup ref]) := by
  have image : imageToPath ref ∈ [imageToPath ref, draw.stage ref, draw.backup ref] := by simp
  have stage : draw.stage ref ∈ [imageToPath ref, draw.stage ref, draw.backup ref] := by simp
  have backup : draw.backup ref ∈ [imageToPath ref, draw.stage ref, draw.backup ref] := by simp
  have moves : ∀ {source target : Text}, source ∈ [imageToPath ref, draw.stage ref, draw.backup ref] →
      target ∈ [imageToPath ref, draw.stage ref, draw.backup ref] →
      (Act.move .images source target : Act Tree).StaysIn
        [imageToPath ref, draw.stage ref, draw.backup ref] := by
    intro source target left right name touched
    rcases List.mem_cons.mp touched with same | rest
    · cases same
      exact left
    · cases List.mem_singleton.mp rest
      exact right
  have finish : ∀ ok, (finishPull ref draw ok).Within
      (Act.StaysIn [imageToPath ref, draw.stage ref, draw.backup ref]) := by
    intro ok
    apply within_removeQuietly _ (Script.within_done _)
    rintro name ⟨⟩
    exact backup
  have cleanup : (removeQuietly (.image (draw.stage ref)) draw.lossesStage (finishPull ref draw false)).Within
      (Act.StaysIn [imageToPath ref, draw.stage ref, draw.backup ref]) := by
    apply within_removeQuietly _ (finish false)
    rintro name ⟨⟩
    exact stage
  have recover : (recoverPull ref draw).Within
      (Act.StaysIn [imageToPath ref, draw.stage ref, draw.backup ref]) := by
    intro store
    dsimp only
    split
    · exact ⟨moves backup image, cleanup, finish false⟩
    · exact cleanup
  have publish : (publishPull ref draw).Within
      (Act.StaysIn [imageToPath ref, draw.stage ref, draw.backup ref]) := by
    intro store
    dsimp only
    split
    · exact ⟨moves image backup, ⟨moves stage image, finish true, recover⟩, recover⟩
    · exact ⟨moves stage image, finish true, recover⟩
  refine ⟨staysIn_of_image stage rfl, ⟨staysIn_of_area nofun, ⟨staysIn_of_area nofun, ?_, recover⟩,
    recover⟩, trivial⟩
  apply within_writeFile stage _ recover
  split
  · exact recover
  apply within_pullLayers _ recover
  apply within_saveImageManifest stage _ recover
  apply within_mergeLayersInto stage _ _ _ recover
  exact within_writeFile stage publish recover

private theorem within_publishTags (ops : TreeOps Tree) (next_within : next.Within (Act.StaysIn [imageToPath ref]))
    (failed_within : failed.Within (Act.StaysIn [imageToPath ref])) (tags : List (Tag Tree))
    (own : ∀ tag ∈ tags, normalizeImage tag.name = ref) :
    (publishTags ops config dids next failed tags).Within (Act.StaysIn [imageToPath ref]) := by
  induction tags with
  | nil => exact next_within
  | cons tag tags ih =>
      have dest : imageToPath (normalizeImage tag.name) ∈ [imageToPath ref] := by
        rw [own tag List.mem_cons_self]
        exact List.mem_singleton_self _
      have rest := ih fun tag member => own tag (List.mem_cons_of_mem _ member)
      apply within_clearDest dest _ failed_within
      apply within_writeFile dest _ failed_within
      apply within_saveImageManifest dest _ failed_within
      apply within_mergeLayersInto dest _ _ _ failed_within
      exact within_writeFile dest rest failed_within

private theorem within_importLayers {next : List Text → ImageScript Tree}
    (next_within : ∀ dids, (next dids).Within (Act.StaysIn names))
    (failed_within : failed.Within (Act.StaysIn names)) (layers : List (Option (Blob Tree)))
    (dids : List Text) : (importLayers next failed dids layers).Within (Act.StaysIn names) := by
  induction layers generalizing dids with
  | nil => exact next_within dids
  | cons layer layers ih =>
      cases layer with
      | none => exact failed_within
      | some blob =>
          refine ⟨staysIn_of_area nofun, ⟨staysIn_of_area nofun, ih _, ?_⟩, failed_within⟩
          exact within_extractLayer (ih _) failed_within

theorem within_loadImages (ops : TreeOps Tree) (archive : List (ArchiveEntry Tree))
    (own : ∀ entry ∈ archive, ∀ tag ∈ entry.repoTags, normalizeImage tag.name = ref) :
    (loadImages ops archive).Within (Act.StaysIn [imageToPath ref]) := by
  have entries : (loadEntries ops archive).Within (Act.StaysIn [imageToPath ref]) := by
    induction archive with
    | nil => trivial
    | cons entry archive ih =>
        have rest := ih fun entry member => own entry (List.mem_cons_of_mem _ member)
        rw [loadEntries]
        split
        · trivial
        · exact within_importLayers (fun dids => within_publishTags ops rest (Script.within_done _) _
            (own entry List.mem_cons_self)) (Script.within_done _) _ _
  exact ⟨staysIn_of_area nofun, entries, trivial⟩

theorem within_storeBuiltImage (build ref : Text) (config : Config) (dids : List Text)
    (lossesDest lossesBuild : List (Loss Tree)) :
    (storeBuiltImage build ref config dids lossesDest lossesBuild).Within
      (Act.StaysIn [imageToPath ref]) := by
  have dest : imageToPath ref ∈ [imageToPath ref] := List.mem_singleton_self _
  have last : (removeQuietly (.build build) lossesBuild (.done true)).Within
      (Act.StaysIn [imageToPath ref]) := within_removeQuietly (by rintro _ ⟨⟩) (Script.within_done _) _
  apply within_clearDest dest _ (Script.within_done _)
  refine ⟨?_, ?_, trivial⟩
  · intro name touched
    rcases List.mem_cons.mp touched with same | rest
    · cases same
    · cases List.mem_singleton.mp rest
      exact dest
  · apply within_writeFile dest _ (Script.within_done _)
    apply within_saveImageManifest dest _ (Script.within_done _)
    exact within_writeFile dest last (Script.within_done _)

theorem within_removeImage (ref : Text) (losses : List (Loss Tree)) :
    (removeImage ref losses).Within (Act.StaysIn [imageToPath ref]) := by
  intro store
  dsimp only
  split
  · apply within_removeTree _ (Script.within_done _) (Script.within_done _)
    rintro name ⟨⟩
    exact List.mem_singleton_self _
  · trivial

theorem OperationOn.within {ops : TreeOps Tree} {other : Text}
    {script : ImageScript Tree} (operation : OperationOn ops ref (· ≠ other) script)
    (apart : imageToPath ref ≠ other) : script.Within fun act => Place.image other ∉ act.touches := by
  have spared : ∀ names : List Text, other ∉ names → script.Within (Act.StaysIn names) →
      script.Within fun act => Place.image other ∉ act.touches := by
    intro names absent within
    refine Script.Within.mono (fun act stays touched => ?_) within
    exact absent (stays other touched)
  cases operation with
  | pull draw stage backup =>
      apply spared _ _ (within_pullImage ops ref draw)
      simp [Ne.symm apart, Ne.symm stage, Ne.symm backup]
  | load archive own =>
      exact spared _ (by simp [Ne.symm apart]) (within_loadImages ops archive own)
  | build build config dids lossesDest lossesBuild =>
      exact spared _ (by simp [Ne.symm apart]) (within_storeBuiltImage _ _ _ _ _ _)
  | remove losses => exact spared _ (by simp [Ne.symm apart]) (within_removeImage _ _)

end

def Undisturbed (ops : TreeOps Tree) (ref other : Text) : Prop :=
  ∀ start after, Operations ops ref (· ≠ imageToPath other) start after →
    after.image (imageToPath other) = start.image (imageToPath other)

theorem Operations.keeps {ops : TreeOps Tree} {ref other : Text} {start after : Store Tree}
    (apart : imageToPath ref ≠ imageToPath other)
    (operations : Operations ops ref (· ≠ imageToPath other) start after) :
    after.image (imageToPath other) = start.image (imageToPath other) := by
  induction operations with
  | start => rfl
  | operation now after script left _ operation steps ih =>
      have untouched : ∀ (act : Act Tree) (before later : Store Tree),
          Place.image (imageToPath other) ∉ act.touches → (onStore Tree).does act before later →
          before.image (imageToPath other) = start.image (imageToPath other) →
          later.image (imageToPath other) = start.image (imageToPath other) :=
        fun act before later spared does same => (Act.lookup_untouched does spared).trans same
      have kept := Script.Within.keeps untouched (operation.within apart) ih steps
      exact kept.2

end

end PDocker.Images
