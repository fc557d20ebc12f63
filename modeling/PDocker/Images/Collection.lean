import PDocker.Images.CrashSafety
import PDocker.Images.Interference

/-!
# What a prune takes away

A prune of layers goes on when a removal fails, and can be killed between any two steps. Wherever it stops,
only layers that no manifest names have been touched.
-/

set_option autoImplicit false

namespace PDocker.Images

open Data Layers

section
variable {Tree : Type} {sweep : Sweep Tree} {store now : Store Tree} {next : ImageScript Tree}

/-- A layer that is old enough, and that no image names. -/
def Sweep.Collects (sweep : Sweep Tree) (store : Store Tree) (place : Place) : Prop :=
  ∃ name, place = .layer name ∧ isDigest name = true ∧ sweep.old name = true ∧
    ∀ image dir, store.image image = some dir → name ∉ dir.loadManifest

def Sweep.Leaves (sweep : Sweep Tree) (store now : Store Tree) : Prop :=
  ∀ place, ¬ sweep.Collects store place → now.lookup place = store.lookup place

def pruning (sweep : Sweep Tree) (store : Store Tree) : Contract (Store Tree) :=
  .alone (sweep.Leaves store) fun _ => sweep.Leaves store

/-- The script leaves the rest, started from any store in which it has been left. -/
def Harmless (sweep : Sweep Tree) (store : Store Tree) (script : ImageScript Tree) : Prop :=
  ∀ now, sweep.Leaves store now → Holds (onStore Tree) (pruning sweep store) script now

theorem Sweep.Leaves.image (leaves : sweep.Leaves store now) (name : Text) : now.image name = store.image name := by
  refine leaves (.image name) fun collects => ?_
  obtain ⟨layer, same, -⟩ := collects
  cases same

theorem harmless_ask {next : Store Tree → ImageScript Tree}
    (rest : ∀ now, sweep.Leaves store now → Holds (onStore Tree) (pruning sweep store) (next now) now) :
    Harmless sweep store (.ask next) := by
  intro before leaves now same
  obtain rfl : before = now := same
  exact ⟨leaves, rest before leaves⟩

theorem harmless_remove {place : Place} (collects : sweep.Collects store place) (losses : List (Loss Tree))
    (rest : Harmless sweep store next) : Harmless sweep store (removeQuietly place losses next) := by
  have touched : ∀ {act : Act Tree} {before after : Store Tree}, act.touches = [place] → sweep.Leaves store before →
      act.apply before = some after → sweep.Leaves store after := by
    intro act before after touches leaves applied other left
    refine (Act.lookup_untouched applied fun member => left ?_).trans (leaves other left)
    rw [touches, List.mem_singleton] at member
    rwa [member]
  have removes : Removes (onStore Tree) (pruning sweep store) place (sweep.Leaves store) (sweep.Leaves store) := by
    constructor
    · exact id
    · intro before now leaves same
      obtain rfl : before = now := same
      exact leaves
    · exact fun leaves does => ⟨trivial, touched rfl leaves does⟩
    · exact fun leaves does => ⟨trivial, touched rfl leaves does⟩
  exact fun now leaves => removes.holds_quietly rest rest losses leaves

theorem harmless_pruneUnreferenced {refs : List Text}
    (cover : ∀ image dir, store.image image = some dir → ∀ name ∈ dir.loadManifest, name ∈ refs)
    (rest : Harmless sweep store next) (names : List Text) :
    Harmless sweep store (pruneUnreferenced sweep refs next names) := by
  induction names with
  | nil => exact rest
  | cons name names ih =>
      rw [pruneUnreferenced]
      split
      · exact ih
      · rename_i removed
        simp only [not_or, Bool.not_eq_true', Bool.not_eq_false] at removed
        obtain ⟨unnamed, digest, old⟩ := removed
        exact harmless_remove ⟨name, rfl, digest, old, fun image dir found named =>
          unnamed (cover image dir found name named)⟩ _ ih

theorem holds_referencedFrom {next : List Text → ImageScript Tree} (leaves : sweep.Leaves store now)
    (images refs : List Text)
    (rest : ∀ more, (∀ name ∈ refs, name ∈ more) →
      (∀ image ∈ images, ∀ dir, now.image image = some dir → ∀ name ∈ dir.loadManifest, name ∈ more) →
        Holds (onStore Tree) (pruning sweep store) (next more) now) :
    Holds (onStore Tree) (pruning sweep store) (referencedFrom next refs images) now := by
  induction images generalizing refs with
  | nil => exact rest refs (fun _ => id) (List.forall_mem_nil _)
  | cons image images ih =>
      intro later same
      obtain rfl : now = later := same
      refine ⟨leaves, ih _ fun more kept named => rest more ?_ ?_⟩
      · exact fun name member => kept name (List.mem_append_left _ member)
      · refine List.forall_mem_cons.mpr ⟨fun dir found name member => kept name (List.mem_append_right _ ?_), named⟩
        show name ∈ ((now.image image).map ImageDir.loadManifest).getD []
        rw [found]
        exact member

theorem harmless_pruneUnreferencedLayers (genuine : sweep.Genuine) :
    Harmless sweep store (pruneUnreferencedLayers sweep (.done true)) := by
  refine harmless_ask fun now leaves => holds_referencedFrom leaves _ _ fun refs _ named => ?_
  refine harmless_ask (fun later => harmless_pruneUnreferenced ?_ ?_ _ later) now leaves
  · intro image dir found
    have there : now.image image = some dir := (leaves.image image).trans found
    exact named image ((genuine _ _).mpr (mem_names.mpr (Option.isSome_of_mem there))) dir there
  · intro before leaves now same
    obtain rfl : before = now := same
    exact leaves

variable (genuine : sweep.Genuine) {reached : ImageScript Tree × Store Tree}
  (steps : (onStore Tree).Steps (pruneUnreferencedLayers sweep (.done true), store) reached)

include genuine steps

theorem leaves_of_steps : sweep.Leaves store reached.2 :=
  ((harmless_pruneUnreferencedLayers genuine store fun _ _ => rfl).steps steps).inv fun _ _ => id

/-- Whatever fails and wherever it is killed, a prune leaves images, and the layers that they name. -/
theorem pruneUnreferencedLayers_leaves : sweep.Leaves store reached.2 := leaves_of_steps genuine steps

/-- An image stays complete if its manifest names every layer that it needs. -/
theorem pruneUnreferencedLayers_complete {name : Text} {expected : Option Text}
    (complete : store.imageDirComplete name expected = true)
    (named : ∀ dir config, store.image name = some dir → dir.config = some config →
      ∀ did ∈ dir.requiredDiffIds config, bareDiffId did ∈ dir.loadManifest) :
    reached.2.imageDirComplete name expected = true := by
  have leaves := leaves_of_steps genuine steps
  simp only [Store.imageDirComplete, leaves.image] at complete ⊢
  split at complete
  · cases complete
  · rename_i dir found
    simp only [Bool.and_eq_true] at complete ⊢
    refine complete.imp_right (store.filesComplete_mono fun config has did member exist => ?_)
    rw [Store.layerExists_congr (leaves (.layer (bareDiffId did)) ?_), exist]
    rintro ⟨layer, same, -, -, unnamed⟩
    cases same
    exact unnamed name dir found (named dir config found has did member)

end

def sweepAll : Sweep Nat := ⟨id, fun _ => false, fun _ => true, fun _ => []⟩

def digestOf (char : Char) : Text := List.replicate 64 char

def usedAndUnused : Store Nat :=
  [⟨.image ['a'], ⟨some ⟨[], []⟩, some [digestOf 'a'], some 0, some ['a']⟩⟩,
    ⟨.layer (digestOf 'a'), ⟨some 1, some (digestOf 'a')⟩⟩, ⟨.layer (digestOf 'b'), ⟨some 2, none⟩⟩].toAList

def pruned : ImageScript Nat × Store Nat :=
  Script.advance id Act.apply 9 (pruneUnreferencedLayers sweepAll (.done true), usedAndUnused)

theorem pruned_steps :
    (onStore Nat).Steps (pruneUnreferencedLayers sweepAll (.done true), usedAndUnused) pruned :=
  Script.advance_steps (fun _ _ _ does => does) (fun _ _ fails => Or.inl fails) 9 _

theorem pruneUnreferencedLayers_leaves_used :
    sweepAll.Leaves usedAndUnused pruned.2 ∧ pruned.2.names .layers = [digestOf 'a'] :=
  ⟨pruneUnreferencedLayers_leaves (fun _ _ => Iff.rfl) pruned_steps, by decide⟩

theorem pruneUnreferencedLayers_complete_used : pruned.2.imageDirComplete ['a'] none = true := by
  refine pruneUnreferencedLayers_complete (fun _ _ => Iff.rfl) pruned_steps (by decide) fun dir config found has => ?_
  cases found
  cases has
  decide

end PDocker.Images
