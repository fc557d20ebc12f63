import PDocker.Images.Effects
import PDocker.Images.Pull

/-!
# Rules for the parts that publishers share

Pulls, loads and builds fetch layers and fill image directories with the same
scripts. What holds along these follows from what a publisher keeps under
single acts on the directories that it owns.
-/

set_option autoImplicit false

namespace PDocker.Images

open Data Layers

section
variable {Tree State : Type} {machine : Machine (Act Tree) (Store Tree) State}
  {contract : Contract State}

/-- `Before` survives the removal of files in the directory, and the removal of
the directory leads to `After`. -/
structure Removes (machine : Machine (Act Tree) (Store Tree) State) (contract : Contract State)
    (place : Place) (Before After : State → Prop) : Prop where
  inv : ∀ {state}, Before state → contract.inv state
  rely : ∀ {state now}, Before state → contract.rely state now → Before now
  lose : ∀ {loss state after}, Before state →
    machine.does (.edit place (Entry.lose loss place.area)) state after →
    contract.guarantee state after ∧ Before after
  drop : ∀ {state after}, Before state → machine.does (.drop place) state after →
    contract.guarantee state after ∧ After after

variable {place : Place} {act : Act Tree} {after before : Store Tree}

theorem Removes.holds {Before After : State → Prop}
    (removes : Removes machine contract place Before After) {next failed : ImageScript Tree}
    (removed : ∀ state, After state → Holds machine contract next state)
    (given_up : ∀ state, Before state → Holds machine contract failed state)
    (losses : List (Loss Tree)) {state : State} (before : Before state) :
    Holds machine contract (removeTree place next failed losses) state := by
  induction losses generalizing state with
  | nil =>
      refine .act removes.inv removes.rely before given_up fun now after here does => ?_
      have dropped := removes.drop here does
      exact ⟨dropped.1, removed after dropped.2⟩
  | cons loss losses ih =>
      refine .act removes.inv removes.rely before given_up fun now after here does => ?_
      have lost := removes.lose here does
      exact ⟨lost.1, ih lost.2⟩

theorem Removes.holds_quietly {Before After : State → Prop}
    (removes : Removes machine contract place Before After) {next : ImageScript Tree}
    (removed : ∀ state, After state → Holds machine contract next state)
    (given_up : ∀ state, Before state → Holds machine contract next state)
    (losses : List (Loss Tree)) {state : State} (before : Before state) :
    Holds machine contract (removeQuietly place losses next) state := by
  intro now rely
  have here := removes.rely before rely
  refine ⟨removes.inv here, ?_⟩
  dsimp only
  split
  · exact removes.holds removed given_up losses here
  · exact given_up now here

/-- `Own held work` is what a publisher keeps that has found or published the
layers `held` and has the directory `work` to extract another one. -/
structure LayerWork (machine : Machine (Act Tree) (Store Tree) State) (contract : Contract State)
    (Own : List (Text × Tree) → Option (Text × LayerDir Tree) → State → Prop) : Prop where
  inv : ∀ {held work state}, Own held work state → contract.inv state
  rely : ∀ {held work state now}, Own held work state → contract.rely state now → Own held work now
  outside : ∀ {held work state after}, Own held work state → machine.does .outside state after →
    contract.guarantee state after ∧ Own held work after
  refused : ∀ {did state}, machine.raises (.checkLayer did) state →
    (machine.view state).layerExists did = false
  found : ∀ {held state after did}, Own held none state → machine.does (.checkLayer did) state after →
    contract.guarantee state after ∧ ∃ tree, Own ((did, tree) :: held) none after
  missing : ∀ {held work state now did}, Own held work state → contract.rely state now →
    (machine.view state).layerExists did = false → (machine.view now).layerExists did = false
  clear : ∀ {held state after name} {act : Act Tree}, Own held none state → isDigest name = true →
    (machine.view state).layerExists name = false →
    ((∃ loss, act = .edit (.layer name) (Entry.lose loss .layers)) ∨ act = .drop (.layer name)) →
    machine.does act state after → contract.guarantee state after ∧ Own held none after ∧
      (machine.view after).layerExists name = false
  start : ∀ {held state after bare} {blob : Blob Tree}, Own held none state →
    machine.does (.make true (.layer (blob.tmp bare))) state after →
    contract.guarantee state after ∧ ∃ dir, Own held (some (blob.tmp bare, dir)) after
  change : ∀ {held tmp dir state after} {change : LayerDir Tree → LayerDir Tree},
    Own held (some (tmp, dir)) state → machine.does (.edit (.layer tmp) change) state after →
    contract.guarantee state after ∧ Own held (some (tmp, change dir)) after
  abandon : ∀ {held tmp dir state after}, Own held (some (tmp, dir)) state →
    machine.does (.drop (.layer tmp)) state after →
    contract.guarantee state after ∧ Own held none after
  finish : ∀ {held bare tree state after} {blob : Blob Tree},
    Own held (some (blob.tmp bare, ⟨some tree, some ("sha256:".toList ++ bare)⟩)) state →
    isDigest bare = true → machine.does (.move .layers (blob.tmp bare) bare) state after →
    contract.guarantee state after ∧ Own ((bare, tree) :: held) none after

section
variable {Own : List (Text × Tree) → Option (Text × LayerDir Tree) → State → Prop}

private theorem LayerWork.clears (work : LayerWork machine contract Own)
    (held : List (Text × Tree)) {name : Text} (digest : isDigest name = true) :
    Removes machine contract (.layer name)
      (fun state => Own held none state ∧ (machine.view state).layerExists name = false)
      (fun state => Own held none state ∧ (machine.view state).layerExists name = false) where
  inv := fun own => work.inv own.1
  rely := fun own rely => ⟨work.rely own.1 rely, work.missing own.1 rely own.2⟩
  lose := fun {loss} _ _ own does => work.clear own.1 digest own.2 (.inl ⟨loss, rfl⟩) does
  drop := fun own does => work.clear own.1 digest own.2 (.inr rfl) does

private theorem LayerWork.abandons (work : LayerWork machine contract Own)
    (held : List (Text × Tree)) (tmp : Text) :
    Removes machine contract (.layer tmp) (fun state => ∃ dir, Own held (some (tmp, dir)) state)
      (Own held none) where
  inv := fun ⟨_, own⟩ => work.inv own
  rely := fun ⟨dir, own⟩ rely => ⟨dir, work.rely own rely⟩
  lose := fun ⟨_, own⟩ does =>
    have kept := work.change own does
    ⟨kept.1, _, kept.2⟩
  drop := fun ⟨_, own⟩ does => work.abandon own does

variable {next failed : ImageScript Tree} {held : List (Text × Tree)} {state : State}

variable {tmp : Text}

variable (work : LayerWork machine contract Own)

include work

private theorem LayerWork.holds_unpackLayer (parts : List Tree) {last : Tree} {dir : LayerDir Tree}
    (unpacked : ∀ info state, Own held (some (tmp, ⟨some last, info⟩)) state →
      Holds machine contract next state)
    (raised : ∀ dir state, Own held (some (tmp, dir)) state → Holds machine contract failed state)
    (own : Own held (some (tmp, dir)) state) :
    Holds machine contract (unpackLayer tmp next failed (parts ++ [last])) state := by
  induction parts generalizing dir state with
  | nil =>
      refine .act work.inv work.rely own (raised _) fun now after here does => ?_
      have changed := work.change here does
      exact ⟨changed.1, unpacked _ after changed.2⟩
  | cons part parts ih =>
      refine .act work.inv work.rely own (raised _) fun now after here does => ?_
      have changed := work.change here does
      exact ⟨changed.1, ih changed.2⟩

private theorem LayerWork.holds_writeInfo {info : Text} {dir : LayerDir Tree}
    (written : ∀ state, Own held (some (tmp, { dir with info := some info })) state →
      Holds machine contract next state)
    (raised : ∀ dir state, Own held (some (tmp, dir)) state → Holds machine contract failed state)
    (own : Own held (some (tmp, dir)) state) :
    Holds machine contract (writeInfo tmp info next failed) state := by
  refine .act work.inv work.rely own (raised _) fun now cleared here does => ?_
  have cleared_own := work.change here does
  refine ⟨cleared_own.1, .act work.inv work.rely cleared_own.2 (raised _) fun later after there does => ?_⟩
  have filled := work.change there does
  exact ⟨filled.1, written after filled.2⟩

theorem LayerWork.holds_extractLayer {bare : Text} {blob : Blob Tree} (digest : isDigest bare = true)
    (extracted : ∀ tree state, Own ((bare, tree) :: held) none state →
      Holds machine contract next state)
    (raised : ∀ held work state, Own held work state → Holds machine contract failed state)
    (own : Own held none state) :
    Holds machine contract (extractLayer bare blob next failed) state := by
  have cleanup : ∀ dir state, Own held (some (blob.tmp bare, dir)) state →
      Holds machine contract (removeQuietly (.layer (blob.tmp bare)) blob.lossesTmp failed) state := by
    intro dir state own
    apply (work.abandons held (blob.tmp bare)).holds_quietly
    · exact fun state own => raised held none state own
    · exact fun state ⟨dir, own⟩ => raised held _ state own
    · exact ⟨dir, own⟩
  have make : ∀ state, Own held none state ∧ (machine.view state).layerExists bare = false →
      Holds machine contract (.act (.make true (.layer (blob.tmp bare))) (unpackLayer (blob.tmp bare)
          (writeInfo (blob.tmp bare) ("sha256:".toList ++ bare)
            (.act (.move .layers (blob.tmp bare) bare) next
              (removeQuietly (.layer (blob.tmp bare)) blob.lossesTmp failed))
            (removeQuietly (.layer (blob.tmp bare)) blob.lossesTmp failed))
          (removeQuietly (.layer (blob.tmp bare)) blob.lossesTmp failed)
          (blob.partials ++ [blob.tree]))
        failed) state := by
    intro state own now rely
    have here := work.rely own.1 rely
    refine ⟨work.inv here, fun _ => raised _ _ now here, fun after does => ?_⟩
    obtain ⟨kept, dir, made⟩ := work.start here does
    refine ⟨kept, work.holds_unpackLayer _ (fun info state unpacked => ?_) cleanup made⟩
    refine work.holds_writeInfo (fun state written => ?_) cleanup unpacked
    refine .act work.inv work.rely written (cleanup _) fun now after complete does => ?_
    have moved := work.finish complete digest does
    exact ⟨moved.1, extracted _ after moved.2⟩
  intro now rely
  have here := work.rely own rely
  refine ⟨work.inv here, fun refuses => ?_, fun after does => ?_⟩
  · exact (work.clears held digest).holds_quietly make make _ ⟨here, work.refused refuses⟩
  · obtain ⟨kept, tree, found⟩ := work.found here does
    exact ⟨kept, extracted tree after found⟩

theorem LayerWork.holds_pullLayers
    (layers : List (Text × Blob Tree)) (digests : ∀ layer ∈ layers, isDigest layer.2.digest = true)
    (pulled : ∀ now state, Own now none state → held ⊆ now →
      (∀ layer ∈ layers, ∃ tree, (bareDiffId layer.1, tree) ∈ now) →
      Holds machine contract next state)
    (raised : ∀ held work state, Own held work state → Holds machine contract failed state)
    (own : Own held none state) :
    Holds machine contract (pullLayers next failed layers) state := by
  induction layers generalizing held state with
  | nil => exact pulled held state own (fun _ member => member) (fun _ member => by cases member)
  | cons layer layers ih =>
      obtain ⟨did, blob⟩ := layer
      have rest : ∀ tree state, Own ((bareDiffId did, tree) :: held) none state →
          Holds machine contract (pullLayers next failed layers) state := by
        intro tree state own
        apply ih (fun layer member => digests layer (List.mem_cons_of_mem _ member)) _ own
        intro now state own subset covered
        apply pulled now state own (fun _ member => subset (List.mem_cons_of_mem _ member))
        intro layer member
        rcases List.mem_cons.mp member with rfl | later
        · exact ⟨tree, subset List.mem_cons_self⟩
        · exact covered layer later
      intro now rely
      have here := work.rely own rely
      refine ⟨work.inv here, fun _ => ?_, fun after does => ?_⟩
      · intro now rely
        have there := work.rely here rely
        refine ⟨work.inv there, fun _ => raised _ _ now there, fun after does => ?_⟩
        have fetched := work.outside there does
        refine ⟨fetched.1, ?_⟩
        split
        · rename_i same
          have digest : isDigest (bareDiffId did) = true := same ▸ digests _ List.mem_cons_self
          exact work.holds_extractLayer digest rest raised fetched.2
        · exact raised _ _ after fetched.2
      · obtain ⟨kept, tree, found⟩ := work.found here does
        exact ⟨kept, rest tree after found⟩

omit work

end

/-- `Own dir` is what a publisher keeps whose directory `name` holds `dir` and
has no reference yet. -/
structure ImageWork (machine : Machine (Act Tree) (Store Tree) State) (contract : Contract State)
    (name : Text) (Own : ImageDir Tree → State → Prop) : Prop where
  inv : ∀ {dir state}, Own dir state → contract.inv state
  rely : ∀ {dir state now}, Own dir state → contract.rely state now → Own dir now
  make : ∀ {dir state after}, Own dir state → machine.does (.make true (.image name)) state after →
    contract.guarantee state after ∧ Own dir after
  edit : ∀ {dir state after} {change : ImageDir Tree → ImageDir Tree}, Own dir state →
    ((change dir).imageRef = dir.imageRef ∨ (change dir).imageRef = some []) →
    machine.does (.edit (.image name) change) state after →
    contract.guarantee state after ∧ Own (change dir) after

section
variable {name : Text} {Own : ImageDir Tree → State → Prop} {next failed : ImageScript Tree}
  {dir : ImageDir Tree} {state : State}

private theorem ImageWork.holds_writeFile (work : ImageWork machine contract name Own)
    {clear fill : ImageDir Tree → ImageDir Tree} (clears : ∀ dir, (clear dir).imageRef = dir.imageRef)
    (fills : ∀ dir, (fill dir).imageRef = dir.imageRef)
    (written : ∀ state, Own (fill (clear dir)) state → Holds machine contract next state)
    (raised : ∀ dir state, Own dir state → Holds machine contract failed state) (own : Own dir state) :
    Holds machine contract (writeFile name clear fill next failed) state := by
  refine .act work.inv work.rely own (raised _) fun now cleared here does => ?_
  have empty := work.edit here (.inl (clears dir)) does
  refine ⟨empty.1, .act work.inv work.rely empty.2 (raised _) fun later after there does => ?_⟩
  have filled := work.edit there (.inl (fills _)) does
  exact ⟨filled.1, written after filled.2⟩

variable {config : Config} {dids : List Text} {trees : List Tree}

theorem ImageWork.holds_writeConfig (work : ImageWork machine contract name Own)
    (written : ∀ state, Own { dir with config := some config } state →
      Holds machine contract next state)
    (raised : ∀ dir state, Own dir state → Holds machine contract failed state) (own : Own dir state) :
    Holds machine contract (writeConfig name config next failed) state :=
  work.holds_writeFile (fun _ => rfl) (fun _ => rfl) written raised own

theorem ImageWork.holds_saveImageManifest (work : ImageWork machine contract name Own)
    (saved : ∀ state, Own { dir with
        manifest := some (dids.map fullDiffId), config := some config } state →
      Holds machine contract next state)
    (raised : ∀ dir state, Own dir state → Holds machine contract failed state) (own : Own dir state) :
    Holds machine contract (saveImageManifest name dids config next failed) state := by
  refine .act work.inv work.rely own (raised _) fun now after here does => ?_
  have made := work.make here does
  refine ⟨made.1, work.holds_writeFile (fun _ => rfl) (fun _ => rfl) (fun state manifest => ?_) raised made.2⟩
  exact work.holds_writeConfig saved raised manifest

private theorem ImageWork.holds_mergeFrom (work : ImageWork machine contract name Own) (ops : TreeOps Tree)
    (layers : List.Forall₂ (fun did tree => ∀ dir state, Own dir state →
      (machine.view state).HoldsLayer did tree) dids trees)
    {merged : Tree}
    (stripped : ∀ state, Own { dir with
        rootfs := some (ops.strip (trees.foldl ops.overlay merged)) } state →
      Holds machine contract next state)
    (raised : ∀ dir state, Own dir state → Holds machine contract failed state)
    (own : Own { dir with rootfs := some merged } state) :
    Holds machine contract (mergeFrom ops (.image name) next failed dids) state := by
  induction layers generalizing merged state with
  | nil =>
      refine .act work.inv work.rely own (raised _) fun now after here does => ?_
      have changed := work.edit here (.inl rfl) does
      exact ⟨changed.1, stripped after changed.2⟩
  | cons layer _ ih =>
      intro now rely
      have here := work.rely own rely
      refine ⟨work.inv here, ?_⟩
      dsimp only
      rw [(layer _ now here).2]
      refine .act work.inv work.rely here (raised _) fun later after there does => ?_
      have changed := work.edit there (.inl rfl) does
      exact ⟨changed.1, ih stripped changed.2⟩

theorem ImageWork.holds_mergeLayersInto (work : ImageWork machine contract name Own) (ops : TreeOps Tree)
    (layers : List.Forall₂ (fun did tree => ∀ dir state, Own dir state →
      (machine.view state).HoldsLayer did tree) dids trees)
    (fresh : dir.rootfs = none)
    (merged : ∀ state, Own { dir with rootfs := some (ops.merge trees) } state →
      Holds machine contract next state)
    (raised : ∀ dir state, Own dir state → Holds machine contract failed state) (own : Own dir state) :
    Holds machine contract (mergeLayersInto ops (.image name) dids next failed) state := by
  refine .act work.inv work.rely own (raised _) fun now cleared here does => ?_
  have made := work.make here does
  refine ⟨made.1, .act work.inv work.rely made.2 (raised _) fun later after there does => ?_⟩
  have changed := work.edit there (.inl rfl) does
  simp only [Entry.onRootfs, fresh, Option.getD_none] at changed
  exact ⟨changed.1, work.holds_mergeFrom ops layers merged raised changed.2⟩

theorem ImageWork.holds_writeRef (work : ImageWork machine contract name Own) {ref : Text}
    (filled : ∀ state after, Own { dir with imageRef := some [] } state →
      machine.does (.edit (.image name) fun dir : ImageDir Tree => { dir with imageRef := some ref })
        state after →
      contract.guarantee state after ∧ Holds machine contract next after)
    (raised : ∀ dir state, Own dir state → Holds machine contract failed state) (own : Own dir state) :
    Holds machine contract (writeRef name ref next failed) state := by
  refine .act work.inv work.rely own (raised _) fun now cleared here does => ?_
  have empty := work.edit here (.inr rfl) does
  refine ⟨empty.1, fun later rely => ?_⟩
  have there := work.rely empty.2 rely
  exact ⟨work.inv there, fun _ => raised _ later there, fun after does => filled later after there does⟩

end

def Act.Spares (act : Act Tree) (store : Store Tree) : Prop :=
  ∀ place ∈ act.touches, ∃ name, place = .layer name ∧
    (isDigest name = true → store.layerExists name = false)

/-- Places that are marked are left alone by the others; `Base` survives what a
publisher does to layers that are not complete. -/
structure Shelter (machine : Machine (Act Tree) (Store Tree) State) (contract : Contract State)
    (Marks : State → Place → Prop) (Base : State → Prop) : Prop where
  sound : ∀ {act state after}, machine.does act state after →
    act.apply (machine.view state) = some (machine.view after)
  refused : ∀ {did state}, machine.raises (.checkLayer did) state →
    (machine.view state).layerExists did = false
  inv : ∀ {state}, Base state → contract.inv state
  rely : ∀ {state now}, Base state → contract.rely state now → Base now
  rely_marks : ∀ {state now place}, contract.rely state now → Marks state place →
    Marks now place ∧ (machine.view now).lookup place = (machine.view state).lookup place
  rely_missing : ∀ {state now did}, contract.rely state now →
    (machine.view state).layerExists did = false → (machine.view now).layerExists did = false
  marks : ∀ {act state after place}, machine.does act state after →
    Marks state place ∨ place ∈ act.touches → Marks after place
  marks_found : ∀ {did state after}, machine.does (.checkLayer did) state after →
    Marks after (.layer (bareDiffId did))
  spares : ∀ {act state after}, Base state → machine.does act state after →
    act.Spares (machine.view state) → contract.guarantee state after ∧ Base after

theorem Act.Spares.extends (spares : act.Spares before)
    (applied : act.apply before = some after) : before.Extends after := by
  apply Act.extends applied
  intro did complete touched
  obtain ⟨name, same, incomplete⟩ := spares _ touched
  cases same
  have missing := incomplete (Store.isDigest_of_layerExists complete)
  rw [Store.layerExists_bare complete] at missing
  cases missing

theorem Act.Spares.image (spares : act.Spares before)
    (applied : act.apply before = some after) (name : Text) : after.image name = before.image name := by
  apply Act.lookup_untouched applied
  intro touched
  obtain ⟨_, same, _⟩ := spares _ touched
  cases same

theorem exists_trees {held : List (Text × Tree)} {dids : List Text}
    (covered : ∀ did ∈ dids, ∃ tree, (did, tree) ∈ held) :
    ∃ trees, List.Forall₂ (fun did tree => (did, tree) ∈ held) dids trees := by
  induction dids with
  | nil => exact ⟨[], .nil⟩
  | cons did dids ih =>
      obtain ⟨tree, here⟩ := covered did List.mem_cons_self
      obtain ⟨trees, rest⟩ := ih fun did member => covered did (List.mem_cons_of_mem _ member)
      exact ⟨tree :: trees, .cons here rest⟩

theorem isDigest_tmp (blob : Blob Tree) (bare : Text) : isDigest (blob.tmp bare) = false := by
  rw [← Bool.not_eq_true]
  intro digest
  have hex := List.all_eq_true.mp (Bool.and_eq_true_iff.mp digest).2 '.'
    (List.mem_append_left _ (List.mem_append_right _ List.mem_cons_self))
  revert hex
  decide

section
variable {Marks : State → Place → Prop} {Base : State → Prop}

structure Fetching (machine : Machine (Act Tree) (Store Tree) State) (Marks : State → Place → Prop)
    (Base : State → Prop) (held : List (Text × Tree)) (work : Option (Text × LayerDir Tree))
    (state : State) : Prop where
  base : Base state
  held : ∀ layer ∈ held, Marks state (.layer (bareDiffId layer.1)) ∧
    (machine.view state).HoldsLayer layer.1 layer.2
  work : ∀ tmp dir, work = some (tmp, dir) → isDigest tmp = false ∧ Marks state (.layer tmp) ∧
    (machine.view state).layer tmp = some dir

private theorem Fetching.keep (shelter : Shelter machine contract Marks Base)
    {held : List (Text × Tree)} {work : Option (Text × LayerDir Tree)} {state after : State}
    {act : Act Tree} (own : Fetching machine Marks Base held work state)
    (does : machine.does act state after) (spares : act.Spares (machine.view state)) :
    contract.guarantee state after ∧ Fetching machine Marks Base held none after := by
  have kept := shelter.spares own.base does spares
  have extend := spares.extends (shelter.sound does)
  refine ⟨kept.1, kept.2, fun layer member => ?_, nofun⟩
  exact ⟨shelter.marks does (.inl (own.held layer member).1),
    extend.holdsLayer (own.held layer member).2⟩

theorem Shelter.layerWork (shelter : Shelter machine contract Marks Base) :
    LayerWork machine contract (Fetching machine Marks Base) where
  inv := fun own => shelter.inv own.base
  rely := by
    intro held work state now own rely
    refine ⟨shelter.rely own.base rely, fun layer member => ?_, fun tmp dir shape => ?_⟩
    · obtain ⟨marked, holds⟩ := own.held layer member
      exact ⟨(shelter.rely_marks rely marked).1, holds.congr (shelter.rely_marks rely marked).2⟩
    · obtain ⟨name, marked, found⟩ := own.work tmp dir shape
      exact ⟨name, (shelter.rely_marks rely marked).1, (shelter.rely_marks rely marked).2.trans found⟩
  outside := by
    intro held work state after own does
    have spares : (Act.outside : Act Tree).Spares (machine.view state) := fun _ member => by cases member
    have kept := own.keep shelter does spares
    refine ⟨kept.1, kept.2.base, kept.2.held, fun tmp dir shape => ?_⟩
    obtain ⟨name, marked, found⟩ := own.work tmp dir shape
    exact ⟨name, shelter.marks does (.inl marked),
      (Act.lookup_untouched (shelter.sound does) (fun member => by cases member)).trans found⟩
  refused := shelter.refused
  found := by
    intro held state after did own does
    have spares : (Act.checkLayer did : Act Tree).Spares (machine.view state) :=
      fun _ member => by cases member
    have kept := own.keep shelter does spares
    have applied := shelter.sound does
    simp only [Act.apply, Option.ite_none_right_eq_some, Option.some.injEq] at applied
    obtain ⟨tree, holds⟩ := Store.exists_holdsLayer applied.1
    refine ⟨kept.1, tree, kept.2.base, fun layer member => ?_, fun _ _ work => by cases work⟩
    rcases List.mem_cons.mp member with rfl | earlier
    · exact ⟨shelter.marks_found does, applied.2 ▸ holds⟩
    · exact kept.2.held layer earlier
  missing := fun _ rely absent => shelter.rely_missing rely absent
  clear := by
    intro held state after name act own digest absent shape does
    have touches : act.touches = [.layer name] := by
      rcases shape with ⟨loss, rfl⟩ | rfl <;> rfl
    have spares : act.Spares (machine.view state) := by
      intro place member
      rw [touches, List.mem_singleton] at member
      exact ⟨name, member, fun _ => absent⟩
    have kept := own.keep shelter does spares
    exact ⟨kept.1, kept.2, Store.layerExists_lost shape (shelter.sound does) digest absent⟩
  start := by
    intro held state after bare blob own does
    have spares : (Act.make true (.layer (blob.tmp bare)) : Act Tree).Spares (machine.view state) := by
      intro place member
      refine ⟨blob.tmp bare, List.mem_singleton.mp member, fun digest => ?_⟩
      rw [isDigest_tmp] at digest
      cases digest
    have kept := own.keep shelter does spares
    have made := lookup_of_make (shelter.sound does)
    refine ⟨kept.1, ((machine.view state).lookup (.layer (blob.tmp bare))).getD (Entry.empty .layers),
      kept.2.base, kept.2.held, fun tmp dir shape => ?_⟩
    cases shape
    exact ⟨isDigest_tmp blob bare, shelter.marks does (.inr List.mem_cons_self), made⟩
  change := by
    intro held tmp dir state after change own does
    obtain ⟨name, marked, found⟩ := own.work tmp dir rfl
    have spares : (Act.edit (.layer tmp) change : Act Tree).Spares (machine.view state) := by
      intro place member
      refine ⟨tmp, List.mem_singleton.mp member, fun digest => ?_⟩
      rw [name] at digest
      cases digest
    have kept := own.keep shelter does spares
    refine ⟨kept.1, kept.2.base, kept.2.held, fun tmp' dir' shape => ?_⟩
    cases shape
    refine ⟨name, shelter.marks does (.inl marked), ?_⟩
    have now := lookup_of_edit (shelter.sound does)
    rw [Store.layer, now, show (machine.view state).lookup (.layer tmp) = some dir from found]
    rfl
  abandon := by
    intro held tmp dir state after own does
    obtain ⟨name, marked, found⟩ := own.work tmp dir rfl
    have spares : (Act.drop (.layer tmp) : Act Tree).Spares (machine.view state) := by
      intro place member
      refine ⟨tmp, List.mem_singleton.mp member, fun digest => ?_⟩
      rw [name] at digest
      cases digest
    exact own.keep shelter does spares
  finish := by
    intro held bare tree state after blob own digest does
    obtain ⟨name, marked, found⟩ := own.work _ _ rfl
    have moved := lookup_of_move (shelter.sound does)
    have fixed := bareDiffId_of_isDigest digest
    have absent : (machine.view state).layerExists bare = false := by
      have none : (machine.view state).layer bare = none := moved.2.1
      simp [Store.layerExists, fixed, none]
    have spares : (Act.move .layers (blob.tmp bare) bare : Act Tree).Spares (machine.view state) := by
      intro place member
      rcases List.mem_cons.mp member with rfl | target
      · refine ⟨blob.tmp bare, rfl, fun digest => ?_⟩
        rw [name] at digest
        cases digest
      · exact ⟨bare, List.mem_singleton.mp target, fun _ => absent⟩
    have kept := own.keep shelter does spares
    refine ⟨kept.1, kept.2.base, fun layer member => ?_, fun _ _ work => by cases work⟩
    rcases List.mem_cons.mp member with rfl | earlier
    · have there : (machine.view after).layer bare =
          some ⟨some tree, some ("sha256:".toList ++ bare)⟩ := moved.1.trans found
      have names : bareDiffId ("sha256:".toList ++ bare) = bare := bareDiffId_sha256 bare
      refine ⟨?_, ?_, ?_⟩
      · rw [fixed]
        exact shelter.marks does (.inr (List.mem_cons_of_mem _ List.mem_cons_self))
      · simp only [Store.layerExists, fixed, digest, there, names, decide_true, Bool.and_self]
      · simp only [fixed, there, Option.bind_some]
    · exact kept.2.held layer earlier

/-- `Base` also survives what a publisher does to its image directory `name`, the
text of `image_ref` apart. -/
structure ImageShelter (machine : Machine (Act Tree) (Store Tree) State) (contract : Contract State)
    (Marks : State → Place → Prop) (name : Text) (Base : State → Prop) : Prop extends
    Shelter machine contract Marks Base where
  fills : ∀ {act state after dir}, Base state → (machine.view state).image name = some dir →
    (act = .make true (.image name) ∨ ∃ change : ImageDir Tree → ImageDir Tree,
      act = .edit (.image name) change ∧
        ((change dir).imageRef = dir.imageRef ∨ (change dir).imageRef = some [])) →
    machine.does act state after → contract.guarantee state after ∧ Base after

structure Filling (machine : Machine (Act Tree) (Store Tree) State) (Marks : State → Place → Prop)
    (name : Text) (Base : State → Prop) (dir : ImageDir Tree) (state : State) : Prop where
  base : Base state
  marked : Marks state (.image name)
  here : (machine.view state).image name = some dir

variable {name : Text}

theorem ImageShelter.fetching (shelter : ImageShelter machine contract Marks name Base)
    (dir : ImageDir Tree) :
    Shelter machine contract Marks (Filling machine Marks name Base dir) where
  sound := shelter.sound
  refused := shelter.refused
  inv := fun own => shelter.inv own.base
  rely := fun own rely =>
    have kept := shelter.rely_marks rely own.marked
    ⟨shelter.rely own.base rely, kept.1, kept.2.trans own.here⟩
  rely_marks := shelter.rely_marks
  rely_missing := shelter.rely_missing
  marks := shelter.marks
  marks_found := shelter.marks_found
  spares := fun own does spares =>
    have kept := shelter.spares own.base does spares
    ⟨kept.1, kept.2, shelter.marks does (.inl own.marked),
      (spares.image (shelter.sound does) name).trans own.here⟩

theorem ImageShelter.imageWork (shelter : ImageShelter machine contract Marks name Base)
    (held : List (Text × Tree)) :
    ImageWork machine contract name fun dir state =>
      Filling machine Marks name Base dir state ∧ Fetching machine Marks Base held none state where
  inv := fun own => shelter.inv own.1.base
  rely := fun own rely =>
    ⟨(shelter.fetching _).rely own.1 rely, shelter.layerWork.rely own.2 rely⟩
  make := by
    intro dir state after own does
    have kept := shelter.fills own.1.base own.1.here (.inl rfl) does
    have made := lookup_of_make (shelter.sound does)
    have same : ∀ layer, (machine.view after).layer layer = (machine.view state).layer layer :=
      fun layer => Act.lookup_untouched (shelter.sound does) (by simp [Act.touches])
    refine ⟨kept.1, ⟨kept.2, shelter.marks does (.inl own.1.marked), ?_⟩,
      kept.2, fun layer member => ?_, fun _ _ work => by cases work⟩
    · rw [Store.image, made, show (machine.view state).lookup (.image name) = some dir from own.1.here]
      rfl
    · obtain ⟨marked, holds⟩ := own.2.held layer member
      exact ⟨shelter.marks does (.inl marked), holds.congr (same _)⟩
  edit := by
    intro dir state after change own refs does
    have kept := shelter.fills own.1.base own.1.here (.inr ⟨change, rfl, refs⟩) does
    have edited := lookup_of_edit (shelter.sound does)
    have same : ∀ layer, (machine.view after).layer layer = (machine.view state).layer layer :=
      fun layer => Act.lookup_untouched (shelter.sound does) (by simp [Act.touches])
    refine ⟨kept.1, ⟨kept.2, shelter.marks does (.inl own.1.marked), ?_⟩,
      kept.2, fun layer member => ?_, fun _ _ work => by cases work⟩
    · rw [Store.image, edited, show (machine.view state).lookup (.image name) = some dir from own.1.here]
      rfl
    · obtain ⟨marked, holds⟩ := own.2.held layer member
      exact ⟨shelter.marks does (.inl marked), holds.congr (same _)⟩

end

end

end PDocker.Images
