import PDocker.Posix.Confine
import PDocker.Layers.Clone

/-!
# What a merge can reach

The clone and the strip pass write to names of real directories inside the
target whatever the layers hold. Only a marker can lead out of it: its victim
is found through links of the merged tree, and a marker may spell `..`.
-/

set_option autoImplicit false

namespace PDocker.Layers

open Posix Overlay

section
variable {fs now : FS} {top raw : Path}

theorem shrunk_clobber (located : FS.LocatedIn top fs raw) : Shrunk top fs (clobber fs raw) := by
  unfold clobber
  split
  · exact FS.shrunk_unlink located
  · exact FS.shrunk_rmtree located

theorem shrunk_removeVictim (located : FS.LocatedIn top fs raw) :
    Shrunk top fs (removeVictim fs raw) := by
  unfold removeVictim
  split
  · exact FS.shrunk_unlink located
  · split
    · exact FS.shrunk_rmtree located
    · exact .refl top fs

theorem shrunk_clearOpaque (listed : FS.ListedIn top fs raw) : Shrunk top fs (clearOpaque fs raw) := by
  unfold clearOpaque
  split
  · refine FS.shrunk_foldl (fun now entry => clobber now (raw ++ [entry])) _ ?_ fs (.refl top fs)
    intro now shrunk entry member
    refine shrunk_clobber ((listed.of_shrunk shrunk).child ?_)
    simp only [FS.listdir] at member
    split at member
    · split at member
      · exact FS.plainName_of_mem_names member
      · cases member
    · cases member
  · exact .refl top fs

end

/-- The object of the marker `name` in the directory `dir`, or the directory
that an opaque marker empties, lies inside `top`. -/
def MarkerConfined (top : Path) (fs : FS) (dir : Path) (name : Name) : Prop :=
  if name = opaqueMarker then FS.ListedIn top fs dir
  else FS.LocatedIn top fs (dir ++ [name.drop whiteoutPrefix.length])

instance (top : Path) (fs : FS) (dir : Path) (name : Name) :
    Decidable (MarkerConfined top fs dir name) :=
  inferInstanceAs (Decidable (if name = opaqueMarker then FS.ListedIn top fs dir
    else FS.LocatedIn top fs (dir ++ [name.drop whiteoutPrefix.length])))

def MarkersConfined (fs : FS) (layer target : Path) : Prop :=
  ∀ (rel : Path) (name : Name), isMarker name = true →
    fs.get (layer ++ (rel ++ [name])) ≠ none → fs.isDirAt (layer ++ (rel ++ [name])) = false →
      MarkerConfined target fs (target ++ rel) name

section
variable {fs now : FS} {layer target rel : Path}

variable (confined : MarkersConfined fs layer target)

include confined

theorem MarkersConfined.of_shrunk (apart : Apart target layer) (shrunk : Shrunk target fs now) :
    MarkersConfined now layer target := by
  intro rel name marker present leaf
  have free := apart.not_prefix_append (rel ++ [name])
  rw [shrunk.outside _ free] at present
  rw [shrunk.frame.isDirAt free] at leaf
  have before := confined rel name marker present leaf
  unfold MarkerConfined at before ⊢
  by_cases isOpaque : name = opaqueMarker
  · simp only [isOpaque, ↓reduceIte] at before ⊢
    exact before.of_shrunk shrunk
  · simp only [isOpaque, ↓reduceIte] at before ⊢
    exact before.of_shrunk shrunk

theorem shrunk_whiteoutVisit {dirs : List Name}
    (apart : Apart target layer) (directory : fs.isDirAt (layer ++ rel) = true) :
    Shrunk target fs (whiteoutVisit target fs rel dirs (fs.scanFiles (layer ++ rel))) := by
  have atMarker : ∀ name ∈ fs.scanFiles (layer ++ rel), isMarker name = true →
      ∀ now, Shrunk target fs now → MarkerConfined target now (target ++ rel) name := by
    intro name member marker now shrunk
    rw [FS.scanFiles_of_isDirAt directory, List.mem_filter, FS.mem_names] at member
    have free := apart.not_prefix_append (rel ++ [name])
    refine confined.of_shrunk apart shrunk rel name marker ?_ ?_
    · rw [shrunk.outside _ free]
      simpa using member.1
    rw [shrunk.frame.isDirAt free, ← List.append_assoc, Bool.eq_false_iff]
    intro isDir
    rw [FS.isdir_of_isDirAt isDir] at member
    simp at member
  have cleared : Shrunk target fs
      (if opaqueMarker ∈ fs.scanFiles (layer ++ rel) then clearOpaque fs (target ++ rel)
        else fs) := by
    split
    · rename_i member
      have here := atMarker opaqueMarker member rfl fs (.refl target fs)
      rw [MarkerConfined, if_pos rfl] at here
      exact shrunk_clearOpaque here
    · exact .refl target fs
  unfold whiteoutVisit
  refine cleared.trans (FS.shrunk_foldl _ _ ?_ _ (.refl target _))
  intro later shrunk name member
  unfold applyWhiteout
  cases whiteout : isWhiteoutFile name with
  | false => exact .refl target later
  | true =>
      simp only [isWhiteoutFile, Bool.and_eq_true, decide_eq_true_eq, ne_eq] at whiteout
      have here := atMarker name member whiteout.1 later (cleared.trans shrunk)
      rw [MarkerConfined, if_neg whiteout.2] at here
      exact shrunk_removeVictim here

theorem shrunk_applyWhiteoutsInTree (apart : Apart target layer) (layerDir : fs.isDirAt layer = true) :
    Shrunk target fs (applyWhiteoutsInTree fs layer target) := by
  have rule : WalkInvariant id layer (whiteoutVisit target) (fun rel => fs.isDirAt (layer ++ rel))
      (fun _ now => Shrunk target fs now) := by
    refine ⟨fun shrunk rel => shrunk.frame.isDirAt (apart.not_prefix_append rel), ?_⟩
    intro visited now rel shrunk here _ _
    have directory : now.isDirAt (layer ++ rel) = true := by
      rw [shrunk.frame.isDirAt (apart.not_prefix_append rel), here]
    exact shrunk.trans (shrunk_whiteoutVisit (confined.of_shrunk apart shrunk) apart directory)
  obtain ⟨visited, shrunk, _⟩ := osWalk_rule rule (fs.height + 1) fs
    (fun _ => FS.length_lt_of_isDirAt_append) (.refl target fs) (by simpa using layerDir)
  exact shrunk

omit confined

end

/-- `path` can be made a directory in place: it is one, or it is a name of one. -/
def Makeable (fs : FS) (path : Path) : Prop :=
  fs.isDirAt path = true ∨
    ∃ parent name, path = parent ++ [name] ∧ fs.isDirAt parent = true ∧ PlainName name

section
variable {fs now : FS} {layer target rel : Path}

theorem ensureDirectory_makeable {dir : Path} (makeable : Makeable fs dir) :
    Frame (dir <+: ·) fs (ensureDirectory fs dir) ∧ (ensureDirectory fs dir).isDirAt dir = true := by
  cases makeable with
  | inl directory =>
      rw [ensureDirectory_of_isDirAt directory]
      exact ⟨.refl _ _, directory⟩
  | inr name =>
      obtain ⟨parent, name, rfl, parentDir, plain⟩ := name
      obtain ⟨frame, directory, _⟩ := ensureDirectory_child parentDir plain
      exact ⟨frame, directory⟩

theorem frame_cloneVisit (apart : Apart target layer) (makeable : Makeable fs (target ++ rel))
    (layerDir : fs.isDirAt (layer ++ rel) = true) :
    let after := cloneVisit layer target fs rel (fs.scanDirs (layer ++ rel))
      (fs.scanFiles (layer ++ rel))
    Frame (target ++ rel <+: ·) fs after ∧ after.isDirAt (target ++ rel) = true ∧
      ∀ name, fs.isDirAt (layer ++ (rel ++ [name])) = true →
        after.isDirAt (target ++ (rel ++ [name])) = true := by
  intro after
  have outside : ∀ path, ¬ target ++ rel <+: layer ++ rel ++ path := by
    intro path below
    rw [List.append_assoc] at below
    exact apart.not_prefix_append _ ((List.prefix_append _ _).trans below)
  obtain ⟨ensured, directory⟩ := ensureDirectory_makeable makeable
  have layerEnsured : (ensureDirectory fs (target ++ rel)).isDirAt (layer ++ rel) = true := by
    have free := outside []
    rw [List.append_nil] at free
    rw [ensured.isDirAt free, layerDir]
  obtain ⟨mode, found, prepared⟩ := isDirAt_cloneMode directory layerEnsured
  have touched := FS.frame_setDirMode (ensureDirectory fs (target ++ rel)) (target ++ rel) mode
  have ready : Frame (target ++ rel <+: ·) fs
      ((ensureDirectory fs (target ++ rel)).setDirMode (target ++ rel) mode) :=
    ensured.trans (touched.mono fun _ same => same ▸ List.prefix_refl _)
  have readyDir : ((ensureDirectory fs (target ++ rel)).setDirMode (target ++ rel) mode).isDirAt
      (target ++ rel) = true :=
    FS.isDirAt_iff.mpr ⟨mode, by simp [FS.get_setDirMode directory]⟩
  have unfolded : after = (fs.scanFiles (layer ++ rel) ++ fs.scanDirs (layer ++ rel)).foldl
      (fun now name => cloneEntry now (layer ++ rel ++ [name]) (target ++ rel ++ [name]))
      ((ensureDirectory fs (target ++ rel)).setDirMode (target ++ rel) mode) := by
    simp only [after, cloneVisit, prepared]
  rw [unfolded]
  generalize (ensureDirectory fs (target ++ rel)).setDirMode (target ++ rel) mode = start
    at ready readyDir
  obtain ⟨frame, placed⟩ := placed_foldl outside
    (fs.scanFiles (layer ++ rel) ++ fs.scanDirs (layer ++ rel))
    (FS.nodup_scanFiles_append_scanDirs layerDir) start readyDir
    (by
      have free := outside []
      rw [List.append_nil] at free
      rw [ready.isDirAt free, layerDir])
    (by
      intro name member
      rw [ready.get _ (outside [name])]
      exact (FS.mem_scanFiles_append_scanDirs layerDir).mp member)
  refine ⟨ready.trans (frame.mono fun _ ⟨_, _, below⟩ => (List.prefix_append _ _).trans below), ?_, ?_⟩
  · rw [frame.isDirAt, readyDir]
    intro touches
    obtain ⟨name, _, below⟩ := touches
    have shorter := below.length_le
    simp only [List.length_append, List.length_singleton] at shorter
    omega
  · intro name sub
    rw [← List.append_assoc] at sub ⊢
    obtain ⟨mode, foundSub⟩ := FS.isDirAt_iff.mp sub
    have member := (FS.mem_scanFiles_append_scanDirs layerDir).mpr
      (by rw [foundSub]; exact Option.some_ne_none _ : fs.get (layer ++ rel ++ [name]) ≠ none)
    exact (placed name member).directory (by rw [ready.isDirAt (outside [name]), sub])

private structure Reached (start : FS) (layer target : Path) (visited : List Path) (now : FS) :
    Prop where
  frame : Frame (target <+: ·) start now
  root : Makeable now target
  made : ∀ rel ∈ visited, now.isDirAt (target ++ rel) = true
  sub : ∀ rel ∈ visited, ∀ name, start.isDirAt (layer ++ (rel ++ [name])) = true →
    now.isDirAt (target ++ (rel ++ [name])) = true

private theorem reached_visit {visited : List Path} (apart : Apart target layer)
    (reached : Reached fs layer target visited now) (here : fs.isDirAt (layer ++ rel) = true)
    (above : ∀ other, Below other rel → other ∈ visited)
    (free : ∀ seen ∈ visited, ¬ rel <+: seen) :
    Reached fs layer target (visited ++ [rel])
      (cloneVisit layer target now rel (now.scanDirs (layer ++ rel))
        (now.scanFiles (layer ++ rel))) := by
  have layerDir : ∀ path, now.isDirAt (layer ++ path) = fs.isDirAt (layer ++ path) :=
    fun path => reached.frame.isDirAt (apart.not_prefix_append path)
  have makeable : Makeable now (target ++ rel) := by
    cases List.eq_nil_or_concat rel with
    | inl root => simpa [root] using reached.root
    | inr shape =>
        obtain ⟨parent, name, rfl⟩ := shape
        rw [List.concat_eq_append] at here above ⊢
        exact .inl (reached.sub parent
          (above parent (below_append_singleton.mpr (List.prefix_refl _))) name here)
  obtain ⟨frame, directory, subs⟩ := frame_cloneVisit apart makeable (by rw [layerDir, here])
  generalize cloneVisit layer target now rel (now.scanDirs (layer ++ rel))
    (now.scanFiles (layer ++ rel)) = after at frame directory subs
  have outside : ∀ {path : Path}, ¬ rel <+: path → ¬ target ++ rel <+: target ++ path :=
    fun free below => free ((List.prefix_append_right_inj target).mp below)
  have root : after.isDirAt target = true := FS.isDirAt_above directory (List.prefix_append _ _)
  refine ⟨reached.frame.trans (frame.mono fun _ => (List.prefix_append _ _).trans), .inl root, ?_, ?_⟩
  · intro seen member
    cases List.mem_append.mp member with
    | inl old => rw [frame.isDirAt (outside (free seen old)), reached.made seen old]
    | inr new => rw [List.mem_singleton.mp new, directory]
  intro seen member name sub
  cases List.mem_append.mp member with
  | inl old =>
      by_cases below : rel <+: seen ++ [name]
      · -- a subdirectory of an earlier directory can only be the one just visited
        have same : rel = seen ++ [name] := by
          by_contra different
          exact free seen old (below_append_singleton.mp ⟨below, different⟩)
        rw [← same]
        exact directory
      · rw [frame.isDirAt (outside below)]
        exact reached.sub seen old name sub
  | inr new =>
      rw [List.mem_singleton.mp new] at sub ⊢
      exact subs name (by rw [layerDir, sub])

theorem frame_hardlinkCloneTree (apart : Apart target layer) (makeable : Makeable fs target)
    (layerDir : fs.isDirAt layer = true) :
    Frame (target <+: ·) fs (hardlinkCloneTree fs layer target) ∧
      (hardlinkCloneTree fs layer target).isDirAt target = true := by
  have rule : WalkInvariant id layer (cloneVisit layer target)
      (fun rel => fs.isDirAt (layer ++ rel)) (Reached fs layer target) :=
    ⟨fun reached rel => reached.frame.isDirAt (apart.not_prefix_append rel),
      fun reached here above free => reached_visit apart reached here above free⟩
  obtain ⟨visited, reached, members⟩ := osWalk_rule rule (fs.height + 1) fs
    (fun _ => FS.length_lt_of_isDirAt_append) ⟨.refl _ _, makeable, by simp, by simp⟩
    (by simpa using layerDir)
  have root := reached.made [] ((members []).mpr (by simpa using layerDir))
  rw [List.append_nil] at root
  exact ⟨reached.frame, root⟩

theorem isDirAt_unlink (fs : FS) (raw path : Path) :
    ((fs.unlink raw).getD fs).isDirAt path = fs.isDirAt path := by
  unfold FS.unlink
  cases fs.namei raw false with
  | none => rfl
  | some place =>
      rw [Option.bind_some]
      cases found : fs.get place with
      | none => rfl
      | some entry =>
          have leaf : entry.isDir = false → (fs.remove place).isDirAt path = fs.isDirAt path := by
            intro leaf
            by_cases below : place <+: path
            · have gone : fs.isDirAt path = false := by
                rw [Bool.eq_false_iff]
                intro directory
                have here := FS.isDirAt_above directory below
                rw [FS.isDirAt_of_get found, leaf] at here
                cases here
              rw [gone]
              by_cases root : place = []
              · simpa [FS.remove, root] using gone
              · simp [FS.isDirAt, FS.get_remove root, below]
            · exact (FS.frame_remove fs place).isDirAt below
          cases entry with
          | dir mode => rfl
          | file ino | symlink text => exact leaf rfl

theorem shrunk_stripWhiteoutMarkers (targetDir : fs.isDirAt target = true) :
    Shrunk target fs (stripWhiteoutMarkers fs target) ∧
      (stripWhiteoutMarkers fs target).isDirAt target = true := by
  have rule : WalkInvariant id target (stripVisit target) (fun rel => fs.isDirAt (target ++ rel))
      (fun _ now => Shrunk target fs now ∧ ∀ path, now.isDirAt path = fs.isDirAt path) := by
    refine ⟨fun holds rel => holds.2 (target ++ rel), ?_⟩
    intro visited now rel holds here _ _
    obtain ⟨shrunk, dirs⟩ := holds
    have directory : now.isDirAt (target ++ rel) = true := by rw [dirs, here]
    have loop : ∀ (names : List Name), (∀ name ∈ names, PlainName name) →
        ∀ later, Shrunk target now later → (∀ path, later.isDirAt path = now.isDirAt path) →
          Shrunk target now (names.foldl (fun now name =>
            if isMarker name then (now.unlink (target ++ rel ++ [name])).getD now else now) later) ∧
          ∀ path, (names.foldl (fun now name =>
            if isMarker name then (now.unlink (target ++ rel ++ [name])).getD now else now)
              later).isDirAt path = now.isDirAt path := by
      intro names
      induction names with
      | nil => exact fun _ later shrunk dirs => ⟨shrunk, dirs⟩
      | cons name names ih =>
          intro plain later shrunkLater dirsLater
          rw [List.foldl_cons]
          refine ih (fun other member => plain other (by simp [member])) _ ?_ ?_
          · split
            · refine shrunkLater.trans (FS.shrunk_unlink ?_)
              intro path located _
              have parent : later.isDirAt (target ++ rel) = true := by rw [dirsLater, directory]
              rw [FS.namei_child parent (plain name (by simp))] at located
              obtain rfl := Option.some.inj located
              exact ⟨rel ++ [name], by simp⟩
            · exact shrunkLater
          · intro path
            split
            · rw [isDirAt_unlink, dirsLater]
            · exact dirsLater path
    obtain ⟨shrunkAfter, dirsAfter⟩ := loop (now.scanFiles (target ++ rel))
      (by
        intro name member
        rw [FS.scanFiles_of_isDirAt directory, List.mem_filter] at member
        exact FS.plainName_of_mem_names member.1) now (.refl target now) fun _ => rfl
    exact ⟨shrunk.trans shrunkAfter, fun path => (dirsAfter path).trans (dirs path)⟩
  obtain ⟨visited, holds, _⟩ := osWalk_rule rule (fs.height + 1) fs
    (fun _ => FS.length_lt_of_isDirAt_append) ⟨.refl target fs, fun _ => rfl⟩
    (by simpa using targetDir)
  exact ⟨holds.1, (holds.2 target).trans targetDir⟩

end

/-- Where the target can be made, and where the layers are looked for: no link
lies on the way to either, and neither contains the other. -/
structure Layout (fs : FS) (layersDir target : Path) (dids : List Name) : Prop where
  makeable : Makeable fs target
  layers : ∀ did ∈ dids, fs.Straight (layerTree layersDir did)
  apart : ∀ did ∈ dids, Apart target (layerTree layersDir did)

/-- Before each layer that is merged, its markers act inside the target. -/
def ConfinedRun (layersDir target : Path) : FS → List Name → Prop
  | _, [] => True
  | fs, did :: rest =>
      fs.isdir (layerTree layersDir did) = true → MarkersConfined fs (layerTree layersDir did) target ∧
          ConfinedRun layersDir target (mergeLayer fs (layerTree layersDir did) target) rest

section
variable {fs : FS} {layer layersDir target : Path}

theorem Makeable.of_shrunk {now : FS} (makeable : Makeable fs target)
    (shrunk : Shrunk target fs now) : Makeable now target := by
  cases makeable with
  | inr name =>
      obtain ⟨parent, name, rfl, parentDir, plain⟩ := name
      refine .inr ⟨parent, name, rfl, ?_, plain⟩
      rw [shrunk.frame.isDirAt, parentDir]
      intro below
      have shorter := below.length_le
      simp only [List.length_append, List.length_singleton] at shorter
      omega
  | inl directory =>
      cases List.eq_nil_or_concat target with
      | inl root => exact .inl (by rw [root]; exact FS.isDirAt_root now)
      | inr shape =>
          obtain ⟨parent, name, rfl⟩ := shape
          rw [List.concat_eq_append] at directory shrunk ⊢
          obtain ⟨mode, found⟩ := FS.isDirAt_iff.mp directory
          refine .inr ⟨parent, name, rfl, ?_, FS.plainName_of_get found (by simp)⟩
          rw [shrunk.frame.isDirAt, FS.isDirAt_parent found]
          intro below
          have shorter := below.length_le
          simp only [List.length_append, List.length_singleton] at shorter
          omega

theorem frame_mergeLayer (apart : Apart target layer) (makeable : Makeable fs target)
    (layerDir : fs.isDirAt layer = true) (confined : MarkersConfined fs layer target) :
    Frame (target <+: ·) fs (mergeLayer fs layer target) ∧
      (mergeLayer fs layer target).isDirAt target = true := by
  have shrunk := shrunk_applyWhiteoutsInTree confined apart layerDir
  have free := apart.not_prefix_append []
  rw [List.append_nil] at free
  obtain ⟨frame, directory⟩ := frame_hardlinkCloneTree apart (makeable.of_shrunk shrunk)
    (by rw [shrunk.frame.isDirAt free, layerDir])
  exact ⟨shrunk.frame.trans frame, directory⟩

theorem straight_of_frame {now : FS} (apart : Apart target layer)
    (frame : Frame (target <+: ·) fs now) (straight : fs.Straight layer) : now.Straight layer where
  notLink := by
    intro above below
    rw [frame.isSymlinkAt fun inside => apart.1 (inside.trans below)]
    exact straight.notLink above below
  plain := straight.plain

theorem frame_mergeLayers (dids : List Name) : ∀ fs : FS, fs.isDirAt target = true →
      (∀ did ∈ dids, fs.Straight (layerTree layersDir did)) →
      (∀ did ∈ dids, Apart target (layerTree layersDir did)) →
      ConfinedRun layersDir target fs dids →
      Frame (target <+: ·) fs (mergeLayers layersDir target fs dids).1 := by
  induction dids with
  | nil => exact fun fs directory _ _ _ => (shrunk_stripWhiteoutMarkers directory).1.frame
  | cons did dids ih =>
      intro fs directory layers apart confined
      rw [mergeLayers]
      split
      · rename_i extracted
        rw [(layers did (by simp)).isdir_self] at extracted
        obtain ⟨here, rest⟩ := confined (by rw [(layers did (by simp)).isdir_self, extracted])
        obtain ⟨frame, directory⟩ :=
          frame_mergeLayer (apart did (by simp)) (.inl directory) extracted here
        refine frame.trans (ih _ directory ?_ (fun other member => apart other (by simp [member])) rest)
        exact fun other member => straight_of_frame (apart other (by simp [member])) frame
          (layers other (by simp [member]))
      · exact .refl _ _

theorem makedirs_makeable (makeable : Makeable fs target) (notLink : fs.isSymlinkAt target = false) :
    Frame (target <+: ·) fs (fs.makedirs target).1 ∧
      ((fs.makedirs target).2 = true → (fs.makedirs target).1.isDirAt target = true) := by
  cases makeable with
  | inl directory =>
      rw [FS.makedirs_of_isDirAt directory]
      exact ⟨.refl _ _, fun _ => directory⟩
  | inr name =>
      obtain ⟨parent, name, rfl, parentDir, plain⟩ := name
      cases found : fs.get (parent ++ [name]) with
      | none =>
          rw [FS.makedirs_child parentDir plain found]
          refine ⟨(fs.frame_add _ _ _).mono fun _ same => same ▸ List.prefix_refl _, fun _ => ?_⟩
          exact FS.isDirAt_iff.mpr
            ⟨_, (FS.get_add parentDir found plain (by trivial) _).trans (if_pos rfl)⟩
      | some entry =>
          -- the name is taken: nothing is made, and the call succeeds on a directory only
          have taken : fs.mkdir (parent ++ [name]) = none := by
            simp [FS.mkdir, FS.namei_child parentDir plain, FS.create, found]
          have result : fs.makedirs (parent ++ [name]) = (fs, fs.isdir (parent ++ [name])) := by
            simp [FS.makedirs, FS.makedirsRev, FS.pathExists_of_isDirAt parentDir, taken]
          rw [result]
          refine ⟨.refl _ _, fun directory => ?_⟩
          rwa [(FS.straight_of_isDirAt parentDir).isdir plain notLink] at directory

theorem markersConfined_of_table
    (rows : ∀ row ∈ fs.table, layer <+: row.1 → ∀ name ∈ row.1.getLast?, isMarker name = true →
      row.2.isDir = false →
        MarkerConfined target fs (target ++ (row.1.drop layer.length).dropLast) name) :
    MarkersConfined fs layer target := by
  intro rel name marker present leaf
  obtain ⟨entry, found⟩ := Option.ne_none_iff_exists'.mp present
  have row := FS.mem_table_of_get found
  rw [FS.isDirAt_of_get found] at leaf
  have here := rows _ row (List.prefix_append _ _) name (by simp [← List.append_assoc]) marker leaf
  simpa using here

/-- Markers that go through an absolute link and that spell `..`, but stay in
the target. -/
def windingStack : FS :=
  .populate [.dir (pathOf "run/target"), .file (pathOf "run/keep") [9],
    .dir (pathOf "store/base/tree/usr"), .file (pathOf "store/base/tree/usr/x") [1],
    .symlink (pathOf "store/base/tree/l") ⟨true, pathOf "run/target/usr"⟩,
    .dir (pathOf "store/top/tree/l"), .file (pathOf "store/top/tree/l/.wh.x") [],
    .dir (pathOf "store/top/tree/usr"), .file (pathOf "store/top/tree/usr/.wh...") []]

def climbingStack : FS :=
  .populate [.dir (pathOf "run/target"), .file (pathOf "run/keep") [9],
    .dir (pathOf "store/top/tree"), .file (pathOf "store/top/tree/.wh...") []]

end

end PDocker.Layers
