import PDocker.Layers.Clone

/-!
# The merge is the overlay fold

Layer by layer the target reads as the overlay of the layers merged so far,
apart from marker files, and the final pass takes those away. This needs that
no marker is applied through a link of what is merged so far; a layer that
does so deletes an entry that the overlay keeps.
-/

set_option autoImplicit false

namespace PDocker.Layers

open Posix Overlay

/-- Every marker name under `top` is a regular file. -/
def MarkerFiles (fs : FS) (top : Path) : Prop :=
  ∀ ⦃rel : Path⦄ ⦃name : Name⦄ ⦃entry : Obs⦄, isMarker name = true →
    view fs top (rel ++ [name]) = some entry → ∃ mode content, entry = .file mode content

section
variable {fs : FS} {layer target : Path}

theorem WellMarked.markerFiles (marked : WellMarked fs layer) : MarkerFiles fs layer := by
  intro rel name entry marker found
  obtain ⟨raw, foundRaw, rfl⟩ := Option.map_eq_some_iff.mp found
  obtain ⟨ino, rfl⟩ := marked.isFile marker foundRaw
  exact ⟨_, _, rfl⟩

theorem MarkerFiles.hasMarker_of_isDirAt {top rel : Path} (files : MarkerFiles fs top)
    (directory : fs.isDirAt (top ++ rel) = true) : hasMarker rel = false := by
  rw [Bool.eq_false_iff]
  intro marked
  obtain ⟨name, member, marker⟩ := List.any_eq_true.mp marked
  obtain ⟨above, rest, rfl⟩ := List.append_of_mem member
  have split : top ++ (above ++ name :: rest) = top ++ (above ++ [name]) ++ rest := by simp
  rw [split] at directory
  obtain ⟨mode, found⟩ := FS.isDirAt_iff.mp (FS.isDirAt_above directory (List.prefix_append _ _))
  have foundView : view fs top (above ++ [name]) = some (.dir mode) := by
    rw [view, FS.obs, found]
    rfl
  obtain ⟨mode, content, impossible⟩ := files marker foundView
  cases impossible

theorem view_mergeLayer (marked : WellMarked fs layer) (apart : Apart target layer)
    (targetDir : fs.isDirAt target = true)
    (clear : MarkersClear (view fs layer) (view fs target)) :
    Frame (target <+: ·) fs (mergeLayer fs layer target) ∧
      (mergeLayer fs layer target).isDirAt target = true ∧
      ∀ path, view (mergeLayer fs layer target) target path =
        match view fs layer path with
        | some entry => some entry
        | none =>
            if hidden (view fs layer) path || shadowed Obs.isDir (view fs layer) path then none
            else view fs target path := by
  have pruned := pruned_applyWhiteoutsInTree marked apart targetDir clear
  unfold mergeLayer
  generalize applyWhiteoutsInTree fs layer target = cleared at pruned
  have frame : Frame (target <+: ·) fs cleared :=
    pruned.frame.mono (by rintro _ ⟨rel, rfl, _⟩; exact List.prefix_append _ _)
  have clearedDir : cleared.isDirAt target = true := by
    rw [pruned.frame.isDirAt, targetDir]
    rintro ⟨rel, shape, hiddenHere⟩
    have root : rel = [] := by simpa using shape.symm
    rw [root] at hiddenHere
    cases hiddenHere
  have layerDir : cleared.isDirAt layer = true := (wellMarked_of_frame apart frame marked).directory
  obtain ⟨touched, reads⟩ := view_hardlinkCloneTree apart clearedDir layerDir
  rw [view_eq_of_frame apart frame] at reads
  refine ⟨frame.trans touched, ?_, fun path => ?_⟩
  · have root := reads []
    rw [FS.isDirAt_eq_any_obs]
    have layerRoot : (view fs layer []).any Obs.isDir = true := by
      rw [view, List.append_nil, ← FS.isDirAt_eq_any_obs, marked.directory]
    rw [view, List.append_nil] at root
    rw [root]
    cases found : view fs layer [] with
    | none =>
        rw [found] at layerRoot
        cases layerRoot
    | some entry => rwa [found] at layerRoot
  · rw [reads]
    cases view fs layer path with
    | some entry => rfl
    | none =>
        dsimp only
        cases shadow : shadowed Obs.isDir (view fs layer) path with
        | true => simp
        | false =>
            cases hiddenHere : hidden (view fs layer) path with
            | true =>
                have gone := pruned.obs_gone ⟨path, rfl, hiddenHere⟩
                simpa [view] using gone
            | false =>
                have kept : cleared.obs (target ++ path) = fs.obs (target ++ path) := by
                  refine pruned.obs_kept ?_
                  rintro ⟨rel, shape, hiddenRel⟩
                  rw [List.append_cancel_left shape, hiddenRel] at hiddenHere
                  cases hiddenHere
                simpa [view] using kept

theorem overlay_of_plain {upper lower : View Obs} {path : Path} (plain : hasMarker path = false) :
    overlay Obs.isDir upper lower path =
      match upper path with
      | some entry => some entry
      | none => if hidden upper path || shadowed Obs.isDir upper path then none else lower path := by
  rw [overlay, if_neg (by rw [plain]; exact Bool.false_ne_true)]
  cases upper path <;> rfl

theorem markerFiles_mergeLayer (marked : WellMarked fs layer) (apart : Apart target layer)
    (targetDir : fs.isDirAt target = true) (files : MarkerFiles fs target)
    (clear : MarkersClear (view fs layer) (view fs target)) :
    MarkerFiles (mergeLayer fs layer target) target := by
  intro rel name entry marker found
  rw [(view_mergeLayer marked apart targetDir clear).2.2] at found
  cases upper : view fs layer (rel ++ [name]) with
  | some raw =>
      rw [upper] at found
      cases found
      exact marked.markerFiles marker upper
  | none =>
      rw [upper] at found
      dsimp only at found
      split at found
      · cases found
      · exact files marker found

private theorem pruned_strip {dir : Path} (names : List Name) : ∀ fs : FS, fs.isDirAt dir = true →
      (∀ name ∈ names, PlainName name) →
      (∀ name ∈ names, isMarker name = true → fs.isDirAt (dir ++ [name]) = false) →
      Pruned (fun path => ∃ name ∈ names, isMarker name = true ∧ dir ++ [name] <+: path) fs
        (names.foldl (fun now name =>
          if isMarker name then (now.unlink (dir ++ [name])).getD now else now) fs) := by
  induction names with
  | nil => exact fun fs _ _ _ => .of_absent (by simp)
  | cons name names ih =>
      intro fs directory plain leaf
      have first : Pruned (fun path => isMarker name = true ∧ dir ++ [name] <+: path) fs
          (if isMarker name then (fs.unlink (dir ++ [name])).getD fs else fs) := by
        cases marker : isMarker name with
        | false => exact .of_absent (by simp)
        | true =>
            simp only [if_true, true_and]
            cases found : fs.get (dir ++ [name]) with
            | none =>
                rw [FS.unlink_of_lstat_none
                  ((FS.lstat_child directory (plain name (by simp))).trans found), Option.getD_none]
                exact .of_absent fun path below => FS.get_eq_none_below found below
            | some entry =>
                have notDir := leaf name (by simp) marker
                rw [FS.isDirAt_of_get found] at notDir
                rw [FS.unlink_child directory (plain name (by simp)) found notDir]
                exact FS.pruned_remove (by simp)
      have rest := ih _
        (by
          rw [first.frame.isDirAt, directory]
          rintro ⟨_, below⟩
          have shorter := below.length_le
          simp only [List.length_append, List.length_singleton] at shorter
          omega)
        (fun other member => plain other (by simp [member]))
        (by
          intro other member marker
          have before := leaf other (by simp [member]) marker
          rcases first.get_eq_or_none (dir ++ [other]) with gone | same
          · exact FS.isDirAt_eq_false_of_get_none gone
          · simpa [FS.isDirAt, same] using before)
      exact (first.trans rest).congr (by simp)

private def Stripped (target : Path) (visited : List Path) (path : Path) : Prop :=
  ∃ rel ∈ visited, ∃ name, isMarker name = true ∧ target ++ (rel ++ [name]) <+: path

private theorem isDirAt_of_stripped {now : FS} {visited : List Path} (files : MarkerFiles fs target)
    (pruned : Pruned (Stripped target visited) fs now) (rel : Path) :
    now.isDirAt (target ++ rel) = fs.isDirAt (target ++ rel) := by
  by_cases lost : Stripped target visited (target ++ rel)
  · rw [FS.isDirAt_eq_false_of_get_none (pruned.gone _ lost)]
    obtain ⟨seen, _, name, marker, below⟩ := lost
    cases directory : fs.isDirAt (target ++ rel) with
    | false => rfl
    | true =>
        have plain := files.hasMarker_of_isDirAt (FS.isDirAt_above directory below)
        rw [hasMarker_append, hasMarker_singleton, marker, Bool.or_true] at plain
        cases plain
  · exact pruned.frame.isDirAt lost

theorem view_stripWhiteoutMarkers (targetDir : fs.isDirAt target = true)
    (files : MarkerFiles fs target) :
    Frame (target <+: ·) fs (stripWhiteoutMarkers fs target) ∧
      ∀ path, view (stripWhiteoutMarkers fs target) target path =
        if hasMarker path then none else view fs target path := by
  have rule : WalkInvariant id target (stripVisit target) (fun rel => fs.isDirAt (target ++ rel))
      (fun visited now => Pruned (Stripped target visited) fs now) := by
    refine ⟨fun pruned rel => isDirAt_of_stripped files pruned rel,
      fun {visited now rel} pruned here _ _ => ?_⟩
    have directory : now.isDirAt (target ++ rel) = true := by
      rw [isDirAt_of_stripped files pruned, here]
    have filesNow : ∀ {name : Name}, isMarker name = true →
        now.isDirAt (target ++ rel ++ [name]) = false := by
      intro name marker
      rw [List.append_assoc, isDirAt_of_stripped files pruned, Bool.eq_false_iff]
      intro isDir
      have plain := files.hasMarker_of_isDirAt isDir
      rw [hasMarker_append, hasMarker_singleton, marker, Bool.or_true] at plain
      cases plain
    have listed : ∀ {name : Name}, name ∈ now.scanFiles (target ++ rel) →
        name ∈ now.names (target ++ rel) := by
      intro name member
      rw [FS.scanFiles_of_isDirAt directory] at member
      exact (List.mem_filter.mp member).1
    have visit := pruned_strip (now.scanFiles (target ++ rel)) now directory
      (fun name member => FS.plainName_of_mem_names (listed member))
      (fun name _ marker => filesNow marker)
    have all : Pruned (fun path => ∃ name, isMarker name = true ∧
        target ++ (rel ++ [name]) <+: path) now (stripVisit target now rel
          (now.scanDirs (target ++ rel)) (now.scanFiles (target ++ rel))) := by
      refine ⟨?_, fun path free => visit.kept path ?_, visit.inodes⟩
      · rintro path ⟨name, marker, below⟩
        rw [← List.append_assoc] at below
        by_cases member : name ∈ now.scanFiles (target ++ rel)
        · exact visit.gone path ⟨name, member, marker, below⟩
        -- an unlisted marker is absent: if it existed it would be a file
        have absent : now.get (target ++ rel ++ [name]) = none := by
          by_contra present
          obtain ⟨entry, found⟩ := Option.ne_none_iff_exists'.mp present
          have inList := (FS.mem_scanFiles_append_scanDirs directory).mpr present
          rcases List.mem_append.mp inList with inFiles | inDirs
          · exact member inFiles
          rw [FS.scanDirs_of_isDirAt directory, List.mem_filter] at inDirs
          have viewNow : view fs target (rel ++ [name]) = now.obs (target ++ rel ++ [name]) := by
            rcases pruned.get_eq_or_none (target ++ rel ++ [name]) with gone | same
            · exact absurd gone present
            · rw [view, ← List.append_assoc]
              exact (pruned.frame.obs_of_get same).symm
          obtain ⟨mode, content, isFile⟩ := files marker
            (viewNow.trans (by rw [FS.obs, found, Option.map_some]))
          have notLink : now.isSymlinkAt (target ++ rel ++ [name]) = false := by
            rw [FS.isSymlinkAt_of_get found, ← Entry.isSymlink_obs now.inodes, isFile]
            rfl
          rw [(FS.straight_of_isDirAt directory).isdir
            (FS.plainName_of_get found (by simp)) notLink, filesNow marker] at inDirs
          cases inDirs.2
        rcases visit.get_eq_or_none path with gone | same
        · exact gone
        · exact same.trans (FS.get_eq_none_below absent below)
      · rintro ⟨name, _, marker, below⟩
        exact free ⟨name, marker, by rwa [← List.append_assoc]⟩
    refine (pruned.trans all).congr fun path => ?_
    simp [Stripped, or_and_right, exists_or]
  obtain ⟨visited, pruned, members⟩ := osWalk_rule rule (fs.height + 1) fs
    (fun _ => FS.length_lt_of_isDirAt_append) (.of_absent (by simp [Stripped]))
    (by simpa using targetDir)
  change Pruned (Stripped target visited) fs (stripWhiteoutMarkers fs target) at pruned
  refine ⟨pruned.frame.mono ?_, fun path => ?_⟩
  · rintro path ⟨rel, _, name, _, below⟩
    exact (List.prefix_append _ _).trans below
  cases marked : hasMarker path with
  | false =>
      refine pruned.obs_kept ?_
      rintro ⟨rel, _, name, marker, below⟩
      obtain ⟨rest, shape⟩ := (List.prefix_append_right_inj target).mp below
      rw [← shape, hasMarker_append, hasMarker_append, hasMarker_singleton, marker] at marked
      simp at marked
  | true =>
      obtain ⟨name, member, marker⟩ := List.any_eq_true.mp marked
      obtain ⟨above, rest, rfl⟩ := List.append_of_mem member
      refine FS.obs_eq_none_iff.mpr ?_
      cases found : fs.get (target ++ above ++ [name]) with
      | none =>
          have absent : fs.get (target ++ (above ++ name :: rest)) = none :=
            FS.get_eq_none_below found ⟨rest, by simp⟩
          rcases pruned.get_eq_or_none (target ++ (above ++ name :: rest)) with gone | same
          · exact gone
          · exact same.trans absent
      | some entry =>
          exact pruned.gone _ ⟨above, (members above).mpr (FS.isDirAt_parent found), name, marker,
            ⟨rest, by simp⟩⟩

end

def layerViews (fs : FS) (layersDir : Path) (dids : List Name) : List (View Obs) :=
  dids.map fun did => view fs (layerTree layersDir did)

structure LayerStack (fs : FS) (layersDir target : Path) (dids : List Name) : Prop where
  marked : ∀ did ∈ dids, WellMarked fs (layerTree layersDir did)
  apart : ∀ did ∈ dids, Apart target (layerTree layersDir did)

/-- No layer has a marker below a link of the overlay of the layers under it. -/
def ClearStack : List (View Obs) → View Obs → Prop
  | [], _ => True
  | upper :: rest, lower =>
      MarkersClear upper lower ∧ ClearStack rest (overlay Obs.isDir upper lower)

section
variable {layersDir target : Path}

theorem markersClear_congr {fs : FS} {layer : Path} {lower other : View Obs}
    (files : MarkerFiles fs layer)
    (same : ∀ path, hasMarker path = false → other path = lower path)
    (clear : MarkersClear (view fs layer) lower) : MarkersClear (view fs layer) other := by
  intro rel name marker present above below
  obtain ⟨entry, found⟩ := Option.ne_none_iff_exists'.mp (isSome_view.mp present)
  rw [← List.append_assoc] at found
  have plain := files.hasMarker_of_isDirAt
    (FS.isDirAt_above (FS.isDirAt_parent found) ((List.prefix_append_right_inj layer).mpr below))
  rw [same above plain]
  exact clear rel name marker present above below

theorem layerViews_of_frame {fs now : FS} {dids : List Name}
    (apart : ∀ did ∈ dids, Apart target (layerTree layersDir did))
    (frame : Frame (target <+: ·) fs now) :
    layerViews now layersDir dids = layerViews fs layersDir dids :=
  List.map_congr_left fun did member => view_eq_of_frame (apart did member) frame

theorem view_mergeLayers (dids : List Name) :
    ∀ (fs : FS) (lower : View Obs), LayerStack fs layersDir target dids →
      fs.isDirAt target = true → MarkerFiles fs target →
      (∀ path, hasMarker path = false → view fs target path = lower path) →
      ClearStack (layerViews fs layersDir dids) lower →
      (mergeLayers layersDir target fs dids).2 = none ∧
        Frame (target <+: ·) fs (mergeLayers layersDir target fs dids).1 ∧
        ∀ path, view (mergeLayers layersDir target fs dids).1 target path = if hasMarker path then none
          else overlayAll Obs.isDir (layerViews fs layersDir dids) lower path := by
  induction dids with
  | nil =>
      intro fs lower _ targetDir files same _
      obtain ⟨frame, reads⟩ := view_stripWhiteoutMarkers targetDir files
      refine ⟨rfl, frame, fun path => ?_⟩
      rw [mergeLayers, reads]
      cases marked : hasMarker path with
      | true => rfl
      | false => simpa [layerViews] using same path marked
  | cons did dids ih =>
      intro fs lower stack targetDir files same clear
      have marked := stack.marked did (by simp)
      have apart := stack.apart did (by simp)
      have clearHere : MarkersClear (view fs (layerTree layersDir did)) (view fs target) :=
        markersClear_congr marked.markerFiles same clear.1
      obtain ⟨frame, dirAfter, reads⟩ := view_mergeLayer marked apart targetDir clearHere
      have filesAfter := markerFiles_mergeLayer marked apart targetDir files clearHere
      have restApart : ∀ other ∈ dids, Apart target (layerTree layersDir other) :=
        fun other member => stack.apart other (by simp [member])
      have views := layerViews_of_frame restApart frame
      have sameAfter : ∀ path, hasMarker path = false →
          view (mergeLayer fs (layerTree layersDir did) target) target path =
            overlay Obs.isDir (view fs (layerTree layersDir did)) lower path := by
        intro path plain
        rw [reads, overlay_of_plain plain, same path plain]
      rw [mergeLayers, if_pos (FS.isdir_of_isDirAt marked.directory)]
      obtain ⟨ok, touched, result⟩ := ih _ _
        ⟨fun other member => wellMarked_of_frame (restApart other member) frame
          (stack.marked other (by simp [member])), restApart⟩
        dirAfter filesAfter sameAfter (views ▸ clear.2)
      refine ⟨ok, frame.trans touched, fun path => ?_⟩
      rw [result, views]
      rfl

end

theorem wellMarked_of_table {fs : FS} {layer : Path} (directory : fs.isDirAt layer = true)
    (rows : ∀ row ∈ fs.table, ∀ name ∈ row.1.getLast?, layer <+: row.1.dropLast →
      isMarker name = true → row.2.isDir = false ∧ row.2.isSymlink = false ∧
        (isWhiteoutFile name = true → PlainName (name.drop whiteoutPrefix.length))) :
    WellMarked fs layer := by
  have check : ∀ {rel : Path} {name : Name} {entry : Entry}, isMarker name = true →
      fs.get (layer ++ (rel ++ [name])) = some entry → entry.isDir = false ∧ entry.isSymlink = false ∧
        (isWhiteoutFile name = true → PlainName (name.drop whiteoutPrefix.length)) := by
    intro rel name entry marker found
    rw [← List.append_assoc] at found
    have row := FS.mem_table_of_get found
    exact rows _ row name (by simp) (by simp) marker
  refine ⟨directory, fun {rel name entry} marker found => ?_, fun {rel name entry} whiteout found => ?_⟩
  · obtain ⟨notDir, notLink, _⟩ := check marker found
    cases entry with
    | dir => cases notDir
    | file ino => exact ⟨ino, rfl⟩
    | symlink => cases notLink
  · have marker : isMarker name = true := by
      simp only [isWhiteoutFile, Bool.and_eq_true] at whiteout
      exact whiteout.1
    exact (check marker found).2.2 whiteout

theorem markersClear_of_table {fs : FS} {layer : Path} {lower : View Obs}
    (rows : ∀ row ∈ fs.table, layer <+: row.1 → row.1.getLast?.any isMarker = true →
      ∀ above ∈ (row.1.drop layer.length).dropLast.inits,
        hidden (view fs layer) above = true ∨ (lower above).any Obs.isSymlink = false) :
    MarkersClear (view fs layer) lower := by
  intro rel name marker present above below
  obtain ⟨entry, found⟩ := Option.ne_none_iff_exists'.mp (isSome_view.mp present)
  have row := FS.mem_table_of_get found
  refine rows _ row (List.prefix_append _ _) ?_ above ?_
  · rw [← List.append_assoc]
    simpa using marker
  · simpa using below

theorem view_of_empty {fs : FS} {target : Path} (empty : fs.names target = []) {path : Path}
    (nonempty : path ≠ []) : view fs target path = none := by
  cases path with
  | nil => exact absurd rfl nonempty
  | cons name rest =>
      have missing : fs.get (target ++ [name]) = none := by
        by_contra present
        simpa [empty] using FS.mem_names.mpr present
      exact FS.obs_eq_none_iff.mpr (FS.get_eq_none_below missing ⟨rest, by simp⟩)

def plainStack : FS :=
  .populate [.dir (pathOf "target"),
    .dir (pathOf "store/base/tree/usr"), .file (pathOf "store/base/tree/usr/old") [1],
    .file (pathOf "store/base/tree/etc") [2], .dir (pathOf "store/base/tree/var"),
    .file (pathOf "store/base/tree/var/log") [3],
    .symlink (pathOf "store/base/tree/bin") ⟨false, pathOf "usr/bin"⟩,
    .dir (pathOf "store/top/tree/usr"), .file (pathOf "store/top/tree/usr/.wh.old") [],
    .dir (pathOf "store/top/tree/etc"), .file (pathOf "store/top/tree/etc/.wh.gone") [],
    .dir (pathOf "store/top/tree/var"), .file (pathOf "store/top/tree/var/.wh..wh..opq") []]

def linkedStack : FS :=
  .populate [.dir (pathOf "target"),
    .dir (pathOf "store/base/tree/b"), .file (pathOf "store/base/tree/b/x") [1],
    .symlink (pathOf "store/base/tree/l") ⟨false, pathOf "b"⟩,
    .dir (pathOf "store/top/tree/l"), .file (pathOf "store/top/tree/l/.wh.x") []]

end PDocker.Layers
