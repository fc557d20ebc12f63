import PDocker.Layers.Merge

/-!
# Applying the markers of a layer

Where no link of the target lies on the way, every removal helper prunes
exactly the path it is given, so a walk over the layer prunes exactly the
paths that the layer's markers hide.
-/

set_option autoImplicit false

namespace PDocker.Layers

open Posix Overlay

section
variable {fs : FS} {dir : Path} {name : Name}

private theorem pruned_of_absent (missing : fs.get (dir ++ [name]) = none) :
    Pruned (dir ++ [name] <+: ·) fs fs :=
  .of_absent fun _ below => FS.get_eq_none_below missing below

private theorem pruned_unlink {entry : Entry} (plain : PlainName name)
    (found : fs.get (dir ++ [name]) = some entry) (leaf : entry.isDir = false) :
    Pruned (dir ++ [name] <+: ·) fs ((fs.unlink (dir ++ [name])).getD fs) := by
  rw [FS.unlink_child (FS.isDirAt_parent found) plain found leaf]
  exact FS.pruned_remove (by simp)

theorem pruned_clobber (straight : fs.Straight dir) (plain : PlainName name) :
    Pruned (dir ++ [name] <+: ·) fs (clobber fs (dir ++ [name])) := by
  unfold clobber
  rw [straight.islink plain]
  cases found : fs.get (dir ++ [name]) with
  | none =>
      have lookup := (straight.lstat plain).trans found
      rw [FS.unlink_of_lstat_none lookup, Option.getD_none]
      have notLink := FS.isSymlinkAt_of_get_none found
      have notDir := FS.isDirAt_eq_false_of_get_none found
      simpa [notLink, straight.isdir plain notLink, notDir] using pruned_of_absent found
  | some entry =>
      cases entry with
      | dir mode =>
          have directory : fs.isDirAt (dir ++ [name]) = true := FS.isDirAt_iff.mpr ⟨mode, found⟩
          have notLink : fs.isSymlinkAt (dir ++ [name]) = false := FS.isSymlinkAt_of_get found
          simpa [notLink, straight.isdir plain notLink, directory] using
            FS.pruned_rmtree_child plain directory
      | file ino =>
          have notLink : fs.isSymlinkAt (dir ++ [name]) = false := FS.isSymlinkAt_of_get found
          have notDir : fs.isDirAt (dir ++ [name]) = false := FS.isDirAt_of_get found
          simpa [notLink, straight.isdir plain notLink, notDir] using pruned_unlink plain found rfl
      | symlink target =>
          have isLink : fs.isSymlinkAt (dir ++ [name]) = true := FS.isSymlinkAt_of_get found
          simpa [isLink] using pruned_unlink plain found rfl

theorem pruned_removeVictim (straight : fs.Straight dir) (plain : PlainName name) :
    Pruned (dir ++ [name] <+: ·) fs (removeVictim fs (dir ++ [name])) := by
  unfold removeVictim
  rw [straight.islink plain]
  cases found : fs.get (dir ++ [name]) with
  | none =>
      have notLink := FS.isSymlinkAt_of_get_none found
      have notDir := FS.isDirAt_eq_false_of_get_none found
      have notFile : fs.isfile (dir ++ [name]) = false := by
        rw [Bool.eq_false_iff]
        intro isFile
        obtain ⟨ino, impossible⟩ := (straight.isfile_iff plain notLink).mp isFile
        rw [found] at impossible
        cases impossible
      simpa [notLink, notFile, straight.isdir plain notLink, notDir] using pruned_of_absent found
  | some entry =>
      cases entry with
      | dir mode =>
          have directory : fs.isDirAt (dir ++ [name]) = true := FS.isDirAt_iff.mpr ⟨mode, found⟩
          have notLink : fs.isSymlinkAt (dir ++ [name]) = false := FS.isSymlinkAt_of_get found
          simpa [notLink, straight.isdir plain notLink, directory] using
            FS.pruned_rmtree_child plain directory
      | file ino =>
          have notLink : fs.isSymlinkAt (dir ++ [name]) = false := FS.isSymlinkAt_of_get found
          have notDir : fs.isDirAt (dir ++ [name]) = false := FS.isDirAt_of_get found
          have isFile := (straight.isfile_iff plain notLink).mpr ⟨ino, found⟩
          simpa [notLink, isFile, straight.isdir plain notLink, notDir] using
            pruned_unlink plain found rfl
      | symlink target =>
          have isLink : fs.isSymlinkAt (dir ++ [name]) = true := FS.isSymlinkAt_of_get found
          simpa [isLink] using pruned_unlink plain found rfl

end

theorem straight_of_pruned {lost : Path → Prop} {before after : FS} {dir : Path}
    (pruned : Pruned lost before after) (straight : before.Straight dir) : after.Straight dir :=
  ⟨fun above below => pruned.isSymlinkAt_eq_false (straight.notLink above below), straight.plain⟩

theorem pruned_foldl {dir : Path} (act : FS → Name → FS) (lost : Name → Path → Prop) (names : List Name)
    (one : ∀ now, now.Straight dir → ∀ name ∈ names, Pruned (lost name) now (act now name)) :
    ∀ fs : FS, fs.Straight dir →
      Pruned (fun path => ∃ name ∈ names, lost name path) fs (names.foldl act fs) := by
  induction names with
  | nil => exact fun fs _ => .of_absent (by simp)
  | cons name names ih =>
      intro fs straight
      have first := one fs straight name (by simp)
      have rest := ih (fun now straight other member => one now straight other (by simp [member]))
        (act fs name) (straight_of_pruned first straight)
      exact (first.trans rest).congr (by simp)

theorem pruned_clearOpaque {fs : FS} {dir : Path} (straight : fs.Straight dir) :
    Pruned (Below dir) fs (clearOpaque fs dir) := by
  unfold clearOpaque
  rw [straight.isdir_self]
  cases directory : fs.isDirAt dir with
  | false =>
      refine .of_absent fun path below => ?_
      obtain ⟨⟨rest, rfl⟩, proper⟩ := below
      exact FS.get_append_of_not_dir directory (by rintro rfl; simp at proper)
  | true =>
      have pruned := pruned_foldl (fun now entry => clobber now (dir ++ [entry]))
        (fun entry path => dir ++ [entry] <+: path) (fs.names dir)
        (fun now straight entry member =>
          pruned_clobber straight (FS.plainName_of_mem_names member)) fs straight
      simp only [FS.listdir_of_isDirAt directory, Option.getD_some, if_true]
      refine ⟨fun path below => ?_, fun path free => pruned.kept path ?_, pruned.inodes⟩
      · obtain ⟨⟨rest, rfl⟩, proper⟩ := below
        cases rest with
        | nil => simp at proper
        | cons entry rest =>
            by_cases member : entry ∈ fs.names dir
            · exact pruned.gone _ ⟨entry, member, ⟨rest, by simp⟩⟩
            have missing : fs.get (dir ++ [entry]) = none := by
              by_contra present
              exact member (FS.mem_names.mpr present)
            have absent : fs.get (dir ++ entry :: rest) = none :=
              FS.get_eq_none_below missing ⟨rest, by simp⟩
            rcases pruned.get_eq_or_none (dir ++ entry :: rest) with removed | same
            · exact removed
            · rw [same, absent]
      · rintro ⟨entry, _, rest, rfl⟩
        exact free ⟨⟨entry :: rest, by simp⟩, by simp⟩

/-- The tree under `top` as a reader sees it. -/
def view (fs : FS) (top : Path) : View Obs := fun path => fs.obs (top ++ path)

/-- An extracted layer whose markers are regular files naming ordinary entries. -/
structure WellMarked (fs : FS) (layer : Path) : Prop where
  directory : fs.isDirAt layer = true
  isFile : ∀ {rel : Path} {name : Name} {entry : Entry}, isMarker name = true →
    fs.get (layer ++ (rel ++ [name])) = some entry → ∃ ino, entry = .file ino
  ordinary : ∀ {rel : Path} {name : Name} {entry : Entry}, isWhiteoutFile name = true →
    fs.get (layer ++ (rel ++ [name])) = some entry → PlainName (name.drop whiteoutPrefix.length)

/-- What the markers of the directory `rel` hide below `top`. -/
def HidesAt (upper : View Obs) (top rel path : Path) : Prop :=
  ∃ name rest, path = top ++ (rel ++ name :: rest) ∧
    (whiteoutAt upper rel name = true ∨ opaqueAt upper rel = true)

section
variable {fs : FS} {layer target rel : Path}

theorem isSome_view {path : Path} :
    (view fs layer path).isSome = true ↔ fs.get (layer ++ path) ≠ none := by
  simp [view, FS.obs, Option.isSome_iff_ne_none]

theorem mem_scanFiles_marker {name : Name} (marked : WellMarked fs layer)
    (directory : fs.isDirAt (layer ++ rel) = true) (marker : isMarker name = true) :
    name ∈ fs.scanFiles (layer ++ rel) ↔ (view fs layer (rel ++ [name])).isSome = true := by
  rw [FS.scanFiles_of_isDirAt directory, List.mem_filter, FS.mem_names, isSome_view, List.append_assoc]
  refine ⟨fun member => member.1, fun present => ⟨present, ?_⟩⟩
  obtain ⟨entry, found⟩ := Option.ne_none_iff_exists'.mp present
  obtain ⟨ino, rfl⟩ := marked.isFile marker found
  rw [← List.append_assoc] at found
  have plain : PlainName name := FS.plainName_of_get found (by simp)
  rw [← List.append_assoc, (FS.straight_of_isDirAt directory).isdir plain
    (FS.isSymlinkAt_of_get found), FS.isDirAt_of_get found]
  rfl

theorem mem_scanFiles_names {name : Name} (directory : fs.isDirAt (layer ++ rel) = true)
    (member : name ∈ fs.scanFiles (layer ++ rel)) : fs.get (layer ++ (rel ++ [name])) ≠ none := by
  rw [FS.scanFiles_of_isDirAt directory, List.mem_filter, FS.mem_names] at member
  simpa using member.1

private theorem pruned_applyWhiteout {now : FS} {dir : Path} {name : Name} (straight : now.Straight dir)
    (ordinary : isWhiteoutFile name = true → PlainName (name.drop whiteoutPrefix.length)) :
    Pruned (fun path => isWhiteoutFile name = true ∧
      dir ++ [name.drop whiteoutPrefix.length] <+: path) now (applyWhiteout dir now name) := by
  unfold applyWhiteout
  cases whiteout : isWhiteoutFile name with
  | false => exact .of_absent (by simp)
  | true => exact (pruned_removeVictim straight (ordinary whiteout)).congr (by simp)

theorem pruned_whiteoutVisit {dirs : List Name} (marked : WellMarked fs layer)
    (directory : fs.isDirAt (layer ++ rel) = true)
    (straight : (∃ name, isMarker name = true ∧ (view fs layer (rel ++ [name])).isSome = true) →
      fs.Straight (target ++ rel)) :
    Pruned (HidesAt (view fs layer) target rel) fs
      (whiteoutVisit target fs rel dirs (fs.scanFiles (layer ++ rel))) := by
  by_cases any : ∃ name, isMarker name = true ∧ (view fs layer (rel ++ [name])).isSome = true
  · have here := straight any
    have memOpaque : opaqueMarker ∈ fs.scanFiles (layer ++ rel) ↔
        opaqueAt (view fs layer) rel = true := mem_scanFiles_marker marked directory rfl
    have cleared : Pruned (fun path => opaqueAt (view fs layer) rel = true ∧
        Below (target ++ rel) path) fs
        (if opaqueMarker ∈ fs.scanFiles (layer ++ rel) then clearOpaque fs (target ++ rel)
          else fs) := by
      by_cases isOpaque : opaqueAt (view fs layer) rel = true
      · rw [if_pos (memOpaque.mpr isOpaque)]
        exact (pruned_clearOpaque here).congr (by simp [isOpaque])
      · rw [if_neg fun member => isOpaque (memOpaque.mp member)]
        exact .of_absent (by simp [isOpaque])
    have removed := pruned_foldl (applyWhiteout (target ++ rel))
      (fun name path => isWhiteoutFile name = true ∧
        target ++ rel ++ [name.drop whiteoutPrefix.length] <+: path)
      (fs.scanFiles (layer ++ rel))
      (by
        intro now straightNow name member
        refine pruned_applyWhiteout straightNow fun whiteout => ?_
        obtain ⟨entry, found⟩ :=
          Option.ne_none_iff_exists'.mp (mem_scanFiles_names directory member)
        exact marked.ordinary whiteout found) _ (straight_of_pruned cleared here)
    refine (cleared.trans removed).congr fun path => ?_
    constructor
    · rintro (⟨isOpaque, ⟨rest, rfl⟩, proper⟩ | ⟨name, member, whiteout, rest, rfl⟩)
      · cases rest with
        | nil => simp at proper
        | cons name rest => exact ⟨name, rest, by simp, .inr isOpaque⟩
      have marker : isMarker name = true := by
        simp only [isWhiteoutFile, Bool.and_eq_true] at whiteout
        exact whiteout.1
      refine ⟨name.drop whiteoutPrefix.length, rest, by simp, .inl ?_⟩
      rw [whiteoutAt, ← eq_whiteout_of_isMarker marker]
      exact (mem_scanFiles_marker marked directory marker).mp member
    · rintro ⟨name, rest, rfl, whiteout | isOpaque⟩
      · by_cases isOpaque : whiteoutPrefix ++ name = opaqueMarker
        · rw [whiteoutAt, isOpaque] at whiteout
          exact .inl ⟨whiteout, ⟨name :: rest, by simp⟩, by simp⟩
        · have member := (mem_scanFiles_marker marked directory (isMarker_append name)).mpr whiteout
          refine .inr ⟨whiteoutPrefix ++ name, member, ?_, ⟨rest, by simp⟩⟩
          simp [isWhiteoutFile, isMarker_append, isOpaque]
      · exact .inl ⟨isOpaque, ⟨name :: rest, by simp⟩, by simp⟩
  · -- no marker file is listed, so neither branch of the visit is taken
    have unlisted : ∀ name ∈ fs.scanFiles (layer ++ rel), isMarker name = false := by
      intro name member
      rw [Bool.eq_false_iff]
      exact fun marker => any ⟨name, marker, (mem_scanFiles_marker marked directory marker).mp member⟩
    have noOpaque : opaqueMarker ∉ fs.scanFiles (layer ++ rel) :=
      fun member => absurd (unlisted _ member) (by decide)
    have unchanged : whiteoutVisit target fs rel dirs (fs.scanFiles (layer ++ rel)) = fs := by
      unfold whiteoutVisit
      rw [if_neg noOpaque]
      refine List.foldlRecOn _ _ (motive := fun now => now = fs) rfl fun now same name member => ?_
      rw [same]
      simp [applyWhiteout, isWhiteoutFile, unlisted name member]
    rw [unchanged]
    refine .of_absent ?_
    rintro path ⟨name, rest, rfl, whiteout | isOpaque⟩
    · exact absurd ⟨_, isMarker_append name, whiteout⟩ any
    · exact absurd ⟨opaqueMarker, rfl, isOpaque⟩ any

end

/-- No marker of `upper` sits below a link of `lower`, except a link that the
markers above it hide. -/
def MarkersClear (upper lower : View Obs) : Prop :=
  ∀ (rel : Path) (name : Name), isMarker name = true → (upper (rel ++ [name])).isSome = true →
    ∀ above, above <+: rel → hidden upper above = true ∨ (lower above).any Obs.isSymlink = false

section
variable {fs now : FS} {layer target : Path}

theorem view_eq_of_frame (apart : Apart target layer) (frame : Frame (target <+: ·) fs now) :
    view now layer = view fs layer :=
  funext fun path => frame.obs (apart.not_prefix_append path)

theorem wellMarked_of_frame (apart : Apart target layer) (frame : Frame (target <+: ·) fs now)
    (marked : WellMarked fs layer) : WellMarked now layer where
  directory := by
    have free := apart.not_prefix_append []
    rw [List.append_nil] at free
    rw [frame.isDirAt free, marked.directory]
  isFile := by
    intro rel name entry marker found
    rw [frame.get _ (apart.not_prefix_append _)] at found
    exact marked.isFile marker found
  ordinary := by
    intro rel name entry marker found
    rw [frame.get _ (apart.not_prefix_append _)] at found
    exact marked.ordinary marker found

private def HiddenSoFar (upper : View Obs) (target : Path) (visited : List Path) (path : Path) :
    Prop :=
  ∃ rel ∈ visited, HidesAt upper target rel path

private theorem prefix_of_hiddenSoFar {upper : View Obs} {visited : List Path} {path : Path}
    (lost : HiddenSoFar upper target visited path) : target <+: path := by
  obtain ⟨rel, _, name, rest, rfl, _⟩ := lost
  exact List.prefix_append _ _

private theorem straight_of_hiddenSoFar {visited : List Path} {rel : Path} {name : Name}
    (targetDir : fs.isDirAt target = true)
    (clear : MarkersClear (view fs layer) (view fs target))
    (pruned : Pruned (HiddenSoFar (view fs layer) target visited) fs now)
    (above : ∀ other, Below other rel → other ∈ visited)
    (layerDir : fs.isDirAt (layer ++ rel) = true) (marker : isMarker name = true)
    (present : (view fs layer (rel ++ [name])).isSome = true) : now.Straight (target ++ rel) where
  notLink := by
    intro path below
    rcases List.prefix_or_prefix_of_prefix below (List.prefix_append target rel) with outer | inner
    · exact pruned.isSymlinkAt_eq_false ((FS.straight_of_isDirAt targetDir).notLink path outer)
    obtain ⟨sub, rfl⟩ := inner
    have under : sub <+: rel := (List.prefix_append_right_inj target).mp below
    rcases clear rel name marker present sub under with hiddenHere | notLink
    · obtain ⟨between, last, rest, rfl, markers⟩ := hidden_iff.mp hiddenHere
      have visitedBefore : between ∈ visited := above between
        ⟨(List.prefix_append _ _).trans under, by
          rintro rfl
          have shorter := under.length_le
          simp only [List.length_append, List.length_cons] at shorter
          omega⟩
      exact FS.isSymlinkAt_of_get_none
        (pruned.gone _ ⟨between, visitedBefore, last, rest, rfl, markers⟩)
    · refine pruned.isSymlinkAt_eq_false ?_
      rw [FS.isSymlinkAt_eq_any_obs]
      exact notLink
  plain := by
    intro other member
    rcases List.mem_append.mp member with outer | inner
    · exact (FS.straight_of_isDirAt targetDir).plain other outer
    · exact (FS.straight_of_isDirAt layerDir).plain other (List.mem_append_right _ inner)

theorem pruned_applyWhiteoutsInTree (marked : WellMarked fs layer)
    (apart : Apart target layer) (targetDir : fs.isDirAt target = true)
    (clear : MarkersClear (view fs layer) (view fs target)) :
    Pruned (fun path => ∃ rel, path = target ++ rel ∧ hidden (view fs layer) rel = true) fs
      (applyWhiteoutsInTree fs layer target) := by
  have rule : WalkInvariant id layer (whiteoutVisit target) (fun rel => fs.isDirAt (layer ++ rel))
      (fun visited now => Pruned (HiddenSoFar (view fs layer) target visited) fs now) := by
    refine ⟨fun {visited now} pruned rel => ?_, fun {visited now rel} pruned here above _ => ?_⟩
    · exact (pruned.frame.mono fun _ => prefix_of_hiddenSoFar).isDirAt (apart.not_prefix_append rel)
    have frame := pruned.frame.mono fun _ => prefix_of_hiddenSoFar
    have sameView := view_eq_of_frame apart frame
    have visit := @pruned_whiteoutVisit now layer target rel
      (now.scanDirs (layer ++ rel)) (wellMarked_of_frame apart frame marked)
      (by rw [frame.isDirAt (apart.not_prefix_append rel)]; exact here)
      (by
        rintro ⟨name, marker, present⟩
        rw [sameView] at present
        exact straight_of_hiddenSoFar targetDir clear pruned above here marker present)
    rw [sameView] at visit
    refine (pruned.trans visit).congr fun path => ?_
    simp [HiddenSoFar, or_and_right, exists_or]
  obtain ⟨visited, pruned, members⟩ := osWalk_rule rule (fs.height + 1) fs
    (fun _ => FS.length_lt_of_isDirAt_append) (.of_absent (by simp [HiddenSoFar])) (by simpa using marked.directory)
  refine pruned.congr fun path => ?_
  constructor
  · rintro ⟨rel, _, name, rest, rfl, markers⟩
    exact ⟨rel ++ name :: rest, rfl, hidden_iff.mpr ⟨rel, name, rest, rfl, markers⟩⟩
  rintro ⟨sub, rfl, hiddenHere⟩
  obtain ⟨above, name, rest, rfl, markers⟩ := hidden_iff.mp hiddenHere
  have directory : fs.isDirAt (layer ++ above) = true := by
    rcases markers with whiteout | isOpaque
    · obtain ⟨entry, found⟩ := Option.ne_none_iff_exists'.mp (isSome_view.mp whiteout)
      rw [← List.append_assoc] at found
      exact FS.isDirAt_parent found
    · obtain ⟨entry, found⟩ := Option.ne_none_iff_exists'.mp (isSome_view.mp isOpaque)
      rw [← List.append_assoc] at found
      exact FS.isDirAt_parent found
  exact ⟨above, (members above).mpr directory, name, rest, rfl, markers⟩

end

end PDocker.Layers
