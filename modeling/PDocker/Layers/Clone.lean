import PDocker.Layers.Whiteouts

/-!
# Linking a layer onto the target

Each name of a layer directory replaces what has the name in the target, a
directory keeps the directory it meets, and nothing but that name is touched.
-/

set_option autoImplicit false

namespace PDocker.Layers

open Posix Overlay

section
variable {fs : FS} {dir : Path} {name : Name}

theorem ensureDirectory_of_isDirAt (directory : fs.isDirAt dir = true) :
    ensureDirectory fs dir = fs := by
  simp [ensureDirectory, FS.islink_of_isDirAt directory, FS.isdir_of_isDirAt directory]

private theorem pruned_cleared (parent : fs.isDirAt dir = true) (plain : PlainName name) :
    Pruned (dir ++ [name] <+: ·) fs
      (if fs.lexists (dir ++ [name]) then clobber fs (dir ++ [name]) else fs) := by
  split
  · exact pruned_clobber (FS.straight_of_isDirAt parent) plain
  rename_i missing
  refine .of_absent fun path below => ?_
  rw [FS.lexists, FS.lstat_child parent plain, Option.isSome_iff_ne_none, not_not] at missing
  exact FS.get_eq_none_below missing below

variable {after : FS} {entry : Entry} {ino : Nat} {member : Name}

private theorem parent_of_pruned (parent : fs.isDirAt dir = true)
    (pruned : Pruned (dir ++ [name] <+: ·) fs after) : after.isDirAt dir = true := by
  rw [pruned.frame.isDirAt, parent]
  intro below
  have shorter := below.length_le
  simp only [List.length_append, List.length_singleton] at shorter
  omega

private theorem frame_add_pruned (pruned : Pruned (dir ++ [name] <+: ·) fs after) :
    Frame (dir ++ [name] <+: ·) fs (after.add dir name entry) :=
  pruned.frame.trans ((FS.frame_add after dir name entry).mono fun _ same => same ▸ List.prefix_refl _)

theorem ensureDirectory_child (parent : fs.isDirAt dir = true) (plain : PlainName name) :
    Frame (dir ++ [name] <+: ·) fs (ensureDirectory fs (dir ++ [name])) ∧
      (ensureDirectory fs (dir ++ [name])).isDirAt (dir ++ [name]) = true ∧
      ∀ path, Below (dir ++ [name]) path →
        (ensureDirectory fs (dir ++ [name])).get path = fs.get path := by
  cases directory : fs.isDirAt (dir ++ [name]) with
  | true =>
      rw [ensureDirectory_of_isDirAt directory]
      exact ⟨.refl _ _, directory, fun _ _ => rfl⟩
  | false =>
      have straight := FS.straight_of_isDirAt parent
      -- a link to a directory counts as in the way, so the guard only asks for existence
      have guard : (fs.islink (dir ++ [name]) || !fs.isdir (dir ++ [name])) = true := by
        rw [straight.islink plain]
        cases link : fs.isSymlinkAt (dir ++ [name]) with
        | true => rfl
        | false => simp [straight.isdir plain link, directory]
      have pruned := pruned_cleared parent plain
      have parentAfter := parent_of_pruned parent pruned
      have free := pruned.gone _ (List.prefix_refl (dir ++ [name]))
      have shape : ensureDirectory fs (dir ++ [name]) =
          (if fs.lexists (dir ++ [name]) then clobber fs (dir ++ [name]) else fs).add dir name
            (.dir (if fs.lexists (dir ++ [name]) then clobber fs (dir ++ [name])
              else fs).newDirMode) := by
        unfold ensureDirectory
        simp only [guard, Bool.and_true]
        generalize (if fs.lexists (dir ++ [name]) then clobber fs (dir ++ [name]) else fs) = after
          at parentAfter free
        have notDir : after.isdir (dir ++ [name]) = false := by
          rw [(FS.straight_of_isDirAt parentAfter).isdir plain (FS.isSymlinkAt_of_get_none free),
            FS.isDirAt_eq_false_of_get_none free]
        simp [notDir, FS.makedirs_child parentAfter plain free]
      rw [shape]
      refine ⟨frame_add_pruned pruned, ?_, fun path below => ?_⟩
      · exact FS.isDirAt_iff.mpr
          ⟨_, (FS.get_add parentAfter free plain (by trivial) _).trans (if_pos rfl)⟩
      · rw [FS.get_add_of_ne (Ne.symm below.2), pruned.gone _ below.1]
        obtain ⟨⟨rest, rfl⟩, proper⟩ := below
        exact (FS.get_append_of_not_dir directory (by rintro rfl; simp at proper)).symm

theorem link_child {source : Path} (linkable : fs.linkable = true)
    (parent : fs.isDirAt dir = true) (plain : PlainName name)
    (free : fs.get (dir ++ [name]) = none) (found : fs.lstat source = some (.file ino)) :
    fs.link source (dir ++ [name]) = some (fs.add dir name (.file ino)) := by
  simp [FS.link, linkable, found, FS.namei_child parent plain, FS.create_child parent plain free]

theorem writeFile_fresh {content : List UInt8} (parent : fs.isDirAt dir = true)
    (plain : PlainName name) (free : fs.get (dir ++ [name]) = none) :
    fs.writeFile (dir ++ [name]) content =
      some ((fs.allocate ⟨fs.newFileMode, content⟩).add dir name (.file fs.inodes.length)) := by
  have located := FS.namei_child_follow parent plain (FS.isSymlinkAt_of_get_none free)
  have parentAfter : (fs.allocate ⟨fs.newFileMode, content⟩).isDirAt dir = true := parent
  simp [FS.writeFile, located, free, FS.create_child parentAfter plain free]

theorem chmod_file {path : Path} {mode : Nat} (located : fs.namei path true = some path)
    (found : fs.get path = some (.file ino)) :
    fs.chmod path mode = some (fs.setInode ino ⟨mode, (fs.inodes.getD ino default).content⟩) := by
  simp [FS.chmod, located, found]

theorem copyNoXattr_child {source : Path} (parent : fs.isDirAt dir = true) (plain : PlainName name)
    (free : fs.get (dir ++ [name]) = none) (sourceParent : fs.isDirAt source = true)
    (found : fs.get (source ++ [member]) = some (.file ino))
    (outside : ¬ dir ++ [name] <+: source ++ [member]) :
    ∃ after, copyNoXattr fs (source ++ [member]) (dir ++ [name]) = some after ∧
      Frame (· = dir ++ [name]) fs after ∧
      after.obs (dir ++ [name]) = fs.obs (source ++ [member]) := by
  have memberPlain : PlainName member := FS.plainName_of_get found (by simp)
  have valid : ino < fs.inodes.length := fs.wellFormed.valid found
  have sourceStraight := (FS.straight_of_isDirAt sourceParent).append memberPlain
    (FS.isSymlinkAt_of_get found)
  have targetStraight := (FS.straight_of_isDirAt parent).append plain (FS.isSymlinkAt_of_get_none free)
  -- the copy itself
  have copied : fs.copyfile (source ++ [member]) (dir ++ [name]) =
      some ((fs.allocate ⟨fs.newFileMode, (fs.inodes.getD ino default).content⟩).add dir name
        (.file fs.inodes.length)) := by
    simp [FS.copyfile, FS.readlink, FS.readFile, FS.lstat_child sourceParent memberPlain,
      sourceStraight.stat, found, targetStraight.stat, free, writeFile_fresh parent plain free]
  generalize madeEq : (fs.allocate ⟨fs.newFileMode, (fs.inodes.getD ino default).content⟩).add dir
    name (.file fs.inodes.length) = made at copied
  have frame : Frame (· = dir ++ [name]) fs made := by
    rw [← madeEq]
    exact ((FS.frame_allocate _ _).mono (fun _ impossible => impossible.elim)).trans
      (FS.frame_add _ _ _ _)
  have inodes : made.inodes = fs.inodes ++
      [⟨fs.newFileMode, (fs.inodes.getD ino default).content⟩] := by
    rw [← madeEq]
    simp
  have getMade : made.get (dir ++ [name]) = some (.file fs.inodes.length) := by
    have parentFresh : (fs.allocate ⟨fs.newFileMode,
        (fs.inodes.getD ino default).content⟩).isDirAt dir = true := parent
    rw [← madeEq, FS.get_add parentFresh free plain (by simp [Entry.ValidFor])]
    simp
  -- then the mode
  have parentMade : made.isDirAt dir = true := by
    rw [frame.isDirAt (by simp), parent]
  have locatedMade := FS.namei_child_follow parentMade plain (FS.isSymlinkAt_of_get getMade)
  have sourceParentMade : made.isDirAt source = true := by
    rw [frame.isDirAt, sourceParent]
    rintro rfl
    exact outside (List.prefix_append _ _)
  have getSourceMade : made.get (source ++ [member]) = some (.file ino) := by
    rw [frame.get, found]
    intro same
    exact outside (same ▸ List.prefix_refl _)
  have sameMode : made.inodes.getD ino default = fs.inodes.getD ino default := by
    rw [inodes]
    exact List.getD_append _ _ _ _ valid
  have freshContent : (made.inodes.getD fs.inodes.length default).content =
      (fs.inodes.getD ino default).content := by
    rw [inodes, List.getD_append_right _ _ _ _ le_rfl]
    simp
  refine ⟨made.setInode fs.inodes.length (fs.inodes.getD ino default), ?_, ?_, ?_⟩
  · unfold copyNoXattr
    rw [copied, Option.map_some, FS.lstat_child sourceParentMade memberPlain, getSourceMade]
    dsimp only
    rw [chmod_file locatedMade getMade, freshContent, sameMode]
    rfl
  · refine ⟨fun path free => frame.get path free, ?_⟩
    rw [FS.inodes_setInode, inodes, List.set_append_right _ _ le_rfl]
    exact List.prefix_append _ _
  have getAfter : (made.setInode fs.inodes.length (fs.inodes.getD ino default)).get
      (dir ++ [name]) = some (.file fs.inodes.length) := getMade
  have fresh : (made.inodes.set fs.inodes.length (fs.inodes.getD ino default)).getD
      fs.inodes.length default = fs.inodes.getD ino default := by
    rw [inodes, List.set_append_right _ _ le_rfl, List.getD_append_right _ _ _ _ (by simp)]
    simp
  simp only [FS.obs, getAfter, found, Option.map_some, Entry.obs, FS.inodes_setInode, fresh]

/-- What cloning the name at `source` to `raw` achieves: a file or link reads
as its source, a directory is there with what the old one had in it. -/
structure Placed (source raw : Path) (before after : FS) : Prop where
  leaf : ∀ {entry : Entry}, before.get source = some entry → entry.isDir = false →
    after.obs raw = before.obs source
  directory : before.isDirAt source = true → after.isDirAt raw = true
  inside : before.isDirAt source = true → ∀ path, Below raw path → after.get path = before.get path

theorem placed_cloneEntry {source : Path} (parent : fs.isDirAt dir = true) (plain : PlainName name)
    (sourceParent : fs.isDirAt source = true)
    (found : fs.get (source ++ [member]) = some entry)
    (outside : ¬ dir ++ [name] <+: source ++ [member]) :
    Frame (dir ++ [name] <+: ·) fs (cloneEntry fs (source ++ [member]) (dir ++ [name])) ∧
      Placed (source ++ [member]) (dir ++ [name]) fs
        (cloneEntry fs (source ++ [member]) (dir ++ [name])) := by
  have memberPlain : PlainName member := FS.plainName_of_get found (by simp)
  have pruned := pruned_cleared parent plain
  have parentAfter := parent_of_pruned parent pruned
  have free := pruned.gone _ (List.prefix_refl (dir ++ [name]))
  unfold cloneEntry
  rw [FS.lstat_child sourceParent memberPlain, found]
  cases entry with
  | dir mode =>
      obtain ⟨frame, directory, inside⟩ := ensureDirectory_child parent plain
      refine ⟨frame, ?_, fun _ => directory, fun _ => inside⟩
      intro _ foundEntry leaf
      rw [found] at foundEntry
      cases foundEntry
      cases leaf
  | symlink target =>
      dsimp only
      generalize (if fs.lexists (dir ++ [name]) then clobber fs (dir ++ [name]) else fs) = after
        at pruned parentAfter free
      rw [FS.symlink_child parentAfter plain free, Option.getD_some]
      have notDir : fs.isDirAt (source ++ [member]) = false := FS.isDirAt_of_get found
      refine ⟨frame_add_pruned pruned, ?_, by simp [notDir], by simp [notDir]⟩
      intro _ _ _
      have added : (after.add dir name (.symlink target)).get (dir ++ [name]) =
          some (.symlink target) :=
        (FS.get_add parentAfter free plain (by trivial) _).trans (if_pos rfl)
      simp [FS.obs, added, found, Entry.obs]
  | file ino =>
      have notDir : fs.isDirAt (source ++ [member]) = false := FS.isDirAt_of_get found
      dsimp only
      by_cases shared : fs.lstat (dir ++ [name]) = some (.file ino)
      · rw [if_pos shared]
        rw [FS.lstat_child parent plain] at shared
        exact ⟨.refl _ _, fun _ _ => by simp [FS.obs, shared, found], by simp [notDir],
          by simp [notDir]⟩
      rw [if_neg shared, clonePlace]
      generalize (if fs.lexists (dir ++ [name]) then clobber fs (dir ++ [name]) else fs) = after
        at pruned parentAfter free
      have getSource : after.get (source ++ [member]) = some (.file ino) := by
        rw [pruned.kept _ outside, found]
      have sourceParentAfter : after.isDirAt source = true := FS.isDirAt_parent getSource
      have lookup := (FS.lstat_child sourceParentAfter memberPlain).trans getSource
      have sameObs : after.obs (source ++ [member]) = fs.obs (source ++ [member]) :=
        pruned.obs_kept outside
      cases linkable : after.linkable with
      | true =>
          rw [linkOrCopy, link_child linkable parentAfter plain free lookup]
          dsimp only
          refine ⟨frame_add_pruned pruned, ?_, by simp [notDir], by simp [notDir]⟩
          intro _ _ _
          have valid := after.wellFormed.valid getSource
          have added : (after.add dir name (.file ino)).get (dir ++ [name]) = some (.file ino) :=
            (FS.get_add parentAfter free plain valid _).trans (if_pos rfl)
          rw [← sameObs]
          simp [FS.obs, added, getSource]
      | false =>
          obtain ⟨copied, copy, frame, reads⟩ :=
            copyNoXattr_child parentAfter plain free sourceParentAfter getSource outside
          have refused : after.link (source ++ [member]) (dir ++ [name]) = none := by
            simp [FS.link, linkable]
          rw [linkOrCopy, refused, copy]
          dsimp only [Option.getD_some]
          refine ⟨pruned.frame.trans (frame.mono fun _ same => same ▸ List.prefix_refl _), ?_,
            by simp [notDir], by simp [notDir]⟩
          intro _ _ _
          rw [reads, sameObs]

end

private theorem siblings_apart {dir path : Path} {left right : Name} (different : left ≠ right)
    (first : dir ++ [left] <+: path) : ¬ dir ++ [right] <+: path := by
  intro second
  have lengths : (dir ++ [left]).length = (dir ++ [right]).length := by simp
  have same := List.IsPrefix.eq_of_length
    (List.prefix_of_prefix_length_le first second lengths.le) lengths
  exact different (by simpa using same)

section
variable {source dir : Path}

theorem placed_foldl (apart : ∀ path, ¬ dir <+: source ++ path) (names : List Name)
    (unique : names.Nodup) :
    ∀ fs : FS, fs.isDirAt dir = true → fs.isDirAt source = true →
      (∀ name ∈ names, fs.get (source ++ [name]) ≠ none) →
      Frame (fun path => ∃ name ∈ names, dir ++ [name] <+: path) fs
          (names.foldl (fun now name => cloneEntry now (source ++ [name]) (dir ++ [name])) fs) ∧
        ∀ name ∈ names, Placed (source ++ [name]) (dir ++ [name]) fs
          (names.foldl (fun now name => cloneEntry now (source ++ [name]) (dir ++ [name])) fs) := by
  induction names with
  | nil => exact fun fs _ _ _ => ⟨.refl _ _, by simp⟩
  | cons name names ih =>
      intro fs parent sourceParent present
      obtain ⟨fresh, unique⟩ := List.nodup_cons.mp unique
      obtain ⟨entry, found⟩ := Option.ne_none_iff_exists'.mp (present name (by simp))
      have outside : ∀ path, ¬ dir ++ [name] <+: source ++ path :=
        fun path below => apart path ((List.prefix_append _ _).trans below)
      obtain ⟨touched, first⟩ := placed_cloneEntry parent
        (FS.plainName_of_get found (by simp)) sourceParent found (outside [name])
      simp only [List.foldl_cons]
      generalize cloneEntry fs (source ++ [name]) (dir ++ [name]) = middle at touched first ⊢
      have parentMiddle : middle.isDirAt dir = true := by
        rw [touched.isDirAt, parent]
        intro below
        have shorter := below.length_le
        simp only [List.length_append, List.length_singleton] at shorter
        omega
      have getSource : ∀ path, middle.get (source ++ path) = fs.get (source ++ path) :=
        fun path => touched.get _ (outside path)
      have sourceMiddle : middle.isDirAt source = true := by
        have free := outside []
        rw [List.append_nil] at free
        rw [touched.isDirAt free, sourceParent]
      obtain ⟨frame, placed⟩ := ih unique middle parentMiddle sourceMiddle
        (by
          intro other member
          rw [getSource]
          exact present other (by simp [member]))
      generalize names.foldl (fun now name => cloneEntry now (source ++ [name]) (dir ++ [name]))
        middle = last at frame placed ⊢
      refine ⟨(touched.mono fun _ below => ⟨name, by simp, below⟩).trans
        (frame.mono fun _ ⟨other, member, below⟩ => ⟨other, by simp [member], below⟩), ?_⟩
      intro other member
      rcases List.mem_cons.mp member with rfl | later
      · -- the names that follow leave this one alone
        have free : ∀ path, dir ++ [other] <+: path → ¬ ∃ name ∈ names, dir ++ [name] <+: path := by
          rintro path below ⟨next, nextMember, belowNext⟩
          refine siblings_apart ?_ below belowNext
          rintro rfl
          exact fresh nextMember
        refine ⟨fun foundEntry leaf => ?_, fun directory => ?_, fun directory path below => ?_⟩
        · rw [frame.obs (free _ (List.prefix_refl _)), first.leaf foundEntry leaf]
        · rw [frame.isDirAt (free _ (List.prefix_refl _)), first.directory directory]
        · rw [frame.get _ (free _ below.1), first.inside directory path below]
      · -- and this one has left them and their sources alone
        have different : name ≠ other := by
          rintro rfl
          exact fresh later
        have here := placed other later
        have sourceSame := getSource [other]
        refine ⟨fun foundEntry leaf => ?_, fun directory => ?_, fun directory path below => ?_⟩
        · rw [here.leaf (sourceSame.trans foundEntry) leaf, touched.obs (outside [other])]
        · exact here.directory (by rwa [touched.isDirAt (outside [other])])
        · rw [here.inside (by rwa [touched.isDirAt (outside [other])]) path below]
          exact touched.get _ fun first => siblings_apart different first below.1

theorem isDirAt_cloneMode {fs : FS} (directory : fs.isDirAt dir = true)
    (sourceDir : fs.isDirAt source = true) :
    ∃ mode, fs.get source = some (.dir mode) ∧ cloneMode fs source dir = fs.setDirMode dir mode := by
  obtain ⟨mode, found⟩ := FS.isDirAt_iff.mp sourceDir
  obtain ⟨old, foundOld⟩ := FS.isDirAt_iff.mp directory
  refine ⟨mode, found, ?_⟩
  simp [cloneMode, FS.lstat, FS.namei_dir sourceDir, found, FS.chmod, FS.namei_dir directory, foundOld]

structure Visited (source dir : Path) (before after : FS) : Prop where
  frame : Frame (dir <+: ·) before after
  mode : after.obs dir = before.obs source
  leaf : ∀ {name : Name} {entry : Entry}, before.get (source ++ [name]) = some entry →
    entry.isDir = false → after.obs (dir ++ [name]) = before.obs (source ++ [name])
  sub : ∀ {name : Name}, before.isDirAt (source ++ [name]) = true → after.isDirAt (dir ++ [name]) = true
  inside : ∀ {name : Name}, before.isDirAt (source ++ [name]) = true →
    ∀ path, Below (dir ++ [name]) path → after.get path = before.get path
  other : ∀ {name : Name}, before.get (source ++ [name]) = none →
    ∀ path, dir ++ [name] <+: path → after.get path = before.get path

theorem visited_cloneVisit {fs : FS} {layer target rel : Path} (apart : Apart target layer)
    (directory : fs.isDirAt (target ++ rel) = true) (layerDir : fs.isDirAt (layer ++ rel) = true) :
    Visited (layer ++ rel) (target ++ rel) fs
      (cloneVisit layer target fs rel (fs.scanDirs (layer ++ rel)) (fs.scanFiles (layer ++ rel))) := by
  have outside : ∀ path, ¬ target ++ rel <+: layer ++ rel ++ path := by
    intro path below
    rw [List.append_assoc] at below
    exact apart.not_prefix_append _ ((List.prefix_append _ _).trans below)
  obtain ⟨mode, found, prepared⟩ := isDirAt_cloneMode directory layerDir
  have touched := fs.frame_setDirMode (target ++ rel) mode
  have getPrepared : ∀ path, (fs.setDirMode (target ++ rel) mode).get path =
      if path = target ++ rel then some (.dir mode) else fs.get path :=
    fun path => FS.get_setDirMode directory path
  have keep : ∀ path, (fs.setDirMode (target ++ rel) mode).get (layer ++ rel ++ path) =
      fs.get (layer ++ rel ++ path) := by
    intro path
    refine touched.get _ ?_
    rintro same
    exact outside path (same ▸ List.prefix_refl _)
  have keepBelow : ∀ {name : Name} {path : Path}, target ++ rel ++ [name] <+: path →
      (fs.setDirMode (target ++ rel) mode).get path = fs.get path := by
    rintro name path below
    refine touched.get _ ?_
    rintro rfl
    have shorter := below.length_le
    simp only [List.length_append, List.length_singleton] at shorter
    omega
  unfold cloneVisit
  rw [ensureDirectory_of_isDirAt directory, prepared]
  generalize fs.setDirMode (target ++ rel) mode = ready at touched getPrepared keep keepBelow
  have readyDir : ready.isDirAt (target ++ rel) = true :=
    FS.isDirAt_iff.mpr ⟨mode, by simp [getPrepared]⟩
  have readySource : ready.isDirAt (layer ++ rel) = true := by
    have same := keep []
    rw [List.append_nil] at same
    exact FS.isDirAt_iff.mpr ⟨mode, by rw [same, found]⟩
  have sourceObs : ∀ path, ready.obs (layer ++ rel ++ path) = fs.obs (layer ++ rel ++ path) :=
    fun path => touched.obs_of_get (keep path)
  have sourceDir : ∀ path, ready.isDirAt (layer ++ rel ++ path) =
      fs.isDirAt (layer ++ rel ++ path) := by
    intro path
    rw [FS.isDirAt_eq_any_obs, sourceObs, ← FS.isDirAt_eq_any_obs]
  obtain ⟨frame, placed⟩ := placed_foldl outside
    (fs.scanFiles (layer ++ rel) ++ fs.scanDirs (layer ++ rel))
    (FS.nodup_scanFiles_append_scanDirs layerDir) ready readyDir readySource
    (by
      intro name member
      rw [keep]
      exact (FS.mem_scanFiles_append_scanDirs layerDir).mp member)
  have listed : ∀ {name : Name}, fs.get (layer ++ rel ++ [name]) ≠ none →
      name ∈ fs.scanFiles (layer ++ rel) ++ fs.scanDirs (layer ++ rel) :=
    fun present => (FS.mem_scanFiles_append_scanDirs layerDir).mpr present
  generalize (fs.scanFiles (layer ++ rel) ++ fs.scanDirs (layer ++ rel)).foldl
    (fun now name => cloneEntry now (layer ++ rel ++ [name]) (target ++ rel ++ [name])) ready
    = after at frame placed
  have whole : Frame (target ++ rel <+: ·) fs after :=
    (touched.mono fun _ same => same ▸ List.prefix_refl _).trans
      (frame.mono fun _ ⟨_, _, below⟩ => (List.prefix_append _ _).trans below)
  refine ⟨whole, ?_, ?_, ?_, ?_, ?_⟩
  · have untouched : ¬ ∃ name ∈ fs.scanFiles (layer ++ rel) ++ fs.scanDirs (layer ++ rel),
        target ++ rel ++ [name] <+: target ++ rel := by
      rintro ⟨name, _, below⟩
      have shorter := below.length_le
      simp only [List.length_append, List.length_singleton] at shorter
      omega
    rw [frame.obs untouched]
    simp [FS.obs, getPrepared, found, Entry.obs]
  · intro name entry foundEntry leaf
    have member := listed (by rw [foundEntry]; exact Option.some_ne_none _)
    rw [(placed name member).leaf ((keep [name]).trans foundEntry) leaf, sourceObs]
  · intro name sub
    obtain ⟨mode, foundEntry⟩ := FS.isDirAt_iff.mp sub
    have member := listed (by rw [foundEntry]; exact Option.some_ne_none _)
    exact (placed name member).directory (by rw [sourceDir, sub])
  · intro name sub path below
    obtain ⟨mode, foundEntry⟩ := FS.isDirAt_iff.mp sub
    have member := listed (by rw [foundEntry]; exact Option.some_ne_none _)
    rw [(placed name member).inside (by rw [sourceDir, sub]) path below, keepBelow below.1]
  intro name missing path below
  rw [frame.get, keepBelow below]
  rintro ⟨next, member, belowNext⟩
  have different : next ≠ name := by
    rintro rfl
    exact (FS.mem_scanFiles_append_scanDirs layerDir).mp member missing
  exact siblings_apart different belowNext below

end

section
variable {fs : FS} {layer target : Path}

/-- The target once the directories `visited` of the layer have been cloned.
`start` is the tree before the walk. -/
private structure Cloning (start : FS) (layer target : Path) (visited : List Path) (now : FS) :
    Prop where
  frame : Frame (target <+: ·) start now
  root : now.isDirAt target = true
  mode : ∀ rel ∈ visited, view now target rel = view start layer rel
  leaf : ∀ rel ∈ visited, ∀ {name : Name} {entry : Obs},
    view start layer (rel ++ [name]) = some entry → entry.isDir = false →
      view now target (rel ++ [name]) = some entry
  sub : ∀ rel ∈ visited, ∀ {name : Name}, start.isDirAt (layer ++ (rel ++ [name])) = true →
    now.isDirAt (target ++ (rel ++ [name])) = true
  rest : ∀ path, view start layer path = none →
    shadowed Obs.isDir (view start layer) path = false → view now target path = view start target path

private theorem cloning_visit {now : FS} {visited : List Path} {rel : Path}
    (apart : Apart target layer) (cloning : Cloning fs layer target visited now)
    (here : fs.isDirAt (layer ++ rel) = true) (above : ∀ other, Below other rel → other ∈ visited)
    (free : ∀ seen ∈ visited, ¬ rel <+: seen) :
    Cloning fs layer target (visited ++ [rel])
      (cloneVisit layer target now rel (now.scanDirs (layer ++ rel))
        (now.scanFiles (layer ++ rel))) := by
  have layerView : ∀ path, now.obs (layer ++ path) = fs.obs (layer ++ path) :=
    fun path => cloning.frame.obs (apart.not_prefix_append path)
  have layerDir : ∀ path, now.isDirAt (layer ++ path) = fs.isDirAt (layer ++ path) :=
    fun path => cloning.frame.isDirAt (apart.not_prefix_append path)
  have directory : now.isDirAt (target ++ rel) = true := by
    rcases List.eq_nil_or_concat rel with rfl | ⟨parent, name, rfl⟩
    · simpa using cloning.root
    · rw [List.concat_eq_append] at here above ⊢
      exact cloning.sub parent (above parent (below_append_singleton.mpr (List.prefix_refl _))) here
  have visit := visited_cloneVisit apart directory (by rw [layerDir, here])
  generalize cloneVisit layer target now rel (now.scanDirs (layer ++ rel))
    (now.scanFiles (layer ++ rel)) = after at visit
  have dirAfter : after.isDirAt (target ++ rel) = true := by
    rw [FS.isDirAt_eq_any_obs, visit.mode, ← FS.isDirAt_eq_any_obs, layerDir, here]
  have whole : Frame (target <+: ·) fs after :=
    cloning.frame.trans (visit.frame.mono fun _ => (List.prefix_append _ _).trans)
  have outside : ∀ {path : Path}, ¬ rel <+: path → ¬ target ++ rel <+: target ++ path :=
    fun free below => free ((List.prefix_append_right_inj target).mp below)
  -- a name of a directory visited before is `rel` itself or not inside `rel`
  have childCases : ∀ {seen : Path} {name : Name}, seen ∈ visited → rel <+: seen ++ [name] →
      rel = seen ++ [name] := by
    intro seen name member below
    by_contra different
    exact free seen member (below_append_singleton.mp ⟨below, different⟩)
  refine ⟨whole, FS.isDirAt_above dirAfter (List.prefix_append _ _), ?_, ?_, ?_, ?_⟩
  · intro seen member
    rcases List.mem_append.mp member with old | new
    · exact (visit.frame.obs (outside (free seen old))).trans (cloning.mode seen old)
    · rw [List.mem_singleton.mp new]
      exact visit.mode.trans (layerView rel)
  · intro seen member name entry found leaf
    rcases List.mem_append.mp member with old | new
    · have untouched : ¬ rel <+: seen ++ [name] := by
        intro below
        rw [← childCases old below, view] at found
        rw [FS.isDirAt_eq_any_obs, found, Option.any_some, leaf] at here
        cases here
      exact (visit.frame.obs (outside untouched)).trans (cloning.leaf seen old found leaf)
    · rw [List.mem_singleton.mp new] at found ⊢
      have foundNow : now.obs (layer ++ rel ++ [name]) = some entry := by
        rw [List.append_assoc, layerView]
        exact found
      obtain ⟨raw, foundRaw, rfl⟩ := Option.map_eq_some_iff.mp foundNow
      have reads := visit.leaf foundRaw (by simpa using leaf)
      rw [view, ← List.append_assoc, reads, foundNow]
  · intro seen member name directory
    rcases List.mem_append.mp member with old | new
    · by_cases below : rel <+: seen ++ [name]
      · rw [← childCases old below]
        exact dirAfter
      · rw [visit.frame.isDirAt (outside below)]
        exact cloning.sub seen old directory
    · rw [List.mem_singleton.mp new] at directory ⊢
      rw [← List.append_assoc]
      exact visit.sub (by rw [List.append_assoc, layerDir, directory])
  · intro path missing notShadowed
    refine Eq.trans ?_ (cloning.rest path missing notShadowed)
    by_cases below : rel <+: path
    · obtain ⟨rest, rfl⟩ := below
      refine visit.frame.obs_of_get ?_
      cases rest with
      | nil =>
          rw [List.append_nil, view] at missing
          rw [FS.isDirAt_eq_any_obs, missing] at here
          cases here
      | cons name rest =>
          have split : target ++ (rel ++ name :: rest) = target ++ rel ++ [name] ++ rest := by simp
          have splitRel : rel ++ name :: rest = rel ++ [name] ++ rest := by simp
          cases found : now.get (layer ++ rel ++ [name]) with
          | none =>
              rw [split]
              exact visit.other found _ (List.prefix_append _ _)
          | some raw =>
              have foundView : view fs layer (rel ++ [name]) = some (raw.obs now.inodes) := by
                rw [view, ← layerView, ← List.append_assoc, FS.obs, found, Option.map_some]
              have proper : rest ≠ [] := by
                rintro rfl
                rw [foundView] at missing
                cases missing
              cases kind : raw.isDir with
              | true =>
                  rw [split]
                  exact visit.inside (by rw [FS.isDirAt_of_get found, kind]) _
                    ⟨List.prefix_append _ _, by simpa using proper⟩
              | false =>
                  rw [splitRel, shadowed_iff.mpr ⟨rel ++ [name], rest, _, rfl, proper, foundView,
                    by simpa using kind⟩] at notShadowed
                  cases notShadowed
    · exact visit.frame.obs (outside below)

theorem view_hardlinkCloneTree (apart : Apart target layer) (targetDir : fs.isDirAt target = true)
    (layerDir : fs.isDirAt layer = true) :
    Frame (target <+: ·) fs (hardlinkCloneTree fs layer target) ∧
      ∀ path, view (hardlinkCloneTree fs layer target) target path =
        match view fs layer path with
        | some entry => some entry
        | none =>
            if shadowed Obs.isDir (view fs layer) path then none else view fs target path := by
  have rule : WalkInvariant id layer (cloneVisit layer target)
      (fun rel => fs.isDirAt (layer ++ rel)) (Cloning fs layer target) :=
    ⟨fun cloning rel => cloning.frame.isDirAt (apart.not_prefix_append rel),
      fun cloning here above free => cloning_visit apart cloning here above free⟩
  obtain ⟨visited, cloned, members⟩ := osWalk_rule rule (fs.height + 1) fs
    (fun _ => FS.length_lt_of_isDirAt_append)
    ⟨.refl _ _, targetDir, by simp, by simp, by simp, fun _ _ _ => rfl⟩ (by simpa using layerDir)
  change Cloning fs layer target visited (hardlinkCloneTree fs layer target) at cloned
  have leafReads : ∀ {path : Path} {entry : Obs}, view fs layer path = some entry →
      view (hardlinkCloneTree fs layer target) target path = some entry := by
    intro path entry found
    cases kind : entry.isDir with
    | true =>
        have directory : fs.isDirAt (layer ++ path) = true := by
          rw [FS.isDirAt_eq_any_obs]
          simpa [view] using congrArg (Option.any Obs.isDir) found |>.trans (by simp [kind])
        rw [cloned.mode path ((members path).mpr directory), found]
    | false =>
        rcases List.eq_nil_or_concat path with rfl | ⟨parent, name, rfl⟩
        · rw [view, List.append_nil] at found
          rw [FS.isDirAt_eq_any_obs, found, Option.any_some, kind] at layerDir
          cases layerDir
        · rw [List.concat_eq_append] at found ⊢
          obtain ⟨raw, foundRaw, _⟩ := Option.map_eq_some_iff.mp found
          rw [← List.append_assoc] at foundRaw
          exact cloned.leaf parent ((members parent).mpr (FS.isDirAt_parent foundRaw)) found kind
  refine ⟨cloned.frame, fun path => ?_⟩
  cases found : view fs layer path with
  | some entry => exact leafReads found
  | none =>
      cases shadow : shadowed Obs.isDir (view fs layer) path with
      | false => exact cloned.rest path found shadow
      | true =>
          obtain ⟨above, rest, entry, rfl, proper, foundAbove, leaf⟩ := shadowed_iff.mp shadow
          have reads := leafReads foundAbove
          have notDir : (hardlinkCloneTree fs layer target).isDirAt (target ++ above) = false := by
            rw [FS.isDirAt_eq_any_obs]
            simpa [view] using congrArg (Option.any Obs.isDir) reads |>.trans (by simp [leaf])
          have gone := FS.get_append_of_not_dir notDir proper
          rw [List.append_assoc] at gone
          exact FS.obs_eq_none_iff.mpr gone

end

end PDocker.Layers
