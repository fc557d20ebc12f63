import PDocker.Build.Instructions
import PDocker.Data.Transition
import PDocker.Posix.Spelling
import PDocker.Posix.Walk

/-!
# Instructions that stay in the rootfs

A path string is *bound* to the rootfs when the kernel comes to a place below
the rootfs with it, and would make every missing name on the way below it. The
instructions change nothing else as long as their path strings are bound.
-/

set_option autoImplicit false

namespace PDocker.Build

open Data Posix Posix.FS

variable {fs now : FS} {rootfs : Path} {raw dst : List Name}

/-- Every name that is missing on the way lies below the rootfs. -/
def Makes (rootfs : Path) (fs : FS) (raw : List Name) : Prop :=
  ∀ path ∈ (fs.ahead raw).1, Below rootfs path

structure Bound (rootfs : Path) (fs : FS) (raw : List Name) : Prop where
  makes : Makes rootfs fs raw
  leads : ∀ path, (fs.ahead raw).2 = some path → Below rootfs path

theorem frame_makedirs (makes : Makes rootfs fs raw) : Frame (Below rootfs) fs (fs.makedirs raw).1 := by
  have frame := (grown_makedirs fs raw).frame (by rw [inodes_makedirs])
  exact frame.mono makes

variable {after : FS} {entry : Entry} {path : Path} {content : List UInt8} {follow : Bool} {dest : Text}
  {progress : Progress} {sources : List (List Match)}

theorem create_frame (made : fs.create path entry = some after) : Frame (· = path) fs after := by
  unfold create at made
  split at made
  · cases made
  rename_i name last
  split at made
  · obtain ⟨parent, rfl⟩ := List.getLast?_eq_some_iff.mp last
    rw [List.dropLast_concat] at made
    cases made
    exact frame_add fs parent name entry
  · cases made

theorem create_kept (made : fs.create path entry = some after) {other : Path} {found : Entry}
    (present : fs.get other = some found) : after.get other = some found := by
  rw [(create_frame made).get other, present]
  intro same
  rw [same, create_missing made] at present
  cases present

theorem isDirAt_dropLast (found : fs.get path = some entry) : fs.isDirAt path.dropLast = true := by
  rcases List.eq_nil_or_concat path with empty | ⟨parent, name, shape⟩
  · rw [empty]
    exact isDirAt_root fs
  · rw [shape, List.concat_eq_append] at found ⊢
    rw [List.dropLast_concat]
    exact isDirAt_parent found

theorem create_get (valid : entry.ValidFor fs.inodes.length)
    (made : fs.create path entry = some after) : after.get path = some entry := by
  unfold create at made
  split at made
  · cases made
  rename_i name last
  split at made
  · rename_i fits
    obtain ⟨parent, rfl⟩ := List.getLast?_eq_some_iff.mp last
    rw [List.dropLast_concat] at made fits
    cases made
    rw [get_add fits.1 fits.2.1 fits.2.2 valid, if_pos rfl]
  · cases made

theorem create_directory (made : fs.create path entry = some after) : fs.isDirAt path.dropLast = true := by
  unfold create at made
  split at made
  · cases made
  split at made
  · rename_i fits
    exact fits.1
  · cases made

def Leads (rootfs : Path) (fs : FS) (raw : List Name) : Prop :=
  ∀ path, fs.namei raw false = some path → Below rootfs path

theorem Leads.of_less (leads : Leads rootfs fs raw)
    (fewer : ∀ path entry, now.get path = some entry → fs.get path = some entry) :
    Leads rootfs now raw :=
  fun path located => leads path (namei_of_less fewer located)

/-- A removal keeps what lies outside the rootfs, and makes nothing. -/
structure Removes (rootfs : Path) (before after : FS) : Prop where
  frame : Frame (Below rootfs) before after
  fewer : ∀ path entry, after.get path = some entry → before.get path = some entry

theorem Removes.refl (rootfs : Path) (fs : FS) : Removes rootfs fs fs :=
  ⟨.refl _ fs, fun _ _ found => found⟩

theorem removes_of_shrunk (below : Below rootfs path) (shrunk : Shrunk path fs now) :
    Removes rootfs fs now :=
  ⟨shrunk.frame.mono fun _ longer => below.extend longer, fun _ _ => shrunk.get_of_get⟩

theorem removes_rmtree (leads : Leads rootfs fs dst) : Removes rootfs fs (fs.rmtree dst) := by
  cases located : fs.namei dst false with
  | none =>
      rw [rmtree, located]
      exact .refl rootfs fs
  | some path =>
      refine removes_of_shrunk (leads path located) (shrunk_rmtree ?_)
      intro other found _
      rw [located] at found
      cases found
      exact List.prefix_refl _

theorem removes_unlink (leads : Leads rootfs fs dst) (gone : fs.unlink dst = some after) :
    Removes rootfs fs after := by
  obtain ⟨path, located, _⟩ := Option.bind_eq_some_iff.mp gone
  have shrunk : Shrunk path fs ((fs.unlink dst).getD fs) := by
    refine shrunk_unlink ?_
    intro other found _
    rw [located] at found
    cases found
    exact List.prefix_refl _
  rw [gone] at shrunk
  exact removes_of_shrunk (leads path located) shrunk

theorem lexists_eq_false : fs.lexists dst = false ↔
    ∀ path, fs.namei dst false = some path → fs.get path = none := by
  unfold lexists lstat
  cases fs.namei dst false with
  | none => simp
  | some path => cases found : fs.get path <;> simp [found]

theorem lexists_unlink (gone : fs.unlink dst = some after) : after.lexists dst = false := by
  obtain ⟨path, located, removed⟩ := Option.bind_eq_some_iff.mp gone
  have shape : after = fs.remove path ∧ path ≠ [] := by
    cases found : fs.get path with
    | none =>
        rw [found] at removed
        cases removed
    | some entry =>
        rw [found] at removed
        have filled : entry.isDir = false → path ≠ [] := by
          intro leaf top
          have directory := isDirAt_root fs
          rw [← top, isDirAt_of_get found, leaf] at directory
          cases directory
        cases entry with
        | dir mode => cases removed
        | file ino | symlink target =>
            cases removed
            exact ⟨rfl, filled rfl⟩
  obtain ⟨rfl, filled⟩ := shape
  rw [lexists_eq_false]
  intro other found
  have fewer : ∀ path' entry, (fs.remove path).get path' = some entry → fs.get path' = some entry := by
    intro path' entry present
    rw [get_remove filled] at present
    split at present
    · cases present
    · exact present
  have same := namei_of_less fewer found
  rw [located] at same
  cases same
  rw [get_remove filled, if_pos (List.prefix_refl _)]

theorem removes_clearPlace (leads : Leads rootfs fs dst) : Removes rootfs fs (clearPlace fs dst).1 ∧
      ((clearPlace fs dst).2 = true → (clearPlace fs dst).1.lexists dst = false) := by
  unfold clearPlace
  split
  · split
    · exact ⟨removes_rmtree leads, by simp [removeTree]⟩
    split
    · rename_i after gone
      exact ⟨removes_unlink leads gone, fun _ => lexists_unlink gone⟩
    · exact ⟨.refl rootfs fs, by simp⟩
  · rename_i missing
    exact ⟨.refl rootfs fs, fun _ => by simpa using missing⟩

theorem writeFile_missing (missing : fs.lexists dst = false) (written : fs.writeFile dst content = some after) :
    ∃ path, fs.namei dst false = some path ∧
      (fs.allocate ⟨fs.newFileMode, content⟩).create path (.file fs.inodes.length) = some after := by
  obtain ⟨path, followed, made⟩ := Option.bind_eq_some_iff.mp written
  rw [lexists_eq_false] at missing
  have located : fs.namei dst false = some path := by
    cases namei_last followed with
    | inl located => exact located
    | inr linked =>
        obtain ⟨link, located, present⟩ := linked
        rw [isSymlinkAt_of_get_none (missing link located)] at present
        cases present
  rw [missing path located] at made
  exact ⟨path, located, made⟩

theorem frame_writeFile (leads : Leads rootfs fs dst)
    (missing : fs.lexists dst = false) (written : fs.writeFile dst content = some after) :
    Frame (Below rootfs) fs after := by
  obtain ⟨path, located, made⟩ := writeFile_missing missing written
  have allocated : Frame (Below rootfs) fs (fs.allocate ⟨fs.newFileMode, content⟩) :=
    (frame_allocate fs _).mono fun _ impossible => impossible.elim
  refine allocated.trans ((create_frame made).mono ?_)
  intro other same
  rw [same]
  exact leads path located

theorem Makes.above (makes : Makes rootfs fs raw) {first : List Name} (below : first <+: raw) :
    Makes rootfs fs first :=
  fun path missing => makes path (ahead_of_less below missing)

theorem frame_copyFile (bound : Bound rootfs fs dst) (content : List UInt8) :
    Frame (Below rootfs) fs (copyFile fs content dst).1 := by
  have made := frame_makedirs (bound.makes.above (List.dropLast_prefix dst))
  have leads : Leads rootfs (fs.makedirs dst.dropLast).1 dst :=
    fun path located => bound.leads path (namei_ahead (grown_makedirs fs _) located).1
  have cleared := removes_clearPlace leads
  unfold copyFile
  dsimp only
  split
  · split
    · rename_i done
      split
      · rename_i after written
        have written := frame_writeFile (leads.of_less cleared.1.fewer) (cleared.2 done) written
        exact made.trans (cleared.1.frame.trans written)
      · exact made.trans cleared.1.frame
    · exact made.trans cleared.1.frame
  · exact made

/-! ## Copying a tree -/

private theorem walkComps_made {onLink onLink' : Path → List Name → Option Path}
    (kept : ∀ path entry, fs.get path = some entry → now.get path = some entry)
    (missing : fs.get path = none) (directory : now.isDirAt path = true)
    (links : ∀ cur raw, onLink cur raw = some path → onLink' cur raw = some path)
    (raw : List Name) (cur : Path) (located : fs.walkComps false onLink cur raw = some path) :
    now.walkComps follow onLink' cur raw = some path := by
  induction raw generalizing cur with
  | nil => exact located
  | cons name rest ih =>
      rw [walkComps] at located ⊢
      by_cases stays : name = [] ∨ name = dot
      · rw [if_pos stays] at located ⊢
        exact ih cur located
      rw [if_neg stays] at located ⊢
      by_cases up : name = dotdot
      · rw [if_pos up] at located ⊢
        exact ih cur.dropLast located
      rw [if_neg up] at located ⊢
      cases found : fs.get (cur ++ [name]) with
      | none =>
          rw [found] at located
          dsimp only at located
          split at located
          · rename_i last
            cases located
            obtain ⟨mode, present⟩ := isDirAt_iff.mp directory
            subst last
            simp [present, walkComps]
          · cases located
      | some entry =>
          rw [found] at located
          rw [kept _ _ found]
          have notLast : ¬ some (cur ++ [name]) = some path := by
            intro same
            cases same
            rw [found] at missing
            cases missing
          cases entry with
          | dir mode => exact ih (cur ++ [name]) located
          | file ino =>
              dsimp only at located
              split at located
              · exact absurd located notLast
              · cases located
          | symlink target =>
              by_cases last : rest = []
              · simp only [last, and_self, ↓reduceIte] at located
                exact absurd located notLast
              · simp only [last, false_and, ↓reduceIte] at located ⊢
                exact links _ _ located

theorem namei_made (kept : ∀ path entry, fs.get path = some entry → now.get path = some entry)
    (located : fs.namei raw false = some path) (missing : fs.get path = none)
    (directory : now.isDirAt path = true) : now.namei raw follow = some path := by
  suffices budget : ∀ (links : Nat) (cur : Path) (raw : List Name),
      fs.resolveFrom false links cur raw = some path →
        now.resolveFrom follow links cur raw = some path from budget maxSymlinks [] raw located
  intro links
  induction links with
  | zero =>
      intro cur raw located
      exact walkComps_made kept missing directory (fun _ _ none => by cases none) raw cur located
  | succ links ih =>
      intro cur raw located
      exact walkComps_made kept missing directory ih raw cur located

structure Fresh (fs : FS) (raw : List Name) (top : Path) : Prop where
  located : fs.namei raw true = some top
  directory : fs.isDirAt top = true
  empty : ∀ path, Below top path → fs.get path = none

theorem grown_prepared (fs : FS) (raw : List Name) : Grown (· ∈ (fs.ahead raw).1) fs
      (if fs.pathExists raw.dropLast then fs else (fs.makedirs raw.dropLast).1) := by
  split
  · exact .refl _ fs
  · have grown := grown_makedirs fs raw.dropLast
    refine ⟨grown.kept, fun path entry found => (grown.made path entry found).imp_right ?_⟩
    exact fun late => ⟨ahead_of_less (List.dropLast_prefix raw) late.1, late.2⟩

theorem grown_newDirs (fs : FS) (raw : List Name) :
    Grown (· ∈ (fs.ahead raw).1) fs (newDirs fs raw).1 := by
  have prepared := grown_prepared fs raw
  unfold newDirs
  dsimp only
  split
  · exact prepared
  split
  · rename_i after made
    exact prepared.trans (grown_mkdir prepared made)
  · exact prepared

theorem inodes_newDirs (fs : FS) (raw : List Name) : (newDirs fs raw).1.inodes = fs.inodes := by
  have prepared : (if fs.pathExists raw.dropLast then fs
      else (fs.makedirs raw.dropLast).1).inodes = fs.inodes := by
    split
    · rfl
    · exact inodes_makedirs fs _
  unfold newDirs
  dsimp only
  split
  · exact prepared
  split
  · rename_i after made
    exact (inodes_mkdir made).trans prepared
  · exact prepared

theorem frame_newDirs (makes : Makes rootfs fs raw) : Frame (Below rootfs) fs (newDirs fs raw).1 :=
  ((grown_newDirs fs raw).frame (by rw [inodes_newDirs])).mono makes

theorem fresh_newDirs (ordinary : raw.getLast? ≠ some dot) (done : (newDirs fs raw).2 = true) :
    ∃ top, Fresh (newDirs fs raw).1 raw top ∧ (fs.ahead raw).2 = some top := by
  have prepared := grown_prepared fs raw
  unfold newDirs at done ⊢
  dsimp only at done ⊢
  rw [if_neg (by simp [ordinary])] at done ⊢
  split at done
  · rename_i after made
    obtain ⟨top, located, created⟩ := Option.bind_eq_some_iff.mp made
    have missing := create_missing created
    have directory : after.isDirAt top = true := isDirAt_iff.mpr ⟨_, create_get trivial created⟩
    refine ⟨top, ⟨?_, directory, ?_⟩, (namei_ahead prepared located).1⟩
    · exact namei_made (fun _ _ => create_kept created) located missing directory
    · intro path below
      rw [(create_frame created).get path below.2.symm]
      exact get_eq_none_below missing below.1
  · cases done

/-- What is copied of a tree: nothing but `done` stands in the directory `top`. -/
structure Copied (top : Path) (done : List (Path × Leaf)) (before now : FS) : Prop where
  kept : ∀ path entry, before.get path = some entry → now.get path = some entry
  frame : Frame (Below top) before now
  inside : ∀ path entry, path ≠ [] → now.get (top ++ path) = some entry →
    ∃ leaf, (path, leaf) ∈ done ∧ (leaf = .dir → entry.isDir = true)

section
variable {tree : Tree} {top : Path} {done : List (Path × Leaf)} {start : FS}

theorem leaf_unique {path : Path} {one two : Leaf} (first : (path, one) ∈ tree.items)
    (second : (path, two) ∈ tree.items) : one = two :=
  congrArg Prod.snd (List.inj_on_of_nodup_map tree.nodup first second rfl)

theorem Copied.directory (copied : Copied top done start now) (fresh : Fresh start raw top)
    (among : done ⊆ tree.items) {path : Path} (listed : path = [] ∨ (path, Leaf.dir) ∈ tree.items)
    {found : Path} (located : now.namei (raw ++ path) true = some found)
    (directory : now.isDirAt found = true) : found = top ++ path := by
  induction path using List.reverseRecOn generalizing found with
  | nil =>
      obtain ⟨mode, present⟩ := isDirAt_iff.mp fresh.directory
      have whole := namei_of_fewer copied.kept fresh.located (by rw [present]; exact Option.some_ne_none _)
      rw [List.append_nil, whole] at located
      rw [List.append_nil]
      exact (Option.some.inj located).symm
  | append_singleton above name ih =>
      have item := listed.resolve_left (by simp)
      have plain : PlainName name := tree.plain _ item name (by simp)
      have listedAbove : above = [] ∨ (above, Leaf.dir) ∈ tree.items := by
        by_cases first : above = []
        · exact .inl first
        · exact .inr (tree.closed _ item above first (below_append_singleton.mpr (List.prefix_refl _)))
      have inPlace : ∀ {place : Path} {entry : Entry}, now.namei (raw ++ above ++ [name]) false = some place →
          now.get place = some entry → place = top ++ (above ++ [name]) := by
        intro place entry walked present
        obtain ⟨parent, followed, rfl⟩ := namei_append_singleton plain walked
        rw [ih listedAbove followed (isDirAt_parent present), List.append_assoc]
      rw [← List.append_assoc] at located
      cases namei_last located with
      | inl walked =>
          obtain ⟨mode, present⟩ := isDirAt_iff.mp directory
          exact inPlace walked present
      | inr linked =>
          obtain ⟨link, walked, isLink⟩ := linked
          obtain ⟨target, present⟩ := isSymlinkAt_iff.mp isLink
          rw [inPlace walked present] at present
          obtain ⟨leaf, member, kind⟩ := copied.inside _ _ (by simp) present
          have impossible := kind (leaf_unique (among member) item)
          cases impossible

variable (copied : Copied top done start now)

include copied

theorem Copied.place (fresh : Fresh start raw top)
    (among : done ⊆ tree.items) {item : Path × Leaf} (member : item ∈ tree.items) {found : Path}
    (located : now.namei (raw ++ item.1) false = some found)
    (directory : now.isDirAt found.dropLast = true) : found = top ++ item.1 := by
  obtain ⟨path, leaf⟩ := item
  rcases List.eq_nil_or_concat path with empty | ⟨above, name, shape⟩
  · exact absurd empty (tree.filled _ member)
  rw [List.concat_eq_append] at shape
  subst shape
  have plain : PlainName name := tree.plain _ member name (by simp)
  rw [← List.append_assoc] at located
  obtain ⟨parent, followed, rfl⟩ := namei_append_singleton plain located
  rw [List.dropLast_concat] at directory
  have listed : above = [] ∨ (above, Leaf.dir) ∈ tree.items := by
    by_cases first : above = []
    · exact .inl first
    · exact .inr (tree.closed _ member above first (below_append_singleton.mpr (List.prefix_refl _)))
  rw [copied.directory fresh among listed followed directory, List.append_assoc]

theorem Copied.missing (fresh : Fresh start raw top)
    (among : done ⊆ tree.items) {item : Path × Leaf} (member : item ∈ tree.items)
    (later : item.1 ∉ done.map Prod.fst) : now.lexists (raw ++ item.1) = false := by
  rw [lexists_eq_false]
  intro path located
  by_contra present
  obtain ⟨entry, found⟩ := Option.ne_none_iff_exists'.mp present
  have directory : now.isDirAt path.dropLast = true := isDirAt_dropLast found
  have same := copied.place fresh among member located directory
  subst same
  obtain ⟨leaf, inside, _⟩ := copied.inside _ _ (tree.filled _ member) found
  exact later (List.mem_map.mpr ⟨_, inside, rfl⟩)

theorem Copied.create {item : Path × Leaf} (filled : item.1 ≠ [])
    {entry : Entry} {base after : FS} (same : ∀ path, base.get path = now.get path)
    (inodes : now.inodes <+: base.inodes) (valid : entry.ValidFor base.inodes.length)
    (kind : item.2 = .dir → entry.isDir = true)
    (made : base.create (top ++ item.1) entry = some after) :
    Copied top (done ++ [item]) start after where
  kept path found present := by
    refine create_kept made ?_
    rw [same]
    exact copied.kept path found present
  frame := by
    have based : Frame (Below top) now base := ⟨fun path _ => same path, inodes⟩
    refine copied.frame.trans (based.trans ((create_frame made).mono ?_))
    intro path here
    rw [here]
    exact ⟨List.prefix_append _ _, by simp [filled]⟩
  inside path found proper present := by
    by_cases here : path = item.1
    · subst here
      rw [create_get valid made] at present
      cases present
      exact ⟨item.2, by simp, kind⟩
    · rw [(create_frame made).get _ (by simpa using here), same] at present
      obtain ⟨leaf, member, kind⟩ := copied.inside path found proper present
      exact ⟨leaf, List.mem_append_left _ member, kind⟩

omit copied

theorem Copied.weaken (copied : Copied top done start now) (item : Path × Leaf) :
    Copied top (done ++ [item]) start now :=
  ⟨copied.kept, copied.frame, fun path entry proper present => by
    obtain ⟨leaf, member, kind⟩ := copied.inside path entry proper present
    exact ⟨leaf, List.mem_append_left _ member, kind⟩⟩

theorem Copied.item (copied : Copied top done start now) (fresh : Fresh start raw top)
    (among : done ⊆ tree.items) {item : Path × Leaf} (member : item ∈ tree.items)
    (later : item.1 ∉ done.map Prod.fst) (ok : Bool) :
    Copied top (done ++ [item]) start (copyItem raw (now, ok) item).1 := by
  have filled := tree.filled _ member
  obtain ⟨path, leaf⟩ := item
  unfold copyItem
  dsimp only
  split
  · rename_i after made
    cases leaf with
    | dir =>
        obtain ⟨found, located, created⟩ := Option.bind_eq_some_iff.mp made
        rw [copied.place fresh among member located (create_directory created)] at created
        have valid : Entry.ValidFor now.inodes.length (.dir now.newDirMode) := trivial
        exact copied.create filled (fun _ => rfl) (List.prefix_refl _) valid (fun _ => rfl) created
    | symlink target =>
        obtain ⟨found, located, created⟩ := Option.bind_eq_some_iff.mp made
        rw [copied.place fresh among member located (create_directory created)] at created
        have valid : Entry.ValidFor now.inodes.length (.symlink target) := trivial
        exact copied.create filled (fun _ => rfl) (List.prefix_refl _) valid
          (fun isDir => by cases isDir) created
    | file content =>
        obtain ⟨found, located, created⟩ :=
          writeFile_missing (copied.missing fresh among member later) made
        have directory : (now.allocate ⟨now.newFileMode, content⟩).isDirAt found.dropLast = true :=
          create_directory created
        rw [copied.place fresh among member located directory] at created
        have same : ∀ path, (now.allocate ⟨now.newFileMode, content⟩).get path = now.get path :=
          fun _ => rfl
        have inodes : now.inodes <+: (now.allocate ⟨now.newFileMode, content⟩).inodes :=
          List.prefix_append _ _
        have valid : Entry.ValidFor (now.allocate ⟨now.newFileMode, content⟩).inodes.length
            (.file now.inodes.length) := by
          simp [Entry.ValidFor]
        exact copied.create filled same inodes valid (fun isDir => by cases isDir) created
  · exact copied.weaken _

theorem copied_items (fresh : Fresh start raw top) (ok : Bool) :
    Copied top tree.items start (tree.items.foldl (copyItem raw) (start, ok)).1 := by
  suffices loop : ∀ (rest done : List (Path × Leaf)) (now : FS) (ok : Bool),
      tree.items = done ++ rest → Copied top done start now →
        Copied top tree.items start (rest.foldl (copyItem raw) (now, ok)).1 by
    refine loop tree.items [] start ok rfl ⟨fun _ _ found => found, .refl _ start, ?_⟩
    intro path entry proper present
    rw [fresh.empty _ ⟨List.prefix_append _ _, by simp [proper]⟩] at present
    cases present
  intro rest
  induction rest with
  | nil =>
      intro done now ok whole copied
      rw [whole, List.append_nil]
      exact copied
  | cons item rest ih =>
      intro done now ok whole copied
      have among : done ⊆ tree.items := by
        rw [whole]
        exact List.subset_append_left _ _
      have member : item ∈ tree.items := by simp [whole]
      have later : item.1 ∉ done.map Prod.fst := by
        have unique := tree.nodup
        rw [whole, List.map_append, List.nodup_append] at unique
        intro earlier
        exact unique.2.2 _ earlier _ (by simp) rfl
      exact ih (done ++ [item]) _ (copyItem raw (now, ok) item).2 (by simp [whole])
        (copied.item fresh among member later ok)

end

theorem frame_copyTree (ordinary : dst.getLast? ≠ some dot) (bound : Bound rootfs fs dst)
    (tree : Tree) : Frame (Below rootfs) fs (copyTree fs tree dst).1 := by
  have made := frame_newDirs bound.makes
  unfold copyTree
  dsimp only
  split
  · rename_i done
    obtain ⟨top, fresh, leads⟩ := fresh_newDirs ordinary done
    have copied : Copied top tree.items (newDirs fs dst).1 _ := copied_items fresh (newDirs fs dst).2
    exact made.trans (copied.frame.mono fun _ deeper => (bound.leads top leads).extend deeper.1)
  · exact made

/-- The place of a copy is bound to the rootfs; for a directory, also once what is
there is removed, and its name is not a dot. -/
structure Fits (rootfs : Path) (fs : FS) (dst : List Name) (source : Source) : Prop where
  bound : Bound rootfs fs dst
  again : ∀ tree, source = .dir tree → Bound rootfs (fs.rmtree dst) dst
  ordinary : ∀ tree, source = .dir tree → dst.getLast? ≠ some dot

theorem Bound.leads_now (bound : Bound rootfs fs dst) : Leads rootfs fs dst :=
  fun path located => bound.leads path (namei_ahead (.refl (fun _ => True) fs) located).1

theorem frame_copyMatch {target : List Name} {into : Bool} {found : Match}
    (fits : Fits rootfs fs (destination fs target into found) found.source) :
    Frame (Below rootfs) fs (copyMatch fs target into found).1 := by
  unfold copyMatch
  dsimp only
  split
  · rename_i tree same
    have ordinary := fits.ordinary tree same
    have removed := removes_rmtree fits.bound.leads_now
    split
    · split
      · exact removed.frame.trans (frame_copyTree ordinary (fits.again tree same) tree)
      · exact removed.frame
    · exact frame_copyTree ordinary fits.bound tree
  · exact frame_copyFile fits.bound _

def AllFit (rootfs : Path) (target : List Name) : FS → List (Option (Bool × Match)) → Prop
  | _, [] => True
  | _, none :: _ => True
  | fs, some (into, found) :: more =>
      Fits rootfs fs (destination fs target into found) found.source ∧
        ((copyMatch fs target into found).2 = true →
          AllFit rootfs target (copyMatch fs target into found).1 more)

theorem frame_copyAll {target : List Name} (copies : List (Option (Bool × Match)))
    (fit : AllFit rootfs target fs copies) : Frame (Below rootfs) fs (copyAll target fs copies).1 := by
  induction copies generalizing fs with
  | nil => exact .refl _ fs
  | cons job more ih =>
      cases job with
      | none => exact .refl _ fs
      | some job =>
          obtain ⟨into, found⟩ := job
          have copied := frame_copyMatch fit.1
          rw [copyAll]
          split
          · rename_i done
            exact copied.trans (ih (fit.2 done))
          · exact copied

theorem makedirs_child_spec {cur : Path} {part : Name} (plain : PlainName part)
    (directory : fs.isDirAt cur = true) (notLink : fs.isSymlinkAt (cur ++ [part]) = false) :
    Frame (Below cur) fs (fs.makedirs (cur ++ [part])).1 ∧ ((fs.makedirs (cur ++ [part])).2 = true →
        (fs.makedirs (cur ++ [part])).1.isDirAt (cur ++ [part]) = true) := by
  have childBelow : Below cur (cur ++ [part]) := below_append_singleton.mpr (List.prefix_refl _)
  refine ⟨frame_makedirs ?_, ?_⟩
  · intro path missing
    rw [ahead_child directory plain] at missing
    split at missing
    · rw [List.mem_singleton.mp missing]
      exact childBelow
    · cases missing
  intro done
  cases found : fs.get (cur ++ [part]) with
  | none =>
      rw [makedirs_child directory plain found]
      have valid : Entry.ValidFor fs.inodes.length (.dir fs.newDirMode) := trivial
      refine isDirAt_iff.mpr ⟨fs.newDirMode, ?_⟩
      rw [get_add directory found plain valid, if_pos rfl]
  | some entry =>
      have head : fs.pathExists cur = true := pathExists_of_isDirAt directory
      have refused : fs.mkdir (cur ++ [part]) = none := by
        simp [mkdir, namei_child directory plain, create, found]
      have still : fs.makedirs (cur ++ [part]) = (fs, fs.isdir (cur ++ [part])) := by
        simp [makedirs, makedirsRev, head, refused]
      rw [still] at done ⊢
      rwa [isdir_child directory plain notLink] at done

theorem ensureParts_spec (parts : List Name) (cur : Path) (plain : ∀ part ∈ parts, PlainName part)
    (directory : fs.isDirAt cur = true) :
    Frame (Below cur) fs (ensureParts fs cur parts).1 ∧ ((ensureParts fs cur parts).2 = true →
        (ensureParts fs cur parts).1.isDirAt (cur ++ parts) = true) := by
  induction parts generalizing fs cur with
  | nil => exact ⟨.refl _ fs, fun _ => by simpa [ensureParts] using directory⟩
  | cons part parts ih =>
      have partPlain := plain part List.mem_cons_self
      have childBelow : Below cur (cur ++ [part]) := below_append_singleton.mpr (List.prefix_refl _)
      have located := namei_child directory partPlain
      have leads : Leads cur fs (cur ++ [part]) := by
        intro path found
        rw [located] at found
        cases found
        exact childBelow
      rw [ensureParts]
      split
      · exact ⟨.refl _ fs, by simp⟩
      rename_i now cleared
      have removed : Removes cur fs now ∧ now.isSymlinkAt (cur ++ [part]) = false := by
        split at cleared
        · have gone := lexists_unlink cleared
          have removes := removes_unlink leads cleared
          refine ⟨removes, isSymlinkAt_of_get_none ?_⟩
          have kept : now.isDirAt cur = true := by
            rw [removes.frame.isDirAt fun below => below.2 rfl]
            exact directory
          exact lexists_eq_false.mp gone _ (namei_child kept partPlain)
        · rename_i notLink
          cases cleared
          rw [islink_child directory partPlain, Bool.not_eq_true] at notLink
          exact ⟨.refl cur fs, notLink⟩
      have kept : now.isDirAt cur = true := by
        rw [removed.1.frame.isDirAt fun below => below.2 rfl]
        exact directory
      have made := makedirs_child_spec partPlain kept removed.2
      have first := removed.1.frame.trans made.1
      dsimp only
      split
      · rename_i done
        have rest := ih (cur ++ [part]) (fun other member => plain other (List.mem_cons_of_mem _ member))
          (made.2 done)
        refine ⟨first.trans (rest.1.mono fun _ deeper => childBelow.extend deeper.1), ?_⟩
        simpa using rest.2
      · rename_i failed
        exact ⟨first, fun done => absurd done failed⟩

theorem commonPrefix_append (start path : Path) : commonPrefix (start ++ path) start = start.length := by
  induction start with
  | nil => cases path <;> rfl
  | cons name start ih => simp [commonPrefix, ih]

theorem relParts_append (start path : Path) : relParts (start ++ path) start = path := by
  simp [relParts, commonPrefix_append]

theorem ensure_spec (directory : fs.isDirAt rootfs = true) (whole : ∀ name ∈ raw, '/' ∉ name)
    (inside : rootfs <+: place raw) :
    Frame (Below rootfs) fs (ensureRootfsDirPath fs rootfs raw).1 ∧
      ((ensureRootfsDirPath fs rootfs raw).2 = true →
        (ensureRootfsDirPath fs rootfs raw).1.isDirAt (place raw) = true) := by
  have plain := plain_place whole
  obtain ⟨parts, shape⟩ := inside
  rw [ensureRootfsDirPath, ← shape, relParts_append]
  refine ensureParts_spec parts rootfs (fun part member => plain part ?_) directory
  rw [← shape]
  exact List.mem_append_right _ member

private theorem through {cur : Path} {raw : List Name} (noUp : dotdot ∉ raw)
    (directory : fs.isDirAt (cur ++ stripDots raw) = true) (rest : List Name) :
    (∀ onLink, fs.aheadComps onLink cur (raw ++ rest) =
      fs.aheadComps onLink (cur ++ stripDots raw) rest) ∧
    (∀ follow onLink, fs.walkComps follow onLink cur (raw ++ rest) =
      fs.walkComps follow onLink (cur ++ stripDots raw) rest) := by
  induction raw generalizing cur with
  | nil => simp [stripDots]
  | cons name raw ih =>
      rw [List.mem_cons, not_or] at noUp
      by_cases stays : name = [] ∨ name = dot
      · have shape : stripDots (name :: raw) = stripDots raw := by
          rcases stays with blank | dots
          · simp [stripDots, blank]
          · simp [stripDots, dots]
        rw [shape] at directory ⊢
        have later := ih noUp.2 directory
        refine ⟨fun onLink => ?_, fun follow onLink => ?_⟩
        · rw [List.cons_append, aheadComps, if_pos stays, later.1]
        · rw [List.cons_append, walkComps, if_pos stays, later.2]
      · have shape : cur ++ stripDots (name :: raw) = cur ++ [name] ++ stripDots raw := by
          simp [stripDots, not_or.mp stays]
        rw [shape] at directory ⊢
        obtain ⟨mode, found⟩ := isDirAt_iff.mp (isDirAt_above directory (List.prefix_append _ _))
        have later := ih noUp.2 directory
        refine ⟨fun onLink => ?_, fun follow onLink => ?_⟩
        · rw [List.cons_append, aheadComps, if_neg stays, if_neg (Ne.symm noUp.1), found, later.1]
        · rw [List.cons_append, walkComps, if_neg stays, if_neg (Ne.symm noUp.1), found, later.2]

theorem place_of_noUp {raw : List Name} (noUp : dotdot ∉ raw) : place raw = stripDots raw := by
  rw [place, foldl_goTo noUp, List.nil_append]

theorem ahead_through {raw : List Name} (noUp : dotdot ∉ raw)
    (directory : fs.isDirAt (place raw) = true) (rest : List Name) :
    fs.ahead (raw ++ rest) = fs.ahead (place raw ++ rest) := by
  rw [ahead_append_dir directory]
  rw [place_of_noUp noUp] at directory ⊢
  exact (@through fs [] raw noUp directory rest).1 _

theorem namei_through {raw : List Name} {follow : Bool} (noUp : dotdot ∉ raw)
    (directory : fs.isDirAt (place raw) = true) (rest : List Name) :
    fs.namei (raw ++ rest) follow = fs.namei (place raw ++ rest) follow := by
  rw [namei_append_dir directory]
  rw [place_of_noUp noUp] at directory ⊢
  exact (@through fs [] raw noUp directory rest).2 _ _

theorem joinLast_shape (raw : List Name) (name : Name) :
    ∃ base, joinLast raw name = base ++ [name] ∧ place base = place raw ∧ base ⊆ raw := by
  unfold joinLast
  split
  · rename_i blank
    obtain ⟨above, shape⟩ := List.getLast?_eq_some_iff.mp blank
    refine ⟨raw.dropLast, rfl, ?_, List.dropLast_subset raw⟩
    rw [shape, List.dropLast_concat, place_concat, goTo, if_pos (.inl rfl)]
  · exact ⟨raw, rfl, rfl, List.Subset.refl raw⟩

/-- Where the target of a copy lies: it is a directory, or a name in one that is
neither a directory nor a link. -/
inductive Settled (fs : FS) (target : List Name) : Prop where
  | directory (here : fs.isDirAt (place target) = true)
  | free {above : List Name} {last : Name} (shape : target = above ++ [last]) (plain : PlainName last)
      (here : fs.isDirAt (place above) = true) (notDir : fs.isDirAt (place target) = false)
      (notLink : fs.isSymlinkAt (place target) = false)

section
variable {target : List Name} {into : Bool} {found : Match}

theorem ahead_into (noUp : dotdot ∉ target) (here : fs.isDirAt (place target) = true) (name : Name) :
    fs.ahead (joinLast target name) = fs.ahead (place target ++ [name]) := by
  obtain ⟨base, shape, same, among⟩ := joinLast_shape target name
  rw [shape, ← same]
  exact ahead_through (fun up => noUp (among up)) (same ▸ here) _

theorem isdir_target (noUp : dotdot ∉ target) (here : fs.isDirAt (place target) = true) :
    fs.isdir target = true := by
  have walked := @namei_through fs target true noUp here []
  rw [List.append_nil, List.append_nil, namei_dir here] at walked
  obtain ⟨mode, present⟩ := isDirAt_iff.mp here
  simp [isdir, stat, walked, present]

theorem ahead_destination (noUp : dotdot ∉ target) (settled : Settled fs target) {path : Path}
    (listed : path ∈ (fs.ahead (destination fs target into found)).1 ∨
      (fs.ahead (destination fs target into found)).2 = some path) :
    path = place target ∧ fs.isDirAt (place target) = false ∨ path = place target ++ [found.name] := by
  cases settled with
  | directory here =>
      have joined : destination fs target into found = joinLast target found.name := by
        rw [destination, isdir_target noUp here, Bool.or_true, if_pos rfl]
      rw [joined, ahead_into noUp here, ahead_child here found.plain] at listed
      rcases listed with missing | leads
      · split at missing
        · exact .inr (List.mem_singleton.mp missing)
        · cases missing
      · exact .inr (Option.some.inj leads).symm
  | @free above last shape plain here notDir notLink =>
      have noUpAbove : dotdot ∉ above := fun up => noUp (by simp [shape, up])
      have name : place target = place above ++ [last] := by
        rw [shape, place_concat_plain plain]
      unfold destination at listed
      split at listed
      · have joined : joinLast target found.name = above ++ ([last] ++ [found.name]) := by
          rw [joinLast, shape, if_neg (by simp [plain.1]), List.append_assoc]
        rw [joined, ahead_through noUpAbove here, ahead_append_dir here] at listed
        simp only [maxSymlinks, aheadFrom, List.singleton_append] at listed
        rw [aheadComps_plain plain, ← name] at listed
        cases present : fs.get (place target) with
        | none =>
            have deeper := get_eq_none_below present (List.prefix_append _ [found.name])
            rw [present] at listed
            dsimp only at listed
            rw [aheadComps_plain found.plain, deeper] at listed
            have either : path = place target ∨ path = place target ++ [found.name] := by
              simpa [aheadComps, eq_comm] using listed
            exact either.imp_left fun same => ⟨same, notDir⟩
        | some entry =>
            cases entry with
            | dir mode =>
                rw [isDirAt_of_get present] at notDir
                cases notDir
            | file ino =>
                rw [present] at listed
                simp at listed
            | symlink text =>
                rw [isSymlinkAt_of_get present] at notLink
                cases notLink
      · have walk : fs.ahead target =
            (if fs.get (place target) = none then [place target] else [], some (place target)) := by
          rw [shape, ahead_through noUpAbove here, ahead_child here plain, ← name, ← shape]
        rw [walk] at listed
        rcases listed with missing | leads
        · split at missing
          · exact .inl ⟨List.mem_singleton.mp missing, notDir⟩
          · cases missing
        · exact .inl ⟨(Option.some.inj leads).symm, notDir⟩

theorem bound_destination (noUp : dotdot ∉ target) (settled : Settled fs target) {top : Path}
    (inside : top <+: place target)
    (strict : fs.isDirAt (place target) = false → Below top (place target)) :
    Bound top fs (destination fs target into found) := by
  have below : ∀ path, path ∈ (fs.ahead (destination fs target into found)).1 ∨
      (fs.ahead (destination fs target into found)).2 = some path → Below top path := by
    intro path listed
    cases ahead_destination noUp settled listed with
    | inl itself =>
        rw [itself.1]
        exact strict itself.2
    | inr child =>
        rw [child]
        exact below_append_singleton.mpr inside
  exact ⟨fun path missing => below path (.inl missing), fun path leads => below path (.inr leads)⟩

theorem rmtree_destination (noUp : dotdot ∉ target) (settled : Settled fs target) :
    Settled (fs.rmtree (destination fs target into found)) target ∧
      (fs.rmtree (destination fs target into found)).isDirAt (place target) =
        fs.isDirAt (place target) ∧
      destination (fs.rmtree (destination fs target into found)) target into found =
        destination fs target into found := by
  cases settled with
  | directory here =>
      have bound : Bound (place target) fs (destination fs target into found) :=
        bound_destination noUp (.directory here) (List.prefix_refl _) fun notDir => by
          rw [here] at notDir
          cases notDir
      have removed := removes_rmtree bound.leads_now
      have still : (fs.rmtree (destination fs target into found)).isDirAt (place target) = true := by
        rw [removed.frame.isDirAt fun below => below.2 rfl]
        exact here
      refine ⟨.directory still, still.trans here.symm, ?_⟩
      unfold destination at still ⊢
      rw [isdir_target noUp still, isdir_target noUp here]
  | free shape plain here notDir notLink =>
      have settled : Settled fs target := .free shape plain here notDir notLink
      have same : fs.rmtree (destination fs target into found) = fs := by
        unfold rmtree
        cases located : fs.namei (destination fs target into found) false with
        | none => rfl
        | some path =>
            have leads := (namei_ahead (.refl (fun _ => True) fs) located).1
            have leaf : fs.isDirAt path = false := by
              cases ahead_destination noUp settled (.inr leads) with
              | inl itself => rw [itself.1, notDir]
              | inr child =>
                  rw [child]
                  exact isDirAt_eq_false_of_get_none (get_append_of_not_dir notDir (by simp))
            simp [leaf]
      rw [same]
      exact ⟨settled, rfl, rfl⟩

theorem destination_ordinary (noUp : dotdot ∉ target) (settled : Settled fs target) :
    (destination fs target into found).getLast? ≠ some dot := by
  have joined : (joinLast target found.name).getLast? ≠ some dot := by
    obtain ⟨base, shape, _⟩ := joinLast_shape target found.name
    rw [shape, List.getLast?_concat]
    simpa using found.plain.2.1
  unfold destination
  split
  · exact joined
  rename_i notInto
  cases settled with
  | directory here => simp [isdir_target noUp here] at notInto
  | free shape plain here notDir notLink =>
      rw [shape, List.getLast?_concat]
      simpa using plain.2.1

theorem fits_of_settled (noUp : dotdot ∉ target) (settled : Settled fs target) {top : Path}
    (inside : top <+: place target)
    (strict : fs.isDirAt (place target) = false → Below top (place target)) :
    Fits top fs (destination fs target into found) found.source where
  bound := bound_destination noUp settled inside strict
  again := by
    intro tree _
    obtain ⟨removed, kind, same⟩ := @rmtree_destination fs target into found noUp settled
    have bound : Bound top _ (destination _ target into found) :=
      bound_destination noUp removed inside (kind ▸ strict)
    rwa [same] at bound
  ordinary := fun _ _ => destination_ordinary noUp settled

variable {path : Path}

theorem notLink_create {other : Path} {entry : Entry} {after : FS}
    (valid : entry.ValidFor fs.inodes.length) (leaf : entry.isSymlink = false)
    (made : fs.create path entry = some after) (notLink : fs.isSymlinkAt other = false) :
    after.isSymlinkAt other = false := by
  by_cases same : other = path
  · rw [same, isSymlinkAt_of_get (create_get valid made), leaf]
  · rw [(create_frame made).isSymlinkAt same, notLink]

theorem Removes.notLink (removes : Removes rootfs fs now)
    (notLink : fs.isSymlinkAt path = false) : now.isSymlinkAt path = false := by
  cases found : now.get path with
  | none => exact isSymlinkAt_of_get_none found
  | some entry =>
      rw [isSymlinkAt_of_get (removes.fewer _ _ found)] at notLink
      rw [isSymlinkAt_of_get found, notLink]

theorem notLink_copyFile (bound : Bound rootfs fs dst) {content : List UInt8}
    (notLink : fs.isSymlinkAt path = false) :
    (copyFile fs content dst).1.isSymlinkAt path = false := by
  have made := (grown_makedirs fs dst.dropLast).isSymlinkAt notLink
  have leads : Leads rootfs (fs.makedirs dst.dropLast).1 dst :=
    fun path located => bound.leads path (namei_ahead (grown_makedirs fs _) located).1
  have cleared := removes_clearPlace leads
  have gone := cleared.1.notLink made
  unfold copyFile
  dsimp only
  split
  · split
    · rename_i done
      split
      · rename_i after written
        obtain ⟨_, _, created⟩ := writeFile_missing (cleared.2 done) written
        exact notLink_create (by simp [Entry.ValidFor]) rfl created gone
      · exact gone
    · exact gone
  · exact made

theorem notLink_copyTree (ordinary : dst.getLast? ≠ some dot) (tree : Tree)
    (away : ∀ top, (fs.ahead dst).2 = some top → ¬ Below top path)
    (notLink : fs.isSymlinkAt path = false) :
    (copyTree fs tree dst).1.isSymlinkAt path = false := by
  have made := (grown_newDirs fs dst).isSymlinkAt notLink
  unfold copyTree
  dsimp only
  split
  · rename_i done
    obtain ⟨top, fresh, leads⟩ := fresh_newDirs ordinary done
    have copied : Copied top tree.items (newDirs fs dst).1 _ := copied_items fresh (newDirs fs dst).2
    rw [copied.frame.isSymlinkAt (away top leads)]
    exact made
  · exact made

theorem notLink_copyMatch (fits : Fits rootfs fs (destination fs target into found) found.source)
    (away : ∀ top, (fs.ahead (destination fs target into found)).2 = some top → ¬ Below top path)
    (again : ∀ top, ((fs.rmtree (destination fs target into found)).ahead
      (destination fs target into found)).2 = some top → ¬ Below top path)
    (notLink : fs.isSymlinkAt path = false) :
    (copyMatch fs target into found).1.isSymlinkAt path = false := by
  unfold copyMatch
  dsimp only
  split
  · rename_i tree same
    have ordinary := fits.ordinary tree same
    have removed := (removes_rmtree fits.bound.leads_now).notLink notLink
    split
    · split
      · exact notLink_copyTree ordinary tree again removed
      · exact removed
    · exact notLink_copyTree ordinary tree away notLink
  · exact notLink_copyFile fits.bound notLink

theorem isDirAt_copyMatch (noUp : dotdot ∉ target) (here : fs.isDirAt (place target) = true) :
    (copyMatch fs target into found).1.isDirAt (place target) = true := by
  have fits : Fits (place target) fs (destination fs target into found) found.source :=
    fits_of_settled noUp (.directory here) (List.prefix_refl _) fun notDir => by
      rw [here] at notDir
      cases notDir
  rw [(frame_copyMatch fits).isDirAt fun below => below.2 rfl]
  exact here

theorem settled_copyMatch (noUp : dotdot ∉ target) (settled : Settled fs target) :
    Settled (copyMatch fs target into found).1 target := by
  cases settled with
  | directory here => exact .directory (isDirAt_copyMatch noUp here)
  | @free above last shape plain here notDir notLink =>
      have settled : Settled fs target := .free shape plain here notDir notLink
      have name : place target = place above ++ [last] := by
        rw [shape, place_concat_plain plain]
      have fits : Fits (place above) fs (destination fs target into found) found.source := by
        refine fits_of_settled noUp settled ?_ fun _ => ?_
        · rw [name]
          exact List.prefix_append _ _
        · rw [name]
          exact below_append_singleton.mpr (List.prefix_refl _)
      have still : (copyMatch fs target into found).1.isDirAt (place above) = true := by
        rw [(frame_copyMatch fits).isDirAt fun below => below.2 rfl]
        exact here
      have higher : ∀ top, top = place target ∨ top = place target ++ [found.name] →
          ¬ Below top (place target) := by
        rintro top (rfl | rfl) below
        · exact below.2 rfl
        · have short := below.1.length_le
          rw [List.length_append, List.length_singleton] at short
          exact Nat.not_succ_le_self _ short
      have after : (copyMatch fs target into found).1.isSymlinkAt (place target) = false := by
        obtain ⟨removed, _, same⟩ := @rmtree_destination fs target into found noUp settled
        refine notLink_copyMatch fits (fun top leads => ?_) (fun top leads => ?_) notLink
        · exact higher top ((ahead_destination noUp settled (.inr leads)).imp_left And.left)
        · have again := @ahead_destination _ target into found noUp removed top
          rw [same] at again
          exact higher top ((again (.inr leads)).imp_left And.left)
      cases kind : (copyMatch fs target into found).1.isDirAt (place target) with
      | true => exact .directory kind
      | false => exact .free shape plain still kind after

theorem allFit_of_settled (noUp : dotdot ∉ target) (settled : Settled fs target)
    (inside : rootfs <+: place target)
    (strict : fs.isDirAt (place target) = true ∨ Below rootfs (place target))
    (copies : List (Option (Bool × Match))) : AllFit rootfs target fs copies := by
  induction copies generalizing fs with
  | nil => trivial
  | cons job more ih =>
      cases job with
      | none => trivial
      | some job =>
          obtain ⟨into, found⟩ := job
          refine ⟨fits_of_settled noUp settled inside fun notDir => ?_, fun _ => ?_⟩
          · exact strict.resolve_left (by simp [notDir])
          · exact ih (settled_copyMatch noUp settled)
              (strict.imp_left fun here => isDirAt_copyMatch noUp here)

end

theorem slash_not_mem_inRootfs (directory : fs.isDirAt rootfs = true) (dest : Text) :
    ∀ name ∈ inRootfs rootfs dest, '/' ∉ name := by
  obtain ⟨mode, found⟩ := isDirAt_iff.mp directory
  intro name member
  rcases List.mem_append.mp member with above | below
  · exact (plainName_of_get found above).2.2.2
  · exact slash_not_mem_splitSlash _ name below

theorem slash_not_mem_ensuredDir (directory : fs.isDirAt rootfs = true) (dest : Text) :
    ∀ name ∈ ensuredDir rootfs dest, '/' ∉ name := by
  intro name member
  unfold ensuredDir at member
  split at member
  · exact slash_not_mem_inRootfs directory _ name member
  · exact slash_not_mem_inRootfs directory _ name (List.mem_of_mem_dropLast member)

theorem prefix_place (directory : fs.isDirAt rootfs = true) {parts : List Name}
    (noUp : dotdot ∉ parts) : rootfs <+: place (rootfs ++ parts) := by
  obtain ⟨mode, found⟩ := isDirAt_iff.mp directory
  have plain : place rootfs = rootfs := place_of_plain fun name member => plainName_of_get found member
  rw [place_append, foldl_goTo noUp, plain]
  exact List.prefix_append _ _

theorem prefix_inRootfs (directory : fs.isDirAt rootfs = true)
    (noUp : dotdot ∉ inRootfs rootfs dest) : rootfs <+: place (inRootfs rootfs dest) :=
  prefix_place directory fun up => noUp (List.mem_append_right _ up)

theorem prefix_ensuredDir (directory : fs.isDirAt rootfs = true)
    (noUp : dotdot ∉ inRootfs rootfs dest) : rootfs <+: place (ensuredDir rootfs dest) := by
  unfold ensuredDir
  split
  · exact prefix_inRootfs directory noUp
  obtain ⟨parts, last, split⟩ := exists_parts (dest.dropWhile (· = '/'))
  have shape : inRootfs rootfs dest = rootfs ++ parts ++ [last] := by
    rw [inRootfs, split, List.append_assoc]
  rw [shape, List.dropLast_concat]
  exact prefix_place directory fun up => noUp (by simp [shape, up])

theorem settled_of_ensured (directory : fs.isDirAt rootfs = true) (noUp : dotdot ∉ inRootfs rootfs dest)
    (ensured : fs.isDirAt (place (ensuredDir rootfs dest)) = true)
    (notLink : endsWithSlash dest = true ∨ fs.isSymlinkAt (place (inRootfs rootfs dest)) = false) :
    Settled fs (inRootfs rootfs dest) := by
  unfold ensuredDir at ensured
  split at ensured
  · exact .directory ensured
  rename_i noSlash
  have notLink := notLink.resolve_left noSlash
  obtain ⟨parts, last, split⟩ := exists_parts (dest.dropWhile (· = '/'))
  have shape : inRootfs rootfs dest = rootfs ++ parts ++ [last] := by
    rw [inRootfs, split, List.append_assoc]
  have whole := slash_not_mem_inRootfs directory dest last (by simp [shape])
  rw [shape, List.dropLast_concat] at ensured
  by_cases stays : last = [] ∨ last = dot
  · refine .directory ?_
    rw [shape, place_concat, goTo, if_pos stays]
    exact ensured
  rw [not_or] at stays
  have plain : PlainName last := by
    refine ⟨stays.1, stays.2, ?_, whole⟩
    intro up
    exact noUp (by simp [shape, up])
  cases kind : fs.isDirAt (place (inRootfs rootfs dest)) with
  | true => exact .directory kind
  | false => exact .free shape plain ensured kind notLink

/-- What an instruction has to meet. The directory of a destination, read as text,
is in the rootfs, and every copy fits. A working directory makes nothing outside. -/
def Permitted (rootfs : Path) (progress : Progress) : Instruction → Prop
  | .copy dest sources =>
      let full := fullDest progress.workdir dest
      let ensured := ensureRootfsDirPath progress.fs rootfs (ensuredDir rootfs full)
      rootfs <+: place (ensuredDir rootfs full) ∧ (ensured.2 = true →
          AllFit rootfs (inRootfs rootfs full) ensured.1 (jobs (endsWithSlash full) sources))
  | .workdir args => Makes rootfs progress.fs (inRootfs rootfs (fullWorkdir args))
  | .other after _ => ∀ path, ¬ Below rootfs path → after.obs path = progress.fs.obs path

theorem permitted_of_noUp (directory : progress.fs.isDirAt rootfs = true)
    (noUp : dotdot ∉ inRootfs rootfs (fullDest progress.workdir dest))
    (notLink : endsWithSlash (fullDest progress.workdir dest) = true ∨
      (ensureRootfsDirPath progress.fs rootfs
        (ensuredDir rootfs (fullDest progress.workdir dest))).1.isSymlinkAt
          (place (inRootfs rootfs (fullDest progress.workdir dest))) = false) :
    Permitted rootfs progress (.copy dest sources) := by
  have whole := slash_not_mem_ensuredDir directory (fullDest progress.workdir dest)
  have inside := prefix_ensuredDir directory noUp
  have ensured := ensure_spec directory whole inside
  refine ⟨inside, fun done => ?_⟩
  have here := ensured.2 done
  have outside : ¬ Below rootfs rootfs := fun below => below.2 rfl
  have still := (ensured.1.isDirAt outside).trans directory
  refine allFit_of_settled noUp (settled_of_ensured still noUp here notLink) ?_ ?_ _
  · exact prefix_inRootfs directory noUp
  by_cases itself : place (inRootfs rootfs (fullDest progress.workdir dest)) = rootfs
  · left
    rwa [itself]
  · exact .inr ⟨prefix_inRootfs directory noUp, Ne.symm itself⟩

theorem frame_copyInstruction (directory : progress.fs.isDirAt rootfs = true)
    (permitted : Permitted rootfs progress (.copy dest sources)) :
    Frame (Below rootfs) progress.fs (copyInstruction rootfs progress dest sources).1 := by
  have whole := slash_not_mem_ensuredDir directory (fullDest progress.workdir dest)
  have ensured := ensure_spec directory whole permitted.1
  unfold copyInstruction
  dsimp only
  split
  · rename_i done
    exact ensured.1.trans (frame_copyAll _ (permitted.2 done))
  · exact ensured.1

theorem step_outside {after : Progress} {instruction : Instruction} (directory : progress.fs.isDirAt rootfs = true)
    (permitted : Permitted rootfs progress instruction)
    (done : step rootfs progress instruction = some after) :
    ∀ path, ¬ Below rootfs path → after.fs.obs path = progress.fs.obs path := by
  unfold step at done
  split at done
  · cases done
  cases instruction with
  | copy dest sources =>
      cases done
      exact fun path outside => (frame_copyInstruction directory permitted).obs outside
  | workdir args =>
      cases done
      exact fun path outside => (frame_makedirs permitted).obs outside
  | other next workdir =>
      cases done
      exact permitted

/-- In a run whose instructions meet the condition, every path outside the rootfs
shows what it did at the start, and so does the rootfs directory itself. -/
theorem instructions_stay {first last : Progress} (directory : first.fs.isDirAt rootfs = true)
    (run : Reaches (step rootfs) (Permitted rootfs) first last) :
    ∀ path, ¬ Below rootfs path → last.fs.obs path = first.fs.obs path := by
  refine run.invariant (fun now => ∀ path, ¬ Below rootfs path → now.fs.obs path = first.fs.obs path)
    (fun path _ => rfl) ?_
  intro now instruction next same permitted done path outside
  have still : now.fs.isDirAt rootfs = true := by
    rw [isDirAt_eq_any_obs, same rootfs fun below => below.2 rfl, ← isDirAt_eq_any_obs]
    exact directory
  exact (step_outside still permitted done path outside).trans (same path outside)

/-- Other instructions, and other parties, leave the rest of the file system alone. -/
def Elsewhere (rootfs : Path) (progress : Progress) : Instruction → Prop
  | .other after _ => ∀ path, ¬ Below rootfs path → after.obs path = progress.fs.obs path
  | .copy _ _ | .workdir _ => True

private def oneFile : Match := ⟨['f'], by decide, .file [1]⟩

private def linkedImage : Progress where
  fs := .populate [.dir (pathOf "run/rootfs"), .dir (pathOf "data"),
    .symlink (pathOf "run/rootfs/l") ⟨true, pathOf "data"⟩]
  workdir := ['/']
  ended := false

theorem copy_follows_link :
    ¬ ∀ (rootfs : Path) (first last : Progress), first.fs.isDirAt rootfs = true →
      Reaches (step rootfs) (Elsewhere rootfs) first last →
      ∀ path, ¬ Below rootfs path → last.fs.obs path = first.fs.obs path := by
  intro stays
  have permitted : Elsewhere (pathOf "run/rootfs") linkedImage (.copy "/l".toList [[oneFile]]) := trivial
  have written := stays (pathOf "run/rootfs") linkedImage _ (by decide +kernel)
    (.step .refl permitted rfl) (pathOf "data/f") (by decide +kernel)
  revert written
  decide +kernel

private def straightImage : Progress where
  fs := .populate [.dir (pathOf "run/rootfs/srv"), .dir (pathOf "srv"),
    .symlink (pathOf "run/rootfs/l") ⟨true, pathOf "srv"⟩]
  workdir := ['/']
  ended := false

private def afterCopy : Progress where
  fs := (copyInstruction (pathOf "run/rootfs") straightImage "/l/".toList [[oneFile]]).1
  workdir := ['/']
  ended := !(copyInstruction (pathOf "run/rootfs") straightImage "/l/".toList [[oneFile]]).2

private def afterWorkdir : Progress where
  fs := (afterCopy.fs.makedirs (pathOf "run/rootfs/srv/app")).1
  workdir := "/srv/app".toList
  ended := !(afterCopy.fs.makedirs (pathOf "run/rootfs/srv/app")).2

/-- `COPY f /l/` puts a directory in the place of the link, and `WORKDIR /srv/app` makes one. -/
theorem instructions_stay_straight :
    afterWorkdir.fs.obs (pathOf "srv/f") = straightImage.fs.obs (pathOf "srv/f") := by
  have copy : Permitted (pathOf "run/rootfs") straightImage (.copy "/l/".toList [[oneFile]]) :=
    permitted_of_noUp (by decide +kernel) (by decide +kernel) (.inl (by decide +kernel))
  have workdir : Permitted (pathOf "run/rootfs") afterCopy (.workdir "/srv/app".toList) := by
    show ∀ path ∈ _, _
    decide +kernel
  have copied : step (pathOf "run/rootfs") straightImage (.copy "/l/".toList [[oneFile]]) =
      some afterCopy := rfl
  have made : step (pathOf "run/rootfs") afterCopy (.workdir "/srv/app".toList) =
      some afterWorkdir := by
    rw [step, if_neg (by decide +kernel)]
    rfl
  exact instructions_stay (by decide +kernel) (.step (.step .refl copy copied) workdir made)
    (pathOf "srv/f") (by decide +kernel)

end PDocker.Build
