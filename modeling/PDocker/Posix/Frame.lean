import Mathlib.Data.List.GetD
import PDocker.Posix.Calls

/-!
# Frames

What an operation may have changed, as a relation between the tree before and
the tree after. `Frame` bounds the touched paths, `Pruned` says which paths
are gone and that all others are as before.
-/

set_option autoImplicit false

namespace PDocker.Posix

/-- `after` differs from `before` only at `touched` paths, and no inode that
was there has changed. -/
structure Frame (touched : Path → Prop) (before after : FS) : Prop where
  get : ∀ path, ¬ touched path → after.get path = before.get path
  inodes : before.inodes <+: after.inodes

namespace Frame

variable {touched other : Path → Prop} {first second third : FS}

theorem refl (touched : Path → Prop) (fs : FS) : Frame touched fs fs :=
  ⟨fun _ _ => rfl, List.prefix_refl _⟩

theorem trans (left : Frame touched first second) (right : Frame touched second third) :
    Frame touched first third :=
  ⟨fun path free => (right.get path free).trans (left.get path free), left.inodes.trans right.inodes⟩

theorem mono (frame : Frame touched first second) (wider : ∀ path, touched path → other path) :
    Frame other first second :=
  ⟨fun path free => frame.get path fun hit => free (wider path hit), frame.inodes⟩

theorem entry_obs (frame : Frame touched first second) {entry : Entry}
    (valid : entry.ValidFor first.inodes.length) :
    entry.obs second.inodes = entry.obs first.inodes := by
  obtain ⟨more, shape⟩ := frame.inodes
  cases entry with
  | dir | symlink => rfl
  | file ino =>
      have same : second.inodes.getD ino default = first.inodes.getD ino default := by
        rw [← shape]
        exact List.getD_append _ _ _ _ valid
      simp only [Entry.obs, same]

variable {path : Path}

theorem obs_of_get (frame : Frame touched first second)
    (same : second.get path = first.get path) : second.obs path = first.obs path := by
  unfold FS.obs
  rw [same]
  cases found : first.get path with
  | none => rfl
  | some entry =>
      exact congrArg some (frame.entry_obs (first.wellFormed.valid found))

theorem obs (frame : Frame touched first second) (free : ¬ touched path) :
    second.obs path = first.obs path :=
  frame.obs_of_get (frame.get path free)

theorem isDirAt (frame : Frame touched first second) (free : ¬ touched path) :
    second.isDirAt path = first.isDirAt path := by
  simp only [FS.isDirAt, frame.get path free]

theorem isSymlinkAt (frame : Frame touched first second) (free : ¬ touched path) :
    second.isSymlinkAt path = first.isSymlinkAt path := by
  simp only [FS.isSymlinkAt, frame.get path free]

end Frame

namespace FS

theorem frame_remove (fs : FS) (path : Path) : Frame (path <+: ·) fs (fs.remove path) := by
  refine ⟨fun other free => ?_, by simp⟩
  by_cases top : path = []
  · simp [remove, top]
  · simp [get_remove top, free]

theorem frame_add (fs : FS) (parent : Path) (name : Name) (entry : Entry) :
    Frame (· = parent ++ [name]) fs (fs.add parent name entry) :=
  ⟨fun _ different => get_add_of_ne different, by simp⟩

theorem frame_setDirMode (fs : FS) (path : Path) (mode : Nat) :
    Frame (· = path) fs (fs.setDirMode path mode) :=
  ⟨fun _ different => get_setDirMode_of_ne different, by simp⟩

theorem frame_allocate (fs : FS) (inode : Inode) : Frame (fun _ => False) fs (fs.allocate inode) :=
  ⟨fun _ _ => rfl, by simp⟩

end FS

/-- `after` is `before` without the `lost` paths. -/
structure Pruned (lost : Path → Prop) (before after : FS) : Prop where
  gone : ∀ path, lost path → after.get path = none
  kept : ∀ path, ¬ lost path → after.get path = before.get path
  inodes : after.inodes = before.inodes

namespace Pruned

variable {lost more : Path → Prop} {first second third : FS}

theorem of_absent {fs : FS} (absent : ∀ path, lost path → fs.get path = none) : Pruned lost fs fs :=
  ⟨absent, fun _ _ => rfl, rfl⟩

theorem trans (left : Pruned lost first second) (right : Pruned more second third) :
    Pruned (fun path => lost path ∨ more path) first third := by
  refine ⟨fun path hit => ?_, fun path free => ?_, right.inodes.trans left.inodes⟩
  · by_cases late : more path
    · exact right.gone path late
    · rw [right.kept path late]
      exact left.gone path (hit.resolve_right late)
  · rw [right.kept path fun hit => free (.inr hit), left.kept path fun hit => free (.inl hit)]

theorem congr (pruned : Pruned lost first second) (same : ∀ path, lost path ↔ more path) :
    Pruned more first second :=
  ⟨fun path hit => pruned.gone path ((same path).mpr hit),
    fun path free => pruned.kept path fun hit => free ((same path).mp hit), pruned.inodes⟩

theorem frame (pruned : Pruned lost first second) : Frame lost first second :=
  ⟨pruned.kept, by rw [pruned.inodes]⟩

theorem get_eq_or_none (pruned : Pruned lost first second) (path : Path) :
    second.get path = none ∨ second.get path = first.get path := by
  by_cases hit : lost path
  · exact .inl (pruned.gone path hit)
  · exact .inr (pruned.kept path hit)

variable {path : Path}

theorem isSymlinkAt_eq_false (pruned : Pruned lost first second)
    (notLink : first.isSymlinkAt path = false) : second.isSymlinkAt path = false := by
  rcases pruned.get_eq_or_none path with removed | same
  · simp [FS.isSymlinkAt, removed]
  · simpa [FS.isSymlinkAt, same] using notLink

theorem obs_gone (pruned : Pruned lost first second) (hit : lost path) : second.obs path = none :=
  FS.obs_eq_none_iff.mpr (pruned.gone path hit)

theorem obs_kept (pruned : Pruned lost first second) (free : ¬ lost path) :
    second.obs path = first.obs path :=
  pruned.frame.obs free

end Pruned

namespace FS

theorem pruned_remove {fs : FS} {path : Path} (nonempty : path ≠ []) :
    Pruned (path <+: ·) fs (fs.remove path) :=
  ⟨fun other below => by simp [get_remove nonempty, below],
    fun other free => by simp [get_remove nonempty, free], inodes_remove _ _⟩

theorem pruned_clear (fs : FS) (path : Path) : Pruned (Below path) fs (fs.clear path) :=
  ⟨fun other below => by simp [get_clear, below], fun other free => by simp [get_clear, free], rfl⟩

theorem inodes_rmtree (fs : FS) (raw : List Name) : (fs.rmtree raw).inodes = fs.inodes := by
  unfold rmtree
  cases fs.namei raw false with
  | none => rfl
  | some path =>
      dsimp only
      split
      · cases removed : (fs.clear path).rmdir raw with
        | none => rfl
        | some after =>
            simp only [rmdir] at removed
            split at removed
            · cases removed
            obtain ⟨located, _, removed⟩ := Option.bind_eq_some_iff.mp removed
            split at removed
            · cases removed
              simp
            · cases removed
      · rfl

theorem pruned_rmtree_child {fs : FS} {top : Path} {name : Name} (plain : PlainName name)
    (directory : fs.isDirAt (top ++ [name]) = true) :
    Pruned (top ++ [name] <+: ·) fs (fs.rmtree (top ++ [name])) :=
  ⟨fun other below => by rw [get_rmtree_child plain directory, if_pos below],
    fun other free => by rw [get_rmtree_child plain directory, if_neg free], inodes_rmtree _ _⟩

end FS

end PDocker.Posix
