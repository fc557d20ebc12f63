import PDocker.Posix.Frame

/-!
# Removals that stay inside a directory

A path string is located inside `top` when the kernel finds its object there.
Removing objects can break such a walk but never lead it elsewhere, so a
condition on the tree before a series of removals covers all of them.
-/

set_option autoImplicit false

namespace PDocker.Posix

/-- `after` is `before` without some objects inside `top`. -/
structure Shrunk (top : Path) (before after : FS) : Prop where
  outside : ∀ path, ¬ top <+: path → after.get path = before.get path
  inside : ∀ path, after.get path = none ∨ after.get path = before.get path
  inodes : after.inodes = before.inodes

theorem Pruned.shrunk {top : Path} {lost : Path → Prop} {before after : FS}
    (pruned : Pruned lost before after) (inside : ∀ path, lost path → top <+: path) :
    Shrunk top before after :=
  ⟨fun path free => pruned.kept path fun hit => free (inside path hit),
    pruned.get_eq_or_none, pruned.inodes⟩

namespace Shrunk

variable {top : Path} {first second third : FS}

theorem refl (top : Path) (fs : FS) : Shrunk top fs fs :=
  ⟨fun _ _ => rfl, fun _ => .inr rfl, rfl⟩

theorem trans (left : Shrunk top first second) (right : Shrunk top second third) :
    Shrunk top first third where
  outside path free := (right.outside path free).trans (left.outside path free)
  inside path := by
    cases right.inside path with
    | inl gone => exact .inl gone
    | inr same =>
        rw [same]
        exact left.inside path
  inodes := right.inodes.trans left.inodes

theorem frame (shrunk : Shrunk top first second) : Frame (top <+: ·) first second :=
  ⟨shrunk.outside, by rw [shrunk.inodes]⟩

theorem get_of_get (shrunk : Shrunk top first second) {path : Path} {entry : Entry}
    (found : second.get path = some entry) : first.get path = some entry := by
  cases shrunk.inside path with
  | inl gone => rw [gone] at found; cases found
  | inr same => rw [← same, found]

end Shrunk

namespace FS

section
variable {fs now : FS} {follow : Bool}

private theorem walkComps_of_fewer {target : Path} {onLink onLink' : Path → List Name → Option Path}
    (fewer : ∀ path entry, now.get path = some entry → fs.get path = some entry)
    (present : now.get target ≠ none)
    (links : ∀ cur raw, onLink cur raw = some target → onLink' cur raw = some target) :
    ∀ (raw : List Name) (cur : Path), now.walkComps follow onLink cur raw = some target →
      fs.walkComps follow onLink' cur raw = some target := by
  intro raw
  induction raw with
  | nil => exact fun cur located => located
  | cons name rest ih =>
      intro cur located
      simp only [walkComps] at located ⊢
      by_cases stays : name = [] ∨ name = dot
      · simp only [stays, ↓reduceIte] at located ⊢
        exact ih cur located
      simp only [stays, ↓reduceIte] at located ⊢
      by_cases up : name = dotdot
      · simp only [up, ↓reduceIte] at located ⊢
        exact ih cur.dropLast located
      simp only [up, ↓reduceIte] at located ⊢
      cases found : now.get (cur ++ [name]) with
      | none =>
          simp only [found] at located
          by_cases last : rest = []
          · simp only [last, ↓reduceIte, Option.some.injEq] at located
            exact absurd (located ▸ found) present
          · simp only [last, ↓reduceIte, reduceCtorEq] at located
      | some entry =>
          simp only [found, fewer _ _ found] at located ⊢
          cases entry with
          | dir mode => exact ih (cur ++ [name]) located
          | file ino => exact located
          | symlink text =>
              by_cases final : rest = [] ∧ follow = false
              · simpa only [final, and_self, ↓reduceIte] using located
              · simp only [final, ↓reduceIte] at located ⊢
                exact links _ _ located

theorem namei_of_fewer {target : Path} {raw : List Name}
    (fewer : ∀ path entry, now.get path = some entry → fs.get path = some entry)
    (located : now.namei raw follow = some target) (present : now.get target ≠ none) :
    fs.namei raw follow = some target := by
  suffices budget : ∀ (links : Nat) (cur : Path) (raw : List Name),
      now.resolveFrom follow links cur raw = some target →
        fs.resolveFrom follow links cur raw = some target from budget maxSymlinks [] raw located
  intro links
  induction links with
  | zero =>
      exact fun cur raw located =>
        walkComps_of_fewer fewer present (fun _ _ impossible => impossible) raw cur located
  | succ links ih =>
      exact fun cur raw located => walkComps_of_fewer fewer present ih raw cur located

end

/-- What `raw` names, if anything, lies inside `top`. -/
def LocatedIn (top : Path) (fs : FS) (raw : List Name) : Prop :=
  ∀ path ∈ fs.namei raw false, (fs.get path).isSome = true → top <+: path

/-- If `raw` leads to a directory, it lies inside `top`. -/
def ListedIn (top : Path) (fs : FS) (raw : List Name) : Prop :=
  ∀ path ∈ fs.namei raw true, fs.isDirAt path = true → top <+: path

instance (top : Path) (fs : FS) (raw : List Name) : Decidable (LocatedIn top fs raw) :=
  inferInstanceAs (Decidable (∀ _ ∈ _, _))

instance (top : Path) (fs : FS) (raw : List Name) : Decidable (ListedIn top fs raw) :=
  inferInstanceAs (Decidable (∀ _ ∈ _, _))

section
variable {fs now : FS} {top : Path} {raw : List Name}

theorem LocatedIn.of_shrunk (located : LocatedIn top fs raw) (shrunk : Shrunk top fs now) :
    LocatedIn top now raw := by
  intro path found present
  have exists_ := Option.isSome_iff_ne_none.mp present
  obtain ⟨entry, foundNow⟩ := Option.ne_none_iff_exists'.mp exists_
  have before := namei_of_fewer (fun _ _ => shrunk.get_of_get) found exists_
  exact located path before (by rw [shrunk.get_of_get foundNow]; rfl)

theorem ListedIn.of_shrunk (listed : ListedIn top fs raw) (shrunk : Shrunk top fs now) :
    ListedIn top now raw := by
  intro path found directory
  obtain ⟨mode, foundNow⟩ := isDirAt_iff.mp directory
  have before := namei_of_fewer (fun _ _ => shrunk.get_of_get) found
    (by rw [foundNow]; exact Option.some_ne_none _)
  exact listed path before (isDirAt_iff.mpr ⟨mode, shrunk.get_of_get foundNow⟩)

theorem ListedIn.child (listed : ListedIn top fs raw) {name : Name} (plain : PlainName name) :
    LocatedIn top fs (raw ++ [name]) := by
  intro path located present
  obtain ⟨parent, parentLocated, rfl⟩ := namei_append_singleton plain located
  obtain ⟨entry, found⟩ := Option.ne_none_iff_exists'.mp (Option.isSome_iff_ne_none.mp present)
  exact (listed parent parentLocated (isDirAt_parent found)).trans (List.prefix_append _ _)

theorem shrunk_unlink (located : LocatedIn top fs raw) : Shrunk top fs ((fs.unlink raw).getD fs) := by
  unfold unlink
  cases walk : fs.namei raw false with
  | none => exact .refl top fs
  | some path =>
      rw [Option.bind_some]
      cases found : fs.get path with
      | none => exact .refl top fs
      | some entry =>
          have inside : top <+: path := located path walk (by rw [found]; rfl)
          have gone : entry.isDir = false → Shrunk top fs (fs.remove path) := by
            intro leaf
            refine (pruned_remove ?_).shrunk fun other below => inside.trans below
            intro root
            have directory := isDirAt_root fs
            rw [← root, isDirAt_of_get found, leaf] at directory
            cases directory
          cases entry with
          | dir mode => exact .refl top fs
          | file ino | symlink text => exact gone rfl

theorem shrunk_rmdir (located : LocatedIn top fs raw) : Shrunk top fs ((fs.rmdir raw).getD fs) := by
  unfold rmdir
  dsimp only
  split
  · exact .refl top fs
  cases walk : fs.namei (raw.rdropWhile (· = [])) false with
  | none => exact .refl top fs
  | some path =>
      rw [Option.bind_some]
      split
      · rename_i removable
        obtain ⟨mode, found⟩ := isDirAt_iff.mp removable.2.1
        have blanks : ∀ name ∈ raw.rtakeWhile (· = []), name = [] := by
          intro name member
          simpa using List.mem_rtakeWhile_imp member
        have whole := namei_append_blanks walk removable.2.1 blanks
        rw [List.rdropWhile_append_rtakeWhile] at whole
        have inside : top <+: path := located path whole (by rw [found]; rfl)
        exact (pruned_remove removable.1).shrunk fun other below => inside.trans below
      · exact .refl top fs

theorem shrunk_rmtree (located : LocatedIn top fs raw) : Shrunk top fs (fs.rmtree raw) := by
  unfold rmtree
  cases walk : fs.namei raw false with
  | none => exact .refl top fs
  | some path =>
      dsimp only
      split
      · rename_i directory
        obtain ⟨mode, found⟩ := isDirAt_iff.mp directory
        have inside : top <+: path := located path walk (by rw [found]; rfl)
        have emptied : Shrunk top fs (fs.clear path) :=
          (pruned_clear fs path).shrunk fun other below => inside.trans below.1
        exact emptied.trans (shrunk_rmdir (located.of_shrunk emptied))
      · exact .refl top fs

theorem shrunk_foldl {α : Type} (act : FS → α → FS) (items : List α)
    (one : ∀ now, Shrunk top fs now → ∀ item ∈ items, Shrunk top now (act now item)) :
    ∀ now, Shrunk top fs now → Shrunk top fs (items.foldl act now) := by
  induction items with
  | nil => exact fun now shrunk => shrunk
  | cons item items ih =>
      intro now shrunk
      exact ih (fun later shrunk other member => one later shrunk other (by simp [member])) _
        (shrunk.trans (one now shrunk item (by simp)))

end

end FS

end PDocker.Posix
