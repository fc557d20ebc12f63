import Mathlib.Logic.Relation
import PDocker.Posix.Follow
import PDocker.Posix.Spelling

/-!
# Trees that stand in another place

The same tree, once as a file system of its own and once below a directory of
another. Walks that never climb above the root of the tree, and follow no
absolute link, find the same objects in both.
-/

set_option autoImplicit false

namespace PDocker.Posix

open FS

abbrev Walker := Path × List Name

def nextWalker (fs : FS) : Walker → Option Walker
  | (_, []) => none
  | (cur, name :: rest) =>
      if name = [] ∨ name = dot then some (cur, rest)
      else if name = dotdot then some (cur.dropLast, rest)
      else
        match fs.get (cur ++ [name]) with
        | some (.symlink target) => some (if target.absolute then [] else cur, target.comps ++ rest)
        | _ => some (cur ++ [name], rest)

def Comes (fs : FS) : Walker → Walker → Prop :=
  Relation.ReflTransGen fun walker later => nextWalker fs walker = some later

/-- The next component leads above the root, or to it by an absolute link. -/
def Leaving (fs : FS) (walker : Walker) : Prop :=
  walker.1 = [] ∧ walker.2.head? = some dotdot ∨
    ∃ name target, walker.2.head? = some name ∧ ¬ (name = [] ∨ name = dot) ∧ name ≠ dotdot ∧
      fs.get (walker.1 ++ [name]) = some (.symlink target) ∧ target.absolute = true

def Staying (fs : FS) (walker : Walker) : Prop := ∀ later, Comes fs walker later → ¬ Leaving fs later

variable {fs tree host : FS} {cur base : Path} {name : Name} {rest raw : List Name} {walker later : Walker}

theorem Staying.after (staying : Staying fs walker) (comes : Comes fs walker later) : Staying fs later :=
  fun last more => staying last (comes.trans more)

theorem comes_stay (stays : name = [] ∨ name = dot) : Comes fs (cur, name :: rest) (cur, rest) :=
  .single (by rw [nextWalker, if_pos stays])

theorem comes_up : Comes fs (cur, dotdot :: rest) (cur.dropLast, rest) :=
  .single (by rw [nextWalker, if_neg (by decide), if_pos rfl])

theorem comes_link {target : Target} (stays : ¬ (name = [] ∨ name = dot)) (up : name ≠ dotdot)
    (found : fs.get (cur ++ [name]) = some (.symlink target)) :
    Comes fs (cur, name :: rest) (if target.absolute then [] else cur, target.comps ++ rest) :=
  .single (by rw [nextWalker, if_neg stays, if_neg up, found])

theorem comes_down (stays : ¬ (name = [] ∨ name = dot)) (up : name ≠ dotdot)
    (notLink : fs.isSymlinkAt (cur ++ [name]) = false) :
    Comes fs (cur, name :: rest) (cur ++ [name], rest) := by
  refine .single ?_
  rw [nextWalker, if_neg stays, if_neg up]
  cases found : fs.get (cur ++ [name]) with
  | none => rfl
  | some entry =>
      cases entry with
      | dir mode => rfl
      | file ino => rfl
      | symlink target =>
          rw [isSymlinkAt_of_get found] at notLink
          cases notLink

theorem Staying.inner (staying : Staying fs (cur, dotdot :: rest)) : cur ≠ [] :=
  fun top => staying _ .refl (.inl ⟨top, rfl⟩)

theorem Staying.relative {target : Target} (staying : Staying fs (cur, name :: rest))
    (stays : ¬ (name = [] ∨ name = dot)) (up : name ≠ dotdot)
    (found : fs.get (cur ++ [name]) = some (.symlink target)) : target.absolute = false := by
  cases kind : target.absolute with
  | false => rfl
  | true => exact absurd (.inr ⟨name, target, rfl, stays, up, found, kind⟩) (staying _ .refl)

theorem nextWalker_append (step : nextWalker fs walker = some later) (more : List Name) :
    nextWalker fs (walker.1, walker.2 ++ more) = some (later.1, later.2 ++ more) := by
  obtain ⟨cur, left⟩ := walker
  cases left with
  | nil => cases step
  | cons name rest =>
      simp only [nextWalker, List.cons_append] at step ⊢
      by_cases stays : name = [] ∨ name = dot
      · rw [if_pos stays] at step ⊢
        cases step
        rfl
      rw [if_neg stays] at step ⊢
      by_cases up : name = dotdot
      · rw [if_pos up] at step ⊢
        cases step
        rfl
      rw [if_neg up] at step ⊢
      split at step
      · cases step
        simp
      · cases step
        rfl

theorem Comes.append (comes : Comes fs walker later) (more : List Name) :
    Comes fs (walker.1, walker.2 ++ more) (later.1, later.2 ++ more) := by
  induction comes with
  | refl => exact .refl
  | tail _ step ih => exact ih.trans (.single (nextWalker_append step more))

theorem Staying.front {more : List Name} (staying : Staying fs (cur, raw ++ more)) : Staying fs (cur, raw) := by
  intro later comes leaving
  refine staying _ (comes.append more) ?_
  have kept : ∀ name, later.2.head? = some name → (later.2 ++ more).head? = some name := by
    intro name isFirst
    rw [List.head?_append, isFirst]
    rfl
  cases leaving with
  | inl above => exact .inl ⟨above.1, kept _ above.2⟩
  | inr link =>
      obtain ⟨name, target, isFirst, rest⟩ := link
      exact .inr ⟨name, target, kept _ isFirst, rest⟩

/-- The tree stands in the directory `base` of the host, listed in the same order. -/
structure Hosts (host : FS) (base : Path) (tree : FS) : Prop where
  obs : ∀ path, host.obs (base ++ path) = tree.obs path
  names : ∀ path, host.names (base ++ path) = tree.names path

namespace Hosts

variable (hosts : Hosts host base tree)

include hosts

theorem isDirAt (path : Path) : host.isDirAt (base ++ path) = tree.isDirAt path := by
  rw [isDirAt_eq_any_obs, hosts.obs, ← isDirAt_eq_any_obs]

theorem directory : host.isDirAt base = true := by
  have root := hosts.isDirAt []
  rwa [List.append_nil, isDirAt_root] at root

theorem get_cases (path : Path) :
    (∃ mode, tree.get path = some (.dir mode) ∧ host.get (base ++ path) = some (.dir mode)) ∨
      (∃ target, tree.get path = some (.symlink target) ∧ host.get (base ++ path) = some (.symlink target)) ∨
      (∃ ino other, tree.get path = some (.file ino) ∧ host.get (base ++ path) = some (.file other) ∧
        tree.inodes.getD ino default = host.inodes.getD other default) ∨
      (tree.get path = none ∧ host.get (base ++ path) = none) := by
  have same := hosts.obs path
  unfold FS.obs at same
  cases found : tree.get path with
  | none =>
      rw [found] at same
      exact .inr (.inr (.inr ⟨rfl, Option.map_eq_none_iff.mp same⟩))
  | some entry =>
      rw [found] at same
      obtain ⟨other, present, shown⟩ := Option.map_eq_some_iff.mp same
      cases entry with
      | dir mode =>
          cases other with
          | dir more =>
              cases shown
              exact .inl ⟨_, rfl, present⟩
          | file ino | symlink target => cases shown
      | symlink target =>
          cases other with
          | dir more | file ino => cases shown
          | symlink more =>
              cases shown
              exact .inr (.inl ⟨_, rfl, present⟩)
      | file ino =>
          cases other with
          | dir more | symlink target => cases shown
          | file more =>
              refine .inr (.inr (.inl ⟨ino, more, rfl, present, ?_⟩))
              rw [Entry.obs, Entry.obs, Obs.file.injEq] at shown
              generalize tree.inodes.getD ino default = left at shown ⊢
              generalize host.inodes.getD more default = right at shown ⊢
              cases left
              cases right
              cases shown.1
              cases shown.2
              rfl

theorem resolveFrom {follow : Bool} (links : Nat) (cur : Path) (raw : List Name)
    (staying : Staying tree (cur, raw)) :
    host.resolveFrom follow links (base ++ cur) raw = (tree.resolveFrom follow links cur raw).map (base ++ ·) := by
  induction links, cur, raw using tree.walk_induction with
  | nil links cur => rw [resolveFrom_nil, resolveFrom_nil, Option.map_some]
  | stay links cur name rest stays ih =>
      rw [resolveFrom_stay stays, resolveFrom_stay stays]
      exact ih (staying.after (comes_stay stays))
  | up links cur rest ih =>
      rw [resolveFrom_up, resolveFrom_up, List.dropLast_append_of_ne_nil staying.inner]
      exact ih (staying.after comes_up)
  | down links cur name rest stays up dir link =>
      rw [resolveFrom_down stays up, resolveFrom_down stays up, List.append_assoc]
      rcases hosts.get_cases (cur ++ [name]) with ⟨mode, found, present⟩ | ⟨target, found, present⟩ |
        ⟨ino, other, found, present, _⟩ | ⟨found, present⟩
      · rw [found, present]
        have notLink : tree.isSymlinkAt (cur ++ [name]) = false := isSymlinkAt_of_get found
        exact dir mode found (staying.after (comes_down stays up notLink))
      · rw [found, present]
        have relative := staying.relative stays up found
        have behind := staying.after (comes_link stays up found)
        simp only [relative, Bool.false_eq_true, ↓reduceIte] at behind ⊢
        split
        · rfl
        cases links with
        | zero => rfl
        | succ links =>
            have later := link target links found rfl
            simp only [relative, Bool.false_eq_true, ↓reduceIte] at later
            exact later behind
      · rw [found, present]
        dsimp only
        split <;> rfl
      · rw [found, present]
        dsimp only
        split <;> rfl

theorem namei {follow : Bool} (staying : Staying tree ([], raw)) :
    host.namei (base ++ raw) follow = (tree.namei raw follow).map (base ++ ·) := by
  have walked := @resolveFrom tree host base hosts follow maxSymlinks [] raw staying
  rw [List.append_nil] at walked
  rw [namei_append_dir hosts.directory, walked]
  rfl

theorem isdir (staying : Staying tree ([], raw)) : host.isdir (base ++ raw) = tree.isdir raw := by
  rw [Bool.eq_iff_iff, isdir_iff, isdir_iff, hosts.namei staying]
  constructor
  · rintro ⟨path, located, directory⟩
    obtain ⟨inner, found, rfl⟩ := Option.map_eq_some_iff.mp located
    rw [hosts.isDirAt] at directory
    exact ⟨inner, found, directory⟩
  · rintro ⟨path, located, directory⟩
    rw [← hosts.isDirAt] at directory
    exact ⟨base ++ path, Option.map_eq_some_iff.mpr ⟨path, located, rfl⟩, directory⟩

theorem isSome_get (path : Path) : (host.get (base ++ path)).isSome = (tree.get path).isSome := by
  have same := congrArg Option.isSome (hosts.obs path)
  rwa [FS.obs, FS.obs, Option.isSome_map, Option.isSome_map] at same

theorem pathExists (staying : Staying tree ([], raw)) : host.pathExists (base ++ raw) = tree.pathExists raw := by
  rw [FS.pathExists, FS.pathExists, stat, stat, hosts.namei staying]
  cases tree.namei raw true with
  | none => rfl
  | some path => exact hosts.isSome_get path

theorem lexists (staying : Staying tree ([], raw)) : host.lexists (base ++ raw) = tree.lexists raw := by
  rw [FS.lexists, FS.lexists, lstat, lstat, hosts.namei staying]
  cases tree.namei raw false with
  | none => rfl
  | some path => exact hosts.isSome_get path

theorem listdir (staying : Staying tree ([], raw)) : host.listdir (base ++ raw) = tree.listdir raw := by
  rw [FS.listdir, FS.listdir, hosts.namei staying]
  cases tree.namei raw true with
  | none => rfl
  | some path =>
      rw [Option.map_some]
      dsimp only
      rw [hosts.isDirAt, hosts.names]

end Hosts

def rowsBelow (base : Path) (table : Table) : Table :=
  table.filterMap fun row => if base <+: row.1 then some (row.1.drop base.length, row.2) else none

theorem lookup_rowsBelow (base path : Path) (table : Table) :
    (rowsBelow base table).lookup path = table.lookup (base ++ path) := by
  induction table with
  | nil => rfl
  | cons row table ih =>
      obtain ⟨key, entry⟩ := row
      rw [lookup_cons_path, rowsBelow, List.filterMap_cons]
      by_cases below : base <+: key
      · obtain ⟨inner, rfl⟩ := below
        rw [if_pos (List.prefix_append _ _), List.drop_left]
        dsimp only
        rw [lookup_cons_path, ← rowsBelow, ih]
        simp only [List.append_right_inj]
      · have other : ¬ base ++ path = key := fun same => below ⟨path, same⟩
        rw [if_neg below, if_neg other]
        exact ih

theorem names_rowsBelow (base path : Path) (table : Table) :
    (rowsBelow base table).filterMap (fun row => childOf path row.1) =
      table.filterMap fun row => childOf (base ++ path) row.1 := by
  rw [rowsBelow, List.filterMap_filterMap]
  refine List.filterMap_congr fun row _ => ?_
  obtain ⟨key, entry⟩ := row
  by_cases below : base <+: key
  · obtain ⟨inner, rfl⟩ := below
    refine Option.ext fun name => ?_
    rw [if_pos (List.prefix_append _ _), List.drop_left, Option.bind_some, childOf_eq_some_iff,
      childOf_eq_some_iff, List.append_assoc, List.append_right_inj]
  rw [if_neg below, Option.bind_none]
  symm
  rw [Option.eq_none_iff_forall_ne_some]
  intro name child
  rw [childOf_eq_some_iff] at child
  exact below ⟨path ++ [name], by rw [← List.append_assoc, ← child]⟩

theorem hosts_of_rows (rows : rowsBelow base host.table = tree.table) (inodes : host.inodes = tree.inodes) :
    Hosts host base tree where
  obs path := by rw [FS.obs, FS.obs, FS.get, FS.get, ← lookup_rowsBelow, rows, inodes]
  names path := by rw [FS.names, FS.names, ← names_rowsBelow, rows]

end PDocker.Posix
