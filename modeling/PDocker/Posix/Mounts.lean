import PDocker.Posix.Path

/-!
# Mount tables

A table of mount points in the order in which they were made. The mount over a
path is the deepest one whose point is the path or above it, the latest among
several on one point.
-/

set_option autoImplicit false

namespace PDocker.Posix

section
variable {Source : Type}

def deeper (path : Path) (best : Option (Path × Source)) (mount : Path × Source) : Option (Path × Source) :=
  if mount.1 <+: path then
    match best with
    | none => some mount
    | some other => if other.1.length ≤ mount.1.length then some mount else best
  else best

def covering (table : List (Path × Source)) (path : Path) : Option (Path × Source) :=
  table.foldl (deeper path) none

variable {table : List (Path × Source)} {path : Path} {mount : Path × Source}

theorem covering_concat (table : List (Path × Source)) (mount : Path × Source) (path : Path) :
    covering (table ++ [mount]) path = deeper path (covering table path) mount := by
  simp [covering]

theorem covering_none (free : covering table path = none) : ∀ mount ∈ table, ¬ mount.1 <+: path := by
  induction table using List.reverseRecOn with
  | nil => nofun
  | append_singleton table last ih =>
      simp only [covering_concat, deeper] at free
      split at free
      · split at free
        · cases free
        split at free
        · cases free
        · rename_i found _
          rw [found] at free
          cases free
      · rename_i apart
        intro other member
        rcases List.mem_append.mp member with old | new
        · exact ih free other old
        · rw [List.mem_singleton.mp new]
          exact apart

theorem covering_some (covers : covering table path = some mount) :
    mount.1 <+: path ∧ ∃ earlier later, table = earlier ++ mount :: later ∧
      (∀ other ∈ earlier, other.1 <+: path → other.1.length ≤ mount.1.length) ∧
      ∀ other ∈ later, other.1 <+: path → other.1.length < mount.1.length := by
  induction table using List.reverseRecOn generalizing mount with
  | nil => cases covers
  | append_singleton table last ih =>
      simp only [covering_concat, deeper] at covers
      split at covers
      · rename_i above
        cases found : covering table path with
        | none =>
            rw [found] at covers
            cases covers
            refine ⟨above, table, [], rfl, fun other member below => ?_, nofun⟩
            exact absurd below (covering_none found other member)
        | some best =>
            obtain ⟨_, earlier, later, rfl, shallow, less⟩ := ih found
            rw [found] at covers
            simp only at covers
            split at covers
            · rename_i deep
              cases covers
              refine ⟨above, _, [], rfl, fun other member below => ?_, nofun⟩
              rcases List.mem_append.mp member with old | new
              · exact (shallow other old below).trans deep
              · rcases List.mem_cons.mp new with rfl | new
                · exact deep
                · exact (less other new below).le.trans deep
            · rename_i shallower
              cases covers
              obtain ⟨best, _⟩ := ih found
              refine ⟨best, earlier, later ++ [last], by simp, shallow, fun other member below => ?_⟩
              rcases List.mem_append.mp member with old | new
              · exact less other old below
              · rw [List.mem_singleton.mp new]
                omega
      · rename_i free
        obtain ⟨best, earlier, later, rfl, shallow, less⟩ := ih covers
        refine ⟨best, earlier, later ++ [last], by simp, shallow, fun other member below => ?_⟩
        rcases List.mem_append.mp member with old | new
        · exact less other old below
        · rw [List.mem_singleton.mp new] at below
          exact absurd below free

theorem covering_congr {path other : Path}
    (same : ∀ mount ∈ table, mount.1 <+: path ↔ mount.1 <+: other) :
    covering table path = covering table other := by
  induction table using List.reverseRecOn with
  | nil => rfl
  | append_singleton table last ih =>
      rw [covering_concat, covering_concat, ih fun mount member => same mount (by simp [member])]
      simp only [deeper, same last (by simp)]

end

/-- What a path names when the sources of the mounts are places of a host, and `root`
is mounted below all of them. -/
def mounted (root : Path) (table : List (Path × Path)) (path : Path) : Path :=
  match covering table path with
  | none => root ++ path
  | some (point, source) => source ++ path.drop point.length

end PDocker.Posix
