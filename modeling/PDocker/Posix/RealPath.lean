import PDocker.Posix.Relocation

/-!
# `os.path.realpath`

The library resolves a path string itself, one name after the other: a missing
name is passed like a directory, a link is resolved by a call of its own, which
remembers what it found. A loop of links leaves the rest of the string as it is.
-/

set_option autoImplicit false

namespace PDocker.Posix

open FS

/-- The links that were met, each with where it leads once that is known. -/
abbrev Seen := List (Path × Option Path)

inductive Joined where
  | resolved (path : Path)
  /-- A loop: the string up to the link and what follows it. -/
  | loop (raw : List Name)

namespace FS

/-- `_joinrealpath`, with the calls for the links; `none` when the interpreter allows no further call. -/
def joinReal (fs : FS) (onLink : Path → List Name → Seen → Option (Joined × Seen)) :
    Path → List Name → Seen → Option (Joined × Seen)
  | cur, [], seen => some (.resolved cur, seen)
  | cur, name :: rest, seen =>
      if name = [] ∨ name = dot then joinReal fs onLink cur rest seen
      else if name = dotdot then joinReal fs onLink cur.dropLast rest seen
      else
        match fs.get (cur ++ [name]) with
        | some (.symlink target) =>
            match seen.lookup (cur ++ [name]) with
            | some (some path) => joinReal fs onLink path rest seen
            | some none => some (.loop (cur ++ name :: rest), seen)
            | none =>
                match onLink (if target.absolute then [] else cur) target.comps ((cur ++ [name], none) :: seen) with
                | some (.resolved path, later) =>
                    joinReal fs onLink path rest ((cur ++ [name], some path) :: later)
                | some (.loop raw, later) => some (.loop (raw ++ rest), later)
                | none => none
        | _ => joinReal fs onLink (cur ++ [name]) rest seen

def realFrom (fs : FS) : Nat → Path → List Name → Seen → Option (Joined × Seen)
  | 0, _, _, _ => none
  | depth + 1, cur, raw, seen => fs.joinReal (fs.realFrom depth) cur raw seen

/-- `os.path.realpath(raw)`; `none` stands for the `RecursionError`. -/
def realpath (fs : FS) (depth : Nat) (raw : List Name) : Option Path :=
  (fs.realFrom depth [] raw []).map fun joined =>
    match joined.1 with
    | .resolved path => path
    | .loop left => place left

end FS

variable {fs tree host : FS} {cur base path : Path} {name : Name} {rest raw : List Name} {seen later : Seen}

/-- The links that were resolved lead where the walk does. -/
def Remembers (fs : FS) (seen : Seen) : Prop :=
  ∀ parent name path, seen.lookup (parent ++ [name]) = some (some path) →
    ∀ rest, Comes fs (parent, name :: rest) (path, rest)

theorem Remembers.cons_none (remembers : Remembers fs seen) (link : Path) :
    Remembers fs ((link, none) :: seen) := by
  intro parent name path found
  rw [List.lookup_cons] at found
  split at found
  · cases found
  · exact remembers parent name path found

theorem Remembers.cons (remembers : Remembers fs seen)
    (leads : ∀ rest, Comes fs (cur, name :: rest) (path, rest)) :
    Remembers fs ((cur ++ [name], some path) :: seen) := by
  intro parent other found known
  rw [List.lookup_cons] at known
  split at known
  · rename_i same
    cases known
    obtain ⟨rfl, tail⟩ := List.append_inj' (beq_iff_eq.mp same) rfl
    cases tail
    exact leads
  · exact remembers parent other found known

structure Resolves (fs : FS) (cur : Path) (raw : List Name) (path : Path) (later : Seen) : Prop where
  comes : ∀ rest, Comes fs (cur, raw ++ rest) (path, rest)
  remembers : Remembers fs later

variable {onLink : Path → List Name → Seen → Option (Joined × Seen)} {depth : Nat}

theorem joinReal_resolves
    (links : ∀ cur raw seen path later, Remembers fs seen → onLink cur raw seen = some (.resolved path, later) →
      Resolves fs cur raw path later) (remembers : Remembers fs seen)
    (found : fs.joinReal onLink cur raw seen = some (.resolved path, later)) : Resolves fs cur raw path later := by
  induction raw generalizing cur seen with
  | nil =>
      cases found
      exact ⟨fun rest => .refl, remembers⟩
  | cons name rest ih =>
      rw [joinReal] at found
      split at found
      · rename_i stays
        have resolves := ih remembers found
        exact ⟨fun more => (comes_stay stays).trans (resolves.comes more), resolves.remembers⟩
      rename_i stays
      split at found
      · rename_i up
        subst up
        have resolves := ih remembers found
        exact ⟨fun more => comes_up.trans (resolves.comes more), resolves.remembers⟩
      rename_i up
      split at found
      · rename_i target isLink
        have first : ∀ more, Comes fs (cur, name :: more) (_, target.comps ++ more) :=
          fun more => comes_link stays up isLink
        split at found
        · rename_i known known_
          have resolves := ih remembers found
          exact ⟨fun more => (remembers cur name known known_ _).trans (resolves.comes more),
            resolves.remembers⟩
        · cases found
        split at found
        · rename_i inner between called
          have linked := links _ _ _ _ _ (remembers.cons_none _) called
          have leads : ∀ more, Comes fs (cur, name :: more) (inner, more) :=
            fun more => (first more).trans (linked.comes more)
          have resolves := ih (linked.remembers.cons leads) found
          exact ⟨fun more => (leads _).trans (resolves.comes more), resolves.remembers⟩
        · cases found
        · cases found
      · rename_i other
        have notLink : fs.isSymlinkAt (cur ++ [name]) = false := by
          rw [Bool.eq_false_iff]
          intro link
          obtain ⟨target, isLink⟩ := isSymlinkAt_iff.mp link
          exact other target isLink
        have resolves := ih remembers found
        exact ⟨fun more => (comes_down stays up notLink).trans (resolves.comes more), resolves.remembers⟩

theorem realFrom_resolves (remembers : Remembers fs seen)
    (found : fs.realFrom depth cur raw seen = some (.resolved path, later)) : Resolves fs cur raw path later := by
  induction depth generalizing cur raw seen path later with
  | zero => cases found
  | succ depth ih => exact joinReal_resolves (fun _ _ _ _ _ known => ih known) remembers found

def Joined.below (base : Path) : Joined → Joined
  | .resolved path => .resolved (base ++ path)
  | .loop raw => .loop (base ++ raw)

def belowSeen (base : Path) (seen : Seen) : Seen := seen.map fun link => (base ++ link.1, link.2.map (base ++ ·))

def belowResult (base : Path) (result : Joined × Seen) : Joined × Seen :=
  (result.1.below base, belowSeen base result.2)

theorem lookup_belowSeen (base link : Path) (seen : Seen) :
    (belowSeen base seen).lookup (base ++ link) = (seen.lookup link).map fun path => path.map (base ++ ·) := by
  induction seen with
  | nil => rfl
  | cons first seen ih =>
      rw [belowSeen, List.map_cons, List.lookup_cons, List.lookup_cons]
      by_cases same : link = first.1
      · simp [same]
      have different : (link == first.1) = false := by simpa using same
      have lifted : (base ++ link == base ++ first.1) = false := by simpa using same
      rw [different, lifted]
      exact ih

theorem Hosts.joinReal (hosts : Hosts host base tree) {onLink' : Path → List Name → Seen → Option (Joined × Seen)}
    (links : ∀ cur raw seen, Remembers tree seen → Staying tree (cur, raw) →
      onLink' (base ++ cur) raw (belowSeen base seen) = (onLink cur raw seen).map (belowResult base))
    (resolves : ∀ cur raw seen path later, Remembers tree seen →
      onLink cur raw seen = some (.resolved path, later) → Resolves tree cur raw path later)
    (remembers : Remembers tree seen) (staying : Staying tree (cur, raw)) :
    host.joinReal onLink' (base ++ cur) raw (belowSeen base seen) =
      (tree.joinReal onLink cur raw seen).map (belowResult base) := by
  induction raw generalizing cur seen with
  | nil => rfl
  | cons name rest ih =>
      rw [FS.joinReal, FS.joinReal]
      by_cases stays : name = [] ∨ name = dot
      · rw [if_pos stays, if_pos stays]
        exact ih remembers (staying.after (comes_stay stays))
      rw [if_neg stays, if_neg stays]
      by_cases up : name = dotdot
      · subst up
        rw [if_pos rfl, if_pos rfl, List.dropLast_append_of_ne_nil staying.inner]
        exact ih remembers (staying.after comes_up)
      rw [if_neg up, if_neg up, List.append_assoc]
      have down : tree.isSymlinkAt (cur ++ [name]) = false →
          host.joinReal onLink' (base ++ (cur ++ [name])) rest (belowSeen base seen) =
            (tree.joinReal onLink (cur ++ [name]) rest seen).map (belowResult base) :=
        fun notLink => ih remembers (staying.after (comes_down stays up notLink))
      rcases hosts.get_cases (cur ++ [name]) with ⟨mode, found, present⟩ | ⟨target, found, present⟩ |
        ⟨ino, other, found, present, _⟩ | ⟨found, present⟩
      · rw [found, present]
        exact down (isSymlinkAt_of_get found)
      · rw [found, present, lookup_belowSeen]
        have relative := staying.relative stays up found
        have behind := staying.after (comes_link stays up found)
        simp only [relative, Bool.false_eq_true, ↓reduceIte] at behind ⊢
        cases known : seen.lookup (cur ++ [name]) with
        | some before =>
            cases before with
            | some path => exact ih remembers (staying.after (remembers cur name path known rest))
            | none =>
                dsimp only [Option.map_some, Option.map_none]
                rw [belowResult, Joined.below, List.append_assoc]
        | none =>
            have called := links cur target.comps _ (remembers.cons_none (cur ++ [name])) behind.front
            have pushed : belowSeen base ((cur ++ [name], none) :: seen) =
                (base ++ (cur ++ [name]), none) :: belowSeen base seen := rfl
            rw [pushed] at called
            dsimp only [Option.map_none]
            rw [called]
            cases result : onLink cur target.comps ((cur ++ [name], none) :: seen) with
            | none => rfl
            | some pair =>
                obtain ⟨joined, later⟩ := pair
                cases joined with
                | loop left =>
                    have shifted : base ++ left ++ rest = base ++ (left ++ rest) := List.append_assoc _ _ _
                    exact congrArg (fun raw => some (Joined.loop raw, belowSeen base later)) shifted
                | resolved path =>
                    have linked := resolves _ _ _ _ _ (remembers.cons_none _) result
                    have first : ∀ more, Comes tree (cur, name :: more) (cur, target.comps ++ more) := by
                      intro more
                      have step := @comes_link tree cur name more target stays up found
                      rwa [relative, if_neg Bool.false_ne_true] at step
                    have leads : ∀ more, Comes tree (cur, name :: more) (path, more) :=
                      fun more => (first more).trans (linked.comes more)
                    exact ih (linked.remembers.cons leads) (staying.after (leads rest))
      · rw [found, present]
        exact down (isSymlinkAt_of_get found)
      · rw [found, present]
        exact down (isSymlinkAt_of_get_none found)

theorem Hosts.realFrom (hosts : Hosts host base tree) (remembers : Remembers tree seen)
    (staying : Staying tree (cur, raw)) :
    host.realFrom depth (base ++ cur) raw (belowSeen base seen) =
      (tree.realFrom depth cur raw seen).map (belowResult base) := by
  induction depth generalizing cur raw seen with
  | zero => rfl
  | succ depth ih =>
      exact hosts.joinReal (fun _ _ _ known stays => ih known stays)
        (fun _ _ _ _ _ known found => realFrom_resolves known found) remembers staying

theorem realFrom_above {steps : Path} (directory : fs.isDirAt (cur ++ steps) = true) (raw : List Name) :
    fs.realFrom depth cur (steps ++ raw) seen = fs.realFrom depth (cur ++ steps) raw seen := by
  cases depth with
  | zero => rfl
  | succ depth =>
      rw [realFrom, realFrom]
      induction steps generalizing cur with
      | nil => simp
      | cons name steps ih =>
          rw [← List.singleton_append, ← List.append_assoc] at directory
          obtain ⟨mode, found⟩ := isDirAt_iff.mp (isDirAt_above directory (List.prefix_append _ _))
          have plain := plainName_of_get found (List.mem_append_right cur List.mem_cons_self)
          rw [List.cons_append, joinReal, if_neg (by simp [plain.1, plain.2.1]), if_neg plain.2.2.1, found]
          simpa using ih directory

structure StaysReal (tree : FS) (depth : Nat) (raw : List Name) : Prop where
  staying : Staying tree ([], raw)
  left : ∀ left later, tree.realFrom depth [] raw [] = some (.loop left, later) → staysBelow 0 left = true

theorem Hosts.realpath (hosts : Hosts host base tree) (stays : StaysReal tree depth raw) :
    host.realpath depth (base ++ raw) = (tree.realpath depth raw).map (base ++ ·) := by
  have remembers : Remembers tree [] := fun _ _ _ found => by cases found
  have plain : place base = base := by
    obtain ⟨mode, found⟩ := isDirAt_iff.mp hosts.directory
    exact place_of_plain fun name member => plainName_of_get found member
  have above : host.realFrom depth [] (base ++ raw) [] = host.realFrom depth ([] ++ base) raw [] :=
    realFrom_above hosts.directory raw
  have moved : host.realFrom depth (base ++ []) raw (belowSeen base []) = _ :=
    hosts.realFrom remembers stays.staying
  rw [List.append_nil] at moved
  rw [FS.realpath, FS.realpath, above, List.nil_append]
  refine (congrArg _ moved).trans ?_
  rw [Option.map_map, Option.map_map]
  cases result : tree.realFrom depth [] raw [] with
  | none => rfl
  | some pair =>
      obtain ⟨joined, later⟩ := pair
      cases joined with
      | resolved path => rfl
      | loop left =>
          have lexical := place_append_of_stays base (stays.left left later result)
          rw [plain] at lexical
          exact congrArg some lexical

end PDocker.Posix
