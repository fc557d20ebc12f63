import PDocker.Posix.Frame

/-!
# Directory walks

`os.walk(top, followlinks=False)`, top down. A directory is listed when the
walk reaches it, its body runs, and its subdirectories are entered in listing
order unless they have become links. The body may change the tree, so the walk
runs over any state from which the current tree can be read.
-/

set_option autoImplicit false

namespace PDocker.Posix

namespace FS

/-- Listed names that `DirEntry.is_dir` counts as directories (links are followed). -/
def scanDirs (fs : FS) (raw : List Name) : List Name :=
  ((fs.listdir raw).getD []).filter fun name => fs.isdir (raw ++ [name])

def scanFiles (fs : FS) (raw : List Name) : List Name :=
  ((fs.listdir raw).getD []).filter fun name => !fs.isdir (raw ++ [name])

end FS

section
variable {State : Type}

def osWalk (view : State → FS) (top : List Name)
    (body : State → Path → List Name → List Name → State) : Nat → Path → State → State
  | 0, _, state => state
  | fuel + 1, rel, state =>
      if (view state).isdir (top ++ rel) then
        ((view state).scanDirs (top ++ rel)).foldl
          (fun now name =>
            if (view now).islink (top ++ rel ++ [name]) then now
            else osWalk view top body fuel (rel ++ [name]) now)
          (body state rel ((view state).scanDirs (top ++ rel)) ((view state).scanFiles (top ++ rel)))
      else state

end

namespace FS

variable {fs : FS} {top : Path} {name : Name}

theorem scanDirs_of_isDirAt (directory : fs.isDirAt top = true) :
    fs.scanDirs top = (fs.names top).filter fun name => fs.isdir (top ++ [name]) := by
  simp [scanDirs, listdir_of_isDirAt directory]

theorem scanFiles_of_isDirAt (directory : fs.isDirAt top = true) :
    fs.scanFiles top = (fs.names top).filter fun name => !fs.isdir (top ++ [name]) := by
  simp [scanFiles, listdir_of_isDirAt directory]

theorem mem_scanFiles_append_scanDirs (directory : fs.isDirAt top = true) :
    name ∈ fs.scanFiles top ++ fs.scanDirs top ↔ fs.get (top ++ [name]) ≠ none := by
  rw [scanDirs_of_isDirAt directory, scanFiles_of_isDirAt directory]
  simp only [List.mem_append, List.mem_filter, mem_names]
  cases fs.isdir (top ++ [name]) <;> simp

theorem nodup_scanFiles_append_scanDirs (directory : fs.isDirAt top = true) :
    (fs.scanFiles top ++ fs.scanDirs top).Nodup := by
  rw [scanDirs_of_isDirAt directory, scanFiles_of_isDirAt directory]
  refine List.nodup_append.mpr ⟨(nodup_names _ _).filter _, (nodup_names _ _).filter _, ?_⟩
  intro left leftMember right rightMember same
  subst same
  rw [List.mem_filter] at leftMember rightMember
  simp [rightMember.2] at leftMember

theorem namei_child_follow (directory : fs.isDirAt top = true) (plain : PlainName name)
    (notLink : fs.isSymlinkAt (top ++ [name]) = false) :
    fs.namei (top ++ [name]) true = some (top ++ [name]) := by
  rw [namei_append_dir directory]
  simp only [maxSymlinks, resolveFrom]
  rw [walkComps_plain plain]
  cases found : fs.get (top ++ [name]) with
  | none => simp
  | some entry =>
      cases entry with
      | dir | file => simp [walkComps]
      | symlink target => simp [isSymlinkAt, found] at notLink

theorem isdir_child (directory : fs.isDirAt top = true) (plain : PlainName name)
    (notLink : fs.isSymlinkAt (top ++ [name]) = false) :
    fs.isdir (top ++ [name]) = fs.isDirAt (top ++ [name]) := by
  simp only [isdir, stat, namei_child_follow directory plain notLink, Option.bind_some, isDirAt]
  cases fs.get (top ++ [name]) with
  | none => rfl
  | some entry => cases entry <;> rfl

theorem islink_child (directory : fs.isDirAt top = true) (plain : PlainName name) :
    fs.islink (top ++ [name]) = fs.isSymlinkAt (top ++ [name]) := by
  simp only [islink, lstat_child directory plain, isSymlinkAt]
  cases fs.get (top ++ [name]) with
  | none => rfl
  | some entry => cases entry <;> rfl

end FS

section
variable {State : Type} {view : State → FS} {top : Path}
  {body : State → Path → List Name → List Name → State} {directory : Path → Bool}
  {Inv : List Path → State → Prop}

/-- `Inv visited state` must fix which paths are directories, and survive the
visit of a directory whose ancestors have been visited and whose own subtree
has not. -/
structure WalkInvariant (view : State → FS) (top : Path)
    (body : State → Path → List Name → List Name → State) (directory : Path → Bool)
    (Inv : List Path → State → Prop) : Prop where
  keeps : ∀ {visited state}, Inv visited state →
    ∀ rel, (view state).isDirAt (top ++ rel) = directory rel
  visit : ∀ {visited state rel}, Inv visited state → directory rel = true →
    (∀ above, Below above rel → above ∈ visited) → (∀ seen ∈ visited, ¬ rel <+: seen) →
    Inv (visited ++ [rel]) (body state rel ((view state).scanDirs (top ++ rel))
      ((view state).scanFiles (top ++ rel)))

private def Subtree (directory : Path → Bool) (rel path : Path) : Prop :=
  rel <+: path ∧ directory path = true

private theorem foldl_rule (directory : Path → Bool) (Inv : List Path → State → Prop) (rel : Path)
    (visited : List Path) (names : List Name) (enter : Name → State → State) {state : State}
    (entered : ∀ {name now more}, name ∈ names → Inv (visited ++ more) now →
      (∀ seen ∈ more, ¬ rel ++ [name] <+: seen) →
      ∃ extra, Inv (visited ++ more ++ extra) (enter name now) ∧
        ∀ path, path ∈ extra ↔ Subtree directory (rel ++ [name]) path)
    (unique : names.Nodup) (start : Inv visited state) :
    ∃ more, Inv (visited ++ more) (names.foldl (fun now name => enter name now) state) ∧
      ∀ path, path ∈ more ↔ ∃ name ∈ names, Subtree directory (rel ++ [name]) path := by
  suffices loop : ∀ (rest : List Name) (more : List Path) (now : State), rest.Nodup →
      (∀ name ∈ rest, name ∈ names) → Inv (visited ++ more) now →
      (∀ name ∈ rest, ∀ seen ∈ more, ¬ rel ++ [name] <+: seen) →
      ∃ extra, Inv (visited ++ more ++ extra) (rest.foldl (fun now name => enter name now) now) ∧
        ∀ path, path ∈ extra ↔ ∃ name ∈ rest, Subtree directory (rel ++ [name]) path by
    obtain ⟨extra, holds, members⟩ :=
      loop names [] state unique (fun _ member => member) (by simpa using start) (by simp)
    exact ⟨extra, by simpa using holds, members⟩
  intro rest
  induction rest with
  | nil => intro more now _ _ holds _; exact ⟨[], by simpa using holds, by simp⟩
  | cons name rest ih =>
      intro more now unique known holds free
      obtain ⟨fresh, unique⟩ := List.nodup_cons.mp unique
      obtain ⟨first, holds, firstMembers⟩ :=
        entered (known name (by simp)) holds (free name (by simp))
      rw [List.append_assoc] at holds
      have apart : ∀ other ∈ rest, ∀ seen ∈ more ++ first, ¬ rel ++ [other] <+: seen := by
        intro other member seen seenMember below
        rcases List.mem_append.mp seenMember with old | new
        · exact free other (by simp [member]) seen old below
        have sibling := ((firstMembers seen).mp new).1
        have lengths : (rel ++ [other]).length = (rel ++ [name]).length := by simp
        have same := List.IsPrefix.eq_of_length
          (List.prefix_of_prefix_length_le below sibling lengths.le) lengths
        have equal : other = name := by simpa using same
        exact fresh (equal ▸ member)
      obtain ⟨extra, holds, members⟩ :=
        ih (more ++ first) (enter name now) unique (fun other member => known other (by simp [member]))
          holds apart
      refine ⟨first ++ extra, by simpa [List.append_assoc] using holds, fun path => ?_⟩
      simp [firstMembers, members]

private theorem osWalk_subtree (rule : WalkInvariant view top body directory Inv) :
    ∀ (fuel : Nat) (rel : Path) (visited : List Path) (state : State),
      (∀ path, directory (rel ++ path) = true → path.length < fuel) →
      Inv visited state → directory rel = true →
      (∀ above, Below above rel → above ∈ visited) → (∀ seen ∈ visited, ¬ rel <+: seen) →
      ∃ more, Inv (visited ++ more) (osWalk view top body fuel rel state) ∧
        ∀ path, path ∈ more ↔ Subtree directory rel path := by
  intro fuel
  induction fuel with
  | zero =>
      intro rel visited state bound _ here _ _
      exact absurd (bound [] (by simpa using here)) (by simp)
  | succ fuel ih =>
      intro rel visited state bound holds here above free
      have present : (view state).isDirAt (top ++ rel) = true := by rw [rule.keeps holds, here]
      have visited' := rule.visit holds here above free
      have isSub : ∀ name, directory (rel ++ [name]) = true →
          name ∈ (view state).scanDirs (top ++ rel) := by
        intro name sub
        have childDir : (view state).isDirAt (top ++ rel ++ [name]) = true := by
          rw [List.append_assoc, rule.keeps holds, sub]
        obtain ⟨mode, found⟩ := FS.isDirAt_iff.mp childDir
        rw [FS.scanDirs_of_isDirAt present, List.mem_filter]
        exact ⟨FS.mem_names.mpr (by rw [found]; exact Option.some_ne_none _),
          FS.isdir_of_isDirAt childDir⟩
      rw [osWalk, if_pos (FS.isdir_of_isDirAt present)]
      obtain ⟨more, holds', members⟩ := foldl_rule directory Inv rel (visited ++ [rel])
        ((view state).scanDirs (top ++ rel))
        (fun name now =>
          if (view now).islink (top ++ rel ++ [name]) then now
          else osWalk view top body fuel (rel ++ [name]) now)
        (by
          intro name now more member holdsNow freeNow
          rw [FS.scanDirs_of_isDirAt present, List.mem_filter] at member
          have plain := FS.plainName_of_mem_names member.1
          have parentNow : (view now).isDirAt (top ++ rel) = true := by
            rw [rule.keeps holdsNow, here]
          have childNow : (view now).isDirAt (top ++ rel ++ [name]) = directory (rel ++ [name]) := by
            rw [List.append_assoc, rule.keeps holdsNow]
          cases sub : directory (rel ++ [name]) with
          | true =>
              -- a real directory: not a link, and entered with the induction hypothesis
              rw [sub] at childNow
              have notLink : (view now).islink (top ++ rel ++ [name]) = false := by
                rw [FS.islink_child parentNow plain]
                exact FS.isSymlinkAt_of_isDirAt childNow (List.prefix_refl _)
              rw [if_neg (by rw [notLink]; exact Bool.false_ne_true)]
              refine ih (rel ++ [name]) _ now ?_ holdsNow sub ?_ ?_
              · intro path deeper
                have longer := bound (name :: path) (by simpa using deeper)
                simpa using longer
              · intro other below
                obtain ⟨parent, last, shape, under⟩ := below.prefix_parent
                obtain ⟨rfl, -⟩ := List.append_inj' shape rfl
                by_cases same : other = rel
                · simp [same]
                · simp [above other ⟨under, same⟩]
              intro seen seenMember below
              rcases List.mem_append.mp seenMember with early | late
              · rcases List.mem_append.mp early with old | own
                · exact free seen old ((List.prefix_append _ _).trans below)
                rw [List.mem_singleton.mp own] at below
                have shorter := below.length_le
                simp only [List.length_append, List.length_singleton] at shorter
                omega
              · exact freeNow seen late below
          | false =>
              -- a link, or something that is gone: nothing is entered
              rw [sub] at childNow
              refine ⟨[], ?_, fun path => ?_⟩
              · split
                · simpa using holdsNow
                rename_i noLink
                rw [FS.islink_child parentNow plain] at noLink
                have notDir : (view now).isdir (top ++ (rel ++ [name])) = false := by
                  rw [← List.append_assoc,
                    FS.isdir_child parentNow plain (by simpa using noLink), childNow]
                cases fuel with
                | zero => simpa [osWalk] using holdsNow
                | succ fuel => simpa [osWalk, notDir] using holdsNow
              · have empty : ¬ Subtree directory (rel ++ [name]) path := by
                  rintro ⟨below, deeper⟩
                  have directoryHere : (view now).isDirAt (top ++ path) = true := by
                    rw [rule.keeps holdsNow, deeper]
                  have ancestor := FS.isDirAt_above directoryHere
                    (by simpa using (List.prefix_append_right_inj top).mpr below :
                      top ++ rel ++ [name] <+: top ++ path)
                  rw [childNow] at ancestor
                  cases ancestor
                simp [empty])
        (by
          rw [FS.scanDirs_of_isDirAt present]
          exact (FS.nodup_names _ _).filter _)
        visited'
      refine ⟨rel :: more, by simpa using holds', fun path => ?_⟩
      simp only [List.mem_cons, members]
      constructor
      · rintro (rfl | ⟨name, _, below, deeper⟩)
        · exact ⟨List.prefix_refl _, here⟩
        · exact ⟨(List.prefix_append _ _).trans below, deeper⟩
      rintro ⟨⟨rest, rfl⟩, deeper⟩
      cases rest with
      | nil => simp
      | cons name rest =>
          have child : directory (rel ++ [name]) = true := by
            have whole : (view state).isDirAt (top ++ (rel ++ name :: rest)) = true := by
              rw [rule.keeps holds, deeper]
            have part := FS.isDirAt_above whole
              (⟨rest, by simp⟩ : top ++ (rel ++ [name]) <+: top ++ (rel ++ name :: rest))
            rwa [rule.keeps holds] at part
          exact .inr ⟨name, isSub name child, ⟨rest, by simp⟩, deeper⟩

theorem osWalk_rule (rule : WalkInvariant view top body directory Inv) (fuel : Nat)
    (state : State) (bound : ∀ path, directory path = true → path.length < fuel)
    (start : Inv [] state) (root : directory [] = true) :
    ∃ visited, Inv visited (osWalk view top body fuel [] state) ∧
      ∀ path, path ∈ visited ↔ directory path = true := by
  obtain ⟨visited, holds, members⟩ :=
    osWalk_subtree rule fuel [] [] state (by simpa using bound) start root
      (by
        intro above below
        obtain ⟨parent, name, shape, _⟩ := below.prefix_parent
        simp at shape)
      (by simp)
  exact ⟨visited, by simpa using holds, fun path => by simp [members, Subtree]⟩

end

end PDocker.Posix
