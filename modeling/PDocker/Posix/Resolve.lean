import PDocker.Posix.Update

/-!
# Path resolution

The kernel's walk along the components of a path string: empty components
and `.` stay, `..` goes up (and stays at the root), a symbolic link restarts
the walk with its text in front of what is left. The last component may be
missing; every other one must be a directory. At most `maxSymlinks` links are
followed.
-/

set_option autoImplicit false

namespace PDocker.Posix

def maxSymlinks : Nat := 40

namespace FS

/-- Walk from `cur` up to the next symbolic link, which is left to `onLink`. -/
def walkComps (fs : FS) (follow : Bool) (onLink : Path → List Name → Option Path) :
    Path → List Name → Option Path
  | cur, [] => some cur
  | cur, name :: rest =>
      if name = [] ∨ name = dot then walkComps fs follow onLink cur rest
      else if name = dotdot then walkComps fs follow onLink cur.dropLast rest
      else
        match fs.get (cur ++ [name]) with
        | some (.dir _) => walkComps fs follow onLink (cur ++ [name]) rest
        | some (.symlink target) =>
            if rest = [] ∧ follow = false then some (cur ++ [name])
            else onLink (if target.absolute then [] else cur) (target.comps ++ rest)
        | some (.file _) | none => if rest = [] then some (cur ++ [name]) else none

def resolveFrom (fs : FS) (follow : Bool) : Nat → Path → List Name → Option Path
  | 0 => fs.walkComps follow fun _ _ => none
  | links + 1 => fs.walkComps follow (fs.resolveFrom follow links)

/-- The physical location that the absolute path with components `raw` names.
`follow` tells whether a link in the last place is followed. -/
def namei (fs : FS) (raw : List Name) (follow : Bool) : Option Path :=
  fs.resolveFrom follow maxSymlinks [] raw

def lstat (fs : FS) (raw : List Name) : Option Entry := (fs.namei raw false).bind fs.get
def stat (fs : FS) (raw : List Name) : Option Entry := (fs.namei raw true).bind fs.get

def lexists (fs : FS) (raw : List Name) : Bool := (fs.lstat raw).isSome
def pathExists (fs : FS) (raw : List Name) : Bool := (fs.stat raw).isSome

def islink (fs : FS) (raw : List Name) : Bool :=
  match fs.lstat raw with
  | some (.symlink _) => true
  | _ => false

def isdir (fs : FS) (raw : List Name) : Bool :=
  match fs.stat raw with
  | some (.dir _) => true
  | _ => false

def isfile (fs : FS) (raw : List Name) : Bool :=
  match fs.stat raw with
  | some (.file _) => true
  | _ => false

/-- `os.listdir`; `none` when the path is not a directory. -/
def listdir (fs : FS) (raw : List Name) : Option (List Name) :=
  match fs.namei raw true with
  | some path => if fs.isDirAt path then some (fs.names path) else none
  | none => none

section
variable {fs : FS} {follow : Bool} {onLink : Path → List Name → Option Path}

theorem walkComps_plain {cur : Path} {name : Name} {rest : List Name} (plain : PlainName name) :
    fs.walkComps follow onLink cur (name :: rest) =
      match fs.get (cur ++ [name]) with
      | some (.dir _) => fs.walkComps follow onLink (cur ++ [name]) rest
      | some (.symlink target) =>
          if rest = [] ∧ follow = false then some (cur ++ [name])
          else onLink (if target.absolute then [] else cur) (target.comps ++ rest)
      | some (.file _) | none => if rest = [] then some (cur ++ [name]) else none := by
  rw [walkComps, if_neg (by simp [plain.1, plain.2.1]), if_neg plain.2.2.1]

variable {rest raw : List Name} {top path : Path} {name : Name}

theorem walkComps_append_dir {cur : Path} {steps : List Name} (directory : fs.isDirAt (cur ++ steps) = true) :
    fs.walkComps follow onLink cur (steps ++ rest) =
      fs.walkComps follow onLink (cur ++ steps) rest := by
  induction steps generalizing cur with
  | nil => simp
  | cons name steps ih =>
      rw [← List.singleton_append, ← List.append_assoc] at directory
      obtain ⟨mode, found⟩ := isDirAt_iff.mp (isDirAt_above directory (List.prefix_append _ _))
      rw [List.cons_append, walkComps_plain (plainName_of_get found (by simp)), found]
      simpa using ih directory

theorem namei_append_dir (directory : fs.isDirAt top = true) :
    fs.namei (top ++ rest) follow = fs.resolveFrom follow maxSymlinks top rest :=
  walkComps_append_dir (by simpa using directory)

@[simp] theorem resolveFrom_nil (links : Nat) (cur : Path) :
    fs.resolveFrom follow links cur [] = some cur := by
  cases links <;> rfl

theorem namei_dir (directory : fs.isDirAt top = true) : fs.namei top follow = some top := by
  have located : fs.namei (top ++ []) follow = _ := namei_append_dir directory
  simpa using located

theorem namei_child (directory : fs.isDirAt top = true)
    (plain : PlainName name) : fs.namei (top ++ [name]) false = some (top ++ [name]) := by
  rw [namei_append_dir directory]
  simp only [maxSymlinks, resolveFrom]
  rw [walkComps_plain plain]
  cases found : fs.get (top ++ [name]) with
  | none => simp
  | some entry => cases entry <;> simp [walkComps]

theorem walkComps_bind_get {cur : Path} {steps : List Name}
    (noLink : ∀ above, above ≠ [] → Below above steps → fs.isSymlinkAt (cur ++ above) = false)
    (final : follow = false ∨ fs.isSymlinkAt (cur ++ steps) = false)
    (plain : ∀ name ∈ steps, PlainName name) :
    (fs.walkComps follow onLink cur steps).bind fs.get = fs.get (cur ++ steps) := by
  induction steps generalizing cur with
  | nil => simp [walkComps]
  | cons name rest ih =>
      rw [walkComps_plain (plain name (by simp))]
      have shift : cur ++ name :: rest = cur ++ [name] ++ rest := by simp
      cases found : fs.get (cur ++ [name]) with
      | none =>
          by_cases last : rest = []
          · simp [last, found]
          · simp only [last, ↓reduceIte, Option.bind_none, shift]
            exact (get_append_of_not_dir (isDirAt_eq_false_of_get_none found) last).symm
      | some entry =>
          cases entry with
          | dir mode =>
              dsimp only
              rw [shift]
              refine ih ?_ (by simpa using final) (fun other member => plain other (by simp [member]))
              intro above nonempty below
              have lifted : Below (name :: above) (name :: rest) := by
                simpa [Below, List.cons_prefix_cons] using below
              simpa using noLink (name :: above) (by simp) lifted
          | file ino =>
              by_cases last : rest = []
              · simp [last, found]
              · simp only [last, ↓reduceIte, Option.bind_none, shift]
                exact (get_append_of_not_dir (by simp [isDirAt, found]) last).symm
          | symlink target =>
              by_cases last : rest = []
              · subst last
                rcases final with nofollow | notLink
                · simp [nofollow, found]
                · simp [isSymlinkAt, found] at notLink
              · have lifted : Below [name] (name :: rest) := by
                  simpa [Below, List.cons_prefix_cons, eq_comm] using last
                simp [isSymlinkAt] at noLink
                exact absurd lifted (fun below => by simpa [found] using noLink [name] (by simp) below)

structure Straight (fs : FS) (path : Path) : Prop where
  notLink : ∀ above, above <+: path → fs.isSymlinkAt above = false
  plain : ∀ name ∈ path, PlainName name

theorem straight_of_isDirAt (directory : fs.isDirAt path = true) : fs.Straight path where
  notLink := by
    intro above below
    obtain ⟨mode, found⟩ := isDirAt_iff.mp (isDirAt_above directory below)
    simp [isSymlinkAt, found]
  plain := by
    obtain ⟨mode, found⟩ := isDirAt_iff.mp directory
    exact fun name member => plainName_of_get found member

theorem Straight.stat (straight : fs.Straight path) : fs.stat path = fs.get path := by
  simpa [FS.stat, namei, resolveFrom, maxSymlinks] using
    @walkComps_bind_get fs true (fs.resolveFrom true 39) [] path
      (fun above _ below => by simpa using straight.notLink above below.1)
      (.inr (by simpa using straight.notLink path (List.prefix_refl _))) straight.plain

theorem Straight.append (straight : fs.Straight path)
    (plain : PlainName name) (notLink : fs.isSymlinkAt (path ++ [name]) = false) :
    fs.Straight (path ++ [name]) where
  notLink := by
    intro above below
    by_cases same : above = path ++ [name]
    · rwa [same]
    · exact straight.notLink above (below_append_singleton.mp ⟨below, same⟩ )
  plain := by
    intro other member
    rcases List.mem_append.mp member with old | last
    · exact straight.plain other old
    · rwa [List.mem_singleton.mp last]

theorem Straight.lstat (straight : fs.Straight path)
    (plain : PlainName name) : fs.lstat (path ++ [name]) = fs.get (path ++ [name]) := by
  have allPlain : ∀ other ∈ path ++ [name], PlainName other := by
    intro other member
    rcases List.mem_append.mp member with old | last
    · exact straight.plain other old
    · rwa [List.mem_singleton.mp last]
  simpa [FS.lstat, namei, resolveFrom, maxSymlinks] using
    @walkComps_bind_get fs false (fs.resolveFrom false 39) [] (path ++ [name])
      (fun above _ below => by
        simpa using straight.notLink above (below_append_singleton.mp below))
      (.inl rfl) allPlain

theorem namei_append_singleton (plain : PlainName name) (located : fs.namei (raw ++ [name]) false = some path) :
    ∃ parent, fs.namei raw true = some parent ∧ path = parent ++ [name] := by
  suffices budget : ∀ (links : Nat) (raw : List Name) (cur : Path),
      fs.resolveFrom false links cur (raw ++ [name]) = some path →
        ∃ parent, fs.resolveFrom true links cur raw = some parent ∧ path = parent ++ [name] from
    budget maxSymlinks raw [] located
  have last : ∀ (onLink : Path → List Name → Option Path) (cur : Path),
      fs.walkComps false onLink cur [name] = some path → path = cur ++ [name] := by
    intro onLink cur located
    rw [walkComps_plain plain] at located
    cases found : fs.get (cur ++ [name]) with
    | none => simpa [found, eq_comm] using located
    | some entry => cases entry <;> simpa [found, walkComps, eq_comm] using located
  have step : ∀ (onLink onLink' : Path → List Name → Option Path),
      (∀ cur raw, onLink cur (raw ++ [name]) = some path →
        ∃ parent, onLink' cur raw = some parent ∧ path = parent ++ [name]) →
      ∀ (raw : List Name) (cur : Path), fs.walkComps false onLink cur (raw ++ [name]) = some path →
        ∃ parent, fs.walkComps true onLink' cur raw = some parent ∧ path = parent ++ [name] := by
    intro onLink onLink' links raw
    induction raw with
    | nil => exact fun cur located => ⟨cur, rfl, last onLink cur located⟩
    | cons first rest ih =>
        intro cur located
        simp only [List.cons_append, walkComps] at located ⊢
        by_cases stays : first = [] ∨ first = dot
        · simp only [stays, ↓reduceIte] at located ⊢
          exact ih cur located
        simp only [stays, ↓reduceIte] at located ⊢
        by_cases up : first = dotdot
        · simp only [up, ↓reduceIte] at located ⊢
          exact ih cur.dropLast located
        simp only [up, ↓reduceIte] at located ⊢
        cases found : fs.get (cur ++ [first]) with
        | none => simp [found] at located
        | some entry =>
            simp only [found] at located ⊢
            cases entry with
            | dir mode => exact ih (cur ++ [first]) located
            | file ino => simp at located
            | symlink text =>
                simp only [List.append_eq_nil_iff, List.cons_ne_self, and_false, false_and,
                  ↓reduceIte, Bool.true_eq_false] at located ⊢
                refine links _ (text.comps ++ rest) ?_
                simpa using located
  intro links
  induction links with
  | zero =>
      intro raw cur located
      exact step _ _ (fun _ _ impossible => by cases impossible) raw cur located
  | succ links ih =>
      intro raw cur located
      exact step _ _ (fun cur raw => ih raw cur) raw cur located

theorem namei_append_of_walk {first : Bool} {last : Path}
    (located : fs.namei raw first = some path) (directory : fs.isDirAt path = true)
    (nonempty : rest ≠ []) (walk : ∀ onLink, fs.walkComps follow onLink path rest = some last) :
    fs.namei (raw ++ rest) follow = some last := by
  have notLeaf : ∀ {entry : Entry}, fs.get path = some entry → entry.isDir = true := by
    intro entry found
    rwa [← isDirAt_of_get found]
  have step : ∀ (onLink onLink' : Path → List Name → Option Path),
      (∀ cur raw, onLink cur raw = some path → onLink' cur (raw ++ rest) = some last) →
      ∀ (raw : List Name) (cur : Path), fs.walkComps first onLink cur raw = some path →
        fs.walkComps follow onLink' cur (raw ++ rest) = some last := by
    intro onLink onLink' links raw
    induction raw with
    | nil =>
        intro cur located
        obtain rfl := Option.some.inj located
        exact walk onLink'
    | cons name more ih =>
        intro cur located
        have longer : more ++ rest ≠ [] := fun both => nonempty (List.append_eq_nil_iff.mp both).2
        simp only [List.cons_append, walkComps, longer, false_and, ↓reduceIte] at located ⊢
        by_cases stays : name = [] ∨ name = dot
        · simp only [stays, ↓reduceIte] at located ⊢
          exact ih cur located
        simp only [stays, ↓reduceIte] at located ⊢
        by_cases up : name = dotdot
        · simp only [up, ↓reduceIte] at located ⊢
          exact ih cur.dropLast located
        simp only [up, ↓reduceIte] at located ⊢
        cases found : fs.get (cur ++ [name]) with
        | none =>
            by_cases final : more = []
            · simp only [found, final, ↓reduceIte, Option.some.injEq] at located
              rw [← located, isDirAt, found] at directory
              cases directory
            · simp [found, final] at located
        | some entry =>
            simp only [found] at located ⊢
            cases entry with
            | dir mode => exact ih (cur ++ [name]) located
            | file ino =>
                by_cases final : more = []
                · simp only [final, ↓reduceIte, Option.some.injEq] at located
                  cases notLeaf (located ▸ found)
                · simp [final] at located
            | symlink text =>
                by_cases final : more = [] ∧ first = false
                · simp only [final, and_self, ↓reduceIte, Option.some.injEq] at located
                  cases notLeaf (located ▸ found)
                · simp only [final, ↓reduceIte] at located ⊢
                  rw [← List.append_assoc]
                  exact links _ _ located
  suffices budget : ∀ (links : Nat) (cur : Path) (raw : List Name),
      fs.resolveFrom first links cur raw = some path →
        fs.resolveFrom follow links cur (raw ++ rest) = some last from
    budget maxSymlinks [] raw located
  intro links
  induction links with
  | zero =>
      exact fun cur raw located => step _ _ (fun _ _ impossible => by cases impossible) raw cur located
  | succ links ih => exact fun cur raw located => step _ _ ih raw cur located

theorem namei_append_child (located : fs.namei raw true = some path) (directory : fs.isDirAt path = true)
    (plain : PlainName name) : fs.namei (raw ++ [name]) false = some (path ++ [name]) := by
  refine namei_append_of_walk located directory (by simp) fun onLink => ?_
  rw [walkComps_plain plain]
  cases found : fs.get (path ++ [name]) with
  | none => simp
  | some entry => cases entry <;> simp [walkComps]

theorem namei_append_blanks {blanks : List Name}
    (located : fs.namei raw follow = some path) (directory : fs.isDirAt path = true)
    (blank : ∀ name ∈ blanks, name = []) : fs.namei (raw ++ blanks) follow = some path := by
  have stay : ∀ (onLink : Path → List Name → Option Path) (blanks : List Name),
      (∀ name ∈ blanks, name = []) → fs.walkComps follow onLink path blanks = some path := by
    intro onLink blanks
    induction blanks with
    | nil => exact fun _ => rfl
    | cons name rest ih =>
        intro blank
        rw [walkComps, if_pos (.inl (blank name (by simp)))]
        exact ih fun other member => blank other (by simp [member])
  cases blanks with
  | nil => simpa using located
  | cons first rest =>
      exact namei_append_of_walk located directory (by simp) fun onLink => stay onLink _ blank

theorem isdir_iff :
    fs.isdir raw = true ↔ ∃ path, fs.namei raw true = some path ∧ fs.isDirAt path = true := by
  simp only [isdir, stat]
  cases fs.namei raw true with
  | none => simp
  | some path =>
      simp only [Option.bind_some, Option.some.injEq, exists_eq_left', isDirAt]
      cases fs.get path with
      | none => simp
      | some entry => cases entry <;> simp

theorem lexists_append_iff (plain : PlainName name) : fs.lexists (raw ++ [name]) = true ↔
      ∃ path, fs.namei raw true = some path ∧ fs.isDirAt path = true ∧
        fs.get (path ++ [name]) ≠ none := by
  simp only [lexists, lstat, Option.isSome_iff_ne_none]
  constructor
  · intro present
    obtain ⟨entry, found⟩ := Option.ne_none_iff_exists'.mp present
    obtain ⟨path, located, found⟩ := Option.bind_eq_some_iff.mp found
    obtain ⟨parent, parentLocated, rfl⟩ := namei_append_singleton plain located
    exact ⟨parent, parentLocated, isDirAt_parent found, by rw [found]; exact Option.some_ne_none _⟩
  · intro present
    obtain ⟨path, located, directory, found⟩ := present
    rw [namei_append_child located directory plain]
    exact found

theorem lexists_of_get {entry : Entry} (found : fs.get path = some entry) : fs.lexists path = true := by
  cases List.eq_nil_or_concat path with
  | inl root =>
      subst root
      simp [lexists, lstat, namei, maxSymlinks, found]
  | inr more =>
      obtain ⟨parent, name, rfl⟩ := more
      rw [List.concat_eq_append] at found ⊢
      have directory := isDirAt_parent found
      rw [lexists_append_iff (plainName_of_get found (by simp))]
      exact ⟨parent, namei_dir directory, directory, by rw [found]; exact Option.some_ne_none _⟩

theorem exists_link_of_lexists {steps : Path} (directory : fs.isDirAt top = true)
    (plain : ∀ name ∈ steps, PlainName name) (reached : fs.lexists (top ++ steps) = true)
    (missing : fs.get (top ++ steps) = none) :
    ∃ above, Below above steps ∧ fs.isSymlinkAt (top ++ above) = true := by
  by_contra noLink
  have straight : ∀ above, above ≠ [] → Below above steps → fs.isSymlinkAt (top ++ above) = false := by
    intro above _ below
    rw [Bool.eq_false_iff]
    exact fun link => noLink ⟨above, below, link⟩
  have read : (fs.resolveFrom false maxSymlinks top steps).bind fs.get = fs.get (top ++ steps) :=
    walkComps_bind_get straight (.inl rfl) plain
  rw [lexists, lstat, namei_append_dir directory, read, missing] at reached
  cases reached

end

end FS

end PDocker.Posix
