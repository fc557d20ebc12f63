import PDocker.Direct.BindTable
import PDocker.Posix.Follow

/-!
# Confinement of rewritten paths

The host file system as a tree with links, and the kernel's walk of what the
tracer leaves in the registers of a path argument. The check of a path asks
`realpath` about the path and the directories above it; here it is related to
the object that the kernel then finds or creates.

Permissions are not part of the tree, and the tracee does not change the string
between the check and the call.
-/

set_option autoImplicit false

namespace PDocker.Direct

open Data (Text)
open Posix

/-- What a failed call of the C library leaves in `errno`. -/
structure Errno where
  value : Nat
  positive : 0 < value
  small : value < 4096

def Errno.noEntry : Errno := ⟨ENOENT, by decide, by decide⟩

structure Host where
  fs : FS
  errno : Text → Errno
  rootfs : Path
  rootfsDir : fs.isDirAt rootfs = true
  binds : List BindMap
  tty : Bool

namespace Host

/-- `rootfs` went through `realpath` when the executor started. -/
def room (host : Host) : Room := ⟨render host.rootfs, host.binds, host.tty⟩

def realpath (host : Host) (path : Text) : Except Nat Text :=
  match host.fs.stat (splitSlash path), host.fs.namei (splitSlash path) true with
  | some _, some found => .ok (render found)
  | _, _ => .error (host.errno path).value

/-- `access(path, F_OK) == 0` -/
def present (host : Host) (path : Text) : Bool := host.fs.pathExists (splitSlash path)

end Host

/-- How a call treats the last component: it follows a link there, takes the link
itself, or takes the name in its directory and nothing else. -/
inductive LastPart
  | follow
  | nofollow
  | parent
deriving DecidableEq

def objectAt (fs : FS) (part : LastPart) (raw : List Name) : Option Path :=
  match part with
  | .follow => fs.namei raw true
  | .nofollow => fs.namei raw false
  | .parent =>
      let trimmed := raw.rdropWhile (· = [])
      if trimmed.getLast?.any fun name => decide (PlainName name) then fs.namei trimmed false else none

def Under (above : Text) (object : Path) : Prop := above = ['/'] ∨ splitSlash above <+: [] :: object

def Inside (room : Room) (object : Path) : Prop :=
  Under room.rootfs object ∨ ∃ m ∈ room.binds, Under m.host object

variable {above path text : Text} {object : Path} {name : Name} {err : Nat} {follow : Bool} {part : LastPart}
  {raw : List Name} {host : Host}

theorem Under.append (under : Under above object) (rest : Path) : Under above (object ++ rest) :=
  under.imp_right fun below => below.trans (List.prefix_append _ _)

theorem Inside.append {room : Room} (inside : Inside room object) (rest : Path) :
    Inside room (object ++ rest) := by
  rcases inside with root | ⟨m, member, under⟩
  · exact .inl (root.append rest)
  · exact .inr ⟨m, member, under.append rest⟩

theorem under_of_check (plain : ∀ name ∈ object, PlainName name)
    (checked : hostPathIsUnderPrefix above (render object) = true) : Under above object := by
  simp only [hostPathIsUnderPrefix, Bool.and_eq_true, decide_eq_true_eq, startsAt_iff] at checked
  by_cases root : object = []
  · subst root
    left
    rcases splitSlash_prefix_iff.mp checked.2 with same | ⟨rest, same⟩
    · exact same.symm
    have short : (render []).length = 1 := rfl
    have filled := List.length_pos_iff.mpr checked.1.1
    rw [same, List.length_append, List.length_cons] at short
    omega
  · right
    rw [splitSlash_render (fun name member => (plain name member).2.2.2) root] at checked
    exact checked.2

theorem inside_of_check {room : Room} (plain : ∀ name ∈ object, PlainName name)
    (checked : hostPathIsUnderAllowedHostPath room (render object) = true) : Inside room object := by
  simp only [hostPathIsUnderAllowedHostPath, hostPathIsUnderBindHost, Bool.or_eq_true,
    List.any_eq_true] at checked
  rcases checked with root | ⟨m, member, under⟩
  · exact .inl (under_of_check plain root)
  · exact .inr ⟨m, member, under_of_check plain under⟩

theorem rdropWhile_append_all {p : Char → Bool} (text : Text) {last : Text} (all : ∀ char ∈ last, p char = true) :
    (text ++ last).rdropWhile p = text.rdropWhile p := by
  induction last using List.reverseRecOn with
  | nil => rw [List.append_nil]
  | append_singleton last char ih =>
      rw [← List.append_assoc, List.rdropWhile_concat_pos _ _ _ (all char (by simp))]
      exact ih fun other member => all other (by simp [member])

theorem splitSlash_slashes (whole : '/' ∉ name) (count : Nat) :
    splitSlash (name ++ List.replicate count '/') = name :: List.replicate count [] := by
  induction count with
  | zero => simpa using splitSlash_of_plain whole
  | succ count ih =>
      rw [List.replicate_succ', ← List.append_assoc, splitSlash_append_slash, ih, List.replicate_succ']
      rfl

theorem pathParent_spec {init : List Name} {count : Nat} (filled : init ≠ [])
    (present : name ≠ []) (split : splitSlash path = init ++ name :: List.replicate count []) :
    (∃ err, 0 < err ∧ pathParent path = .error err) ∨ ∃ up, pathParent path = .ok up ∧
        ∀ (fs : FS) follow, fs.namei (splitSlash up) follow = fs.namei init follow := by
  have whole : ∀ part ∈ init ++ name :: List.replicate count [], '/' ∉ part := by
    rw [← split]
    exact slash_not_mem_splitSlash path
  have above := splitSlash_intercalate (fun part member => whole part (List.mem_append_left _ member)) filled
  generalize List.intercalate ['/'] init = start at above
  have plain : '/' ∉ name := whole name (by simp)
  obtain rfl : path = start ++ '/' :: name ++ List.replicate count '/' := by
    apply splitSlash_inj
    rw [split, List.append_assoc, List.cons_append, splitSlash_append_slash, splitSlash_slashes plain, above]
  have ends : (start ++ '/' :: name).rdropWhile (· = '/') = start ++ '/' :: name := by
    rcases List.eq_nil_or_concat name with rfl | ⟨front, last, rfl⟩
    · exact absurd rfl present
    rw [List.concat_eq_append] at plain ⊢
    rw [← List.cons_append, ← List.append_assoc]
    apply List.rdropWhile_concat_neg
    have away : '/' ≠ last := fun same => plain (List.mem_append_right _ (List.mem_singleton.mpr same))
    simpa using away.symm
  have trimmed : trimTrailingSlashes (start ++ '/' :: name ++ List.replicate count '/') =
      start ++ '/' :: name := by
    have slashes : ∀ char ∈ List.replicate count '/', decide (char = '/') = true := by
      intro char member
      simpa using List.eq_of_mem_replicate member
    rw [trimTrailingSlashes, rdropWhile_append_all _ slashes, ends, if_neg (by simp)]
  have cut : (start ++ '/' :: name).rdropWhile (· ≠ '/') = start ++ ['/'] := by
    rw [← List.singleton_append, ← List.append_assoc, rdropWhile_append_all]
    · exact List.rdropWhile_concat_neg _ _ _ (by simp)
    · intro char member
      have away : char ≠ '/' := fun same => plain (same ▸ member)
      simpa using away
  rw [pathParent, if_neg (by simp)]
  split
  · exact .inl ⟨_, by decide, rfl⟩
  simp only [trimmed, cut, List.append_eq_nil_iff, List.cons_ne_nil, and_false, ↓reduceIte,
    List.dropLast_concat]
  split
  · rename_i root
    subst root
    refine .inr ⟨_, rfl, fun fs follow => ?_⟩
    rw [← above]
    rfl
  · exact .inr ⟨_, rfl, fun fs follow => by rw [above]⟩

theorem normalize_error (failed : normalizeAbsolutePathLexical path = .error err) : 0 < err ∧ err < 4096 := by
  have push : ∀ (segments : List Name) (parts : List Name) (err : Nat),
      segments.foldlM pushSegment parts = .error err → 0 < err ∧ err < 4096 := by
    intro segments
    induction segments with
    | nil => exact fun parts err failed => by cases failed
    | cons segment segments ih =>
        intro parts err failed
        rw [List.foldlM_cons] at failed
        cases pushed : pushSegment parts segment with
        | ok more =>
            rw [pushed] at failed
            exact ih more err failed
        | error first =>
            rw [pushed] at failed
            cases failed
            simp only [pushSegment] at pushed
            split_ifs at pushed <;> cases pushed <;> decide
  rw [normalizeAbsolutePathLexical] at failed
  split at failed
  · cases failed
    decide
  cases folded : (splitSlash path).foldlM pushSegment [] with
  | ok parts =>
      rw [folded] at failed
      cases failed
  | error first =>
      rw [folded] at failed
      cases failed
      exact push _ _ _ folded

theorem pathParent_error (failed : pathParent path = .error err) : 0 < err ∧ err < 4096 := by
  simp only [pathParent] at failed
  split_ifs at failed <;> cases failed <;> decide

/-- The path is the terminal's, or `realpath` says that it is inside, or that it is
missing while no directory right above it is outside. -/
inductive Passed (room : Room) (realpath : Text → Except Nat Text) (path : Text) (follow : Bool) : Prop
  | terminal (there : normalizeAbsolutePathLexical path = .ok "/proc/self/fd/0".toList)
      (tty : room.tty = true)
  | resolved (follows : follow = true) {text : Text} (found : realpath path = .ok text)
      (allowed : hostPathIsUnderAllowedHostPath room text = true)
  | parent (missing : follow = true → ∃ err, realpath path = .error err) {up : Text}
      (above : pathParent path = .ok up)
      (allowed : ∀ text, realpath up = .ok text → hostPathIsUnderAllowedHostPath room text = true)

theorem verdict_nonneg {room : Room} (nonneg : 0 ≤ verdict room text) :
    hostPathIsUnderAllowedHostPath room text = true := by
  rw [verdict] at nonneg
  split at nonneg
  · assumption
  · exact absurd nonneg (by decide)

theorem freshValidation_passed {room : Room} {realpath : Text → Except Nat Text}
    (errors : ∀ path err, realpath path = .error err → 0 < err)
    (nonneg : 0 ≤ freshValidation room realpath path follow) :
    path.head? = some '/' ∧ Passed room realpath path follow := by
  have denied : ∀ err : Nat, 0 < err → ¬ 0 ≤ negative err := by
    intro err positive
    rw [negative]
    omega
  have parents : ∀ up, pathParent path = .ok up →
      0 ≤ (validateParents room (fun _ _ => 0) realpath (path.length + 1) (.initial false) up).1 →
        ∀ text, realpath up = .ok text → hostPathIsUnderAllowedHostPath room text = true := by
    intro up _ nonneg text found
    rw [validateParents, PathCaches.cachedRealpath_off, found] at nonneg
    exact verdict_nonneg nonneg
  rw [freshValidation, validateHostPathUnderAllowed] at nonneg
  by_cases empty : path = []
  · rw [if_pos empty] at nonneg
    exact absurd nonneg (by decide)
  rw [if_neg empty] at nonneg
  cases normalized_def : normalizeAbsolutePathLexical path with
  | error err =>
      rw [normalized_def] at nonneg
      exact absurd nonneg (denied err (normalize_error normalized_def).1)
  | ok normalized =>
      have absolute : path.head? = some '/' := by
        rw [normalizeAbsolutePathLexical] at normalized_def
        split at normalized_def
        · cases normalized_def
        · rename_i absolute
          exact not_not.mp absolute
      refine ⟨absolute, ?_⟩
      rw [normalized_def] at nonneg
      simp only at nonneg
      split at nonneg
      · rename_i terminal
        exact .terminal (terminal.1 ▸ normalized_def) terminal.2
      split at nonneg
      · have outside : ¬ (0 : Int) ≤ -EXDEV.toInt := by decide
        exact absurd nonneg outside
      rw [PathCaches.pathValidationCacheGet_off] at nonneg
      simp only [validateResolved, PathCaches.cachedRealpath_off] at nonneg
      cases follow with
      | false =>
          simp only [Bool.false_eq_true, ↓reduceIte] at nonneg
          cases above : pathParent path with
          | error err =>
              rw [above] at nonneg
              exact absurd nonneg (denied err (pathParent_error above).1)
          | ok up =>
              rw [above] at nonneg
              exact .parent (fun same => by cases same) above (parents up above nonneg)
      | true =>
          simp only [↓reduceIte] at nonneg
          cases found : realpath path with
          | ok text =>
              rw [found] at nonneg
              exact .resolved rfl found (verdict_nonneg nonneg)
          | error err =>
              rw [found] at nonneg
              simp only at nonneg
              split at nonneg
              · exact absurd nonneg (denied err (errors path err found))
              cases above : pathParent path with
              | error err =>
                  rw [above] at nonneg
                  exact absurd nonneg (denied err (pathParent_error above).1)
              | ok up =>
                  rw [above] at nonneg
                  exact .parent (fun _ => ⟨err, found⟩) above (parents up above nonneg)

theorem validateParents_small {room : Room} {realpath : Text → Except Nat Text}
    (errors : ∀ path err, realpath path = .error err → err < 4096) (fuel : Nat) (probe : Text) :
    -4096 < (validateParents room (fun _ _ => 0) realpath fuel (.initial false) probe).1 := by
  have small : ∀ err : Nat, err < 4096 → -4096 < negative err := by
    intro err less
    rw [negative]
    omega
  induction fuel generalizing probe with
  | zero => exact small _ (by decide)
  | succ fuel ih =>
      rw [validateParents, PathCaches.cachedRealpath_off]
      cases found : realpath probe with
      | ok text =>
          simp only [verdict]
          split <;> decide
      | error err =>
          simp only
          split
          · exact small err (errors _ _ found)
          split
          · exact small err (errors _ _ found)
          · cases above : pathParent probe with
            | error err => exact small err (pathParent_error above).2
            | ok up => exact ih up

theorem freshValidation_small {room : Room} {realpath : Text → Except Nat Text}
    (errors : ∀ path err, realpath path = .error err → err < 4096) :
    -4096 < freshValidation room realpath path follow := by
  have small : ∀ err : Nat, err < 4096 → -4096 < negative err := by
    intro err less
    rw [negative]
    omega
  have parents : -4096 < (validateResolved room (fun _ _ => 0) realpath (.initial false) path false).1 := by
    simp only [validateResolved, Bool.false_eq_true, if_false]
    cases above : pathParent path with
    | error err => exact small err (pathParent_error above).2
    | ok up => exact validateParents_small errors _ up
  rw [freshValidation, validateHostPathUnderAllowed]
  by_cases empty : path = []
  · rw [if_pos empty]
    decide
  rw [if_neg empty]
  cases normalized_def : normalizeAbsolutePathLexical path with
  | error err => exact small err (normalize_error normalized_def).2
  | ok normalized =>
      simp only
      split
      · have zero : (-4096 : Int) < 0 := by decide
        exact zero
      split
      · have outside : (-4096 : Int) < -EXDEV.toInt := by decide
        exact outside
      rw [PathCaches.pathValidationCacheGet_off]
      simp only [validateResolved, PathCaches.cachedRealpath_off]
      cases follow with
      | false => exact parents
      | true =>
          simp only [↓reduceIte]
          cases found : realpath path with
          | ok text =>
              simp only [verdict]
              split <;> decide
          | error err =>
              simp only
              split
              · exact small err (errors _ _ found)
              · exact parents

def looked (fs : FS) (part : LastPart) (follow : Bool) (raw : List Name) : Bool :=
  if follow then
    (objectAt fs .parent raw).all fun place =>
      !fs.isSymlinkAt place || decide (part = .follow) == fs.pathExists raw
  else part = .parent

theorem looked_link {fs : FS} {place : Path}
    (looks : looked fs part true raw = true) (there : objectAt fs .parent raw = some place)
    (link : fs.isSymlinkAt place = true) : part = .follow ↔ fs.pathExists raw = true := by
  simp only [looked, there, ↓reduceIte, Option.all_some, link, Bool.not_true, Bool.false_or,
    beq_iff_eq] at looks
  rw [← looks, decide_eq_true_eq]

theorem exists_blanks (raw : List Name) :
    ∃ count, raw = raw.rdropWhile (· = []) ++ List.replicate count [] := by
  induction raw using List.reverseRecOn with
  | nil => exact ⟨0, rfl⟩
  | append_singleton raw name ih =>
      by_cases blank : name = []
      · obtain ⟨count, same⟩ := ih
        refine ⟨count + 1, ?_⟩
        rw [List.rdropWhile_concat_pos _ _ _ (by simpa using blank), List.replicate_succ',
          ← List.append_assoc, ← same, blank]
      · exact ⟨0, by rw [List.rdropWhile_concat_neg _ _ _ (by simpa using blank)]; simp⟩

theorem special_of_not_plain (whole : '/' ∉ name) (special : ¬ PlainName name) :
    name = [] ∨ name = dot ∨ name = dotdot := by
  by_contra other
  push Not at other
  exact special ⟨other.1, other.2.1, other.2.2, whole⟩

theorem objectAt_nofollow {fs : FS} (whole : ∀ name ∈ raw, '/' ∉ name)
    (located : objectAt fs .nofollow raw = some object) :
    objectAt fs .parent raw = some object ∨
      fs.isDirAt object = true ∧ fs.namei raw true = some object := by
  have followed : fs.isDirAt object = true → fs.namei raw true = some object := by
    intro directory
    apply FS.namei_follow located
    obtain ⟨mode, found⟩ := FS.isDirAt_iff.mp directory
    exact FS.isSymlinkAt_of_get found
  rcases List.eq_nil_or_concat raw with rfl | ⟨init, name, rfl⟩
  · have root : some [] = some object := located
    cases root
    exact .inr ⟨FS.isDirAt_root fs, followed (FS.isDirAt_root fs)⟩
  rw [List.concat_eq_append] at *
  by_cases plain : PlainName name
  · left
    have trimmed : (init ++ [name]).rdropWhile (· = []) = init ++ [name] :=
      List.rdropWhile_concat_neg _ _ _ (by simpa using plain.1)
    simp only [objectAt, trimmed, List.getLast?_concat, Option.any_some, plain, decide_true, ↓reduceIte]
    exact located
  · have special := special_of_not_plain (whole name (by simp)) plain
    have directory := FS.namei_ends special located
    exact .inr ⟨directory, followed directory⟩

theorem objectAt_parent {up : Text} (absolute : path.head? = some '/')
    (located : objectAt host.fs .parent (splitSlash path) = some object) (above : pathParent path = .ok up) :
    ∃ directory name, object = directory ++ [name] ∧ host.fs.isDirAt directory = true ∧
      host.realpath up = .ok (render directory) := by
  simp only [objectAt] at located
  split at located
  · rename_i named
    obtain ⟨name, last, plain⟩ := Option.any_eq_true .. |>.mp named
    simp only [decide_eq_true_eq] at plain
    obtain ⟨init, trimmed⟩ := List.getLast?_eq_some_iff.mp last
    obtain ⟨count, split⟩ := exists_blanks (splitSlash path)
    rw [trimmed] at located
    rw [trimmed, List.append_assoc, List.singleton_append] at split
    have filled : init ≠ [] := by
      intro empty
      rw [splitSlash_absolute absolute, empty] at split
      exact plain.1 (List.cons.inj split).1.symm
    rcases pathParent_spec filled plain.1 split with ⟨err, _, failed⟩ | ⟨text, found, leads⟩
    · rw [failed] at above
      cases above
    rw [found] at above
    cases above
    rw [FS.namei_concat plain, ← leads host.fs true, Option.bind_eq_some_iff] at located
    obtain ⟨directory, reached, named⟩ := located
    split at named
    · rename_i isDirectory
      obtain ⟨mode, there⟩ := FS.isDirAt_iff.mp isDirectory
      refine ⟨directory, name, (Option.some.inj named).symm, isDirectory, ?_⟩
      simp [Host.realpath, FS.stat, reached, there]
    · cases named
  · cases located

theorem plain_of_realpath (found : host.realpath path = .ok text) :
    ∃ object, text = render object ∧ host.fs.namei (splitSlash path) true = some object ∧
      host.fs.pathExists (splitSlash path) = true ∧ ∀ name ∈ object, PlainName name := by
  rw [Host.realpath] at found
  split at found
  · rename_i entry object there located
    cases found
    refine ⟨object, rfl, located, by rw [FS.pathExists, there, Option.isSome_some], ?_⟩
    rw [FS.stat, located, Option.bind_some] at there
    exact fun _ => FS.plainName_of_get there
  · cases found

theorem missing_of_realpath
    (failed : host.realpath path = .error err) : host.fs.pathExists (splitSlash path) = false := by
  rw [Host.realpath] at failed
  cases located : host.fs.namei (splitSlash path) true with
  | none => simp [FS.pathExists, FS.stat, located]
  | some object =>
      cases there : host.fs.get object with
      | none => simp [FS.pathExists, FS.stat, located, there]
      | some entry => simp [FS.stat, located, there] at failed

def isTerminal (host : Host) (path : Text) : Bool :=
  host.tty && (normalizeAbsolutePathLexical path).toOption == some "/proc/self/fd/0".toList

theorem checked_inside (absolute : path.head? = some '/') (passed : Passed host.room host.realpath path follow)
    (free : isTerminal host path = false) (looks : looked host.fs part follow (splitSlash path) = true)
    (located : objectAt host.fs part (splitSlash path) = some object) : Inside host.room object := by
  have whole := slash_not_mem_splitSlash path
  cases passed with
  | terminal there tty =>
      have terminal : host.tty = true := tty
      simp [isTerminal, there, terminal] at free
      exact absurd rfl free
  | @resolved follows text found allowed =>
      subst follows
      obtain ⟨target, rfl, reached, present, plain⟩ := plain_of_realpath found
      have inside := inside_of_check plain allowed
      -- a name that is no link is what following it leads to
      have named : part ≠ .follow → objectAt host.fs .parent (splitSlash path) = some object →
          Inside host.room object := by
        intro unfollowed place
        have notLink : host.fs.isSymlinkAt object = false := by
          by_contra link
          have agree := looked_link looks place (by simpa using link)
          exact unfollowed (agree.mpr present)
        simp only [objectAt] at place
        split at place
        · obtain ⟨count, split⟩ := exists_blanks (splitSlash path)
          rw [split] at reached
          have same := (FS.namei_of_slashes reached).symm.trans (FS.namei_follow place notLink)
          exact Option.some.inj same ▸ inside
        · cases place
      cases part with
      | follow =>
          have same := reached.symm.trans located
          exact Option.some.inj same ▸ inside
      | parent => exact named nofun located
      | nofollow =>
          rcases objectAt_nofollow whole located with place | ⟨_, followed⟩
          · exact named nofun place
          · exact Option.some.inj (reached.symm.trans followed) ▸ inside
  | @parent missing up above allowed =>
      have absent : follow = true → host.fs.pathExists (splitSlash path) = false := by
        intro follows
        obtain ⟨err, failed⟩ := missing follows
        exact missing_of_realpath failed
      have named : objectAt host.fs .parent (splitSlash path) = some object → Inside host.room object := by
        intro place
        obtain ⟨directory, name, rfl, isDirectory, found⟩ := objectAt_parent absolute place above
        obtain ⟨mode, there⟩ := FS.isDirAt_iff.mp isDirectory
        have plain : ∀ name ∈ directory, PlainName name := fun _ => FS.plainName_of_get there
        exact (inside_of_check plain (allowed _ found)).append [name]
      have unfollowed : follow = true → objectAt host.fs .nofollow (splitSlash path) = some object →
          Inside host.room object := by
        intro follows located
        rcases objectAt_nofollow whole located with place | ⟨isDirectory, followed⟩
        · exact named place
        obtain ⟨mode, there⟩ := FS.isDirAt_iff.mp isDirectory
        have present : host.fs.pathExists (splitSlash path) = true := by
          simp [FS.pathExists, FS.stat, followed, there]
        cases present.symm.trans (absent follows)
      cases follow with
      | false =>
          simp only [looked, Bool.false_eq_true, ↓reduceIte, decide_eq_true_eq] at looks
          subst looks
          exact named located
      | true =>
          cases part with
          | parent => exact named located
          | nofollow => exact unfollowed rfl located
          | follow =>
              rcases FS.namei_last located with same | ⟨link, place, isLink⟩
              · exact unfollowed rfl same
              rcases objectAt_nofollow whole place with named | ⟨isDirectory, _⟩
              · have agree := looked_link looks named isLink
                cases (agree.mp rfl).symm.trans (absent rfl)
              · obtain ⟨mode, there⟩ := FS.isDirAt_iff.mp isDirectory
                rw [FS.isSymlinkAt_of_get there] at isLink
                cases isLink

end PDocker.Direct
