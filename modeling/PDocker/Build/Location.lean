import PDocker.Build.Confinement
import PDocker.Build.Sources

/-!
# Builds from a context that stands elsewhere

The same context, extracted into two directories. The sources of a copy are found
at the same places of the context, as long as no path leads out of it; only the
name of the context directory itself differs.
-/

set_option autoImplicit false

namespace PDocker.Build

open Data Posix Posix.FS

variable {host tree : FS} {base : Path} {depth : Nat} {raw : List Name}

/-- No path without `..` leads out of the context. -/
def Closed (tree : FS) (depth : Nat) : Prop := ∀ raw, dotdot ∉ raw → StaysReal tree depth raw

theorem staysBelow_of_noUp (noUp : dotdot ∉ raw) (level : Nat) : staysBelow level raw = true := by
  induction raw generalizing level with
  | nil => rfl
  | cons name rest ih =>
      rw [List.mem_cons, not_or] at noUp
      rw [staysBelow, if_neg (Ne.symm noUp.1)]
      split <;> exact ih noUp.2 _

theorem noUp_goTo {cur : Path} (noUp : dotdot ∉ cur) (name : Name) : dotdot ∉ goTo cur name := by
  unfold goTo
  split
  · exact noUp
  split
  · exact fun member => noUp (List.mem_of_mem_dropLast member)
  · rename_i up
    simpa [noUp] using Ne.symm up

theorem noUp_place (raw : List Name) : dotdot ∉ place raw := by
  induction raw using List.reverseRecOn with
  | nil => exact List.not_mem_nil
  | append_singleton raw name ih =>
      rw [place_concat]
      exact noUp_goTo ih name

variable {fs : FS} {path above : Path} {root : Name}

theorem noUp_nextWalker {walker later : Walker} (step : nextWalker fs walker = some later)
    (noUp : dotdot ∉ walker.1) : dotdot ∉ later.1 := by
  obtain ⟨cur, left⟩ := walker
  cases left with
  | nil => cases step
  | cons name rest =>
      rw [nextWalker] at step
      split at step
      · cases step
        exact noUp
      split at step
      · cases step
        exact fun member => noUp (List.mem_of_mem_dropLast member)
      rename_i up
      split at step
      · cases step
        dsimp only
        split
        · exact List.not_mem_nil
        · exact noUp
      · cases step
        simpa [noUp] using Ne.symm up

theorem noUp_realpath (found : fs.realpath depth raw = some path) : dotdot ∉ path := by
  obtain ⟨⟨joined, later⟩, joins, same⟩ := Option.map_eq_some_iff.mp found
  cases joined with
  | loop left =>
      rw [← same]
      exact noUp_place left
  | resolved place =>
      cases same
      have remembers : Remembers fs [] := fun _ _ _ known => by cases known
      have comes := (realFrom_resolves remembers joins).comes []
      suffices kept : ∀ walker, Comes fs ([], raw ++ []) walker → dotdot ∉ walker.1 from kept _ comes
      intro walker way
      induction way with
      | refl => exact List.not_mem_nil
      | tail _ step ih => exact noUp_nextWalker step ih

section
variable (hosts : Hosts host base tree) (closed : Closed tree depth)

include hosts

theorem contextPath_hosts (stays : StaysReal tree depth raw) (start : StaysReal tree depth [])
    (inner : base ≠ []) : contextPath host depth base raw = (tree.realpath depth raw).map (base ++ ·) := by
  have above := hosts.realpath start
  rw [List.append_nil] at above
  rw [contextPath, above, hosts.realpath stays]
  cases depth with
  | zero => rfl
  | succ depth =>
      have root : tree.realpath (depth + 1) [] = some [] := rfl
      rw [root, Option.map_some, Option.bind_some, List.append_nil]
      cases tree.realpath (depth + 1) raw with
      | none => rfl
      | some path =>
          rw [Option.map_some, Option.bind_some, if_pos (.inr ⟨inner, List.prefix_append _ _⟩)]

include closed

theorem scanDirs_hosts (noUp : dotdot ∉ raw) : host.scanDirs (base ++ raw) = tree.scanDirs raw := by
  rw [FS.scanDirs, FS.scanDirs, hosts.listdir (closed raw noUp).staying]
  refine List.filter_congr fun name member => ?_
  have plain := plain_of_mem_listdir member
  rw [List.append_assoc]
  exact hosts.isdir (closed _ (by simpa [noUp] using Ne.symm plain.2.2.1)).staying

variable {dironly : Bool} {last : Name} {parts : List Name}

theorem globIn_hosts (noUp : dotdot ∉ raw) (down : last ≠ dotdot) :
    globIn host dironly (base ++ raw) last = globIn tree dironly raw last := by
  have longer : dotdot ∉ raw ++ [last] := by simpa [noUp] using Ne.symm down
  rw [globIn, globIn, scanDirs_hosts hosts closed noUp, hosts.listdir (closed raw noUp).staying,
    hosts.isdir (closed raw noUp).staying, List.append_assoc, hosts.lexists (closed _ longer).staying]

omit hosts closed in
theorem noUp_globIn {fs : FS} {dir : List Name} {name : Name} (down : last ≠ dotdot)
    (member : name ∈ globIn fs dironly dir last) : name ≠ dotdot := by
  unfold globIn at member
  split at member
  · rw [List.mem_filter] at member
    split at member
    · exact (plain_of_mem_listdir (List.mem_filter.mp member.1).1).2.2.1
    · exact (plain_of_mem_listdir member.1).2.2.1
  split at member
  · split at member
    · rw [List.mem_singleton.mp member]
      decide
    · cases member
  · split at member
    · rw [List.mem_singleton.mp member]
      exact down
    · cases member

omit hosts closed in
theorem noUp_iglob {fs : FS} {path : List Name} (noUp : dotdot ∉ parts)
    (member : path ∈ iglob fs dironly parts) : dotdot ∉ path := by
  induction parts generalizing dironly path with
  | nil =>
      rw [List.mem_singleton.mp member]
      exact List.not_mem_nil
  | cons last above ih =>
      rw [List.mem_cons, not_or] at noUp
      rw [iglob] at member
      split at member
      · exact ih noUp.2 member
      obtain ⟨dir, dirMember, entry⟩ := List.mem_flatMap.mp member
      obtain ⟨name, inDir, rfl⟩ := List.mem_map.mp entry
      have dirNoUp : dotdot ∉ dir := by
        split at dirMember
        · exact ih noUp.2 dirMember
        · rw [List.mem_singleton.mp dirMember, List.mem_reverse]
          exact fun up => noUp.2 ((List.dropWhile_suffix _).subset up)
      simpa [dirNoUp] using (noUp_globIn (Ne.symm noUp.1) inDir).symm

theorem iglob_hosts (literal : base.any hasMagic = false)
    (magic : parts.any hasMagic = true) (noUp : dotdot ∉ parts) :
    iglob host dironly (parts ++ base.reverse) = (iglob tree dironly parts).map (base ++ ·) := by
  have full : base.reverse.dropWhile (· = []) = base.reverse := by
    obtain ⟨mode, found⟩ := isDirAt_iff.mp hosts.directory
    cases shape : base.reverse with
    | nil => rfl
    | cons last above =>
        have member : last ∈ base := by
          rw [← List.mem_reverse, shape]
          exact List.mem_cons_self
        simp [(plainName_of_get found member).1]
  induction parts generalizing dironly with
  | nil => cases magic
  | cons last above ih =>
      rw [List.mem_cons, not_or] at noUp
      rw [List.cons_append, iglob, iglob]
      by_cases cut : dironly = true ∧ last = []
      · rw [if_pos cut, if_pos cut]
        refine ih ?_ noUp.2
        rw [cut.2] at magic
        exact magic
      rw [if_neg cut, if_neg cut]
      have dirs : (if (above ++ base.reverse).any hasMagic then iglob host true (above ++ base.reverse)
          else [((above ++ base.reverse).dropWhile (· = [])).reverse]) =
            (if above.any hasMagic then iglob tree true above
              else [(above.dropWhile (· = [])).reverse]).map (base ++ ·) := by
        rw [List.any_append, List.any_reverse, literal, Bool.or_false]
        split
        · rename_i inside
          exact ih inside noUp.2
        rw [List.dropWhile_append]
        split
        · rename_i empty
          rw [full, List.isEmpty_iff.mp empty, List.reverse_nil, List.map_singleton, List.append_nil,
            List.reverse_reverse]
        · rw [List.reverse_append, List.reverse_reverse, List.map_singleton]
      rw [dirs, List.flatMap_map, List.map_flatMap]
      refine List.flatMap_congr fun dir member => ?_
      have dirNoUp : dotdot ∉ dir := by
        split at member
        · exact noUp_iglob noUp.2 member
        · rw [List.mem_singleton.mp member, List.mem_reverse]
          exact fun up => noUp.2 ((List.dropWhile_suffix _).subset up)
      rw [globIn_hosts hosts closed dirNoUp (Ne.symm noUp.1), List.map_map]
      simp

end

theorem textLe_append (start left right : Text) : textLe (start ++ left) (start ++ right) = textLe left right := by
  induction start with
  | nil => rfl
  | cons char start ih => simp [textLe, ih]

theorem sortPaths_map (base : Path) (paths : List (List Name)) :
    sortPaths (paths.map (base ++ ·)) = (sortPaths paths).map (base ++ ·) := by
  refine (List.map_insertionSort _ _ _ paths fun left _ right _ => ?_).symm
  rw [separated_append, separated_append, textLe_append]

theorem mapM_map {α β γ δ : Type} {first : α → β} {last : γ → δ} {act : β → Option δ} {inner : α → Option γ}
    {items : List α} (each : ∀ item ∈ items, act (first item) = (inner item).map last) :
    (items.map first).mapM act = (items.mapM inner).map (List.map last) := by
  induction items with
  | nil => rfl
  | cons item items ih =>
      rw [List.map_cons, List.mapM_cons, List.mapM_cons, each item List.mem_cons_self,
        ih fun other member => each other (List.mem_cons_of_mem _ member)]
      cases inner item with
      | none => rfl
      | some one => cases items.mapM inner <;> rfl

/-- What a source may be: no link on its way leads out of the context, and a pattern has no `..`. -/
structure SourceStays (tree : FS) (depth : Nat) (parts : List Name) : Prop where
  stays : StaysReal tree depth parts
  noUp : parts.any hasMagic = true → dotdot ∉ parts

def treeMatches (tree : FS) (depth : Nat) (source : Text) : Option (List Path) :=
  sourceMatches tree [] (tree.realpath depth) source

def partsOf (source : Text) : List Name := splitSlash (source.dropWhile (· = '/'))

section
variable (hosts : Hosts host base tree) (closed : Closed tree depth)

include hosts closed

theorem contextPath_rel (inner : base ≠ []) {path : List Name} (noUp : dotdot ∉ path) :
    contextPath host depth base (relParts (place (base ++ path)) base) =
      (tree.realpath depth (relParts (place path) [])).map (base ++ ·) := by
  have plain : place base = base := by
    obtain ⟨mode, found⟩ := isDirAt_iff.mp hosts.directory
    exact place_of_plain fun name member => plainName_of_get found member
  have lexical := relParts_append [] (place path)
  rw [List.nil_append] at lexical
  rw [place_append_of_stays base (staysBelow_of_noUp noUp 0), plain, relParts_append, lexical]
  exact contextPath_hosts hosts (closed _ (noUp_place path)) (closed [] List.not_mem_nil) inner

theorem copySourceMatches_hosts (inner : base ≠ []) {source : Text}
    (stays : SourceStays tree depth (partsOf source))
    (literal : (partsOf source).any hasMagic = true → base.any hasMagic = false) :
    copySourceMatches host depth base source = (treeMatches tree depth source).map (List.map (base ++ ·)) := by
  have start := closed [] List.not_mem_nil
  simp only [copySourceMatches, treeMatches, sourceMatches]
  rw [← partsOf, contextPath_hosts hosts stays.stays start inner]
  cases resolved : tree.realpath depth (partsOf source) with
  | none => rfl
  | some path =>
      rw [Option.map_some, Option.bind_some, Option.bind_some]
      by_cases magic : (partsOf source).any hasMagic = true
      · rw [if_pos magic, if_pos magic]
        have noUp := stays.noUp magic
        have paths : ∀ found ∈ globPaths tree (partsOf source), dotdot ∉ found :=
          fun found member => noUp_iglob (by simpa using noUp) member
        have globbed : globPaths host (base ++ partsOf source) = (globPaths tree (partsOf source)).map (base ++ ·) := by
          rw [globPaths, List.reverse_append]
          exact iglob_hosts hosts closed (literal magic) (by rwa [List.any_reverse]) (by simpa using noUp)
        have present : ((globPaths tree (partsOf source)).map (base ++ ·)).filter host.pathExists =
            ((globPaths tree (partsOf source)).filter tree.pathExists).map (base ++ ·) := by
          rw [List.filter_map]
          congr 1
          exact List.filter_congr fun found member => hosts.pathExists (closed found (paths found member)).staying
        rw [globbed, present, sortPaths_map, List.nil_append]
        refine mapM_map fun found member => contextPath_rel hosts closed inner ?_
        rw [sortPaths, List.mem_insertionSort, List.mem_filter] at member
        exact paths found member.1
      · rw [if_neg magic, if_neg magic]
        have noUp := noUp_realpath resolved
        rw [hosts.pathExists (closed path noUp).staying]
        split
        · refine @mapM_map _ _ _ _ _ _ _ _ [path] fun found member => ?_
          rw [List.mem_singleton.mp member]
          exact contextPath_rel hosts closed inner noUp
        · rfl

theorem readTree_hosts (fuel : Nat) {raw : List Name} (noUp : dotdot ∉ raw) :
    readTree host fuel (base ++ raw) = readTree tree fuel raw := by
  induction fuel generalizing raw with
  | zero => rfl
  | succ fuel ih =>
      rw [readTree, readTree, hosts.listdir (closed raw noUp).staying]
      refine List.flatMap_congr fun name member => ?_
      have plain := plain_of_mem_listdir member
      have longer : dotdot ∉ raw ++ [name] := by simpa [noUp] using Ne.symm plain.2.2.1
      have stays := (closed _ longer).staying
      rw [List.append_assoc, hosts.isdir stays, ih longer, lstat, lstat, hosts.namei stays]
      split
      · rfl
      cases tree.namei (raw ++ [name]) false with
      | none => rfl
      | some path =>
          rw [Option.map_some, Option.bind_some, Option.bind_some]
          rcases hosts.get_cases path with ⟨mode, found, present⟩ | ⟨target, found, present⟩ |
            ⟨ino, other, found, present, same⟩ | ⟨found, present⟩
          · rw [found, present]
          · rw [found, present]
          · rw [found, present]
            dsimp only
            rw [same]
          · rw [found, present]

end

theorem readTree_fuel {fuel more : Nat} {raw : List Name} (plain : ∀ name ∈ raw, PlainName name)
    (enough : fs.longest < raw.length + fuel) (other : fs.longest < raw.length + more) :
    readTree fs fuel raw = readTree fs more raw := by
  have nothing : ∀ raw fuel, (∀ name ∈ raw, PlainName name) → fs.longest < List.length raw → readTree fs fuel raw = [] := by
    intro raw fuel plain long
    cases fuel with
    | zero => rfl
    | succ fuel =>
        have missing : fs.listdir raw = none := by
          unfold listdir
          split
          · rename_i path located
            split
            · rename_i directory
              have short := length_le_longest plain (isdir_iff.mpr ⟨path, located, directory⟩)
              omega
            · rfl
          · rfl
        rw [readTree, missing]
        rfl
  induction fuel generalizing more raw with
  | zero => rw [nothing raw 0 plain (by omega), nothing raw more plain (by omega)]
  | succ fuel ih =>
      cases more with
      | zero => rw [nothing raw 0 plain (by omega), nothing raw (fuel + 1) plain (by omega)]
      | succ more =>
          rw [readTree, readTree]
          refine List.flatMap_congr fun name member => ?_
          have longer : ∀ other ∈ raw ++ [name], PlainName other := by
            intro other among
            rcases List.mem_append.mp among with old | new
            · exact plain other old
            · rw [List.mem_singleton.mp new]
              exact plain_of_mem_listdir member
          have length : (raw ++ [name]).length = raw.length + 1 := by simp
          rw [ih longer (by omega) (show fs.longest < (raw ++ [name]).length + more by omega)]

theorem height_le_of_hosts (hosts : Hosts host base tree) : tree.height ≤ host.height := by
  have rows : ∀ table : Table, (∀ row ∈ table, row.1.length ≤ host.height) →
      (table.map fun row => row.1.length).foldr max 0 ≤ host.height := by
    intro table
    induction table with
    | nil => exact fun _ => Nat.zero_le _
    | cons row table ih =>
        intro short
        exact max_le (short row List.mem_cons_self) (ih fun other member => short other (List.mem_cons_of_mem _ member))
  refine rows tree.table fun row member => ?_
  have known : (tree.get row.1).isSome = true := by
    rw [FS.get, Option.isSome_iff_ne_none, Ne, List.lookup_eq_none_iff]
    exact fun none => by simpa using none row member
  rw [← hosts.isSome_get] at known
  obtain ⟨entry, found⟩ := Option.isSome_iff_exists.mp known
  have bound := length_le_height found
  rw [List.length_append] at bound
  omega

theorem longest_le_of_hosts (hosts : Hosts host base tree) : tree.longest ≤ host.longest := by
  have height := height_le_of_hosts hosts
  exact Nat.add_le_add height (Nat.mul_le_mul_left _ (Nat.succ_le_succ height))

theorem Tree.ext {one two : Tree} (same : one.items = two.items) : one = two := by
  cases one
  cases two
  cases same
  rfl

theorem sourceAt_hosts (hosts : Hosts host base tree) (closed : Closed tree depth) (path : Path) :
    sourceAt host (base ++ path) = sourceAt tree path := by
  rw [sourceAt, sourceAt]
  rcases hosts.get_cases path with ⟨mode, found, present⟩ | ⟨target, found, present⟩ |
    ⟨ino, other, found, present, same⟩ | ⟨found, present⟩
  · rw [found, present]
    have plain : ∀ name ∈ path, PlainName name := fun name member => plainName_of_get found member
    have noUp : dotdot ∉ path := fun member => (plain _ member).2.2.1 rfl
    have trees : treeAt host (base ++ path) = treeAt tree path := by
      refine Tree.ext ?_
      have longest := longest_le_of_hosts hosts
      have same : readTree host (host.longest + 1) (base ++ path) = readTree tree (tree.longest + 1) path :=
        (readTree_hosts hosts closed _ noUp).trans (readTree_fuel plain (by omega) (by omega))
      exact same
    rw [trees]
  · rw [found, present]
  · rw [found, present]
    dsimp only
    rw [same]
  · rw [found, present]

structure Found where
  path : Path
  plain : ∀ name ∈ path, PlainName name
  source : Source

def Found.named (found : Found) (root : Name) (plain : PlainName root) : Match where
  name := found.path.getLast?.getD root
  plain := by
    cases last : found.path.getLast? with
    | none => exact plain
    | some name => exact found.plain name (List.mem_of_getLast? last)
  source := found.source

def foundAt (tree : FS) (path : Path) : Option Found :=
  if plain : ∀ name ∈ path, PlainName name then (sourceAt tree path).map fun source => ⟨path, plain, source⟩
  else none

def treeSource (tree : FS) (depth : Nat) (source : Text) : List Found :=
  ((treeMatches tree depth source).bind fun paths => paths.mapM (foundAt tree)).getD []

theorem plain_of_sourceAt {source : Source} (found : sourceAt fs path = some source) :
    ∀ name ∈ path, PlainName name := by
  intro name member
  unfold sourceAt at found
  split at found
  · rename_i present
    exact plainName_of_get present member
  · rename_i present
    exact plainName_of_get present member
  · cases found

theorem matchAt_hosts (hosts : Hosts host (above ++ [root]) tree)
    (closed : Closed tree depth) (plainRoot : PlainName root) (path : Path) :
    matchAt host (above ++ [root] ++ path) = (foundAt tree path).map (Found.named · root plainRoot) := by
  have last : (above ++ [root] ++ path).getLast? = some (path.getLast?.getD root) := by
    rw [List.getLast?_append, List.getLast?_concat]
    cases path.getLast? <;> rfl
  rw [matchAt, last, sourceAt_hosts hosts closed, foundAt]
  dsimp only
  cases found : sourceAt tree path with
  | none => split <;> split <;> rfl
  | some source =>
      have plain := plain_of_sourceAt found
      have named : PlainName (path.getLast?.getD root) := (Found.named ⟨path, plain, source⟩ root plainRoot).plain
      rw [dif_pos plain, dif_pos named]
      rfl

theorem findSource_hosts (hosts : Hosts host (above ++ [root]) tree)
    (closed : Closed tree depth) (plainRoot : PlainName root) {source : Text}
    (stays : SourceStays tree depth (partsOf source))
    (literal : (partsOf source).any hasMagic = true → (above ++ [root]).any hasMagic = false) :
    findSource host depth (above ++ [root]) source =
      (treeSource tree depth source).map (Found.named · root plainRoot) := by
  rw [findSource, treeSource, copySourceMatches_hosts hosts closed (by simp) stays literal]
  cases treeMatches tree depth source with
  | none => rfl
  | some paths =>
      rw [Option.map_some, Option.bind_some, Option.bind_some,
        mapM_map fun path _ => matchAt_hosts hosts closed plainRoot path]
      cases paths.mapM (foundAt tree) <;> rfl

end PDocker.Build
