import Mathlib.Data.List.Sort
import PDocker.Build.Instructions
import PDocker.Data.Glob
import PDocker.Posix.RealPath
import PDocker.Posix.Walk

/-!
# Sources of a copy

What a source of `COPY` or `ADD` names in the directory that the build context was
extracted into: the paths that a pattern matches, sorted by their text, and the
files and directories that are read there. A link to a directory is read as the
directory.
-/

set_option autoImplicit false

namespace PDocker.Build

open Data Posix

def hasMagic (part : Name) : Bool := part.any fun char => char = '*' || char = '?' || char = '['

def toBracket : Text → Option (Text × Text)
  | [] => none
  | char :: more => if char = ']' then some ([], more) else (toBracket more).map fun cut => (char :: cut.1, cut.2)

def setText : Text → Option (Text × Text)
  | ']' :: more => (toBracket more).map fun cut => (']' :: cut.1, cut.2)
  | text => toBracket text

def inSet (char : Char) : Text → Bool
  | first :: '-' :: last :: more => first ≤ char && char ≤ last || inSet char more
  | first :: more => char = first || inSet char more
  | [] => false

def patternItems : Nat → Text → List GlobItem
  | _, [] => []
  | 0, _ => []
  | fuel + 1, '*' :: rest => .many (fun _ => true) :: patternItems fuel rest
  | fuel + 1, '?' :: rest => .one (fun _ => true) :: patternItems fuel rest
  | fuel + 1, '[' :: '!' :: rest =>
      match setText rest with
      | some (set, more) => .one (fun char => !inSet char set) :: patternItems fuel more
      | none => .one (· = '[') :: patternItems fuel ('!' :: rest)
  | fuel + 1, '[' :: rest =>
      match setText rest with
      | some (set, more) => .one (inSet · set) :: patternItems fuel more
      | none => .one (· = '[') :: patternItems fuel rest
  | fuel + 1, first :: rest => .one (· = first) :: patternItems fuel rest

/-- `fnmatch.fnmatchcase(name, pattern)` -/
def fnmatch (pattern : Text) (name : Name) : Bool := Glob.accepts (patternItems pattern.length pattern) name

def isHidden (part : Name) : Bool := part.head? = some '.'

def globIn (fs : FS) (dironly : Bool) (dir : List Name) (last : Name) : List Name :=
  if hasMagic last then
    (if dironly then fs.scanDirs dir else (fs.listdir dir).getD []).filter fun name =>
      (isHidden last || !isHidden name) && fnmatch last name
  else if last = [] then if fs.isdir dir then [[]] else []
  else if fs.lexists (dir ++ [last]) then [last] else []

/-- `_iglob` on the parts of a pattern from the last to the first. -/
def iglob (fs : FS) : Bool → List Name → List (List Name)
  | _, [] => [[]]
  | dironly, last :: above =>
      -- `os.path.split` cuts the slashes at the end of the directory part
      if dironly = true ∧ last = [] then iglob fs dironly above
      else
        (if above.any hasMagic then iglob fs true above else [(above.dropWhile (· = [])).reverse]).flatMap
          fun dir => (globIn fs dironly dir last).map fun name => dir ++ [name]

/-- `glob.glob(raw)` for a pattern with magic. -/
def globPaths (fs : FS) (raw : List Name) : List (List Name) := iglob fs false raw.reverse

/-- `_context_path`; `none` stands for the `RuntimeError`. -/
def contextPath (fs : FS) (depth : Nat) (contextDir : Path) (rel : List Name) : Option Path :=
  (fs.realpath depth contextDir).bind fun base =>
    (fs.realpath depth (contextDir ++ rel)).bind fun path =>
      -- below the root no path begins with `base + os.sep`
      if path = base ∨ base ≠ [] ∧ base <+: path then some path else none

def textLe : Text → Text → Bool
  | [], _ => true
  | _ :: _, [] => false
  | char :: left, other :: right => char.toNat < other.toNat || char = other && textLe left right

/-- `sorted(paths)` -/
def sortPaths (paths : List (List Name)) : List (List Name) :=
  paths.insertionSort fun left right => textLe (separated '/' left) (separated '/' right) = true

/-- `_copy_source_matches`, with the function that resolves a path of the context. -/
def sourceMatches (fs : FS) (contextDir : Path) (resolve : List Name → Option Path) (source : Text) :
    Option (List Path) :=
  let parts := splitSlash (source.dropWhile (· = '/'))
  (resolve parts).bind fun path =>
    let found :=
      if parts.any hasMagic then sortPaths ((globPaths fs (contextDir ++ parts)).filter fs.pathExists)
      else if fs.pathExists path then [path] else []
    found.mapM fun path => resolve (relParts (place path) contextDir)

def copySourceMatches (fs : FS) (depth : Nat) (contextDir : Path) (source : Text) : Option (List Path) :=
  sourceMatches fs contextDir (contextPath fs depth contextDir) source

/-- What `shutil.copytree` finds in a directory, each object after the directory that holds it. -/
def readTree (fs : FS) : Nat → List Name → List (Path × Leaf)
  | 0, _ => []
  | fuel + 1, raw =>
      ((fs.listdir raw).getD []).flatMap fun name =>
        if fs.isdir (raw ++ [name]) then
          ([name], .dir) :: (readTree fs fuel (raw ++ [name])).map fun item => (name :: item.1, item.2)
        else
          match fs.lstat (raw ++ [name]) with
          | some (.file ino) => [([name], .file (fs.inodes.getD ino default).content)]
          | some (.symlink target) => [([name], .symlink target)]
          | _ => []

section
variable {fs : FS} {fuel : Nat} {raw : List Name} {item : Path × Leaf}

theorem plain_of_mem_listdir {name : Name} (member : name ∈ (fs.listdir raw).getD []) : PlainName name := by
  unfold FS.listdir at member
  split at member
  · split at member
    · exact FS.plainName_of_mem_names member
    · cases member
  · cases member

theorem nodup_listdir : ((fs.listdir raw).getD []).Nodup := by
  unfold FS.listdir
  split
  · split
    · exact FS.nodup_names _ _
    · exact List.nodup_nil
  · exact List.nodup_nil

variable (member : item ∈ readTree fs fuel raw)

include member

theorem mem_readTree_cases :
    ∃ less name, fuel = less + 1 ∧ PlainName name ∧
      (item.1 = [name] ∨ ([name], .dir) ∈ readTree fs fuel raw ∧
        ∃ inner ∈ readTree fs less (raw ++ [name]), item = (name :: inner.1, inner.2)) := by
  cases fuel with
  | zero => cases member
  | succ less =>
      have whole := member
      rw [readTree] at member
      obtain ⟨name, listed, entry⟩ := List.mem_flatMap.mp member
      refine ⟨less, name, rfl, plain_of_mem_listdir listed, ?_⟩
      split at entry
      · rename_i directory
        rcases List.mem_cons.mp entry with rfl | entry
        · exact .inl rfl
        obtain ⟨inner, below, rfl⟩ := List.mem_map.mp entry
        refine .inr ⟨List.mem_flatMap.mpr ⟨name, listed, ?_⟩, inner, below, rfl⟩
        rw [if_pos directory]
        exact List.mem_cons_self
      · split at entry
        · exact .inl (congrArg Prod.fst (List.mem_singleton.mp entry))
        · exact .inl (congrArg Prod.fst (List.mem_singleton.mp entry))
        · cases entry

theorem readTree_filled : item.1 ≠ [] := by
  obtain ⟨less, name, -, -, itself | ⟨-, inner, -, rfl⟩⟩ := mem_readTree_cases member
  · rw [itself]
    exact List.cons_ne_nil _ _
  · exact List.cons_ne_nil _ _

theorem readTree_plain : ∀ name ∈ item.1, PlainName name := by
  induction fuel generalizing raw item with
  | zero => cases member
  | succ fuel ih =>
      obtain ⟨less, name, same, plain, itself | ⟨-, inner, below, rfl⟩⟩ := mem_readTree_cases member
      · rw [itself]
        exact List.forall_mem_singleton.mpr plain
      · cases same
        exact List.forall_mem_cons.mpr ⟨plain, ih below⟩

omit member

theorem readTree_nodup : ((readTree fs fuel raw).map Prod.fst).Nodup := by
  induction fuel generalizing raw with
  | zero => exact List.nodup_nil
  | succ fuel ih =>
      rw [readTree, List.map_flatMap, List.nodup_flatMap]
      have starts : ∀ name path, path ∈ (if fs.isdir (raw ++ [name]) then
          ([name], Leaf.dir) :: (readTree fs fuel (raw ++ [name])).map fun item => (name :: item.1, item.2)
        else
          match fs.lstat (raw ++ [name]) with
          | some (.file ino) => [([name], .file (fs.inodes.getD ino default).content)]
          | some (.symlink target) => [([name], .symlink target)]
          | _ => []).map Prod.fst → path.head? = some name := by
        intro name path member
        obtain ⟨item, entry, rfl⟩ := List.mem_map.mp member
        split at entry
        · rcases List.mem_cons.mp entry with rfl | entry
          · rfl
          · obtain ⟨inner, -, rfl⟩ := List.mem_map.mp entry
            rfl
        split at entry
        · rw [List.mem_singleton.mp entry]
          rfl
        · rw [List.mem_singleton.mp entry]
          rfl
        · cases entry
      refine ⟨fun name _ => ?_, ?_⟩
      · split
        · rw [List.map_cons, List.map_map, List.nodup_cons]
          constructor
          · intro member
            obtain ⟨inner, below, same⟩ := List.mem_map.mp member
            exact readTree_filled below (List.cons.inj same).2
          · have inner := @ih (raw ++ [name])
            have lifted := inner.map (List.cons_injective (a := name))
            rwa [List.map_map] at lifted
        · split <;> simp
      · refine List.Pairwise.imp (fun {left right} different => ?_) (@nodup_listdir fs raw)
        intro path first second
        have one := starts left path first
        rw [starts right path second] at one
        exact different (Option.some.inj one).symm

theorem readTree_closed (member : item ∈ readTree fs fuel raw) {above : Path} (filled : above ≠ [])
    (below : Below above item.1) : (above, Leaf.dir) ∈ readTree fs fuel raw := by
  induction fuel generalizing raw item above with
  | zero => cases member
  | succ fuel ih =>
      obtain ⟨less, name, same, -, itself | ⟨top, inner, deeper, rfl⟩⟩ := mem_readTree_cases member
      · rw [itself, ← List.nil_append [name], below_append_singleton, List.prefix_nil] at below
        exact absurd below filled
      cases same
      cases above with
      | nil => exact absurd rfl filled
      | cons first above =>
          obtain ⟨rfl, rest⟩ := List.cons_prefix_cons.mp below.1
          by_cases last : above = []
          · rw [last]
            exact top
          have proper : Below above inner.1 := ⟨rest, fun same => below.2 (by rw [same])⟩
          have held := ih deeper last proper
          rw [readTree] at top ⊢
          obtain ⟨other, listed, entry⟩ := List.mem_flatMap.mp top
          refine List.mem_flatMap.mpr ⟨other, listed, ?_⟩
          split at entry
          · rename_i directory
            have same : first = other := by
              rcases List.mem_cons.mp entry with pair | entry
              · exact (List.cons.inj (congrArg Prod.fst pair)).1
              · obtain ⟨_, -, pair⟩ := List.mem_map.mp entry
                exact (List.cons.inj (congrArg Prod.fst pair)).1.symm
            subst same
            rw [if_pos directory]
            exact List.mem_cons_of_mem _ (List.mem_map.mpr ⟨_, held, rfl⟩)
          · split at entry
            · have pair := congrArg Prod.snd (List.mem_singleton.mp entry)
              cases pair
            · have pair := congrArg Prod.snd (List.mem_singleton.mp entry)
              cases pair
            · cases entry

end

def treeAt (fs : FS) (raw : List Name) : Tree where
  items := readTree fs (fs.longest + 1) raw
  filled _ member := readTree_filled member
  plain _ member := readTree_plain member
  nodup := readTree_nodup
  closed _ member _ filled below := readTree_closed member filled below

def sourceAt (fs : FS) (path : Path) : Option Source :=
  match fs.get path with
  | some (.dir _) => some (.dir (treeAt fs path))
  | some (.file ino) => some (.file (fs.inodes.getD ino default).content)
  | _ => none

def matchAt (fs : FS) (path : Path) : Option Match :=
  match path.getLast? with
  | none => none
  | some name => if plain : PlainName name then (sourceAt fs path).map fun source => ⟨name, plain, source⟩ else none

def findSource (fs : FS) (depth : Nat) (contextDir : Path) (source : Text) : List Match :=
  (((copySourceMatches fs depth contextDir source).bind fun paths => paths.mapM (matchAt fs))).getD []

end PDocker.Build
