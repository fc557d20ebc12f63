import PDocker.Context.Filter

/-!
# What `.dockerignore` removes from an unpacked context

A file stays where neither it nor a directory above it is excluded. It should stay where the last
line for it or for a directory above it is an exception, and a line with a slash in the end should
exclude directories only. The names here are those of the file system: a backslash can stand in
one. Entries that cannot be removed are left out.
-/

set_option autoImplicit false

namespace PDocker.Context.Unpacked

open Data

def FileName : Type := { name : Text // name ≠ [] ∧ name ≠ ['.'] ∧ name ≠ ['.', '.'] ∧ '/' ∉ name }

instance : DecidableEq FileName := inferInstanceAs (DecidableEq (Subtype _))

structure Item where
  path : List FileName
  isDir : Bool
  deriving DecidableEq

structure Tree where
  items : List Item
  rooted : ∀ item ∈ items, ∀ path, path ≠ [] → path <+: item.path → path ≠ item.path → ⟨path, true⟩ ∈ items

def relText (path : List FileName) : Text := ['/'].intercalate (path.map (·.val))

def removeTree (items : List Item) (path : List FileName) : List Item :=
  items.filter fun item => !path.isPrefixOf item.path

/-- `apply_dockerignore`. The walk reaches every entry before the first one is removed. -/
def applyDockerignore (text : Option Text) (tree : Tree) : List Item :=
  let rules := dockerignoreRules text
  let doomed := (tree.items.filter fun item =>
    dockerignoreExcluded rules (relText item.path) item.isDir).map (·.path)
  (doomed.insertionSort fun left right => right.length ≤ left.length).foldl removeTree tree.items

/-- The rule of a line. A slash in the end says that it is for directories. -/
def writtenRule (raw : Text) : Option IgnoreRule :=
  (dockerignoreRule raw).map fun rule =>
    { rule with directoryOnly := (forwardSlashes (stripSpace raw)).getLast? = some '/' }

def writtenRules (text : Option Text) : List IgnoreRule := (text.elim [] readLines).filterMap writtenRule

def patternMatches (rule : IgnoreRule) (path : List FileName) : Bool :=
  dockerignoreRuleMatches { rule with directoryOnly := false } (relText path) false

def reaches (rule : IgnoreRule) (item : Item) : Bool :=
  item.path.inits.any fun path =>
    patternMatches rule path && (!rule.directoryOnly || item.isDir || path ≠ item.path)

def Excluded (text : Option Text) (item : Item) : Prop :=
  ExcludedLast (fun rule => reaches rule item) (writtenRules text)

/-- The last line for the item or for a directory above it excludes, slashes in the end dropped. -/
def ExcludedSlashless (text : Option Text) (item : Item) : Prop :=
  ExcludedLast (fun rule => reaches rule item) (dockerignoreRules text)

def OnExcludedPath (text : Option Text) (item : Item) : Prop :=
  ∃ path, path <+: item.path ∧ ExcludedLast (fun rule => patternMatches rule path) (dockerignoreRules text)

/-- A path on the way to the item is excluded, but among the lines for any of these paths the last
one is an exception. -/
def ExceptionShadowed (text : Option Text) (item : Item) : Prop :=
  OnExcludedPath text item ∧ ¬ ExcludedSlashless text item

/-- Slashes in the end decide about the item. -/
def SlashDecides (text : Option Text) (item : Item) : Prop :=
  ¬ (Excluded text item ↔ ExcludedSlashless text item)

variable {item : Item} {text : Option Text} {tree : Tree}

theorem mem_foldl_removeTree {doomed : List (List FileName)} {items : List Item} :
    item ∈ doomed.foldl removeTree items ↔ item ∈ items ∧ ∀ path ∈ doomed, ¬ path <+: item.path := by
  induction doomed generalizing items with
  | nil => simp
  | cons path doomed ih =>
      rw [List.foldl_cons, ih, removeTree, List.mem_filter, Bool.not_eq_true', List.forall_mem_cons, and_assoc,
        ← Bool.not_eq_true, List.isPrefixOf_iff_prefix]

theorem dockerignoreExcluded_iff (text : Option Text) (path : List FileName) (isDir : Bool) :
    dockerignoreExcluded (dockerignoreRules text) (relText path) isDir = true ↔
      ExcludedLast (fun rule => patternMatches rule path) (dockerignoreRules text) := by
  have same : ∀ rule ∈ dockerignoreRules text,
      dockerignoreRuleMatches rule (relText path) isDir = patternMatches rule path := by
    intro rule member
    obtain ⟨raw, -, read⟩ := List.mem_filterMap.mp member
    simp only [patternMatches, dockerignoreRuleMatches, dockerignoreRule_directoryOnly read,
      Bool.false_eq_true, ↓reduceIte]
  rw [← ignored_iff, dockerignoreExcluded, ignored, ignored]
  refine Eq.congr_left (List.foldl_ext _ _ _ fun excluded rule member => ?_)
  rw [same rule member]

theorem mem_applyDockerignore (listed : item ∈ tree.items) :
    item ∈ applyDockerignore text tree ↔ ¬ OnExcludedPath text item := by
  rw [applyDockerignore, mem_foldl_removeTree]
  simp only [List.mem_insertionSort, List.mem_map, List.mem_filter, dockerignoreExcluded_iff]
  constructor
  · rintro ⟨-, kept⟩ ⟨path, inside, excluded⟩
    have filled : path ≠ [] := by
      rintro rfl
      obtain ⟨_, _, _, _, applied, _⟩ := excluded
      exact nomatch applied
    by_cases whole : path = item.path
    · exact kept path ⟨item, ⟨listed, whole ▸ excluded⟩, whole.symm⟩ inside
    · exact kept path ⟨_, ⟨tree.rooted item listed path filled inside whole, excluded⟩, rfl⟩ inside
  · refine fun kept => ⟨listed, ?_⟩
    rintro _ ⟨above, ⟨-, excluded⟩, rfl⟩ inside
    exact kept ⟨above.path, inside, excluded⟩

theorem reaches_slashless {rule : IgnoreRule} (slashless : rule.directoryOnly = false) (item : Item) :
    reaches rule item = true ↔ ∃ path, path <+: item.path ∧ patternMatches rule path = true := by
  simp only [reaches, slashless, Bool.not_false, Bool.true_or, Bool.and_true, List.any_eq_true, List.mem_inits]

theorem ExcludedSlashless.onPath (excluded : ExcludedSlashless text item) :
    OnExcludedPath text item := by
  obtain ⟨earlier, rule, later, cut, applied, plain, silent⟩ := excluded
  have slashless : ∀ other ∈ dockerignoreRules text, other.directoryOnly = false := by
    intro other member
    obtain ⟨raw, -, read⟩ := List.mem_filterMap.mp member
    exact dockerignoreRule_directoryOnly read
  rw [cut] at slashless
  obtain ⟨path, inside, matched⟩ := (reaches_slashless (slashless rule (by simp)) item).mp applied
  refine ⟨path, inside, earlier, rule, later, cut, matched, plain, fun other member => ?_⟩
  refine Bool.eq_false_iff.mpr fun matchedToo => ?_
  have reached := (reaches_slashless (slashless other (by simp [member])) item).mpr ⟨path, inside, matchedToo⟩
  exact Bool.false_ne_true ((silent other member).symm.trans reached)

theorem kept_iff (listed : item ∈ tree.items) :
    (item ∈ applyDockerignore text tree ↔ ¬ Excluded text item) ↔
      (ExceptionShadowed text item ↔ SlashDecides text item) := by
  have onPath : ExcludedSlashless text item → OnExcludedPath text item := ExcludedSlashless.onPath
  rw [mem_applyDockerignore listed, ExceptionShadowed, SlashDecides]
  tauto

/-- The files that stay are the right ones, when for each file either no exception is shadowed and
no slash decides, or both are so. -/
theorem applyDockerignore_exact (text : Option Text) (tree : Tree) :
    (∀ item ∈ tree.items, item.isDir = false → (item ∈ applyDockerignore text tree ↔ ¬ Excluded text item)) ↔
      ∀ item ∈ tree.items, item.isDir = false → (ExceptionShadowed text item ↔ SlashDecides text item) :=
  forall₂_congr fun _ listed => imp_congr_right fun _ => kept_iff listed

instance (text : Option Text) (item : Item) : Decidable (Excluded text item) :=
  decidable_of_iff _ ignored_iff

def Tree.ofPaths (items : List Item)
    (rooted : ∀ item ∈ items, ∀ path ∈ item.path.inits, path ≠ [] → path ≠ item.path → ⟨path, true⟩ ∈ items) :
    Tree where
  items := items
  rooted item listed path filled inside other := rooted item listed path ((List.mem_inits _ _).mpr inside) filled other

def keepName : FileName := ⟨['k'], by decide⟩
def fileName : FileName := ⟨['f'], by decide⟩

def keepTree : Tree := .ofPaths [⟨[keepName], true⟩, ⟨[keepName, fileName], false⟩] (by decide)

def keepLines : Text := ['k', '\n', '!', 'k', '/', 'f']

def slashTree : Tree := .ofPaths [⟨[fileName], false⟩] (by decide)

theorem exception_and_slash_lost :
    ¬ ((⟨[keepName, fileName], false⟩ : Item) ∈ applyDockerignore (some keepLines) keepTree ↔
        ¬ Excluded (some keepLines) ⟨[keepName, fileName], false⟩) ∧
      ¬ ((⟨[fileName], false⟩ : Item) ∈ applyDockerignore (some ['f', '/']) slashTree ↔
        ¬ Excluded (some ['f', '/']) ⟨[fileName], false⟩) := by
  decide

end PDocker.Context.Unpacked
