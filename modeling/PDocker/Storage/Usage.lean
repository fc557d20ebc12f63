import Mathlib.Algebra.Order.BigOperators.Group.Finset
import PDocker.Data.Utf8
import PDocker.Posix.Spelling
import PDocker.Posix.Walk

/-!
# The size of a layer

When a layer is extracted its size is recorded, name by name and through the
symbolic links. The storage summary measures a tree without following links and
takes every inode once.
-/

set_option autoImplicit false

namespace PDocker.Storage

open Posix

def targetText (target : Target) : Data.Text :=
  if target.absolute then render target.comps else List.intercalate ['/'] target.comps

/-- `st_size`; that of a directory is never asked for. -/
def entrySize (fs : FS) : Entry → Nat
  | .dir _ => 0
  | .file ino => (fs.inodes.getD ino default).content.length
  | .symlink target => (Data.utf8 (targetText target)).length

/-- `os.path.getsize`, which follows links; none is an error. -/
def getsize (fs : FS) (raw : List Name) : Option Nat := (fs.stat raw).map (entrySize fs)

/-- The size that `_extract_layer_tar` records for the tree. -/
def recordedSize (fs : FS) (tree : Path) : Nat :=
  osWalk (fun _ => fs) tree
    (fun size rel _ files => files.foldl (fun size name => size + (getsize fs (tree ++ rel ++ [name])).getD 0) size)
    (fs.height + 1) [] 0

inductive InodeKey where
  | file (ino : Nat)
  | own (path : Path)
  deriving DecidableEq

def inodeKey (path : Path) : Entry → InodeKey
  | .file ino => .file ino
  | .dir _ | .symlink _ => .own path

structure Usage where
  seen : Finset InodeKey
  owned : Finset InodeKey
  total : Nat

/-- `lstat`: the object itself. -/
def object (fs : FS) (raw : List Name) : Option (Path × Entry) :=
  (fs.namei raw false).bind fun path => (fs.get path).map fun entry => (path, entry)

/-- The loop body of `_dir_usage`: what it pushes on the stack, and the numbers after it. -/
def visit (fs : FS) (cur : List Name) (usage : Usage) : List (List Name) × Usage :=
  match object fs cur with
  | none => ([], usage)
  | some (path, entry) =>
      if inodeKey path entry ∈ usage.seen then ([], usage)
      else if entry.isDir then
        (((fs.names path).map fun name => cur ++ [name]).reverse,
          { usage with seen := insert (inodeKey path entry) usage.seen })
      else
        ([], ⟨insert (inodeKey path entry) usage.seen, insert (inodeKey path entry) usage.owned,
          usage.total + entrySize fs entry⟩)

def paths (fs : FS) : Finset Path := (fs.table.map Prod.fst).toFinset

def unseen (fs : FS) (seen : Finset InodeKey) : Nat :=
  ∑ path ∈ (paths fs).filter (fun path => fs.isDirAt path = true ∧ InodeKey.own path ∉ seen), ((fs.names path).length + 1)

theorem mem_paths {fs : FS} {path : Path} {entry : Entry} (found : fs.get path = some entry) : path ∈ paths fs :=
  List.mem_toFinset.mpr (List.mem_map.mpr ⟨_, FS.mem_table_of_get found, rfl⟩)

theorem object_eq_some {fs : FS} {raw : List Name} {path : Path} {entry : Entry}
    (found : object fs raw = some (path, entry)) : fs.namei raw false = some path ∧ fs.get path = some entry := by
  obtain ⟨located, named, found⟩ := Option.bind_eq_some_iff.mp found
  obtain ⟨other, found, same⟩ := Option.map_eq_some_iff.mp found
  cases same
  exact ⟨named, found⟩

theorem visit_cases (fs : FS) (cur : List Name) (usage : Usage) : (visit fs cur usage = ([], usage) ∧
      ∀ path entry, object fs cur = some (path, entry) → inodeKey path entry ∈ usage.seen) ∨
    (∃ path mode, object fs cur = some (path, .dir mode) ∧ InodeKey.own path ∉ usage.seen ∧
      visit fs cur usage = (((fs.names path).map fun name => cur ++ [name]).reverse,
        { usage with seen := insert (.own path) usage.seen })) ∨
    (∃ path entry, object fs cur = some (path, entry) ∧ entry.isDir = false ∧ inodeKey path entry ∉ usage.seen ∧
      visit fs cur usage = ([], ⟨insert (inodeKey path entry) usage.seen, insert (inodeKey path entry) usage.owned,
        usage.total + entrySize fs entry⟩)) := by
  rw [visit]
  cases found : object fs cur with
  | none => exact .inl ⟨rfl, nofun⟩
  | some located =>
      obtain ⟨path, entry⟩ := located
      simp only
      by_cases old : inodeKey path entry ∈ usage.seen
      · rw [if_pos old]
        refine .inl ⟨rfl, fun other otherEntry same => ?_⟩
        cases same
        exact old
      rw [if_neg old]
      cases directory : entry.isDir with
      | true =>
          obtain ⟨mode, rfl⟩ := Entry.isDir_iff.mp directory
          exact .inr (.inl ⟨path, mode, rfl, old, rfl⟩)
      | false => exact .inr (.inr ⟨path, entry, rfl, directory, old, rfl⟩)

theorem unseen_insert_le (fs : FS) (seen : Finset InodeKey) (key : InodeKey) :
    unseen fs (insert key seen) ≤ unseen fs seen := by
  refine Finset.sum_le_sum_of_subset fun path member => ?_
  rw [Finset.mem_filter] at member ⊢
  exact ⟨member.1, member.2.1, fun old => member.2.2 (Finset.mem_insert_of_mem old)⟩

theorem unseen_insert_dir {fs : FS} {seen : Finset InodeKey} {path : Path} {mode : Nat}
    (found : fs.get path = some (.dir mode)) (fresh : InodeKey.own path ∉ seen) :
    unseen fs (insert (.own path) seen) + ((fs.names path).length + 1) = unseen fs seen := by
  have directory : fs.isDirAt path = true := FS.isDirAt_iff.mpr ⟨mode, found⟩
  have member : path ∈ (paths fs).filter (fun path => fs.isDirAt path = true ∧ InodeKey.own path ∉ seen) :=
    Finset.mem_filter.mpr ⟨mem_paths found, directory, fresh⟩
  rw [unseen, unseen, ← Finset.sum_erase_add _ _ member]
  congr 1
  refine Finset.sum_congr ?_ fun _ _ => rfl
  ext other
  simp only [Finset.mem_filter, Finset.mem_erase, Finset.mem_insert, not_or, InodeKey.own.injEq]
  tauto

theorem visit_less (fs : FS) (cur : List Name) (usage : Usage) :
    unseen fs (visit fs cur usage).2.seen + (visit fs cur usage).1.length ≤ unseen fs usage.seen := by
  rcases visit_cases fs cur usage with ⟨result, -⟩ | ⟨path, mode, found, fresh, result⟩ | ⟨path, entry, -, -, -, result⟩
  · rw [result]
    exact Nat.le_refl _
  · rw [result, List.length_reverse, List.length_map]
    have counted := unseen_insert_dir (object_eq_some found).2 fresh
    simp only
    omega
  · rw [result]
    exact unseen_insert_le fs usage.seen _

def usageLoop (fs : FS) (stack : List (List Name)) (usage : Usage) : Usage :=
  match stack with
  | [] => usage
  | cur :: stack => usageLoop fs ((visit fs cur usage).1 ++ stack) (visit fs cur usage).2
  termination_by unseen fs usage.seen + stack.length
  decreasing_by
    have := visit_less fs cur usage
    rw [List.length_append, List.length_cons]
    omega

/-- `_dir_usage`: the bytes, and the inodes that they are counted for. -/
def dirUsage (fs : FS) (path : List Name) (exclude : Finset InodeKey) : Nat × Finset InodeKey :=
  if fs.lexists path then
    ((usageLoop fs [path] ⟨exclude, ∅, 0⟩).total, (usageLoop fs [path] ⟨exclude, ∅, 0⟩).owned)
  else (0, ∅)

/-- The bytes of a layer in `collect_storage_summary`. -/
def layerBytes (fs : FS) (metaSize : Nat) (tree : Path) : Nat :=
  if metaSize ≠ 0 then metaSize else (dirUsage fs tree ∅).1

/-- `LayersSize`, where each tree has the size that was recorded for it. -/
def layersSize (fs : FS) (trees : List Path) : Nat :=
  (trees.map fun tree => layerBytes fs (recordedSize fs tree) tree).sum

def keyAt (fs : FS) (path : Path) : InodeKey := (fs.get path).elim (.own path) (inodeKey path)

def sizeAt (fs : FS) (path : Path) : Nat := (fs.get path).elim 0 (entrySize fs)

def keySize (fs : FS) : InodeKey → Nat
  | .file ino => entrySize fs (.file ino)
  | .own path => sizeAt fs path

def leaves (fs : FS) (tree : Path) : Finset Path :=
  (paths fs).filter fun path => tree <+: path ∧ fs.isDirAt path = false

section
variable {fs : FS} {tree : Path}

theorem get_of_mem_paths {path : Path} (member : path ∈ paths fs) : ∃ entry, fs.get path = some entry := by
  obtain ⟨⟨other, entry⟩, inside, same⟩ := List.mem_map.mp (List.mem_toFinset.mp member)
  have same : other = path := same
  subst same
  cases found : fs.get other with
  | some entry => exact ⟨entry, rfl⟩
  | none =>
      have away : ∀ row ∈ fs.table, ¬ (other == row.1) = true := by
        have missing : fs.table.lookup other = none := found
        simpa [List.lookup_eq_none_iff] using missing
      exact absurd (beq_self_eq_true other) (away _ inside)

theorem mem_leaves {path : Path} :
    path ∈ leaves fs tree ↔ tree <+: path ∧ ∃ entry, fs.get path = some entry ∧ entry.isDir = false := by
  rw [leaves, Finset.mem_filter]
  constructor
  · rintro ⟨member, below, leaf⟩
    obtain ⟨entry, found⟩ := get_of_mem_paths member
    exact ⟨below, entry, found, by rw [← FS.isDirAt_of_get found, leaf]⟩
  · rintro ⟨below, entry, found, leaf⟩
    exact ⟨mem_paths found, below, by rw [FS.isDirAt_of_get found, leaf]⟩

theorem keyAt_of_get {path : Path} {entry : Entry} (found : fs.get path = some entry) :
    keyAt fs path = inodeKey path entry := by
  rw [keyAt, found, Option.elim_some]

theorem keySize_inodeKey {path : Path} {entry : Entry} (found : fs.get path = some entry) :
    keySize fs (inodeKey path entry) = entrySize fs entry := by
  cases entry with
  | file ino => rfl
  | dir mode | symlink target => rw [inodeKey, keySize, sizeAt, found, Option.elim_some]

theorem inodeKey_ne_own {path other : Path} {entry : Entry} {mode : Nat} (found : fs.get path = some entry)
    (leaf : entry.isDir = false) (directory : fs.get other = some (.dir mode)) : inodeKey path entry ≠ .own other := by
  intro same
  cases entry with
  | dir mode => cases leaf
  | file ino => cases same
  | symlink target =>
      cases same
      rw [found] at directory
      cases directory

structure Walked (fs : FS) (tree : Path) (stack : List (List Name)) (usage : Usage) : Prop where
  total : usage.total = ∑ key ∈ usage.owned, keySize fs key
  owned : usage.owned ⊆ (leaves fs tree).image (keyAt fs)
  seen : usage.owned ⊆ usage.seen
  kept : ∀ path ∈ leaves fs tree, keyAt fs path ∈ usage.seen → keyAt fs path ∈ usage.owned
  located : ∀ cur ∈ stack, tree <+: cur ∧ fs.namei cur false = some cur
  start : keyAt fs tree ∈ usage.seen ∨ tree ∈ stack
  closed : ∀ path mode name entry, fs.get path = some (.dir mode) → InodeKey.own path ∈ usage.seen →
    fs.get (path ++ [name]) = some entry → keyAt fs (path ++ [name]) ∈ usage.seen ∨ path ++ [name] ∈ stack

theorem Walked.object {cur : Path} {stack : List (List Name)} {usage : Usage} (walked : Walked fs tree (cur :: stack) usage)
    {path : Path} {entry : Entry} (found : object fs cur = some (path, entry)) : path = cur ∧ fs.get cur = some entry := by
  obtain ⟨named, found⟩ := object_eq_some found
  rw [(walked.located cur List.mem_cons_self).2] at named
  cases named
  exact ⟨rfl, found⟩

theorem object_of_get {cur : Path} {entry : Entry} (named : fs.namei cur false = some cur) (found : fs.get cur = some entry) :
    object fs cur = some (cur, entry) := by
  rw [Storage.object, named, Option.bind_some, found, Option.map_some]

theorem or_mem_of_cons {cur path : Path} {stack : List (List Name)} {before after : Finset InodeKey} (grows : before ⊆ after)
    (top : ∀ entry, fs.get cur = some entry → keyAt fs cur ∈ after) {entry : Entry} (found : fs.get path = some entry)
    (covered : keyAt fs path ∈ before ∨ path ∈ cur :: stack) : keyAt fs path ∈ after ∨ path ∈ stack := by
  rcases covered with old | member
  · exact .inl (grows old)
  · rcases List.mem_cons.mp member with rfl | member
    · exact .inl (top entry found)
    · exact .inr member

theorem Walked.skip {cur : Path} {stack : List (List Name)} {usage : Usage} (walked : Walked fs tree (cur :: stack) usage)
    (directory : fs.isDirAt tree = true)
    (old : ∀ path entry, Storage.object fs cur = some (path, entry) → inodeKey path entry ∈ usage.seen) :
    Walked fs tree stack usage := by
  have top : ∀ entry, fs.get cur = some entry → keyAt fs cur ∈ usage.seen := by
    intro entry found
    rw [keyAt_of_get found]
    exact old _ _ (object_of_get (walked.located cur List.mem_cons_self).2 found)
  obtain ⟨mode, root⟩ := FS.isDirAt_iff.mp directory
  refine ⟨walked.total, walked.owned, walked.seen, walked.kept, fun other member => ?_, ?_, ?_⟩
  · exact walked.located other (List.mem_cons_of_mem _ member)
  · exact or_mem_of_cons (Finset.Subset.refl _) top root walked.start
  · intro path mode name entry found seen child
    exact or_mem_of_cons (Finset.Subset.refl _) top child (walked.closed path mode name entry found seen child)

theorem Walked.enter {cur : Path} {stack : List (List Name)} {usage : Usage} (walked : Walked fs tree (cur :: stack) usage)
    (directory : fs.isDirAt tree = true) {mode : Nat} (found : fs.get cur = some (.dir mode)) :
    Walked fs tree (((fs.names cur).map fun name => cur ++ [name]).reverse ++ stack)
      { usage with seen := insert (.own cur) usage.seen } := by
  have grows : usage.seen ⊆ insert (.own cur) usage.seen := Finset.subset_insert _ _
  have top : ∀ entry, fs.get cur = some entry → keyAt fs cur ∈ insert (.own cur) usage.seen := by
    intro entry _
    rw [keyAt_of_get found]
    exact Finset.mem_insert_self _ _
  obtain ⟨rootMode, root⟩ := FS.isDirAt_iff.mp directory
  refine ⟨walked.total, walked.owned, fun key member => grows (walked.seen member), ?_, ?_, ?_, ?_⟩
  · intro path leaf seen
    rcases Finset.mem_insert.mp seen with same | old
    · obtain ⟨-, entry, present, notDir⟩ := mem_leaves.mp leaf
      rw [keyAt_of_get present] at same
      exact absurd same (inodeKey_ne_own present notDir found)
    · exact walked.kept path leaf old
  · intro other member
    rcases List.mem_append.mp member with child | old
    · obtain ⟨name, inside, rfl⟩ := List.mem_map.mp (List.mem_reverse.mp child)
      refine ⟨(walked.located cur List.mem_cons_self).1.trans (List.prefix_append _ _), ?_⟩
      exact FS.namei_child (FS.isDirAt_iff.mpr ⟨mode, found⟩) (FS.plainName_of_mem_names inside)
    · exact walked.located other (List.mem_cons_of_mem _ old)
  · exact (or_mem_of_cons grows top root walked.start).imp_right (List.mem_append_right _)
  intro path mode' name entry present seen child
  by_cases same : path = cur
  · subst same
    refine .inr (List.mem_append_left _ (List.mem_reverse.mpr (List.mem_map.mpr ⟨name, ?_, rfl⟩)))
    rw [FS.mem_names, child]
    exact Option.some_ne_none _
  · have old : InodeKey.own path ∈ usage.seen :=
      (Finset.mem_insert.mp seen).resolve_left fun equal => same (InodeKey.own.inj equal)
    exact (or_mem_of_cons grows top child (walked.closed path mode' name entry present old child)).imp_right
      (List.mem_append_right _)

theorem Walked.count {cur : Path} {stack : List (List Name)} {usage : Usage} (walked : Walked fs tree (cur :: stack) usage)
    (directory : fs.isDirAt tree = true) {entry : Entry} (found : fs.get cur = some entry) (leaf : entry.isDir = false)
    (fresh : inodeKey cur entry ∉ usage.seen) :
    Walked fs tree stack ⟨insert (inodeKey cur entry) usage.seen, insert (inodeKey cur entry) usage.owned,
      usage.total + entrySize fs entry⟩ := by
  have grows : usage.seen ⊆ insert (inodeKey cur entry) usage.seen := Finset.subset_insert _ _
  have top : ∀ other, fs.get cur = some other → keyAt fs cur ∈ insert (inodeKey cur entry) usage.seen := by
    intro other _
    rw [keyAt_of_get found]
    exact Finset.mem_insert_self _ _
  obtain ⟨rootMode, root⟩ := FS.isDirAt_iff.mp directory
  refine ⟨?_, ?_, ?_, ?_, fun other member => ?_, ?_, ?_⟩
  · rw [Finset.sum_insert fun old => fresh (walked.seen old), keySize_inodeKey found, ← walked.total, Nat.add_comm]
  · refine Finset.insert_subset (Finset.mem_image.mpr ⟨cur, ?_, keyAt_of_get found⟩) walked.owned
    exact mem_leaves.mpr ⟨(walked.located cur List.mem_cons_self).1, entry, found, leaf⟩
  · exact Finset.insert_subset_insert _ walked.seen
  · intro path inside seen
    rcases Finset.mem_insert.mp seen with same | old
    · rw [same]
      exact Finset.mem_insert_self _ _
    · exact Finset.mem_insert_of_mem (walked.kept path inside old)
  · exact walked.located other (List.mem_cons_of_mem _ member)
  · exact or_mem_of_cons grows top root walked.start
  intro path mode name other present seen child
  have old : InodeKey.own path ∈ usage.seen :=
    (Finset.mem_insert.mp seen).resolve_left fun equal => inodeKey_ne_own found leaf present equal.symm
  exact or_mem_of_cons grows top child (walked.closed path mode name other present old child)

theorem Walked.step {cur : Path} {stack : List (List Name)} {usage : Usage} (walked : Walked fs tree (cur :: stack) usage)
    (directory : fs.isDirAt tree = true) : Walked fs tree ((visit fs cur usage).1 ++ stack) (visit fs cur usage).2 := by
  rcases visit_cases fs cur usage with ⟨result, old⟩ | ⟨path, mode, found, -, result⟩ | ⟨path, entry, found, leaf, fresh, result⟩
  · rw [result]
    exact walked.skip directory old
  · obtain ⟨rfl, present⟩ := walked.object found
    rw [result]
    exact walked.enter directory present
  · obtain ⟨rfl, present⟩ := walked.object found
    rw [result]
    exact walked.count directory present leaf fresh

theorem Walked.loop {stack : List (List Name)} {usage : Usage} (walked : Walked fs tree stack usage)
    (directory : fs.isDirAt tree = true) : Walked fs tree [] (usageLoop fs stack usage) := by
  induction stack, usage using usageLoop.induct fs with
  | case1 usage =>
      rw [usageLoop]
      exact walked
  | case2 usage cur stack ih =>
      rw [usageLoop]
      exact ih (walked.step directory)

theorem Walked.all {usage : Usage} (walked : Walked fs tree [] usage) (rel : Path) {entry : Entry}
    (found : fs.get (tree ++ rel) = some entry) : keyAt fs (tree ++ rel) ∈ usage.seen := by
  induction rel using List.reverseRecOn generalizing entry with
  | nil =>
      rw [List.append_nil]
      exact walked.start.resolve_right nofun
  | append_singleton rel name ih =>
      rw [← List.append_assoc] at found ⊢
      obtain ⟨mode, parent⟩ := fs.wellFormed.closed found
      have seen := ih parent
      rw [keyAt_of_get parent] at seen
      exact (walked.closed _ mode name entry parent seen found).resolve_right nofun

theorem dirUsage_eq (directory : fs.isDirAt tree = true) : dirUsage fs tree ∅ =
      (∑ key ∈ (leaves fs tree).image (keyAt fs), keySize fs key, (leaves fs tree).image (keyAt fs)) := by
  have start : Walked fs tree [tree] ⟨∅, ∅, 0⟩ := by
    refine ⟨rfl, Finset.empty_subset _, Finset.empty_subset _, fun _ _ seen => absurd seen (Finset.notMem_empty _), ?_,
      .inr List.mem_cons_self, fun _ _ _ _ _ seen => absurd seen (Finset.notMem_empty _)⟩
    intro cur member
    rw [List.mem_singleton.mp member]
    exact ⟨List.prefix_refl _, FS.namei_dir directory⟩
  have walked := start.loop directory
  have owned : (usageLoop fs [tree] ⟨∅, ∅, 0⟩).owned = (leaves fs tree).image (keyAt fs) := by
    refine Finset.Subset.antisymm walked.owned fun key member => ?_
    obtain ⟨path, leaf, rfl⟩ := Finset.mem_image.mp member
    obtain ⟨⟨rel, rfl⟩, entry, found, -⟩ := mem_leaves.mp leaf
    exact walked.kept _ leaf (walked.all rel found)
  have present : fs.lexists tree = true := by
    obtain ⟨mode, found⟩ := FS.isDirAt_iff.mp directory
    exact FS.lexists_of_get found
  rw [dirUsage, if_pos present, walked.total, owned]

def countedSize (fs : FS) (path : Path) : Nat := if fs.isdir path then 0 else (getsize fs path).getD 0

theorem foldl_add {α : Type} (size : α → Nat) (items : List α) (start : Nat) :
    items.foldl (fun total item => total + size item) start = start + (items.map size).sum := by
  induction items generalizing start with
  | nil => rfl
  | cons item items ih => rw [List.foldl_cons, ih, List.map_cons, List.sum_cons, Nat.add_assoc]

def filesSize (fs : FS) (dir : Path) : Nat := ∑ name ∈ (fs.scanFiles dir).toFinset, countedSize fs (dir ++ [name])

theorem foldl_files {rel : Path} (directory : fs.isDirAt (tree ++ rel) = true) (size : Nat) :
    (fs.scanFiles (tree ++ rel)).foldl (fun size name => size + (getsize fs (tree ++ rel ++ [name])).getD 0) size =
      size + filesSize fs (tree ++ rel) := by
  have unique : (fs.scanFiles (tree ++ rel)).Nodup := by
    rw [FS.scanFiles_of_isDirAt directory]
    exact (FS.nodup_names _ _).filter _
  rw [foldl_add, filesSize, List.sum_toFinset _ unique]
  congr 2
  refine List.map_congr_left fun name member => ?_
  rw [FS.scanFiles_of_isDirAt directory, List.mem_filter, Bool.not_eq_true'] at member
  rw [countedSize, member.2, if_neg Bool.false_ne_true]

theorem recorded_walk (directory : fs.isDirAt tree = true) :
    ∃ visited : List Path, visited.Nodup ∧ (∀ rel, rel ∈ visited ↔ fs.isDirAt (tree ++ rel) = true) ∧
      recordedSize fs tree = (visited.map fun rel => filesSize fs (tree ++ rel)).sum := by
  have rule : WalkInvariant (fun _ : Nat => fs) tree
      (fun size rel _ files => files.foldl (fun size name => size + (getsize fs (tree ++ rel ++ [name])).getD 0) size)
      (fun rel => fs.isDirAt (tree ++ rel))
      (fun visited size => visited.Nodup ∧ size = (visited.map fun rel => filesSize fs (tree ++ rel)).sum) := by
    refine ⟨fun _ _ => rfl, ?_⟩
    rintro visited size rel ⟨unique, counted⟩ here - fresh
    constructor
    · refine List.nodup_append.mpr ⟨unique, List.nodup_singleton _, fun seen old other last same => ?_⟩
      rw [List.mem_singleton.mp last] at same
      exact fresh seen old (same ▸ List.prefix_refl _)
    · rw [foldl_files here, counted, List.map_append, List.sum_append, List.map_singleton, List.sum_singleton]
  obtain ⟨visited, ⟨unique, counted⟩, members⟩ := osWalk_rule rule (fs.height + 1) 0
    (fun _ deep => FS.length_lt_of_isDirAt_append deep) ⟨List.nodup_nil, rfl⟩ (by rw [List.append_nil]; exact directory)
  exact ⟨visited, unique, members, counted⟩

theorem recordedSize_eq (directory : fs.isDirAt tree = true) :
    recordedSize fs tree = ∑ path ∈ leaves fs tree, countedSize fs path := by
  obtain ⟨visited, unique, members, counted⟩ := recorded_walk directory
  have apart : (visited.toFinset : Set Path).PairwiseDisjoint fun rel =>
      (fs.scanFiles (tree ++ rel)).toFinset.image fun name => tree ++ rel ++ [name] := by
    intro left _ right _ away
    rw [Function.onFun, Finset.disjoint_left]
    intro path first second
    obtain ⟨name, -, rfl⟩ := Finset.mem_image.mp first
    obtain ⟨other, -, same⟩ := Finset.mem_image.mp second
    have parents := (List.append_inj' same rfl).1
    exact away (List.append_cancel_left parents).symm
  have inside : (visited.toFinset.biUnion fun rel =>
      (fs.scanFiles (tree ++ rel)).toFinset.image fun name => tree ++ rel ++ [name]) ⊆ leaves fs tree := by
    intro path member
    obtain ⟨rel, walked, member⟩ := Finset.mem_biUnion.mp member
    obtain ⟨name, listed, rfl⟩ := Finset.mem_image.mp member
    have here := (members rel).mp (List.mem_toFinset.mp walked)
    rw [List.mem_toFinset, FS.scanFiles_of_isDirAt here, List.mem_filter, FS.mem_names] at listed
    obtain ⟨entry, found⟩ := Option.ne_none_iff_exists'.mp listed.1
    refine mem_leaves.mpr ⟨?_, entry, found, ?_⟩
    · rw [List.append_assoc]
      exact List.prefix_append _ _
    refine Bool.eq_false_iff.mpr fun isDir => ?_
    have open_ := FS.isdir_of_isDirAt ((FS.isDirAt_of_get found).trans isDir)
    rw [open_] at listed
    exact absurd listed.2 (by decide)
  rw [counted, ← List.sum_toFinset _ unique, ← Finset.sum_subset inside, Finset.sum_biUnion apart]
  · refine Finset.sum_congr rfl fun rel _ => ?_
    rw [filesSize, Finset.sum_image]
    intro left _ right _ same
    exact List.singleton_injective (List.append_cancel_left same)
  intro path leaf outside
  obtain ⟨⟨below, rfl⟩, entry, found, notDir⟩ := mem_leaves.mp leaf
  rcases List.eq_nil_or_concat below with rfl | ⟨rel, name, rfl⟩
  · rw [List.append_nil] at found
    rw [FS.isDirAt_of_get found, notDir] at directory
    cases directory
  rw [List.concat_eq_append, ← List.append_assoc] at found outside ⊢
  have here := FS.isDirAt_parent found
  rw [countedSize, if_pos]
  by_contra closed_
  refine outside (Finset.mem_biUnion.mpr ⟨rel, List.mem_toFinset.mpr ((members rel).mpr here), ?_⟩)
  refine Finset.mem_image.mpr ⟨name, ?_, rfl⟩
  rw [List.mem_toFinset, FS.scanFiles_of_isDirAt here, List.mem_filter, FS.mem_names, found]
  exact ⟨Option.some_ne_none _, by rw [Bool.not_eq_true', Bool.eq_false_iff]; exact closed_⟩

def fileLeaves (fs : FS) (tree : Path) : Finset Path := (leaves fs tree).filter fun path => fs.isSymlinkAt path = false

def linkLeaves (fs : FS) (tree : Path) : Finset Path := (leaves fs tree).filter fun path => fs.isSymlinkAt path = true

def repeatedBytes (fs : FS) (tree : Path) : Nat :=
  ∑ key ∈ (fileLeaves fs tree).image (keyAt fs),
    (((fileLeaves fs tree).filter fun path => keyAt fs path = key).card - 1) * keySize fs key

def followedBytes (fs : FS) (tree : Path) : Nat := ∑ path ∈ linkLeaves fs tree, countedSize fs path

def spelledBytes (fs : FS) (tree : Path) : Nat := ∑ path ∈ linkLeaves fs tree, sizeAt fs path

theorem mem_fileLeaves {path : Path} :
    path ∈ fileLeaves fs tree ↔ tree <+: path ∧ ∃ ino, fs.get path = some (.file ino) := by
  rw [fileLeaves, Finset.mem_filter, mem_leaves]
  constructor
  · rintro ⟨⟨below, entry, found, notDir⟩, notLink⟩
    rw [FS.isSymlinkAt_of_get found] at notLink
    cases entry with
    | dir mode => cases notDir
    | file ino => exact ⟨below, ino, found⟩
    | symlink target => cases notLink
  · rintro ⟨below, ino, found⟩
    exact ⟨⟨below, _, found, rfl⟩, FS.isSymlinkAt_of_get found⟩

theorem mem_linkLeaves {path : Path} :
    path ∈ linkLeaves fs tree ↔ tree <+: path ∧ ∃ target, fs.get path = some (.symlink target) := by
  rw [linkLeaves, Finset.mem_filter, mem_leaves]
  constructor
  · rintro ⟨⟨below, entry, found, notDir⟩, link⟩
    exact ⟨below, FS.isSymlinkAt_iff.mp link⟩
  · rintro ⟨below, target, found⟩
    exact ⟨⟨below, _, found, rfl⟩, FS.isSymlinkAt_of_get found⟩

theorem countedSize_file (directory : fs.isDirAt tree = true) {path : Path} (file : path ∈ fileLeaves fs tree) :
    countedSize fs path = keySize fs (keyAt fs path) := by
  obtain ⟨⟨below, rfl⟩, ino, found⟩ := mem_fileLeaves.mp file
  rcases List.eq_nil_or_concat below with rfl | ⟨rel, name, rfl⟩
  · rw [List.append_nil] at found
    rw [FS.isDirAt_of_get found] at directory
    cases directory
  rw [List.concat_eq_append, ← List.append_assoc] at found ⊢
  have notLink := FS.isSymlinkAt_of_get found
  have named := FS.namei_child_follow (FS.isDirAt_parent found) (FS.plainName_of_get found (by simp)) notLink
  have stated : fs.stat (tree ++ rel ++ [name]) = some (.file ino) := by
    rw [FS.stat, named, Option.bind_some, found]
  rw [countedSize, FS.isdir, stated, if_neg Bool.false_ne_true, getsize, stated, keyAt_of_get found]
  rfl

theorem sum_files (directory : fs.isDirAt tree = true) :
    ∑ path ∈ fileLeaves fs tree, countedSize fs path =
      ∑ key ∈ (fileLeaves fs tree).image (keyAt fs), keySize fs key + repeatedBytes fs tree := by
  rw [Finset.sum_congr rfl fun path => countedSize_file directory, Finset.sum_comp, repeatedBytes,
    ← Finset.sum_add_distrib]
  refine Finset.sum_congr rfl fun key member => ?_
  obtain ⟨path, file, same⟩ := Finset.mem_image.mp member
  have positive : 0 < ((fileLeaves fs tree).filter fun path => keyAt fs path = key).card :=
    Finset.card_pos.mpr ⟨path, Finset.mem_filter.mpr ⟨file, same⟩⟩
  rw [Nat.nsmul_eq_mul, Nat.sub_mul, Nat.one_mul, Nat.add_sub_cancel' (Nat.le_mul_of_pos_left _ positive)]

theorem keyAt_link {path : Path} (link : path ∈ linkLeaves fs tree) : keyAt fs path = .own path := by
  obtain ⟨-, target, found⟩ := mem_linkLeaves.mp link
  exact keyAt_of_get found

theorem sum_links :
    ∑ key ∈ (linkLeaves fs tree).image (keyAt fs), keySize fs key = spelledBytes fs tree := by
  rw [Finset.sum_image, spelledBytes]
  · refine Finset.sum_congr rfl fun path link => ?_
    rw [keyAt_link link, keySize]
  · intro left first right second same
    rw [keyAt_link first, keyAt_link second] at same
    exact InodeKey.own.inj same

theorem recorded_add_spelled (directory : fs.isDirAt tree = true) :
    recordedSize fs tree + spelledBytes fs tree =
      (dirUsage fs tree ∅).1 + repeatedBytes fs tree + followedBytes fs tree := by
  have parts : fileLeaves fs tree ∪ linkLeaves fs tree = leaves fs tree := by
    ext path
    rw [Finset.mem_union, fileLeaves, linkLeaves, Finset.mem_filter, Finset.mem_filter]
    cases fs.isSymlinkAt path <;> simp
  have apart : Disjoint (fileLeaves fs tree) (linkLeaves fs tree) := by
    refine Finset.disjoint_left.mpr fun path file link => ?_
    obtain ⟨-, ino, found⟩ := mem_fileLeaves.mp file
    obtain ⟨-, target, other⟩ := mem_linkLeaves.mp link
    rw [found] at other
    cases other
  have keysApart : Disjoint ((fileLeaves fs tree).image (keyAt fs)) ((linkLeaves fs tree).image (keyAt fs)) := by
    refine Finset.disjoint_left.mpr fun key file link => ?_
    obtain ⟨path, member, rfl⟩ := Finset.mem_image.mp file
    obtain ⟨other, inside, same⟩ := Finset.mem_image.mp link
    obtain ⟨-, ino, found⟩ := mem_fileLeaves.mp member
    rw [keyAt_link inside, keyAt_of_get found] at same
    cases same
  have recorded : recordedSize fs tree =
      ∑ path ∈ fileLeaves fs tree, countedSize fs path + followedBytes fs tree := by
    rw [recordedSize_eq directory, ← parts, Finset.sum_union apart, followedBytes]
  have used : (dirUsage fs tree ∅).1 =
      ∑ key ∈ (fileLeaves fs tree).image (keyAt fs), keySize fs key + spelledBytes fs tree := by
    rw [dirUsage_eq directory, ← parts, Finset.image_union, Finset.sum_union keysApart, sum_links]
  rw [recorded, used, sum_files directory]
  omega

/-- Every layer has the size that its inodes use, and the summary adds these up. -/
def LayersAccounted (fs : FS) (trees : List Path) : Prop :=
  (∀ tree ∈ trees, recordedSize fs tree = (dirUsage fs tree ∅).1) ∧
    layersSize fs trees = (trees.map fun tree => (dirUsage fs tree ∅).1).sum

theorem layersSize_of_recorded {trees : List Path} (same : ∀ tree ∈ trees, recordedSize fs tree = (dirUsage fs tree ∅).1) :
    layersSize fs trees = (trees.map fun tree => (dirUsage fs tree ∅).1).sum := by
  refine congrArg List.sum (List.map_congr_left fun tree member => ?_)
  rw [layerBytes]
  split
  · exact same tree member
  · rfl

theorem recorded_iff (directory : fs.isDirAt tree = true) :
    recordedSize fs tree = (dirUsage fs tree ∅).1 ↔ spelledBytes fs tree = repeatedBytes fs tree + followedBytes fs tree := by
  have balance := recorded_add_spelled directory
  omega

end

def linkedTwice : FS :=
  let one := FS.populate [.dir (pathOf "tree"), .file (pathOf "tree/a") [97, 98, 99]]
  (one.link (pathOf "tree/a") (pathOf "tree/b")).getD one

def linkedOnce : FS :=
  FS.populate [.dir (pathOf "tree"), .file (pathOf "tree/a") [97], .symlink (pathOf "tree/b") ⟨false, [['a']]⟩]

end PDocker.Storage
