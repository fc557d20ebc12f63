import PDocker.Context.TarReading

/-!
# The archive of a tree

The archive has the entries of the tree that are not under a blank name at the
top, in order. A reader gets each as it was sent when all times fit their fields.
-/

set_option autoImplicit false

namespace PDocker.Context.Tar

open Data Ustar

inductive Item where
  | file (data : Bytes)
  | symlink (target : LinkTarget)
  | dir

structure Listed where
  path : List FileName
  stat : FileStat
  item : Item

mutual

def Tree.listed (path : List FileName) : Tree → List Listed
  | .file stat data => [⟨path, stat, .file data⟩]
  | .symlink stat target => [⟨path, stat, .symlink target⟩]
  | .dir stat children => ⟨path, stat, .dir⟩ :: childrenListed path children

def childrenListed (path : List FileName) : List (FileName × Tree) → List Listed
  | [] => []
  | (name, tree) :: rest => tree.listed (path ++ [name]) ++ childrenListed path rest

end

def ContextDir.listed (root : ContextDir) : List Listed := childrenListed [] root.children

namespace Listed

def flag (entry : Listed) : Char :=
  match entry.item with
  | .file _ => '0'
  | .symlink _ => '2'
  | .dir => '5'

def data (entry : Listed) : Bytes :=
  match entry.item with
  | .file data => data
  | _ => []

def name (entry : Listed) : Text :=
  match entry.item with
  | .dir => tarPath entry.path ++ ['/']
  | _ => tarPath entry.path

def link (entry : Listed) : Text :=
  match entry.item with
  | .symlink target => target.val
  | _ => []

def expected (entry : Listed) : ArchiveEntry :=
  ⟨entry.name, [UInt8.ofNat entry.flag.toNat], entry.stat.mode, entry.stat.mtimeMillis / 1000, entry.link, entry.data⟩

def sentName (entry : Listed) : Text :=
  match entry.item with
  | .dir => trimEndSlashes (forwardSlashes (tarPath entry.path)) ++ ['/']
  | _ => forwardSlashes (tarPath entry.path)

def sentMode (entry : Listed) : Nat :=
  match entry.item with
  | .file _ => tarMode entry.stat false false
  | .symlink _ => tarMode entry.stat false true
  | .dir => tarMode entry.stat true false

def sentBytes (entry : Listed) : Bytes :=
  writeTarEntry entry.sentName entry.data (linkAwareMtime entry.stat) entry.sentMode entry.flag
    (forwardSlashes entry.link)

def Fits (entry : Listed) : Prop := unsigned (linkAwareMtime entry.stat) < 8 ^ 11

instance (entry : Listed) : Decidable entry.Fits := inferInstanceAs (Decidable (_ < _))

def got (entry : Listed) : ArchiveEntry :=
  ⟨readName entry.sentName, [UInt8.ofNat entry.flag.toNat], entry.sentMode, unsigned (linkAwareMtime entry.stat),
    readLink (forwardSlashes entry.link), entry.data⟩

end Listed

def ContextDir.visible (root : ContextDir) : List (FileName × Tree) :=
  root.children.filter fun child => !isBlank (forwardSlashes child.1.val)

def ContextDir.sent (root : ContextDir) : List Listed := childrenListed [] root.visible

variable {path : List FileName}

theorem tarPath_concat (filled : path ≠ []) (name : FileName) :
    tarPath (path ++ [name]) = tarPath path ++ '/' :: name.val := by
  rw [tarPath, List.map_append, List.map_singleton, intercalate_concat (mt List.map_eq_nil_iff.mp filled),
    List.append_assoc]
  rfl

theorem not_blank_tarPath (filled : path ≠ []) (name : FileName) :
    isBlank (forwardSlashes (tarPath (path ++ [name]))) = false := by
  rw [tarPath_concat filled, isBlank, forwardSlashes, List.all_eq_false]
  exact ⟨'/', List.mem_map.mpr ⟨'/', by simp, rfl⟩, by decide⟩

mutual

theorem addTarPath_eq : (tree : Tree) → (path : List FileName) → path ≠ [] →
    isBlank (forwardSlashes (tarPath path)) = false → addTarPath path tree = (tree.listed path).flatMap Listed.sentBytes
  | .file stat data, path, _, visible => by
      rw [addTarPath, Tree.listed, List.flatMap_singleton]
      rw [if_neg (by rw [visible]; exact Bool.false_ne_true)]
      rfl
  | .symlink stat target, path, _, visible => by
      rw [addTarPath, Tree.listed, List.flatMap_singleton]
      rw [if_neg (by rw [visible]; exact Bool.false_ne_true)]
      rfl
  | .dir stat children, path, filled, visible => by
      rw [addTarPath, Tree.listed, List.flatMap_cons, ← addTarPaths_eq children path filled]
      rw [if_neg (by rw [visible]; exact Bool.false_ne_true)]
      rfl

theorem addTarPaths_eq : (children : List (FileName × Tree)) → (path : List FileName) → path ≠ [] →
    addTarPaths path children = (childrenListed path children).flatMap Listed.sentBytes
  | [], _, _ => rfl
  | (name, tree) :: rest, path, filled => by
      rw [addTarPaths, childrenListed, List.flatMap_append, addTarPaths_eq rest path filled,
        addTarPath_eq tree _ (by simp) (not_blank_tarPath filled name)]

end

theorem addTarPath_blank {tree : Tree} (blank : isBlank (forwardSlashes (tarPath path)) = true) :
    addTarPath path tree = [] := by
  cases tree <;> rw [addTarPath] <;> exact if_pos blank

theorem addTarPaths_top (children : List (FileName × Tree)) : addTarPaths [] children =
      (childrenListed [] (children.filter fun child => !isBlank (forwardSlashes child.1.val))).flatMap
        Listed.sentBytes := by
  induction children with
  | nil => rfl
  | cons child rest ih =>
      obtain ⟨name, tree⟩ := child
      have top : tarPath ([] ++ [name]) = name.val := intercalate_singleton _ _
      rw [addTarPaths, ih, List.filter_cons]
      cases blank : isBlank (forwardSlashes name.val) with
      | true =>
          rw [addTarPath_blank (by rw [top]; exact blank)]
          rfl
      | false =>
          rw [addTarPath_eq tree _ (by simp) (by rw [top]; exact blank)]
          simp only [Bool.not_false, if_true, childrenListed, List.flatMap_append]

mutual

theorem Tree.prefix_of_listed {entry : Listed} :
    (tree : Tree) → (path : List FileName) → entry ∈ tree.listed path → path <+: entry.path
  | .file _ _, path, member => by
      rw [Tree.listed, List.mem_singleton] at member
      rw [member]
  | .symlink _ _, path, member => by
      rw [Tree.listed, List.mem_singleton] at member
      rw [member]
  | .dir _ children, path, member => by
      rw [Tree.listed, List.mem_cons] at member
      rcases member with rfl | below
      · exact List.prefix_refl _
      · obtain ⟨child, -, under⟩ := child_of_listed children path below
        exact (List.prefix_append path [child.1]).trans under

theorem child_of_listed {entry : Listed} :
    (children : List (FileName × Tree)) → (path : List FileName) → entry ∈ childrenListed path children →
      ∃ child ∈ children, path ++ [child.1] <+: entry.path
  | [], _, member => nomatch member
  | (name, tree) :: rest, path, member => by
      rw [childrenListed, List.mem_append] at member
      rcases member with here | later
      · exact ⟨(name, tree), List.mem_cons_self, tree.prefix_of_listed _ here⟩
      · obtain ⟨child, inside, under⟩ := child_of_listed rest path later
        exact ⟨child, List.mem_cons_of_mem _ inside, under⟩

end

theorem path_ne {left right : List FileName} {name other : FileName} (differ : other ≠ name)
    (underName : path ++ [name] <+: left) (underOther : path ++ [other] <+: right) : left ≠ right := by
  rintro rfl
  have same : path ++ [name] = path ++ [other] :=
    (List.prefix_of_prefix_length_le underName underOther (by simp)).eq_of_length (by simp)
  exact differ (List.cons.inj (List.append_cancel_left same)).1.symm

mutual

theorem Tree.listed_unique {left right : Listed} : (tree : Tree) → (path : List FileName) → tree.Distinct →
    left ∈ tree.listed path → right ∈ tree.listed path → left.path = right.path → left = right
  | .file _ _, _, _, leftIn, rightIn, _ => by
      rw [Tree.listed, List.mem_singleton] at leftIn rightIn
      rw [leftIn, rightIn]
  | .symlink _ _, _, _, leftIn, rightIn, _ => by
      rw [Tree.listed, List.mem_singleton] at leftIn rightIn
      rw [leftIn, rightIn]
  | .dir _ children, path, distinct, leftIn, rightIn, same => by
      have deeper : ∀ entry ∈ childrenListed path children, entry.path ≠ path := by
        intro entry member own
        obtain ⟨child, -, under⟩ := child_of_listed children path member
        have longer := under.length_le
        rw [own, List.length_append, List.length_singleton] at longer
        omega
      rw [Tree.listed, List.mem_cons] at leftIn rightIn
      rcases leftIn with rfl | leftIn
      · rcases rightIn with rfl | rightIn
        · rfl
        · exact absurd same.symm (deeper right rightIn)
      · rcases rightIn with rfl | rightIn
        · exact absurd same (deeper left leftIn)
        · exact childrenListed_unique children path distinct leftIn rightIn same

theorem childrenListed_unique {left right : Listed} : (children : List (FileName × Tree)) →
    (path : List FileName) → DistinctChildren children → left ∈ childrenListed path children →
    right ∈ childrenListed path children → left.path = right.path → left = right
  | [], _, _, leftIn, _, _ => nomatch leftIn
  | (name, tree) :: rest, path, distinct, leftIn, rightIn, same => by
      obtain ⟨others, own, later⟩ := distinct
      rw [childrenListed, List.mem_append] at leftIn rightIn
      rcases leftIn with leftIn | leftIn
      · rcases rightIn with rightIn | rightIn
        · exact tree.listed_unique _ own leftIn rightIn same
        · obtain ⟨child, member, under⟩ := child_of_listed rest path rightIn
          exact absurd same (path_ne (others child member) (tree.prefix_of_listed _ leftIn) under)
      · rcases rightIn with rightIn | rightIn
        · obtain ⟨child, member, under⟩ := child_of_listed rest path leftIn
          exact absurd same.symm (path_ne (others child member) (tree.prefix_of_listed _ rightIn) under)
        · exact childrenListed_unique rest path later leftIn rightIn same

end

theorem noNul_tarPath (path : List FileName) : NoNul (tarPath path) := by
  induction path with
  | nil => exact List.not_mem_nil
  | cons name path ih =>
      have plain : Char.ofNat 0 ∉ name.val := name.property.2.2
      cases path with
      | nil => rwa [NoNul, tarPath, List.map_singleton, intercalate_singleton]
      | cons next path =>
          rw [NoNul, tarPath, List.map_cons, List.map_cons, intercalate_cons, List.mem_append, List.mem_append]
          rintro ((own | slash) | later)
          · exact plain own
          · revert slash
            decide
          · exact ih later

theorem noNul_forwardSlashes {text : Text} (plain : NoNul text) : NoNul (forwardSlashes text) := by
  intro member
  obtain ⟨char, inside, same⟩ := List.mem_map.mp member
  split at same
  · revert same
    decide
  · exact plain (same ▸ inside)

namespace Listed

variable (entry : Listed)

theorem noNul_sentName : NoNul entry.sentName := by
  have plain := noNul_forwardSlashes (noNul_tarPath entry.path)
  rw [sentName]
  split
  · intro member
    rcases List.mem_append.mp member with inside | slash
    · exact plain ((List.rdropWhile_prefix _ _).subset inside)
    · revert slash
      decide
  · exact plain

theorem noNul_link : NoNul entry.link := by
  rw [link]
  split
  · rename_i target _
    exact target.property.2
  · exact List.not_mem_nil

theorem sentMode_lt : entry.sentMode < 8 ^ 7 := by
  have small : ∀ isDir isSymlink, tarMode entry.stat isDir isSymlink < 4096 := by
    intro isDir isSymlink
    have own := entry.stat.permissions
    rw [tarMode]
    split
    · exact own
    split
    · decide
    · split
      · decide
      · split <;> decide
  rw [sentMode]
  split <;> exact Nat.lt_trans (small _ _) (by decide)

theorem flag_ne : UInt8.ofNat entry.flag.toNat ≠ 120 := by
  rw [flag]
  split <;> decide

end Listed

theorem readEntries_end : readEntries [] (List.replicate 1024 0) = some [] := by
  rw [readEntries, dif_neg (by rw [List.length_replicate]; decide), List.take_replicate, if_pos (by rfl),
    List.take_replicate]
  exact if_pos ⟨rfl, rfl⟩

theorem readEntries_sent (entries : List Listed)
    (small : ∀ entry ∈ entries, entry.sentBytes.length < 2 ^ 31) :
    readEntries [] (entries.flatMap Listed.sentBytes ++ List.replicate 1024 0) =
      if ∀ entry ∈ entries, entry.Fits then some (entries.map Listed.got) else none := by
  induction entries with
  | nil =>
      rw [List.flatMap_nil, List.nil_append, readEntries_end, if_pos nofun]
      rfl
  | cons entry entries ih =>
      rw [List.forall_mem_cons] at small
      rw [List.flatMap_cons, List.append_assoc, Listed.sentBytes,
        readEntries_writeTarEntry entry.noNul_sentName (noNul_forwardSlashes entry.noNul_link) entry.sentMode_lt
          entry.flag_ne small.1, ih small.2]
      simp only [List.forall_mem_cons]
      by_cases fits : entry.Fits
      · rw [if_pos (show unsigned (linkAwareMtime entry.stat) < 8 ^ 11 from fits)]
        by_cases rest : ∀ entry ∈ entries, entry.Fits
        · rw [if_pos rest, if_pos ⟨fits, rest⟩]
          rfl
        · rw [if_neg rest, if_neg fun both => rest both.2]
          rfl
      · rw [if_neg (show ¬ unsigned (linkAwareMtime entry.stat) < 8 ^ 11 from fits)]
        exact (if_neg fun both => fits both.1).symm

theorem readArchive_createTar {root : ContextDir} {bytes : Bytes} (written : createTar root = some bytes) :
    readArchive bytes = if ∀ entry ∈ root.sent, entry.Fits then some (root.sent.map Listed.got) else none := by
  rw [createTar, Option.ite_none_right_eq_some] at written
  obtain ⟨small, same⟩ := written
  rw [addTarPaths_top] at small same
  obtain rfl := Option.some.inj same
  refine readEntries_sent root.sent fun entry member => ?_
  obtain ⟨earlier, later, cut⟩ := List.append_of_mem member
  have whole : (root.sent.flatMap Listed.sentBytes ++ List.replicate 1024 0).length < 2 ^ 31 := small
  rw [cut, List.flatMap_append, List.flatMap_cons] at whole
  simp only [List.length_append] at whole
  omega

end PDocker.Context.Tar
