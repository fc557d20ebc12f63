import PDocker.Context.TarTree
import PDocker.Context.Walk

/-!
# The archive of a build context read back

The entries of the archive are the entries of the tree as long as no name and no
target has a backslash, a short target has no character outside of the basic
plane, the times lie between 1970 and 2242, modes can be read and no name at the
top is blank.
-/

set_option autoImplicit false

namespace PDocker.Context.Tar

open Data Ustar

theorem length_forwardSlashes (text : Text) : (utf8 (forwardSlashes text)).length = (utf8 text).length := by
  induction text with
  | nil => rfl
  | cons char text ih =>
      have own : (String.utf8EncodeChar (if char = '\\' then '/' else char)).length =
          (String.utf8EncodeChar char).length := by
        split
        · rename_i same
          rw [same]
          decide
        · rfl
      rw [forwardSlashes, List.map_cons, utf8_cons, utf8_cons, List.length_append, List.length_append, own]
      exact congrArg _ ih

theorem not_backslash_forwardSlashes (text : Text) : '\\' ∉ forwardSlashes text := by
  intro member
  obtain ⟨char, -, same⟩ := List.mem_map.mp member
  split at same
  · revert same
    decide
  · rename_i differs
    exact differs same

theorem isBlank_forwardSlashes (text : Text) : isBlank (forwardSlashes text) = isBlank text := by
  rw [isBlank, isBlank, forwardSlashes, List.all_map]
  refine congrArg (List.all text) (funext fun char => ?_)
  rw [Function.comp]
  split
  · rename_i same
    rw [same]
    decide
  · rfl

/-- A target without a backslash that is long, or has no character outside of the basic plane -/
def PlainTarget (target : Text) : Prop :=
  '\\' ∉ target ∧ ((utf8 target).length ≤ 100 → ∀ char ∈ target, char.toNat < 65536)

theorem readLink_iff {target : Text} : readLink (forwardSlashes target) = target ↔ PlainTarget target := by
  rw [readLink, length_forwardSlashes]
  constructor
  · intro kept
    by_cases long : (utf8 target).length > 100
    · rw [if_pos long] at kept
      refine ⟨?_, fun short => absurd long (Nat.not_lt.mpr short)⟩
      rw [← kept]
      exact not_backslash_forwardSlashes target
    rw [if_neg long] at kept
    have origin : ∀ char ∈ target, ∃ whole ∈ forwardSlashes target, char ∈ loneChars whole := by
      intro char member
      rw [← kept] at member
      exact List.mem_flatMap.mp ((trimLoop_sublist _ _).subset member)
    refine ⟨?_, fun _ char member => ?_⟩
    · intro member
      obtain ⟨whole, inside, lone⟩ := origin _ member
      rw [loneChars] at lone
      split at lone
      · rw [← List.mem_singleton.mp lone] at inside
        exact not_backslash_forwardSlashes target inside
      · revert lone
        decide
    · obtain ⟨whole, -, lone⟩ := origin _ member
      rw [loneChars] at lone
      split at lone
      · rename_i small
        rwa [List.mem_singleton.mp lone]
      · have mark : char = '?' := by simpa using lone
        rw [mark]
        decide
  · rintro ⟨plain, small⟩
    rw [forwardSlashes_eq plain]
    split
    · rfl
    rename_i short
    have alone : target.flatMap loneChars = target := by
      have each : ∀ char ∈ target, loneChars char = [char] :=
        fun char member => if_pos (small (Nat.not_lt.mp short) char member)
      rw [List.flatMap_congr each]
      exact List.flatMap_singleton' target
    rw [trimUtf8ToMax, alone, trimLoop_eq (Nat.not_lt.mp short)]

variable {char : Char} {name : Text} {path : List FileName}

theorem mem_of_readName (member : char ∈ readName name) : char ∈ name := by
  rw [readName] at member
  split at member
  · rename_i entryName before split
    obtain ⟨-, -, ⟨empty, rfl⟩ | same⟩ := splitUstarName_spec split
    · rwa [if_pos empty] at member
    rw [same]
    split at member
    · exact List.mem_append_right _ (List.mem_cons_of_mem _ member)
    · exact member
  · exact member

theorem readName_eq (front : name.head? ≠ some '/') : readName name = name := by
  rw [readName]
  split
  · rename_i entryName before split
    obtain ⟨-, -, ⟨empty, same⟩ | same⟩ := splitUstarName_spec split
    · rw [if_pos empty, same]
    rw [if_neg, same]
    rintro rfl
    rw [same] at front
    exact front rfl
  · rfl

theorem mem_tarPath {name : FileName} (listed : name ∈ path) (member : char ∈ name.val) : char ∈ tarPath path := by
  induction path with
  | nil => cases listed
  | cons first path ih =>
      cases path with
      | nil =>
          rw [tarPath, List.map_singleton, intercalate_singleton]
          rwa [List.mem_singleton.mp listed] at member
      | cons next path =>
          rw [tarPath, List.map_cons, List.map_cons, intercalate_cons, List.mem_append, List.mem_append]
          rcases List.mem_cons.mp listed with rfl | later
          · exact .inl (.inl member)
          · exact .inr (ih later)

theorem not_backslash_tarPath (plain : ∀ name ∈ path, '\\' ∉ name.val) :
    '\\' ∉ tarPath path := by
  induction path with
  | nil => exact List.not_mem_nil
  | cons name path ih =>
      rw [List.forall_mem_cons] at plain
      cases path with
      | nil => rw [tarPath, List.map_singleton, intercalate_singleton]; exact plain.1
      | cons next path =>
          rw [tarPath, List.map_cons, List.map_cons, intercalate_cons, List.mem_append, List.mem_append]
          rintro ((own | slash) | later)
          · exact plain.1 own
          · revert slash
            decide
          · exact ih plain.2 later

theorem tarPath_injective {left right : List FileName} (leftFilled : left ≠ []) (rightFilled : right ≠ [])
    (same : tarPath left = tarPath right) : left = right := by
  have parts : ∀ path : List FileName, path ≠ [] → splitParts '/' (tarPath path) = path.map (·.val) := by
    intro path filled
    refine splitParts_intercalate (mt List.map_eq_nil_iff.mp filled) fun part member => ?_
    obtain ⟨name, -, rfl⟩ := List.mem_map.mp member
    exact name.property.2.1
  have names := parts left leftFilled
  rw [same, parts right rightFilled] at names
  exact List.map_injective_iff.mpr Subtype.val_injective names.symm

theorem trimEndSlashes_tarPath (filled : path ≠ []) :
    trimEndSlashes (tarPath path) = tarPath path := by
  obtain ⟨front, name, rfl⟩ := (List.eq_nil_or_concat path).resolve_left filled
  rw [List.concat_eq_append]
  have ends : ∃ text, tarPath (front ++ [name]) = text ++ name.val := by
    cases front with
    | nil => exact ⟨[], intercalate_singleton _ _⟩
    | cons first front => exact ⟨tarPath (first :: front) ++ ['/'], by rw [tarPath_concat (List.cons_ne_nil _ _)]; simp⟩
  obtain ⟨text, cut⟩ := ends
  rw [cut, trimEndSlashes_append name.property.1 name.property.2.1]

theorem head_tarPath (filled : path ≠ []) :
    ∃ char rest, tarPath path = char :: rest ∧ char ≠ '/' := by
  obtain ⟨name, path, rfl⟩ := List.exists_cons_of_ne_nil filled
  obtain ⟨char, text, cut⟩ := List.exists_cons_of_ne_nil name.property.1
  have differs : char ≠ '/' := by
    rintro rfl
    exact name.property.2.1 (cut ▸ List.mem_cons_self)
  cases path with
  | nil => exact ⟨char, text, (intercalate_singleton _ _).trans cut, differs⟩
  | cons next path =>
      refine ⟨char, text ++ '/' :: tarPath (next :: path), ?_, differs⟩
      rw [tarPath, List.map_cons, List.map_cons, intercalate_cons, cut, List.append_assoc]
      rfl

/-! ## When the archive is read back -/

namespace Listed

def guessedMode (entry : Listed) : Nat :=
  match entry.item with
  | .file _ => if entry.stat.canExecute then 493 else 420
  | .symlink _ => 511
  | .dir => 493

theorem sentMode_eq (entry : Listed) :
    entry.sentMode = if entry.stat.unixMode then entry.stat.mode else entry.guessedMode := by
  obtain ⟨path, stat, item⟩ := entry
  cases item <;> rfl

structure Portable (entry : Listed) : Prop where
  names : ∀ name ∈ entry.path, '\\' ∉ name.val
  target : PlainTarget entry.link
  time : 0 ≤ entry.stat.mtimeMillis ∧ entry.stat.mtimeMillis < 8 ^ 11 * 1000
  mode : entry.stat.unixMode = true ∨ entry.stat.mode = entry.guessedMode

variable {entry other : Listed}

theorem sentName_eq (filled : entry.path ≠ []) (plain : ∀ name ∈ entry.path, '\\' ∉ name.val) :
    entry.sentName = entry.name ∧ readName entry.name = entry.name := by
  have slashes := forwardSlashes_eq (not_backslash_tarPath plain)
  obtain ⟨char, rest, cut, differs⟩ := head_tarPath filled
  constructor
  · rw [sentName, name, slashes]
    split
    · rw [trimEndSlashes_tarPath filled]
    · rfl
  · refine readName_eq fun slash => differs ?_
    rw [name] at slash
    split at slash <;> rw [cut] at slash <;> exact Option.some.inj slash

theorem Portable.got_eq (portable : entry.Portable) (filled : entry.path ≠ []) :
    entry.Fits ∧ entry.got = entry.expected := by
  obtain ⟨sent, read⟩ := sentName_eq filled portable.names
  obtain ⟨positive, bounded⟩ := portable.time
  have time : unsigned (linkAwareMtime entry.stat) = (entry.stat.mtimeMillis / 1000).toNat := by
    rw [unsigned, linkAwareMtime, Int.tdiv_eq_ediv_of_nonneg positive]
    omega
  have seconds : ((entry.stat.mtimeMillis / 1000).toNat : Int) = entry.stat.mtimeMillis / 1000 := by omega
  refine ⟨?_, ?_⟩
  · rw [Fits, time]
    omega
  rw [got, expected, sent, read, time, seconds, readLink_iff.mpr portable.target, sentMode_eq]
  rcases portable.mode with own | guessed
  · rw [if_pos own]
  · rw [← guessed, ite_self]

theorem portable_of_got (fits : entry.Fits) (names : ∀ name ∈ entry.path, '\\' ∉ name.val)
    (same : entry.got = entry.expected) : entry.Portable := by
  obtain ⟨-, -, mode, time, link, -⟩ := ArchiveEntry.mk.inj same
  refine ⟨names, readLink_iff.mp link, ?_, ?_⟩
  · rw [Fits] at fits
    omega
  rw [sentMode_eq] at mode
  by_cases own : entry.stat.unixMode = true
  · exact .inl own
  · rw [if_neg own] at mode
    exact .inr mode.symm

theorem names_of_got (same : other.got = entry.expected) : ∀ name ∈ entry.path, '\\' ∉ name.val := by
  intro part listed member
  have sameName : readName other.sentName = entry.name := congrArg ArchiveEntry.name same
  have inside : '\\' ∈ entry.name := by
    have within := mem_tarPath listed member
    rw [name]
    split
    · exact List.mem_append_left _ within
    · exact within
  rw [← sameName] at inside
  have sent := mem_of_readName inside
  rw [sentName] at sent
  split at sent
  · rcases List.mem_append.mp sent with front | slash
    · exact not_backslash_forwardSlashes _ ((List.rdropWhile_prefix _ _).subset front)
    · revert slash
      decide
  · exact not_backslash_forwardSlashes _ sent

theorem path_of_name (filled : entry.path ≠ []) (otherFilled : other.path ≠ [])
    (flags : [UInt8.ofNat other.flag.toNat] = [UInt8.ofNat entry.flag.toNat]) (same : other.name = entry.name) :
    other.path = entry.path := by
  apply tarPath_injective otherFilled filled
  rw [name, name] at same
  rw [flag, flag] at flags
  cases own : entry.item <;> cases its : other.item <;> rw [own, its] at flags <;> rw [own, its] at same <;>
    first
    | exact same
    | exact List.append_cancel_right same
    | dsimp only at flags
      exact absurd flags (by decide)

end Listed

theorem mem_childrenListed {entry : Listed} {children : List (FileName × Tree)} :
    entry ∈ childrenListed path children ↔ ∃ child ∈ children, entry ∈ child.2.listed (path ++ [child.1]) := by
  induction children with
  | nil => exact ⟨nofun, nofun⟩
  | cons child rest ih => rw [childrenListed, List.mem_append, ih, List.exists_mem_cons_iff]

theorem Tree.exists_own (tree : Tree) (path : List FileName) : ∃ entry ∈ tree.listed path, entry.path = path := by
  cases tree with
  | file stat data | symlink stat target => exact ⟨_, List.mem_singleton_self _, rfl⟩
  | dir stat children => exact ⟨_, List.mem_cons_self, rfl⟩

namespace ContextDir

variable {root : ContextDir} {entry : Listed}

/-- A reader of the archive gets the entries of the tree and nothing else. -/
def ReadsBack (root : ContextDir) (bytes : Bytes) : Prop :=
  ∃ entries, readArchive bytes = some entries ∧ entries.Perm (root.listed.map Listed.expected)

structure Portable (root : ContextDir) : Prop where
  entries : ∀ entry ∈ root.listed, entry.Portable
  top : ∀ child ∈ root.children, isBlank child.1.val = false

theorem path_ne_nil (listed : entry ∈ root.listed) : entry.path ≠ [] := by
  obtain ⟨child, -, under⟩ := child_of_listed root.children [] listed
  intro empty
  rw [empty] at under
  simp at under

theorem listed_of_sent (sent : entry ∈ root.sent) : entry ∈ root.listed := by
  obtain ⟨child, visible, inside⟩ := mem_childrenListed.mp sent
  exact mem_childrenListed.mpr ⟨child, (List.mem_filter.mp visible).1, inside⟩

theorem sent_eq (top : ∀ child ∈ root.children, isBlank child.1.val = false) : root.sent = root.listed := by
  have all : root.visible = root.children := by
    refine List.filter_eq_self.mpr fun child member => ?_
    rw [isBlank_forwardSlashes, top child member]
    rfl
  rw [sent, all, listed]

theorem sent_of_readsBack {entries : List ArchiveEntry} (same : entries.Perm (root.listed.map Listed.expected))
    (read : entries = root.sent.map Listed.got) (listed : entry ∈ root.listed) :
    entry ∈ root.sent ∧ entry.got = entry.expected := by
  have found : ∀ entry ∈ root.listed, ∃ other ∈ root.sent, other.got = entry.expected := by
    intro entry listed
    have member : entry.expected ∈ entries := same.mem_iff.mpr (List.mem_map_of_mem listed)
    rw [read] at member
    exact List.mem_map.mp member
  obtain ⟨other, sent, got⟩ := found entry listed
  have there := listed_of_sent sent
  obtain ⟨_, -, otherGot⟩ := found other there
  obtain ⟨sentName, readBack⟩ := Listed.sentName_eq (path_ne_nil there) (Listed.names_of_got otherGot)
  have names : other.name = entry.name := by
    rw [← readBack, ← sentName]
    exact congrArg ArchiveEntry.name got
  have paths := Listed.path_of_name (path_ne_nil listed) (path_ne_nil there) (congrArg ArchiveEntry.typeFlag got) names
  obtain rfl := childrenListed_unique root.children [] root.distinct there listed paths
  exact ⟨sent, got⟩

end ContextDir

/-- The archive is read back exactly when every entry of the tree can be carried. -/
theorem readsBack_iff {root : ContextDir} {bytes : Bytes} (written : createTar root = some bytes) :
    root.ReadsBack bytes ↔ root.Portable := by
  have reading := readArchive_createTar written
  constructor
  · rintro ⟨entries, read, same⟩
    rw [reading, Option.ite_none_right_eq_some] at read
    obtain ⟨fits, cut⟩ := read
    have sent := fun entry (listed : entry ∈ root.listed) =>
      ContextDir.sent_of_readsBack same (Option.some.inj cut).symm listed
    constructor
    · intro entry listed
      obtain ⟨there, got⟩ := sent entry listed
      exact Listed.portable_of_got (fits entry there) (Listed.names_of_got got) got
    intro child member
    obtain ⟨entry, own, path⟩ := child.2.exists_own ([] ++ [child.1])
    obtain ⟨there, -⟩ := sent entry (mem_childrenListed.mpr ⟨child, member, own⟩)
    obtain ⟨shown, visible, inside⟩ := mem_childrenListed.mp there
    have under := shown.2.prefix_of_listed _ inside
    rw [path, List.nil_append, List.nil_append, List.cons_prefix_cons] at under
    have kept := (List.mem_filter.mp visible).2
    rw [under.1, isBlank_forwardSlashes, Bool.not_eq_true'] at kept
    exact kept
  · intro portable
    have sent := ContextDir.sent_eq portable.top
    have carried := fun entry (listed : entry ∈ root.listed) =>
      (portable.entries entry listed).got_eq (ContextDir.path_ne_nil listed)
    rw [sent, if_pos fun entry listed => (carried entry listed).1] at reading
    refine ⟨_, reading, ?_⟩
    rw [List.map_congr_left fun entry listed => (carried entry listed).2]

theorem length_writeTarEntry {linkName : Text} {data : Bytes} {mtime : Int} {mode : Nat} {typeFlag : Char}
    (plain : paxRecords name linkName = []) :
    (writeTarEntry name data mtime mode typeFlag linkName).length = 512 + paddedSize data.length := by
  rw [writeTarEntry, writePaxHeaderIfNeeded, if_pos plain, List.nil_append, List.length_append, List.length_append,
    length_writeTarHeader, length_padding, paddedSize, Nat.add_assoc]

theorem createTar_eq_some {root : ContextDir}
    (plain : ∀ entry ∈ root.sent, paxRecords entry.sentName (forwardSlashes entry.link) = [])
    (small : (root.sent.map fun entry => 512 + paddedSize entry.data.length).sum + 1024 < 2 ^ 31) :
    ∃ bytes, createTar root = some bytes := by
  refine ⟨_, if_pos ?_⟩
  have lengths : (root.sent.map fun entry => entry.sentBytes.length) =
      root.sent.map fun entry => 512 + paddedSize entry.data.length :=
    List.map_congr_left fun entry member => length_writeTarEntry (plain entry member)
  rw [addTarPaths_top, List.length_append, List.length_replicate, List.length_flatMap]
  rw [← lengths] at small
  exact small

def plainStat : FileStat := ⟨420, by decide, 1700000000000, true, false⟩

def plainTree : ContextDir where
  children := [(⟨['s'], by decide⟩, .dir plainStat [(⟨['f'], by decide⟩, .file plainStat [1, 2, 3]),
    (⟨['l'], by decide⟩, .symlink plainStat ⟨['f'], by decide⟩)])]
  distinct := ⟨nofun, ⟨by simp, trivial, nofun, trivial, trivial⟩, trivial⟩

theorem readsBack_plainTree : ∃ bytes, createTar plainTree = some bytes ∧ plainTree.ReadsBack bytes := by
  have sent : plainTree.sent = plainTree.listed := ContextDir.sent_eq (by decide)
  obtain ⟨bytes, written⟩ := @createTar_eq_some plainTree
    (by rw [sent]; decide) (by rw [sent]; decide)
  refine ⟨bytes, written, (readsBack_iff written).mpr ⟨?_, by decide⟩⟩
  have each : ∀ entry ∈ plainTree.listed, (∀ name ∈ entry.path, '\\' ∉ name.val) ∧
      ('\\' ∉ entry.link ∧ ∀ char ∈ entry.link, char.toNat < 65536) ∧ entry.stat = plainStat := by
    intro entry member
    simp only [ContextDir.listed, plainTree, childrenListed, Tree.listed, List.mem_append, List.mem_cons,
      List.not_mem_nil, or_false] at member
    rcases member with rfl | rfl | rfl
    · exact ⟨by simp, ⟨by simp [Listed.link], by simp [Listed.link]⟩, rfl⟩
    · exact ⟨by simp, ⟨by simp [Listed.link], by simp [Listed.link]⟩, rfl⟩
    · exact ⟨by simp, ⟨by simp [Listed.link], by simp [Listed.link]⟩, rfl⟩
  intro entry member
  obtain ⟨names, ⟨plain, small⟩, stat⟩ := each entry member
  exact ⟨names, ⟨plain, fun _ => small⟩, by rw [stat]; decide, by rw [stat]; exact .inl rfl⟩

def pairTree : ContextDir where
  children := [(⟨['l'], by decide⟩, .symlink plainStat ⟨[Char.ofNat 0x1F600], by decide⟩)]
  distinct := ⟨nofun, trivial, trivial⟩

/-- The target is sent as two question marks. -/
theorem pair_not_readBack :
    ¬ ∀ (root : ContextDir) (bytes : Bytes), createTar root = some bytes → root.ReadsBack bytes := by
  intro back
  have sent : pairTree.sent = pairTree.listed := ContextDir.sent_eq (by decide)
  obtain ⟨bytes, written⟩ := @createTar_eq_some pairTree (by rw [sent]; decide) (by rw [sent]; decide)
  obtain ⟨entries, read, same⟩ := back pairTree bytes written
  rw [readArchive_createTar written, Option.ite_none_right_eq_some] at read
  have listed : Listed.mk [⟨['l'], by decide⟩] plainStat (.symlink ⟨[Char.ofNat 0x1F600], by decide⟩) ∈ pairTree.listed :=
    List.mem_cons_self
  obtain ⟨-, got⟩ := ContextDir.sent_of_readsBack same (Option.some.inj read.2).symm listed
  have link : readLink (forwardSlashes [Char.ofNat 0x1F600]) = [Char.ofNat 0x1F600] :=
    congrArg ArchiveEntry.linkName got
  exact absurd ((readLink_iff.mp link).2 (by decide) (Char.ofNat 0x1F600) List.mem_cons_self) (by decide)

end PDocker.Context.Tar
