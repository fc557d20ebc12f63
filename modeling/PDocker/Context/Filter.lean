import PDocker.Context.Walk

/-!
# The two filters of a build context

What the application withholds the daemon would remove as long as every entry
that the application's reading of `.dockerignore` excludes lies at or below one
that the daemon's reading excludes. Lines that re-include are read more broadly
by the daemon, and brackets are a class for the daemon only.
-/

set_option autoImplicit false

namespace PDocker.Context

open Data

def ExcludedLast (applies : IgnoreRule → Bool) (rules : List IgnoreRule) : Prop :=
  ∃ earlier rule later, rules = earlier ++ rule :: later ∧ applies rule = true ∧ rule.negated = false ∧
    ∀ other ∈ later, applies other = false

variable {applies : IgnoreRule → Bool} {rule : IgnoreRule} {rules : List IgnoreRule} {entries : List Entry}
  {entry : Entry}

theorem excludedLast_cons : ExcludedLast applies (rule :: rules) ↔ ExcludedLast applies rules ∨
        applies rule = true ∧ rule.negated = false ∧ ∀ other ∈ rules, applies other = false := by
  constructor
  · rintro ⟨earlier, last, later, cut, applied, plain, silent⟩
    cases earlier with
    | nil =>
        obtain ⟨rfl, rfl⟩ := List.cons.inj cut
        exact .inr ⟨applied, plain, silent⟩
    | cons first earlier =>
        obtain ⟨rfl, rfl⟩ := List.cons.inj cut
        exact .inl ⟨earlier, last, later, rfl, applied, plain, silent⟩
  · rintro (⟨earlier, last, later, rfl, decides⟩ | decides)
    · exact ⟨rule :: earlier, last, later, rfl, decides⟩
    · exact ⟨[], rule, rules, rfl, decides⟩

theorem ignored_foldl (rules : List IgnoreRule) (excluded : Bool) :
    rules.foldl (fun excluded rule => if applies rule then !rule.negated else excluded) excluded = true ↔
      ExcludedLast applies rules ∨ excluded = true ∧ ∀ rule ∈ rules, applies rule = false := by
  induction rules generalizing excluded with
  | nil =>
      refine ⟨fun kept => .inr ⟨kept, nofun⟩, ?_⟩
      rintro (⟨_, _, _, cut, _⟩ | ⟨kept, -⟩)
      · simp at cut
      · exact kept
  | cons rule rules ih =>
      rw [List.foldl_cons, ih, excludedLast_cons, List.forall_mem_cons, or_assoc]
      refine or_congr_right ?_
      cases applied : applies rule with
      | true => simp
      | false => simp

theorem ignored_iff : ignored applies rules = true ↔ ExcludedLast applies rules := by
  rw [ignored, ignored_foldl]
  simp

theorem mem_foldl_removeTree {doomed : List (List ContextName)} :
    entry ∈ doomed.foldl removeTree entries ↔ entry ∈ entries ∧ ∀ path ∈ doomed, ¬ path <+: entry.path := by
  induction doomed generalizing entries with
  | nil => simp
  | cons path doomed ih =>
      rw [List.foldl_cons, ih, removeTree, List.mem_filter, Bool.not_eq_true', List.forall_mem_cons, and_assoc,
        ← Bool.not_eq_true, List.isPrefixOf_iff_prefix]

theorem not_ends_trimSlashes (text : Text) : (trimSlashes text).getLast? ≠ some '/' := by
  intro ends
  have filled : trimSlashes text ≠ [] := by
    intro empty
    rw [empty] at ends
    cases ends
  have last : ¬ decide ((trimSlashes text).getLast filled = '/') = true := List.rdropWhile_last_not _ _ filled
  rw [List.getLast?_eq_some_getLast filled] at ends
  exact last (decide_eq_true (Option.some.inj ends))

theorem dockerignoreRule_directoryOnly {raw : Text}
    (read : dockerignoreRule raw = some rule) : rule.directoryOnly = false := by
  simp only [dockerignoreRule, Option.ite_none_left_eq_some, Option.some.injEq] at read
  obtain ⟨-, -, rfl⟩ := read
  exact decide_eq_false (not_ends_trimSlashes _)

def DaemonExcludes (rules : List IgnoreRule) (path : List ContextName) : Prop :=
  ExcludedLast (fun rule => dockerignoreRuleMatches rule (relText path) false) rules

theorem dockerignoreExcluded_iff (text : Option Text) (path : List ContextName) (isDir : Bool) :
    dockerignoreExcluded (dockerignoreRules text) (relText path) isDir = true ↔
      DaemonExcludes (dockerignoreRules text) path := by
  have same : ∀ rule ∈ dockerignoreRules text, dockerignoreRuleMatches rule (relText path) isDir =
      dockerignoreRuleMatches rule (relText path) false := by
    intro rule member
    obtain ⟨raw, -, read⟩ := List.mem_filterMap.mp member
    simp only [dockerignoreRuleMatches, dockerignoreRule_directoryOnly read, Bool.false_eq_true, ↓reduceIte]
  rw [DaemonExcludes, ← ignored_iff, dockerignoreExcluded, ignored, ignored]
  refine Eq.congr_left (List.foldl_ext _ _ _ fun excluded rule member => ?_)
  rw [same rule member]

def Rooted (entries : List Entry) : Prop :=
  ∀ entry ∈ entries, ∀ path, path ≠ [] → path <+: entry.path → ∃ above ∈ entries, above.path = path

theorem not_daemonExcludes_nil (rules : List IgnoreRule) : ¬ DaemonExcludes rules [] := by
  rintro ⟨earlier, rule, later, -, applied, -⟩
  cases applied

theorem mem_applyDockerignore (rooted : Rooted entries) :
    entry ∈ applyDockerignore entries ↔ entry ∈ entries ∧ ∀ path, path ≠ [] → path <+: entry.path →
      ¬ DaemonExcludes (dockerignoreRules (unpackedIgnore entries)) path := by
  rw [applyDockerignore, mem_foldl_removeTree]
  refine and_congr_right fun listed => ?_
  simp only [List.mem_insertionSort, List.mem_map, List.mem_filter, dockerignoreExcluded_iff]
  constructor
  · intro kept path filled inside excluded
    obtain ⟨above, member, rfl⟩ := rooted entry listed path filled inside
    exact kept above.path ⟨above, ⟨member, excluded⟩, rfl⟩ inside
  rintro kept _ ⟨above, ⟨-, excluded⟩, rfl⟩ inside
  refine kept above.path ?_ inside excluded
  intro empty
  rw [empty] at excluded
  exact not_daemonExcludes_nil _ excluded

namespace BuildContext

variable (context : BuildContext)

theorem rooted_entries : Rooted context.entries := by
  intro entry listed path filled inside
  obtain ⟨above, member, same, -⟩ := child_exists_above context.children [] listed
    ⟨List.nil_prefix, filled, inside⟩
  exact ⟨above, member, same⟩

def Sent (entry : Entry) : Prop :=
  ∀ path, path ≠ [] → path <+: entry.path →
    leftOut (DockerIgnore.load context.ignoreText) path (entry.dirAt path) = false

theorem mem_createTar {entry : Entry} : entry ∈ createTar context ↔ entry ∈ context.entries ∧ context.Sent entry := by
  rw [createTar, mem_addTarPaths, entries, Sent]
  refine and_congr_right fun _ => ?_
  simp only [Entry.Below, List.nil_prefix, true_and, and_imp, ne_eq]

theorem rooted_createTar : Rooted (createTar context) := by
  intro entry listed path filled inside
  obtain ⟨member, sent⟩ := context.mem_createTar.mp listed
  obtain ⟨above, there, rfl, kind⟩ := child_exists_above context.children [] member
    ⟨List.nil_prefix, filled, inside⟩
  refine ⟨above, context.mem_createTar.mpr ⟨there, fun between some_left under => ?_⟩, rfl⟩
  have same : above.dirAt between = entry.dirAt between := by
    by_cases top : between = above.path
    · subst between
      rw [← kind, Entry.dirAt]
      simp
    · have differs : between ≠ entry.path := by
        rintro rfl
        exact top (under.eq_of_length_le inside.length_le)
      rw [Entry.dirAt, Entry.dirAt, decide_eq_true top, decide_eq_true differs, Bool.true_or, Bool.true_or]
  rw [same]
  exact sent between some_left (under.trans inside)

theorem ignore_mem_entries {text : Text} :
    Entry.mk [ignoreName] (.file text) ∈ context.entries ↔ context.ignoreText = some text := by
  have others : Entry.mk [ignoreName] (.file text) ∉ childEntries [] context.others := by
    intro listed
    obtain ⟨child, member, under⟩ := child_of_mem context.others [] listed
    rw [List.nil_append, List.cons_prefix_cons] at under
    exact context.once child member under.1
  rw [entries, children]
  cases context.ignoreText with
  | none =>
      rw [Option.map_none, Option.toList_none, List.nil_append]
      exact ⟨fun listed => absurd listed others, nofun⟩
  | some own =>
      rw [Option.map_some, Option.toList_some, List.singleton_append, childEntries, Node.entries,
        List.singleton_append, List.mem_cons, or_iff_left others]
      simp [eq_comm]

end BuildContext

theorem unpackedIgnore_eq {text : Option Text}
    (unique : ∀ own, Entry.mk [ignoreName] (.file own) ∈ entries ↔ text = some own) :
    unpackedIgnore entries = text := by
  have found : ∀ own, unpackedIgnore entries = some own → Entry.mk [ignoreName] (.file own) ∈ entries := by
    intro own read
    obtain ⟨⟨path, kind⟩, listed, here⟩ := List.exists_of_findSome?_eq_some read
    dsimp only at here
    split at here
    · split at here
      · cases here
        rename_i same
        rwa [same] at listed
      · cases here
    · cases here
  cases text with
  | some own =>
      have listed := (unique own).mpr rfl
      cases read : unpackedIgnore entries with
      | none =>
          have nothing := List.findSome?_eq_none_iff.mp read _ listed
          simp at nothing
      | some other => rw [(unique other).mp (found other read)]
  | none =>
      cases read : unpackedIgnore entries with
      | none => rfl
      | some other => cases (unique other).mp (found other read)

/-- The application leaves the path itself out: its name is blank, or the last
rule that the application matches with it excludes it. -/
def Withholds (rules : List IgnoreRule) (path : List ContextName) (isDir : Bool) : Prop :=
  isBlank (relText path) = true ∨
    ExcludedLast (fun rule => DockerIgnore.matchesRule rule (relText path) isDir) rules

theorem leftOut_iff {path : List ContextName} (filled : path ≠ []) {isDir : Bool} :
    leftOut rules path isDir = true ↔ Withholds rules path isDir := by
  have some_left : (relText path).isEmpty = false :=
    Bool.eq_false_iff.mpr fun empty => relText_ne_nil filled (List.isEmpty_iff.mp empty)
  have plain := forwardSlashes_eq (not_backslash_relText path)
  rw [leftOut, Withholds, DockerIgnore.excludes, plain, trimSlashes_relText, plain, some_left, Bool.not_false,
    Bool.true_and, Bool.or_eq_true, ignored_iff]

namespace BuildContext

variable (context : BuildContext)

def SendsIgnore : Prop := ¬ Withholds (DockerIgnore.load context.ignoreText) [ignoreName] false

theorem sent_ignore {text : Text} : context.Sent ⟨[ignoreName], .file text⟩ ↔ context.SendsIgnore := by
  rw [SendsIgnore, ← leftOut_iff (List.cons_ne_nil _ _), Bool.not_eq_true]
  constructor
  · intro sent
    have own := sent [ignoreName] (List.cons_ne_nil _ _) (List.prefix_refl _)
    simpa [Entry.dirAt] using own
  intro kept path filled inside
  obtain rfl : path = [ignoreName] := by
    obtain ⟨name, rest, rfl⟩ := List.exists_cons_of_ne_nil filled
    obtain ⟨rfl, below⟩ := List.cons_prefix_cons.mp inside
    rw [List.prefix_nil.mp below]
  simpa [Entry.dirAt] using kept

theorem unpackedIgnore_entries : unpackedIgnore context.entries = context.ignoreText :=
  unpackedIgnore_eq fun _ => context.ignore_mem_entries

theorem unpackedIgnore_sent (sends : context.SendsIgnore) :
    unpackedIgnore (createTar context) = context.ignoreText := by
  refine unpackedIgnore_eq fun own => ?_
  rw [mem_createTar, ignore_mem_entries, sent_ignore, and_iff_left sends]

theorem unpackedIgnore_unsent (withheld : ¬ context.SendsIgnore) : unpackedIgnore (createTar context) = none := by
  refine unpackedIgnore_eq fun own => ?_
  rw [mem_createTar, sent_ignore]
  exact ⟨fun listed => absurd listed.2 withheld, nofun⟩

def Removed (path : List ContextName) : Prop :=
  ∃ above, above ≠ [] ∧ above <+: path ∧ DaemonExcludes (dockerignoreRules context.ignoreText) above

def Withheld (entry : Entry) : Prop :=
  ∃ above, above ≠ [] ∧ above <+: entry.path ∧
    Withholds (DockerIgnore.load context.ignoreText) above (entry.dirAt above)

variable {entry : Entry}

theorem sent_iff : context.Sent entry ↔ ¬ context.Withheld entry := by
  constructor
  · rintro sent ⟨above, filled, inside, withholds⟩
    have kept := sent above filled inside
    rw [(leftOut_iff filled).mpr withholds] at kept
    cases kept
  · intro kept path filled inside
    rw [← Bool.not_eq_true, leftOut_iff filled]
    exact fun withholds => kept ⟨path, filled, inside, withholds⟩

theorem mem_filtered_entries :
    entry ∈ applyDockerignore context.entries ↔ entry ∈ context.entries ∧ ¬ context.Removed entry.path := by
  rw [mem_applyDockerignore context.rooted_entries, unpackedIgnore_entries, Removed]
  simp only [not_exists, not_and]

/-- The daemon keeps the same entries of what the application sends and of the
whole context. -/
def FiltersAgree : Prop :=
  ∀ entry, entry ∈ applyDockerignore (createTar context) ↔ entry ∈ applyDockerignore context.entries

/-- What one reading of the lines excludes, the other one does: where the file is
sent, what the application leaves out lies at or below what the daemon's reading
excludes; otherwise they exclude alike. -/
structure ReadingsAgree : Prop where
  sends : context.SendsIgnore → ∀ entry ∈ context.entries,
    Withholds (DockerIgnore.load context.ignoreText) entry.path (entry.kind = .dir) → context.Removed entry.path
  withholds : ¬ context.SendsIgnore → ∀ entry ∈ context.entries,
    (context.Withheld entry ↔ context.Removed entry.path)

end BuildContext

def allowedSource : BuildContext where
  ignoreText := some ['*', '\n', '!', 's', 'r', 'c', '\n']
  others := [(⟨['s', 'r', 'c'], by decide⟩, .dir [(⟨['m', 'a', 'i', 'n'], by decide⟩, .file [])])]
  once := by decide

end PDocker.Context
