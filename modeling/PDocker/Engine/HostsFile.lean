import PDocker.Engine.Networks

/-!
# The hosts file of a container

Behind a marker stands a block with a line for each other member of a network. A new block takes
the place of everything from the marker on.
-/

set_option autoImplicit false

namespace PDocker.Engine

open Data

def hostsMarker : Text := "# pdockerd-network-aliases".toList

def hostsAddress : Text := "127.0.0.1\t".toList

def universalNewlines : Text → Text
  | [] => []
  | '\r' :: '\n' :: rest => '\n' :: universalNewlines rest
  | '\r' :: rest => '\n' :: universalNewlines rest
  | char :: rest => char :: universalNewlines rest

def rstrip (text : Text) : Text := text.rdropWhile isPythonSpace

def hostNames (member : Member) : List Text :=
  (if member.aliases = [] then [member.name, member.id.take 12] else member.aliases).filter (· ≠ [])

def hostLine (member : Member) : Option Text :=
  if hostNames member = [] then none else some (hostsAddress ++ [' '].intercalate (hostNames member).eraseDups)

/-- The text of `_inject_network_hosts`, for the members other than the container itself. -/
def injectNetworkHosts (others : List Member) (file : Option Text) : Option Text :=
  if others = [] then file
  else
    let existing := universalNewlines (file.getD [])
    let existing := if contains hostsMarker existing then rstrip (before hostsMarker existing) ++ ['\n'] else existing
    let block := hostsMarker :: others.filterMap hostLine
    some (rstrip existing ++ '\n' :: ['\n'].intercalate block ++ ['\n'])

def hostsLines (file : Text) : List Text :=
  let parts := splitParts '\n' (universalNewlines file)
  if parts.getLast? = some [] then parts.dropLast else parts

def behindMarker (lines : List Text) : List Text := (lines.dropWhile (· ≠ hostsMarker)).drop 1

def generatedLines (file : Text) : List Text :=
  (behindMarker (hostsLines file)).takeWhile fun line => hostsAddress.isPrefixOf line

def outsideLines (file : Text) : List Text :=
  (hostsLines file).takeWhile (· ≠ hostsMarker) ++
    (behindMarker (hostsLines file)).dropWhile fun line => hostsAddress.isPrefixOf line

def lineNames (line : Text) : List Text :=
  tokens ' ' (((line.drop hostsAddress.length).takeWhile (· ≠ '#')).map fun char => if isPythonSpace char then ' ' else char)

def generatedNames (file : Text) : List Text := (generatedLines file).flatMap lineNames

def HostWord (name : Text) : Prop := name ≠ [] ∧ ∀ char ∈ name, isPythonSpace char = false ∧ char ≠ '#'

inductive Composed : Text → Text → Prop
  | plain {body : Text} : Composed body body
  | ended {body : Text} : Composed body (body ++ ['\n'])
  | block {body : Text} {rows : List Text}
      (rows_generated : ∀ row ∈ rows, hostsAddress.isPrefixOf row = true ∧ '\n' ∉ row) :
      Composed body (body ++ '\n' :: hostsMarker ++ '\n' :: rows.flatMap fun row => row ++ ['\n'])

/-- The file ends with its last line or with the block, and the marker stands nowhere else. -/
def Arranged (file : Text) : Prop :=
  ∃ body, rstrip body = body ∧ contains hostsMarker body = false ∧ Composed body (universalNewlines file)

section
variable {text left right body : Text}

theorem universalNewlines_clean (text : Text) : '\r' ∉ universalNewlines text := by
  fun_induction universalNewlines text with
  | case1 => exact List.not_mem_nil
  | case2 rest ih => exact List.mem_cons.not.mpr (not_or.mpr ⟨by decide, ih⟩)
  | case3 rest _ ih => exact List.mem_cons.not.mpr (not_or.mpr ⟨by decide, ih⟩)
  | case4 char rest _ other ih => exact List.mem_cons.not.mpr (not_or.mpr ⟨fun same => other same.symm, ih⟩)

theorem universalNewlines_cons {char : Char} (other : char ≠ '\r') (rest : Text) :
    universalNewlines (char :: rest) = char :: universalNewlines rest := by
  rw [universalNewlines.eq_def]
  split
  · rename_i same
    cases same
  · rename_i same
    cases same
    exact absurd rfl other
  · rename_i same
    cases same
    exact absurd rfl other
  · rename_i same
    cases same
    rfl

theorem universalNewlines_append (clean : '\r' ∉ left) (right : Text) :
    universalNewlines (left ++ right) = left ++ universalNewlines right := by
  induction left with
  | nil => rfl
  | cons char left ih =>
      rw [List.mem_cons, not_or] at clean
      rw [List.cons_append, universalNewlines_cons (Ne.symm clean.1), ih clean.2, List.cons_append]

theorem universalNewlines_self (clean : '\r' ∉ text) : universalNewlines text = text := by
  have whole := universalNewlines_append clean []
  rwa [List.append_nil, universalNewlines, List.append_nil] at whole

theorem rstrip_isPrefix (text : Text) : rstrip text <+: text := List.rdropWhile_prefix _ _

theorem rstrip_idem (text : Text) : rstrip (rstrip text) = rstrip text := List.rdropWhile_idempotent _ _

theorem rstrip_newline (text : Text) : rstrip (text ++ ['\n']) = rstrip text := by
  rw [rstrip, List.rdropWhile_concat_pos _ _ _ (by decide), rstrip]

theorem not_contains_of_prefix {part : Text} (inside : left <+: right) (absent : contains part right = false) :
    contains part left = false := by
  rw [← Bool.not_eq_true, contains_iff] at absent ⊢
  exact fun found => absent (found.trans inside.isInfix)

theorem not_contains_newline (absent : contains hostsMarker body = false) :
    contains hostsMarker (body ++ ['\n']) = false := by
  rw [← Bool.not_eq_true, contains_iff] at absent ⊢
  intro found
  rcases List.infix_concat_iff.mp found with ending | inside
  · rcases List.suffix_concat_iff.mp ending with empty | ⟨front, shape, -⟩
    · exact absurd empty (by decide)
    · have newline : '\n' ∈ hostsMarker := shape ▸ List.mem_append_right _ List.mem_cons_self
      exact absurd newline (by decide)
  · exact absent inside

theorem before_marker (absent : contains hostsMarker body = false) (rest : Text) :
    before hostsMarker (body ++ (hostsMarker ++ rest)) = body :=
  @before_append '#' " pdockerd-network-aliases".toList body rest (by decide) absent

theorem contains_marker (body rest : Text) : contains hostsMarker (body ++ (hostsMarker ++ rest)) = true :=
  contains_iff.mpr ⟨body, rest, by simp⟩

theorem splitParts_isInfix {sep : Char} {part : Text} (member : part ∈ splitParts sep text) : part <:+: text := by
  suffices both : (∀ part ∈ splitParts sep text, part <:+: text) ∧ ∀ part, (splitParts sep text).head? = some part → part <+: text from
    both.1 part member
  clear member
  induction text with
  | nil =>
      refine ⟨fun part member => ?_, fun part head => ?_⟩
      · rw [List.mem_singleton.mp member]
      · cases head
        exact List.nil_prefix
  | cons char rest ih =>
      rw [splitParts]
      split
      · refine ⟨fun part member => ?_, fun part head => ?_⟩
        · rcases List.mem_cons.mp member with rfl | later
          · exact List.nil_infix
          · exact (ih.1 part later).trans (List.suffix_cons char rest).isInfix
        · cases head
          exact List.nil_prefix
      cases parts : splitParts sep rest with
      | nil => exact absurd parts (splitParts_ne_nil sep rest)
      | cons first others =>
          have head : first <+: rest := ih.2 first (by rw [parts]; rfl)
          refine ⟨fun part member => ?_, fun part first => ?_⟩
          · rcases List.mem_cons.mp member with rfl | later
            · exact (List.cons_prefix_cons.mpr ⟨rfl, head⟩).isInfix
            · have inside := ih.1 part (by rw [parts]; exact List.mem_cons_of_mem _ later)
              exact inside.trans (List.suffix_cons char rest).isInfix
          · cases first
            exact List.cons_prefix_cons.mpr ⟨rfl, head⟩

theorem marker_not_mem (absent : contains hostsMarker body = false) : hostsMarker ∉ splitParts '\n' body := by
  intro member
  rw [← Bool.not_eq_true, contains_iff] at absent
  exact absent (splitParts_isInfix member)

theorem splitParts_rows {rows : List Text} (whole : ∀ row ∈ rows, '\n' ∉ row) :
    splitParts '\n' (rows.flatMap fun row => row ++ ['\n']) = rows ++ [[]] := by
  induction rows with
  | nil => rfl
  | cons row rows ih =>
      rw [List.forall_mem_cons] at whole
      rw [List.flatMap_cons, List.append_assoc, List.singleton_append, splitParts_append whole.1, ih whole.2]
      rfl

end

section
variable {file : Option Text} {body text : Text} {others : List Member}

def textLines (text : Text) : List Text :=
  if (splitParts '\n' text).getLast? = some [] then (splitParts '\n' text).dropLast else splitParts '\n' text

theorem hostsLines_eq (file : Text) : hostsLines file = textLines (universalNewlines file) := rfl

theorem textLines_ended (body : Text) : textLines (body ++ ['\n']) = splitParts '\n' body := by
  have parts : splitParts '\n' (body ++ ['\n']) = splitParts '\n' body ++ [[]] := splitParts_append_sep '\n' body []
  rw [textLines, parts, List.getLast?_concat, if_pos rfl, List.dropLast_concat]

theorem textLines_block {rows : List Text} (whole : ∀ row ∈ rows, '\n' ∉ row) :
    textLines (body ++ '\n' :: hostsMarker ++ '\n' :: rows.flatMap fun row => row ++ ['\n']) =
      splitParts '\n' body ++ hostsMarker :: rows := by
  have parts : splitParts '\n' (body ++ '\n' :: hostsMarker ++ '\n' :: rows.flatMap fun row => row ++ ['\n']) =
      (splitParts '\n' body ++ hostsMarker :: rows) ++ [[]] := by
    rw [List.append_assoc, List.cons_append, splitParts_append_sep, splitParts_append (by decide), splitParts_rows whole]
    simp
  rw [textLines, parts, List.getLast?_concat, if_pos rfl, List.dropLast_concat]

theorem takeWhile_marker {lines rest : List Text} (absent : hostsMarker ∉ lines) :
    (lines ++ hostsMarker :: rest).takeWhile (· ≠ hostsMarker) = lines ∧ behindMarker (lines ++ hostsMarker :: rest) = rest := by
  have others : ∀ line ∈ lines, decide (line ≠ hostsMarker) = true :=
    fun line member => decide_eq_true fun same => absent (same ▸ member)
  constructor
  · rw [List.takeWhile_append_of_pos others, List.takeWhile_cons_of_neg (by simp), List.append_nil]
  · rw [behindMarker, List.dropWhile_append_of_pos others, List.dropWhile_cons_of_neg (by simp), List.drop_one, List.tail_cons]

theorem outsideLines_composed {file : Text} (absent : contains hostsMarker body = false)
    (composed : Composed body (universalNewlines file)) : (outsideLines file).Sublist (splitParts '\n' body) := by
  rw [outsideLines, hostsLines_eq]
  have unmarked := marker_not_mem absent
  have plain : ∀ lines : List Text, hostsMarker ∉ lines →
      lines.takeWhile (· ≠ hostsMarker) ++ (behindMarker lines).dropWhile (fun line => hostsAddress.isPrefixOf line) = lines := by
    intro lines absent
    have others : ∀ line ∈ lines, decide (line ≠ hostsMarker) = true :=
      fun line member => decide_eq_true fun same => absent (same ▸ member)
    rw [behindMarker, List.takeWhile_eq_self_iff.mpr others, List.dropWhile_eq_nil_iff.mpr others]
    simp
  generalize universalNewlines file = text at composed
  cases composed with
  | plain =>
      have fewer : (textLines body).Sublist (splitParts '\n' body) := by
        rw [textLines]
        split
        · exact List.dropLast_sublist _
        · exact List.Sublist.refl _
      rw [plain _ fun member => unmarked (fewer.subset member)]
      exact fewer
  | ended =>
      rw [textLines_ended, plain _ unmarked]
  | block rows =>
      rw [textLines_block fun row member => (rows row member).2, (takeWhile_marker unmarked).1, (takeWhile_marker unmarked).2,
        List.dropWhile_eq_nil_iff.mpr fun row member => (rows row member).1, List.append_nil]

def bodyOf (text : Text) : Text :=
  rstrip (if contains hostsMarker text then rstrip (before hostsMarker text) ++ ['\n'] else text)

theorem bodyOf_composed (stripped : rstrip body = body) (absent : contains hostsMarker body = false)
    (composed : Composed body text) : bodyOf text = body := by
  rw [bodyOf]
  cases composed with
  | plain => rw [if_neg (by rw [absent]; decide), stripped]
  | ended => rw [if_neg (by rw [not_contains_newline absent]; decide), rstrip_newline, stripped]
  | block generated =>
      rename_i rows
      have shape : body ++ '\n' :: hostsMarker ++ '\n' :: (rows.flatMap fun row => row ++ ['\n']) =
          (body ++ ['\n']) ++ (hostsMarker ++ '\n' :: rows.flatMap fun row => row ++ ['\n']) := by simp
      rw [shape, if_pos (contains_marker _ _), before_marker (not_contains_newline absent), rstrip_newline, rstrip_newline,
        stripped, stripped]

theorem intercalate_newlines (first : Text) (rows : List Text) :
    ['\n'].intercalate (first :: rows) ++ ['\n'] = first ++ '\n' :: rows.flatMap fun row => row ++ ['\n'] := by
  induction rows generalizing first with
  | nil => rw [intercalate_singleton, List.flatMap_nil]
  | cons row rows ih =>
      rw [intercalate_cons, List.append_assoc, ih, List.flatMap_cons]
      simp

def blockFile (body : Text) (others : List Member) : Text :=
  body ++ '\n' :: hostsMarker ++ '\n' :: (others.filterMap hostLine).flatMap fun row => row ++ ['\n']

theorem injectNetworkHosts_eq (some_other : others ≠ []) : injectNetworkHosts others file =
      some (blockFile (bodyOf (universalNewlines (file.getD []))) others) := by
  rw [injectNetworkHosts, if_neg some_other, blockFile, bodyOf]
  simp only [Option.some.injEq]
  rw [List.append_assoc, List.append_assoc, List.cons_append, intercalate_newlines, List.cons_append]

theorem bodyOf_facts (clean : '\r' ∉ text) :
    rstrip (bodyOf text) = bodyOf text ∧ contains hostsMarker (bodyOf text) = false ∧ '\r' ∉ bodyOf text := by
  rw [bodyOf]
  refine ⟨rstrip_idem _, ?_, ?_⟩
  · by_cases marked : contains hostsMarker text = true
    · rw [if_pos marked, rstrip_newline, rstrip_idem]
      exact not_contains_of_prefix (rstrip_isPrefix _) (not_contains_before (by decide) text)
    · rw [if_neg marked]
      exact not_contains_of_prefix (rstrip_isPrefix _) (Bool.not_eq_true _ ▸ marked)
  · intro member
    by_cases marked : contains hostsMarker text = true
    · rw [if_pos marked, rstrip_newline, rstrip_idem] at member
      exact clean ((before_isPrefix _ _).subset ((rstrip_isPrefix _).subset member))
    · rw [if_neg marked] at member
      exact clean ((rstrip_isPrefix _).subset member)

theorem injectNetworkHosts_idem (others : List Member) (file : Option Text) :
    injectNetworkHosts others (injectNetworkHosts others file) = injectNetworkHosts others file := by
  by_cases alone : others = []
  · rw [injectNetworkHosts, if_pos alone]
  obtain ⟨stripped, absent, clean⟩ := bodyOf_facts (universalNewlines_clean (file.getD []))
  rw [injectNetworkHosts_eq alone, injectNetworkHosts_eq alone, Option.getD_some]
  obtain ⟨body, named⟩ : ∃ body, bodyOf (universalNewlines (file.getD [])) = body := ⟨_, rfl⟩
  rw [named] at stripped absent clean ⊢
  have shape : universalNewlines (blockFile body others) =
      (body ++ ['\n']) ++ (hostsMarker ++ universalNewlines ('\n' :: (others.filterMap hostLine).flatMap fun row => row ++ ['\n'])) := by
    have front : '\r' ∉ body ++ ['\n'] ++ hostsMarker := by
      rw [List.mem_append, List.mem_append, not_or, not_or]
      exact ⟨⟨clean, by decide⟩, by decide⟩
    rw [← List.append_assoc, ← universalNewlines_append front, blockFile]
    simp
  rw [shape, bodyOf, if_pos (contains_marker _ _), before_marker (not_contains_newline absent), rstrip_newline, rstrip_newline,
    stripped, stripped]

theorem intercalate_spaces (first : Text) (names : List Text) :
    [' '].intercalate (first :: names) = first ++ separated ' ' names := by
  induction names generalizing first with
  | nil => rw [intercalate_singleton, separated, List.flatMap_nil, List.append_nil]
  | cons name names ih =>
      rw [intercalate_cons, ih, separated, separated, List.flatMap_cons]
      simp

theorem lineNames_words {names : List Text} (filled : names ≠ []) (words : ∀ name ∈ names, HostWord name) :
    lineNames (hostsAddress ++ [' '].intercalate names) = names := by
  obtain ⟨first, rest, rfl⟩ := List.exists_cons_of_ne_nil filled
  have chars : ∀ char ∈ first ++ separated ' ' rest, char = ' ' ∨ isPythonSpace char = false ∧ char ≠ '#' := by
    intro char member
    rcases List.mem_append.mp member with here | later
    · exact .inr ((words first List.mem_cons_self).2 char here)
    obtain ⟨name, inside, within⟩ := List.mem_flatMap.mp later
    rcases List.mem_cons.mp within with space | letter
    · exact .inl space
    · exact .inr ((words name (List.mem_cons_of_mem _ inside)).2 char letter)
  have uncommented : (first ++ separated ' ' rest).takeWhile (· ≠ '#') = first ++ separated ' ' rest := by
    rw [List.takeWhile_eq_self_iff]
    intro char member
    rcases chars char member with rfl | ⟨-, other⟩
    · decide
    · exact decide_eq_true other
  have unspaced : (first ++ separated ' ' rest).map (fun char => if isPythonSpace char then ' ' else char) = first ++ separated ' ' rest := by
    refine (List.map_congr_left fun char member => ?_).trans (List.map_id _)
    rcases chars char member with rfl | ⟨dense, -⟩
    · rfl
    · rw [dense]
      rfl
  rw [lineNames, intercalate_spaces, List.drop_left, uncommented, unspaced]
  refine tokens_separated fun name member => ⟨(words name member).1, fun space => ?_⟩
  have dense := ((words name member).2 ' ' space).1
  cases dense

theorem hostLine_some {member : Member} {row : Text} (line : hostLine member = some row)
    (words : ∀ name ∈ hostNames member, HostWord name) :
    hostsAddress.isPrefixOf row = true ∧ '\n' ∉ row ∧ '\r' ∉ row ∧ ∀ name, name ∈ lineNames row ↔ name ∈ hostNames member := by
  rw [hostLine] at line
  split at line
  · cases line
  rename_i filled
  cases line
  have some_name : (hostNames member).eraseDups ≠ [] := by
    obtain ⟨first, rest, shape⟩ := List.exists_cons_of_ne_nil filled
    have inside : first ∈ (hostNames member).eraseDups := List.mem_eraseDups.mpr (shape ▸ List.mem_cons_self)
    exact List.ne_nil_of_mem inside
  have named : ∀ name ∈ (hostNames member).eraseDups, HostWord name :=
    fun name inside => words name (List.mem_eraseDups.mp inside)
  have away : ∀ char, isPythonSpace char = true → char ≠ ' ' → char ∉ hostsAddress →
      char ∉ hostsAddress ++ [' '].intercalate (hostNames member).eraseDups := by
    intro char space other outside within
    obtain ⟨first, rest, shape⟩ := List.exists_cons_of_ne_nil some_name
    rw [shape, intercalate_spaces, List.mem_append, List.mem_append] at within
    rw [shape] at named
    rcases within with front | here | later
    · exact outside front
    · have dense := ((named first List.mem_cons_self).2 char here).1
      rw [space] at dense
      cases dense
    obtain ⟨name, inside, letter⟩ := List.mem_flatMap.mp later
    rcases List.mem_cons.mp letter with same | letter
    · exact other same
    · have dense := ((named name (List.mem_cons_of_mem _ inside)).2 char letter).1
      rw [space] at dense
      cases dense
  refine ⟨List.isPrefixOf_iff_prefix.mpr (List.prefix_append _ _), away '\n' (by decide) (by decide) (by decide),
    away '\r' (by decide) (by decide) (by decide), fun name => ?_⟩
  rw [lineNames_words some_name named, List.mem_eraseDups]

theorem injectNetworkHosts_arranged (some_other : others ≠ []) (words : ∀ member ∈ others, ∀ name ∈ hostNames member, HostWord name)
    (orderly : Arranged (file.getD [])) :
    ∃ after, injectNetworkHosts others file = some after ∧
      (∀ name, name ∈ generatedNames after ↔ ∃ member ∈ others, name ∈ hostNames member) ∧
      (outsideLines (file.getD [])).Sublist (outsideLines after) := by
  obtain ⟨body, stripped, absent, composed⟩ := orderly
  have rows : ∀ row ∈ others.filterMap hostLine, hostsAddress.isPrefixOf row = true ∧ '\n' ∉ row ∧ '\r' ∉ row := by
    intro row member
    obtain ⟨other, inside, line⟩ := List.mem_filterMap.mp member
    have facts := hostLine_some line (words other inside)
    exact ⟨facts.1, facts.2.1, facts.2.2.1⟩
  have clean : '\r' ∉ blockFile body others := by
    have unreturned : '\r' ∉ body := by
      intro member
      have inside : '\r' ∈ universalNewlines (file.getD []) := by
        generalize universalNewlines (file.getD []) = text at composed ⊢
        cases composed with
        | plain => exact member
        | ended => exact List.mem_append_left _ member
        | block _ => exact List.mem_append_left _ (List.mem_append_left _ member)
      exact universalNewlines_clean _ inside
    rw [blockFile, List.mem_append, List.mem_append, List.mem_cons, List.mem_cons, List.mem_flatMap]
    rintro ((inside | newline | marker) | newline | ⟨row, member, inside⟩)
    · exact unreturned inside
    · cases newline
    · exact absurd marker (by decide)
    · cases newline
    · rcases List.mem_append.mp inside with letter | ended
      · exact (rows row member).2.2 letter
      · cases List.mem_singleton.mp ended
  have lines : hostsLines (blockFile body others) = splitParts '\n' body ++ hostsMarker :: others.filterMap hostLine := by
    rw [hostsLines_eq, universalNewlines_self clean, blockFile, textLines_block fun row member => (rows row member).2.1]
  have parts := @takeWhile_marker (splitParts '\n' body) (others.filterMap hostLine) (marker_not_mem absent)
  refine ⟨blockFile body others, ?_, fun name => ?_, ?_⟩
  · rw [injectNetworkHosts_eq some_other, bodyOf_composed stripped absent composed]
  · rw [generatedNames, generatedLines, lines, parts.2,
      List.takeWhile_eq_self_iff.mpr fun row member => (rows row member).1, List.mem_flatMap]
    constructor
    · rintro ⟨row, member, inside⟩
      obtain ⟨other, there, line⟩ := List.mem_filterMap.mp member
      exact ⟨other, there, ((hostLine_some line (words other there)).2.2.2 name).mp inside⟩
    rintro ⟨other, there, inside⟩
    cases line : hostLine other with
    | none =>
        rw [hostLine] at line
        split at line
        · rename_i empty
          rw [empty] at inside
          cases inside
        · cases line
    | some row =>
        exact ⟨row, List.mem_filterMap.mpr ⟨other, there, line⟩, ((hostLine_some line (words other there)).2.2.2 name).mpr inside⟩
  · have after : outsideLines (blockFile body others) = splitParts '\n' body := by
      rw [outsideLines, lines, parts.1, parts.2, List.dropWhile_eq_nil_iff.mpr fun row member => (rows row member).1, List.append_nil]
    rw [after]
    exact outsideLines_composed absent composed

end

end PDocker.Engine
