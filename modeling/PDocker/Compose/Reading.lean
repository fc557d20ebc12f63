import PDocker.Compose.Spelling

/-!
# What the Compose parser reads

A scalar is read as it is where cutting at `#`, the trimming of quotes and the variables leave it
alone. Blocks are read line by line; what stands in flow style is read for some keys only.
-/

set_option autoImplicit false

namespace PDocker.Compose

open Data
open Context (isBlank isKotlinSpace kotlinTrim)

variable {char sep : Char} {left text value : Text}

theorem afterFirst_append (away : char ∉ left) (right missing : Text) :
    afterFirst char (left ++ char :: right) missing = right := by
  rw [afterFirst, if_pos (List.mem_append_right _ List.mem_cons_self), List.dropWhile_append_of_pos,
    List.dropWhile_cons_of_neg (by simp), List.tail_cons]
  intro other inside
  exact decide_eq_true fun same => away (same ▸ inside)

def Trimmed (text : Text) : Prop :=
  (∀ char, text.head? = some char → isKotlinSpace char = false) ∧
    ∀ char, text.getLast? = some char → isKotlinSpace char = false

theorem trimmed_iff : kotlinTrim text = text ↔ Trimmed text := by
  rw [kotlinTrim]
  constructor
  · intro same
    constructor
    · intro char first
      obtain ⟨rest, rfl⟩ := List.head?_eq_some_iff.mp first
      by_contra space
      rw [Bool.not_eq_false] at space
      rw [List.dropWhile_cons_of_pos space] at same
      have shorter : (List.rdropWhile isKotlinSpace (rest.dropWhile isKotlinSpace)).length ≤ rest.length :=
        (List.rdropWhile_prefix _ _).length_le.trans (List.dropWhile_sublist _).length_le
      rw [same, List.length_cons] at shorter
      omega
    · intro char last
      by_contra space
      rw [Bool.not_eq_false] at space
      have prefix' := List.rdropWhile_prefix isKotlinSpace (text.dropWhile isKotlinSpace)
      have suffix := List.dropWhile_suffix isKotlinSpace (l := text)
      have whole : text.dropWhile isKotlinSpace = text := by
        refine suffix.eq_of_length_le ?_
        have lengths := prefix'.length_le
        rwa [same] at lengths
      rw [whole] at same
      rw [List.rdropWhile_eq_self_iff] at same
      have filled : text ≠ [] := by
        rintro rfl
        exact nomatch last
      refine same filled ?_
      rw [List.getLast?_eq_some_getLast filled] at last
      rw [Option.some.inj last]
      exact space
  · rintro ⟨first, last⟩
    have front : text.dropWhile isKotlinSpace = text := by
      cases text with
      | nil => rfl
      | cons char rest => exact List.dropWhile_cons_of_neg (Bool.eq_false_iff.mp (first char rfl))
    rw [front, List.rdropWhile_eq_self_iff]
    intro filled
    exact Bool.eq_false_iff.mp (last _ (List.getLast?_eq_some_getLast filled))

theorem not_isBlank (filled : text ≠ []) (trimmed : Trimmed text) : isBlank text = false := by
  obtain ⟨char, rest, rfl⟩ := List.exists_cons_of_ne_nil filled
  rw [isBlank, List.all_cons, trimmed.1 char rfl, Bool.false_and]

theorem composeValue_self {inner : Text} {env : Variables} (trimmed : kotlinTrim value = value)
    (unquoted : trimQuotes value = inner) (literal : replaceVariables inner env = inner) :
    composeValue value env = inner := by
  rw [composeValue, trimmed, unquoted, literal]

structure Scalar.Readable (env : Variables) (scalar : Scalar) : Prop where
  noHash : '#' ∉ scalar.value
  literal : replaceVariables scalar.value env = scalar.value
  unquoted : trimQuotes scalar.value = scalar.value
  spelled :
    match scalar.quoting with
    | .plain => scalar.value ≠ [] ∧ Trimmed scalar.value
    | .single => '\'' ∉ scalar.value
    | .double => scalar.value.flatMap escapeDouble = scalar.value

theorem flatMap_escapeSingle (free : '\'' ∉ value) : value.flatMap escapeSingle = value := by
  induction value with
  | nil => rfl
  | cons char rest ih =>
      obtain ⟨other, free⟩ := not_or.mp (mt List.mem_cons.mpr free)
      rw [List.flatMap_cons, escapeSingle, if_neg (Ne.symm other), ih free, List.singleton_append]

theorem Scalar.Readable.text_eq {scalar : Scalar} {env : Variables} (readable : scalar.Readable env) :
    scalar.text = scalar.value ∧ scalar.value ≠ [] ∧ Trimmed scalar.value ∨
      ∃ quote, isQuote quote = true ∧ isKotlinSpace quote = false ∧ quote ≠ '#' ∧ quote ≠ ':' ∧ quote ≠ '=' ∧
        scalar.text = quote :: scalar.value ++ [quote] := by
  obtain ⟨value, quoting⟩ := scalar
  have spelled := readable.spelled
  cases quoting with
  | plain => exact .inl ⟨rfl, spelled⟩
  | single =>
      refine .inr ⟨'\'', by decide, by decide, by decide, by decide, by decide, ?_⟩
      rw [Scalar.text]
      dsimp only at spelled ⊢
      rw [flatMap_escapeSingle spelled]
  | double =>
      refine .inr ⟨'"', by decide, by decide, by decide, by decide, by decide, ?_⟩
      rw [Scalar.text]
      dsimp only at spelled ⊢
      rw [spelled]

theorem trimQuotes_quoted {quote : Char} (isQuote' : isQuote quote = true) (value : Text) :
    trimQuotes (quote :: value ++ [quote]) = trimQuotes value := by
  rw [trimQuotes, trimQuotes, List.cons_append, List.dropWhile_cons_of_pos isQuote']
  by_cases all : ∀ char ∈ value, isQuote char = true
  · rw [List.dropWhile_append_of_pos all, List.dropWhile_eq_nil_iff.mpr all, List.dropWhile_cons_of_pos isQuote']
    rfl
  · have filled : value.dropWhile isQuote ≠ [] := fun empty => all (List.dropWhile_eq_nil_iff.mp empty)
    rw [List.dropWhile_append, if_neg (by rwa [List.isEmpty_iff]), List.rdropWhile_concat_pos _ _ _ isQuote']

namespace Scalar.Readable

variable {scalar : Scalar} {env : Variables}

variable (readable : scalar.Readable env)

include readable

theorem filled : scalar.text ≠ [] := by
  rcases readable.text_eq with ⟨same, filled, -⟩ | ⟨quote, -, -, -, -, -, same⟩
  · rw [same]
    exact filled
  · rw [same]
    exact List.cons_ne_nil _ _

theorem trimmed : Trimmed scalar.text := by
  rcases readable.text_eq with ⟨same, -, trimmed⟩ | ⟨quote, -, shown, -, -, -, same⟩
  · rw [same]
    exact trimmed
  rw [same]
  constructor
  · intro char first
    rw [← Option.some.inj first]
    exact shown
  · intro char last
    rw [List.getLast?_concat] at last
    rw [← Option.some.inj last]
    exact shown

theorem mem_text {char : Char} (inside : char ∈ scalar.text) :
    char ∈ scalar.value ∨ isQuote char = true := by
  rcases readable.text_eq with ⟨same, -, -⟩ | ⟨quote, isQuote', -, -, -, -, same⟩
  · exact .inl (same ▸ inside)
  rw [same, List.cons_append, List.mem_cons, List.mem_append, List.mem_singleton] at inside
  rcases inside with rfl | inside | rfl
  · exact .inr isQuote'
  · exact .inl inside
  · exact .inr isQuote'

theorem noHash_text : '#' ∉ scalar.text := by
  intro inside
  rcases readable.mem_text inside with inside | isQuote'
  · exact readable.noHash inside
  · exact nomatch isQuote'

theorem read : composeValue scalar.text env = scalar.value := by
  refine composeValue_self (trimmed_iff.mpr readable.trimmed) ?_ readable.literal
  rcases readable.text_eq with ⟨same, -, -⟩ | ⟨quote, isQuote', -, -, -, -, same⟩
  · rw [same, readable.unquoted]
  · rw [same, trimQuotes_quoted isQuote', readable.unquoted]

omit readable

end Scalar.Readable

variable {Link : Type} {json : Json} {env : Variables} {links : List Link} {scan : Scan Link}

theorem space_isKotlinSpace : isKotlinSpace ' ' = true := by decide

theorem kotlinTrim_indented (trimmed : Trimmed text) (indent : Nat) :
    kotlinTrim (indented indent text) = text := by
  have all : ∀ char ∈ List.replicate indent ' ', isKotlinSpace char = true := by
    intro char inside
    rw [List.eq_of_mem_replicate inside]
    exact space_isKotlinSpace
  rw [kotlinTrim, indented, List.dropWhile_append_of_pos all]
  exact trimmed_iff.mpr trimmed

theorem getLast?_indented (filled : text ≠ []) (indent : Nat) :
    (indented indent text).getLast? = text.getLast? := by
  rw [indented, List.getLast?_append_of_ne_nil _ filled]

theorem trimEnd_self (last : ∀ char, text.getLast? = some char → isKotlinSpace char = false) :
    trimEnd text = text := by
  rw [trimEnd, List.rdropWhile_eq_self_iff]
  intro filled
  exact Bool.eq_false_iff.mp (last _ (List.getLast?_eq_some_getLast filled))

theorem firstPart_self (away : char ∉ text) : firstPart char text = text := by
  rw [firstPart, List.takeWhile_eq_self_iff]
  intro other inside
  exact decide_eq_true fun same => away (same ▸ inside)

theorem composeLine_indented {body : Text} (filled : body ≠ []) (trimmed : Trimmed body) (noHash : '#' ∉ body)
    (indent : Nat) :
    composeLine json env links scan (indented indent body) = scanLine json env links scan indent body := by
  obtain ⟨char, rest, rfl⟩ := List.exists_cons_of_ne_nil filled
  have shown := trimmed.1 char rfl
  have uncut : firstPart '#' (indented indent (char :: rest)) = indented indent (char :: rest) := by
    refine firstPart_self fun inside => ?_
    rcases List.mem_append.mp inside with blank | inside
    · exact absurd (List.eq_of_mem_replicate blank) (by decide)
    · exact noHash inside
  have ended : trimEnd (indented indent (char :: rest)) = indented indent (char :: rest) := by
    refine trimEnd_self fun last isLast => ?_
    rw [getLast?_indented filled] at isLast
    exact trimmed.2 last isLast
  have visible : isBlank (indented indent (char :: rest)) = false := by
    rw [indented, isBlank, List.all_append, List.all_cons, shown, Bool.false_and, Bool.and_false]
  have notSpace : char ≠ ' ' := by
    rintro rfl
    exact nomatch shown
  have blanks : (indented indent (char :: rest)).takeWhile (· = ' ') = List.replicate indent ' ' := by
    rw [indented, List.takeWhile_append_of_pos (by simp), List.takeWhile_cons_of_neg (by simpa using notSpace),
      List.append_nil]
  rw [composeLine, uncut, ended]
  rw [visible, if_neg Bool.false_ne_true, blanks, List.length_replicate, kotlinTrim_indented trimmed]

theorem composeLine_blank {raw : Text} (blank : isBlank (trimEnd (firstPart '#' raw)) = true) :
    composeLine json env links scan raw = scan := by
  rw [composeLine]
  exact if_pos blank

theorem mem_of_mem_trimEnd (inside : char ∈ trimEnd text) : char ∈ text :=
  (List.rdropWhile_prefix _ _).subset inside

theorem mem_of_mem_firstPart (inside : char ∈ firstPart sep text) : char ∈ text :=
  (List.takeWhile_prefix _).subset inside

theorem firstPart_append_of_mem (inside : sep ∈ left) (right : Text) :
    firstPart sep (left ++ right) = firstPart sep left := by
  rw [firstPart, List.takeWhile_append, if_neg]
  · rfl
  · intro whole
    have all := List.takeWhile_eq_self_iff.mp ((List.takeWhile_prefix _).eq_of_length whole)
    exact of_decide_eq_true (all sep inside) rfl

theorem composeLine_after (line comment : Text) :
    composeLine json env links scan (line ++ ' ' :: '#' :: comment) = composeLine json env links scan line := by
  have cut : trimEnd (firstPart '#' (line ++ ' ' :: '#' :: comment)) = trimEnd (firstPart '#' line) := by
    by_cases inside : '#' ∈ line
    · rw [firstPart_append_of_mem inside]
    have away : '#' ∉ line ++ [' '] := by
      rw [List.mem_append, List.mem_singleton]
      exact not_or.mpr ⟨inside, by decide⟩
    rw [List.append_cons, firstPart_append away, firstPart_self inside, trimEnd, trimEnd,
      List.rdropWhile_concat_pos _ _ _ space_isKotlinSpace]
  by_cases blank : isBlank (trimEnd (firstPart '#' line)) = true
  · rw [composeLine_blank blank, composeLine_blank (cut ▸ blank)]
  have indent : (line ++ ' ' :: '#' :: comment).takeWhile (· = ' ') = line.takeWhile (· = ' ') := by
    rw [List.takeWhile_append, if_neg]
    intro whole
    have all := List.takeWhile_eq_self_iff.mp ((List.takeWhile_prefix _).eq_of_length whole)
    refine blank (List.all_eq_true.mpr fun char inside => ?_)
    rw [of_decide_eq_true (all char (mem_of_mem_firstPart (mem_of_mem_trimEnd inside)))]
    exact space_isKotlinSpace
  rw [composeLine, composeLine, cut, indent]

theorem composeLine_between (indent : Nat) (comment : Text) :
    composeLine json env links scan (indented indent ('#' :: comment)) = scan := by
  refine composeLine_blank (List.all_eq_true.mpr fun char inside => ?_)
  have away : '#' ∉ List.replicate indent ' ' := fun inside => absurd (List.eq_of_mem_replicate inside) (by decide)
  have inside := mem_of_mem_trimEnd inside
  rw [indented, firstPart_append away] at inside
  rw [List.eq_of_mem_replicate inside]
  exact space_isKotlinSpace

theorem composeLine_blanks (indent : Nat) : composeLine json env links scan (List.replicate indent ' ') = scan := by
  refine composeLine_blank (List.all_eq_true.mpr fun char inside => ?_)
  rw [List.eq_of_mem_replicate (mem_of_mem_firstPart (mem_of_mem_trimEnd inside))]
  exact space_isKotlinSpace

theorem foldl_commented {lines raws : List Text} (commented : Commented lines raws) (scan : Scan Link) :
    raws.foldl (composeLine json env links) scan = lines.foldl (composeLine json env links) scan := by
  induction commented generalizing scan with
  | nil => rfl
  | line _ ih => exact ih _
  | after comment _ ih => rw [List.foldl_cons, composeLine_after, List.foldl_cons, ih]
  | between indent comment _ ih => rw [List.foldl_cons, composeLine_between, ih]
  | blank indent _ ih => rw [List.foldl_cons, composeLine_blanks, ih]

structure Scan.Open (closed : List (ComposeService Link)) (service : ComposeService Link) (scan : Scan Link) : Prop where
  closed : scan.closed = closed
  current : scan.current = some service
  inServices : scan.inServices = true

variable {closed : List (ComposeService Link)} {service : ComposeService Link}

theorem ServiceKey.ofText_text (key : ServiceKey) : ServiceKey.ofText key.text.toList = some key := by
  cases key <;> decide

theorem ServiceKey.text_plain (key : ServiceKey) :
    key.text.toList ≠ [] ∧ ':' ∉ key.text.toList ∧ '#' ∉ key.text.toList ∧
      ∀ char, key.text.toList.head? = some char → isKotlinSpace char = false := by
  have shown : key.text.toList.head?.all (fun char => !isKotlinSpace char) = true := by
    cases key <;> decide
  have free : key.text.toList ≠ [] ∧ ':' ∉ key.text.toList ∧ '#' ∉ key.text.toList := by
    cases key <;> decide
  refine ⟨free.1, free.2.1, free.2.2, fun char isFirst => ?_⟩
  simpa [isFirst] using shown

theorem lineValue_append {key : Text} (plain : ':' ∉ key) (rest : Text) :
    lineValue (key ++ ':' :: rest) = kotlinTrim rest := by
  rw [lineValue, afterFirst_append plain]

theorem kotlinTrim_blank_cons (trimmed : Trimmed text) : kotlinTrim (' ' :: text) = text :=
  kotlinTrim_indented trimmed 1

theorem scanLine_key (isOpen : scan.Open closed service) (trimmed : Text) :
    scanLine json env links scan 4 trimmed =
      { scan with
        current := some ((ServiceKey.ofText (firstPart ':' trimmed)).elim service fun known =>
          setKey json env known (lineValue trimmed) service)
        blockKey := if isBlank (lineValue trimmed) then ServiceKey.ofText (firstPart ':' trimmed) else none
        inResources := scan.inResources && ServiceKey.ofText (firstPart ':' trimmed) = some .deploy
        inLimits := scan.inLimits && ServiceKey.ofText (firstPart ':' trimmed) = some .deploy } := by
  rw [scanLine, isOpen.inServices, isOpen.current]
  rfl

variable (json env links)

variable (isOpen : scan.Open closed service)

include isOpen

theorem composeLine_keyLine (key : ServiceKey) (trimmed : Trimmed value) (noHash : '#' ∉ value) :
    (composeLine json env links scan (keyLine key value)).Open closed (setKey json env key value service) ∧
      (composeLine json env links scan (keyLine key value)).blockKey = if value = [] then some key else none := by
  obtain ⟨filled, noColon, keyNoHash, shown⟩ := key.text_plain
  have body : composeLine json env links scan (keyLine key value) =
      scanLine json env links scan 4 (key.text.toList ++ ':' :: if value = [] then [] else ' ' :: value) := by
    refine composeLine_indented (List.append_ne_nil_of_left_ne_nil filled _) ⟨fun char first => ?_, fun char last => ?_⟩ ?_ 4
    · rw [List.head?_append_of_ne_nil _ filled] at first
      exact shown char first
    · rw [List.getLast?_append_of_ne_nil _ (List.cons_ne_nil _ _)] at last
      split at last
      · rw [← Option.some.inj last]
        decide
      · rename_i more
        rw [List.getLast?_cons_cons, List.getLast?_cons_of_ne_nil more] at last
        exact trimmed.2 char last
    · rw [List.mem_append, List.mem_cons]
      refine not_or.mpr ⟨keyNoHash, not_or.mpr ⟨by decide, ?_⟩⟩
      split
      · exact List.not_mem_nil
      · rw [List.mem_cons]
        exact not_or.mpr ⟨by decide, noHash⟩
  have valueIs : kotlinTrim (if value = [] then [] else ' ' :: value) = value := by
    split
    · rename_i empty
      rw [empty]
      rfl
    · exact kotlinTrim_blank_cons trimmed
  have blank : isBlank value = true ↔ value = [] := by
    constructor
    · intro blank
      by_contra more
      rw [not_isBlank more trimmed] at blank
      exact nomatch blank
    · rintro rfl
      rfl
  rw [body, scanLine_key isOpen, firstPart_append noColon, lineValue_append noColon, valueIs, key.ofText_text]
  refine ⟨⟨isOpen.closed, rfl, isOpen.inServices⟩, ?_⟩
  dsimp only [Option.elim]
  exact if_congr blank rfl rfl

theorem scanLine_block (trimmed : Text) : scanLine json env links scan 6 trimmed =
      let after :=
        { scan with
          current := some (scan.blockKey.elim service fun known => setBlock env known false trimmed service) }
      if scan.blockKey = some .deploy then
        { after with
          inResources := firstPart ':' trimmed = "resources".toList && isBlank (lineValue trimmed), inLimits := false }
      else after := by
  rw [scanLine, isOpen.inServices, isOpen.current]
  rfl

theorem foldl_block {key : ServiceKey} (notDeploy : key ≠ .deploy)
    (block : scan.blockKey = some key) {bodies : List Text}
    (plain : ∀ body ∈ bodies, body ≠ [] ∧ Trimmed body ∧ '#' ∉ body) :
    ((bodies.map (indented 6)).foldl (composeLine json env links) scan).Open closed
      (bodies.foldl (fun service body => setBlock env key false body service) service) := by
  induction bodies generalizing scan service with
  | nil => exact isOpen
  | cons body bodies ih =>
      obtain ⟨⟨filled, trimmed, noHash⟩, plain⟩ := List.forall_mem_cons.mp plain
      have sameLimits : ∀ limits, setBlock env key limits body service = setBlock env key false body service := by
        intro limits
        cases key with
        | deploy => exact absurd rfl notDeploy
        | _ => rfl
      have other : ¬ scan.blockKey = some .deploy := by
        rw [block]
        exact fun same => notDeploy (Option.some.inj same)
      have line : composeLine json env links scan (indented 6 body) =
          { scan with current := some (setBlock env key false body service) } := by
        rw [composeLine_indented filled trimmed noHash, scanLine_block json env links isOpen, if_neg other, block, Option.elim_some,
          sameLimits]
      rw [List.map_cons, List.foldl_cons, List.foldl_cons, line]
      exact ih ⟨isOpen.closed, rfl, isOpen.inServices⟩ block plain

omit isOpen

end PDocker.Compose
