import PDocker.Compose.Reading

/-!
# Compose files that are read as they are

Each key of a service is read in some of the styles that it can have. A file in those styles, with
scalars that are read as they are, gives its services.
-/

set_option autoImplicit false

namespace PDocker.Compose

open Data
open Context (isBlank isKotlinSpace kotlinTrim)

structure FlowReadable (env : Variables) (text : Text) : Prop where
  noHash : '#' ∉ text
  literal : replaceVariables text env = text

/-- `key: value` in a block. The key is taken as it stands, and nothing may look like `KEY=VALUE`. -/
structure RowReadable (env : Variables) (key value : Scalar) : Prop where
  plain : key.quoting = .plain
  filled : key.value ≠ []
  trimmed : Trimmed key.value
  noDash : key.value.head? ≠ some '-'
  keyFree : ∀ char ∈ ['#', ':', '='], char ∉ key.value
  readable : value.Readable env
  noEquals : '=' ∉ value.value

/-- `KEY=VALUE` gives the key and the value. -/
structure Assignment.Readable (env : Variables) (row : Assignment) : Prop where
  noEquals : '=' ∉ row.key
  whole : Trimmed row.scalar.value
  trimmed : Trimmed row.value
  unquoted : trimQuotes row.value = row.value
  literal : replaceVariables row.value env = row.value

structure Assignment.BlockReadable (env : Variables) (row : Assignment) : Prop where
  plain : row.quoting = .plain
  noHash : '#' ∉ row.scalar.value
  pair : row.Readable env

/-- The styles in which a key is read, with scalars that are read; in flow style the JSON library has
to read the text as what it is. -/
def Entry.Readable (json : Json) (env : Variables) : Entry → Prop
  | .scalar _ value => value.Readable env
  | .shell line => line.Readable env ∧ bracketed '[' ']' line.value = false
  | .command items (.block _) => items = []
  | .command items .flow =>
      FlowReadable env (flowList (items.map Scalar.text)) ∧
        json.array (flowList (items.map Scalar.text)) = some (items.map fun item => some item.value)
  | .build context .short | .build context (.map .block) => context.Readable env
  | .build _ (.map .flow) => False
  | .table _ rows .block => ∀ row ∈ rows, RowReadable env row.1 row.2
  | .table .environment rows .flow => rows = []
  | .table .labels rows .flow =>
      FlowReadable env (flowMap (tableRows rows)) ∧
        json.object (flowMap (tableRows rows)) = some (rows.map fun row => (row.1.value, row.2.value))
  | .assignments _ rows (.block true) => ∀ row ∈ rows, row.BlockReadable env
  | .assignments _ rows (.block false) => rows = []
  | .assignments .environment rows .flow => rows = []
  | .assignments .labels rows .flow =>
      FlowReadable env (flowList (rows.map fun row => row.scalar.text)) ∧
        json.array (flowList (rows.map fun row => row.scalar.text)) = some (rows.map fun row => some row.scalar.value) ∧
        (∀ row ∈ rows, row.Readable env) ∧ (rows.map Assignment.key).Nodup
  | .list key items (.block true) =>
      ∀ item ∈ items, item.Readable env ∧ (key = .dependsOn → '=' ∉ item.value ∧ ':' ∉ item.value)
  | .list _ items (.block false) => items = []
  | .list .dependsOn items .flow =>
      FlowReadable env (flowList (items.map Scalar.text)) ∧
        json.array (flowList (items.map Scalar.text)) = some (items.map fun item => some item.value) ∧
        ∀ item ∈ items, isBlank item.value = false
  | .list .ports items .flow | .list .volumes items .flow => items = []

structure SpelledService.Readable (json : Json) (env : Variables) (service : SpelledService) : Prop where
  block : service.style = .block
  plain : service.name.quoting = .plain
  filled : service.name.value ≠ []
  shown : ∀ char, service.name.value.head? = some char → isKotlinSpace char = false
  noHash : '#' ∉ service.name.value
  entries : ∀ entry ∈ service.entries, entry.Readable json env

def ComposeFile.Readable (json : Json) (env : Variables) (file : ComposeFile) : Prop :=
  match file.style with
  | .block => ∀ service ∈ file.services, service.Readable json env
  | .flow => file.services = []

variable {Link : Type} {json : Json} {env : Variables} {links : List Link} {scan : Scan Link}
  {closed : List (ComposeService Link)} {service : ComposeService Link}

variable {first last : Char} {rows : List (Text × Text)} {text value : Text} {items : List Scalar} {key : ServiceKey}

theorem trimmed_enclosed (firstShown : isKotlinSpace first = false)
    (lastShown : isKotlinSpace last = false) (inner : Text) : Trimmed (first :: inner ++ [last]) := by
  constructor
  · intro char isFirst
    rw [← Option.some.inj isFirst]
    exact firstShown
  · intro char isLast
    rw [List.getLast?_concat] at isLast
    rw [← Option.some.inj isLast]
    exact lastShown

theorem trimQuotes_enclosed (firstPlain : isQuote first = false) (lastPlain : isQuote last = false)
    (inner : Text) : trimQuotes (first :: inner ++ [last]) = first :: inner ++ [last] := by
  rw [trimQuotes, List.cons_append, List.dropWhile_cons_of_neg (Bool.eq_false_iff.mp firstPlain), ← List.cons_append,
    List.rdropWhile_concat_neg _ _ _ (Bool.eq_false_iff.mp lastPlain)]

theorem bracketed_enclosed (first last : Char) (inner : Text) : bracketed first last (first :: inner ++ [last]) = true := by
  rw [bracketed, List.getLast?_concat]
  simp

theorem composeValue_enclosed (firstShown : isKotlinSpace first = false)
    (lastShown : isKotlinSpace last = false) (firstPlain : isQuote first = false) (lastPlain : isQuote last = false)
    {inner : Text} (literal : replaceVariables (first :: inner ++ [last]) env = first :: inner ++ [last]) :
    composeValue (first :: inner ++ [last]) env = first :: inner ++ [last] :=
  composeValue_self (trimmed_iff.mpr (trimmed_enclosed firstShown lastShown inner))
    (trimQuotes_enclosed firstPlain lastPlain inner) literal

theorem composeValue_flowList {items : List Text} (readable : FlowReadable env (flowList items)) :
    composeValue (flowList items) env = flowList items :=
  composeValue_enclosed (by decide) (by decide) (by decide) (by decide) readable.literal

theorem composeValue_flowMap (readable : FlowReadable env (flowMap rows)) :
    composeValue (flowMap rows) env = flowMap rows :=
  composeValue_enclosed (by decide) (by decide) (by decide) (by decide) readable.literal

theorem trimmed_flowList (items : List Text) : Trimmed (flowList items) :=
  trimmed_enclosed (by decide) (by decide) _

theorem trimmed_flowMap (rows : List (Text × Text)) : Trimmed (flowMap rows) :=
  trimmed_enclosed (by decide) (by decide) _

theorem bracketed_flowList (items : List Text) : bracketed '[' ']' (flowList items) = true :=
  bracketed_enclosed '[' ']' _

theorem bracketed_flowMap (rows : List (Text × Text)) :
    bracketed '[' ']' (flowMap rows) = false ∧ bracketed '{' '}' (flowMap rows) = true :=
  ⟨rfl, bracketed_enclosed '{' '}' _⟩

theorem flowList_ne_nil (items : List Text) : flowList items ≠ [] := List.cons_ne_nil _ _

theorem flowMap_ne_nil (rows : List (Text × Text)) : flowMap rows ≠ [] := List.cons_ne_nil _ _

theorem Assignment.Readable.parse {row : Assignment} (readable : row.Readable env) :
    parseComposeMapOrList ('-' :: ' ' :: row.scalar.value) env = some (row.key, row.value) := by
  have item : kotlinTrim (removeDash ('-' :: ' ' :: row.scalar.value)) = row.key ++ '=' :: row.value :=
    kotlinTrim_blank_cons readable.whole
  rw [parseComposeMapOrList, item, if_pos (List.mem_append_right _ List.mem_cons_self), firstPart_append readable.noEquals,
    afterFirst_append readable.noEquals,
    composeValue_self (trimmed_iff.mpr readable.trimmed) readable.unquoted readable.literal]

theorem trimmed_row {key : Text} (filledKey : key ≠ []) (trimmedKey : Trimmed key) (filled : text ≠ [])
    (trimmed : Trimmed text) : Trimmed (key ++ ':' :: ' ' :: text) := by
  constructor
  · intro char first
    rw [List.head?_append_of_ne_nil _ filledKey] at first
    exact trimmedKey.1 char first
  · intro char last
    rw [List.getLast?_append_of_ne_nil _ (List.cons_ne_nil _ _), List.getLast?_cons_cons,
      List.getLast?_cons_of_ne_nil filled] at last
    exact trimmed.2 char last

theorem noHash_row {key : Text} (noHashKey : '#' ∉ key) (noHash : '#' ∉ text) : '#' ∉ key ++ ':' :: ' ' :: text := by
  rw [List.mem_append, List.mem_cons, List.mem_cons]
  exact not_or.mpr ⟨noHashKey, not_or.mpr ⟨by decide, not_or.mpr ⟨by decide, noHash⟩⟩⟩

theorem RowReadable.parse {key value : Scalar} (readable : RowReadable env key value) :
    parseComposeMapOrList (key.value ++ ':' :: ' ' :: value.text) env = some (key.value, value.value) := by
  have noDash : removeDash (key.value ++ ':' :: ' ' :: value.text) = key.value ++ ':' :: ' ' :: value.text := by
    obtain ⟨char, rest, same⟩ := List.exists_cons_of_ne_nil readable.filled
    have other : char ≠ '-' := by
      rintro rfl
      exact readable.noDash (by rw [same]; rfl)
    rw [same, List.cons_append, removeDash.eq_def]
    split
    · rename_i first
      exact absurd (List.cons.inj first).1 other
    · rfl
  have noEquals : '=' ∉ key.value ++ ':' :: ' ' :: value.text := by
    rw [List.mem_append, List.mem_cons, List.mem_cons]
    refine not_or.mpr ⟨readable.keyFree '=' (by decide), not_or.mpr ⟨by decide, not_or.mpr ⟨by decide, fun inside => ?_⟩⟩⟩
    rcases readable.readable.mem_text inside with inside | isQuote'
    · exact readable.noEquals inside
    · exact nomatch isQuote'
  have noColon : ':' ∉ key.value := readable.keyFree ':' (by decide)
  rw [parseComposeMapOrList, noDash, trimmed_iff.mpr (trimmed_row readable.filled readable.trimmed readable.readable.filled readable.readable.trimmed),
    if_neg noEquals, if_pos (List.mem_append_right _ List.mem_cons_self), firstPart_append noColon,
    afterFirst_append noColon, trimmed_iff.mpr readable.trimmed, kotlinTrim_blank_cons readable.readable.trimmed,
    readable.readable.read]

theorem parseComposeListValue_item (trimmed : Trimmed text) (filled : text ≠ []) (env : Variables) :
    parseComposeListValue ('-' :: ' ' :: text) env = some (composeValue text env) := by
  have whole : Trimmed ('-' :: ' ' :: text) := by
    constructor
    · intro char first
      rw [← Option.some.inj first]
      decide
    · intro char last
      rw [List.getLast?_cons_cons, List.getLast?_cons_of_ne_nil filled] at last
      exact trimmed.2 char last
  have front : ('-' :: ' ' :: text).dropWhile isKotlinSpace = '-' :: ' ' :: text :=
    List.dropWhile_cons_of_neg (by decide)
  rw [parseComposeListValue, front, trimmed_iff.mpr whole]
  exact congrArg (fun item => some (composeValue item env)) (kotlinTrim_blank_cons trimmed)

/-! ## Entries -/

variable (json env links)

theorem composeLine_blockKey (isOpen : scan.Open closed service) (key : ServiceKey) :
    (composeLine json env links scan (keyLine key [])).Open closed (setKey json env key [] service) ∧
      (composeLine json env links scan (keyLine key [])).blockKey = some key :=
  composeLine_keyLine json env links isOpen key ⟨nofun, nofun⟩ List.not_mem_nil

theorem trimmed_item (filled : text ≠ []) (trimmed : Trimmed text) : Trimmed ('-' :: ' ' :: text) := by
  constructor
  · intro char first
    rw [← Option.some.inj first]
    decide
  · intro char last
    rw [List.getLast?_cons_cons, List.getLast?_cons_of_ne_nil filled] at last
    exact trimmed.2 char last

variable (isOpen : scan.Open closed service)

include isOpen

theorem foldl_listLines (notDeploy : key ≠ .deploy)
    (plain : ∀ item ∈ items, item.text ≠ [] ∧ Trimmed item.text ∧ '#' ∉ item.text) :
    ((listLines key items (.block true)).foldl (composeLine json env links) scan).Open closed
      (items.foldl (fun service item => setBlock env key false ('-' :: ' ' :: item.text) service)
        (setKey json env key [] service)) := by
  obtain ⟨opened, block⟩ := composeLine_blockKey json env links isOpen key
  have bodies : ∀ body ∈ items.map fun item => '-' :: ' ' :: item.text, body ≠ [] ∧ Trimmed body ∧ '#' ∉ body := by
    intro body member
    obtain ⟨item, isItem, rfl⟩ := List.mem_map.mp member
    obtain ⟨filled, trimmed, noHash⟩ := plain item isItem
    refine ⟨List.cons_ne_nil _ _, trimmed_item filled trimmed, ?_⟩
    rw [List.mem_cons, List.mem_cons]
    exact not_or.mpr ⟨by decide, not_or.mpr ⟨by decide, noHash⟩⟩
  have read := foldl_block json env links opened notDeploy block bodies
  rw [List.map_map, List.foldl_map] at read
  rw [listLines, List.foldl_cons]
  exact read

theorem foldl_mapLines (notDeploy : key ≠ .deploy)
    (plain : ∀ row ∈ rows, Trimmed (row.1 ++ ':' :: ' ' :: row.2) ∧ '#' ∉ row.1 ++ ':' :: ' ' :: row.2) :
    ((mapLines key rows .block).foldl (composeLine json env links) scan).Open closed
      (rows.foldl (fun service row => setBlock env key false (row.1 ++ ':' :: ' ' :: row.2) service)
        (setKey json env key [] service)) := by
  obtain ⟨opened, block⟩ := composeLine_blockKey json env links isOpen key
  have bodies : ∀ body ∈ rows.map fun row => row.1 ++ ':' :: ' ' :: row.2, body ≠ [] ∧ Trimmed body ∧ '#' ∉ body := by
    intro body member
    obtain ⟨row, isRow, rfl⟩ := List.mem_map.mp member
    obtain ⟨trimmed, noHash⟩ := plain row isRow
    exact ⟨List.append_ne_nil_of_right_ne_nil _ (List.cons_ne_nil _ _), trimmed, noHash⟩
  have read := foldl_block json env links opened notDeploy block bodies
  rw [List.map_map, List.foldl_map] at read
  rw [mapLines, List.foldl_cons]
  exact read

theorem foldl_keyLine (key : ServiceKey) (trimmed : Trimmed value) (noHash : '#' ∉ value) :
    (([keyLine key value] : List Text).foldl (composeLine json env links) scan).Open closed
      (setKey json env key value service) :=
  (composeLine_keyLine json env links isOpen key trimmed noHash).1

omit isOpen

theorem Scalar.Readable.item {item : Scalar} (readable : item.Readable env) :
    item.text ≠ [] ∧ Trimmed item.text ∧ '#' ∉ item.text :=
  ⟨readable.filled, readable.trimmed, readable.noHash_text⟩

theorem TableKey.putAll_append (key : TableKey) (left right : List (Text × Text)) (service : ComposeService Link) :
    key.putAll right (key.putAll left service) = key.putAll (left ++ right) service := by
  cases key <;> simp only [TableKey.putAll, List.foldl_append]

theorem TableKey.foldl_setBlock {Row : Type} (key : TableKey) {rows : List Row} {body : Row → Text}
    {pair : Row → Text × Text} (parse : ∀ row ∈ rows, parseComposeMapOrList (body row) env = some (pair row))
    (service : ComposeService Link) :
    rows.foldl (fun service row => setBlock env key.key false (body row) service) service =
      key.putAll (rows.map pair) service := by
  induction rows generalizing service with
  | nil => cases key <;> rfl
  | cons row rows ih =>
      obtain ⟨first, parse⟩ := List.forall_mem_cons.mp parse
      have one : setBlock env key.key false (body row) service = key.putAll [pair row] service := by
        cases key <;> simp only [TableKey.key, setBlock, TableKey.putAll, first, Option.toList_some]
      rw [List.foldl_cons, one, ih parse, key.putAll_append, List.map_cons, List.singleton_append]

theorem ListKey.addAll_append (key : ListKey) (left right : List Text) (service : ComposeService Link) :
    key.addAll right (key.addAll left service) = key.addAll (left ++ right) service := by
  cases key <;> simp only [ListKey.addAll, List.append_assoc]

theorem ListKey.foldl_setBlock (key : ListKey)
    (readable : ∀ item ∈ items, item.Readable env ∧ (key = .dependsOn → '=' ∉ item.value ∧ ':' ∉ item.value))
    (service : ComposeService Link) :
    items.foldl (fun service item => setBlock env key.key false ('-' :: ' ' :: item.text) service) service =
      key.addAll (items.map Scalar.value) service := by
  induction items generalizing service with
  | nil => cases key <;> simp only [List.foldl_nil, List.map_nil, ListKey.addAll, List.append_nil]
  | cons item items ih =>
      obtain ⟨⟨first, free⟩, readable⟩ := List.forall_mem_cons.mp readable
      have read : parseComposeListValue ('-' :: ' ' :: item.text) env = some item.value := by
        rw [parseComposeListValue_item first.trimmed first.filled, first.read]
      have one : setBlock env key.key false ('-' :: ' ' :: item.text) service = key.addAll [item.value] service := by
        cases key with
        | ports | volumes => simp only [ListKey.key, setBlock, ListKey.addAll, read, Option.toList_some]
        | dependsOn =>
            obtain ⟨noEquals, noColon⟩ := free rfl
            have away : ∀ char, isQuote char = false → char ∉ item.value → char ∉ item.text := by
              intro char other free inside
              rcases first.mem_text inside with inside | isQuote'
              · exact free inside
              · rw [other] at isQuote'
                exact nomatch isQuote'
            have noRow : parseComposeMapOrList ('-' :: ' ' :: item.text) env = none := by
              have body : kotlinTrim (removeDash ('-' :: ' ' :: item.text)) = item.text :=
                kotlinTrim_blank_cons first.trimmed
              rw [parseComposeMapOrList, body, if_neg (away '=' (by decide) noEquals),
                if_neg (away ':' (by decide) noColon)]
            simp only [ListKey.key, setBlock, ListKey.addAll, read, noRow, Option.toList_some, Option.map_none,
              Option.toList_none, List.append_nil]
      rw [List.foldl_cons, one, ih readable, key.addAll_append, List.map_cons, List.singleton_append]

theorem mapM_some (values : List Text) : (values.map some).mapM id = some values := by
  induction values with
  | nil => rfl
  | cons value values ih =>
      rw [List.map_cons, List.mapM_cons, ih]
      rfl

theorem foldl_put {left : List (Text × Text)} (distinct : ((left ++ rows).map Prod.fst).Nodup) :
    rows.foldl put left = left ++ rows := by
  induction rows generalizing left with
  | nil => rw [List.foldl_nil, List.append_nil]
  | cons row rows ih =>
      rw [List.append_cons] at distinct
      have fresh : left.any (·.1 = row.1) = false := by
        rw [List.any_eq_false]
        intro old member
        rw [List.map_append, List.map_append] at distinct
        have apart := (List.nodup_append.mp (List.nodup_append.mp distinct).1).2.2
        simpa using apart old.1 (List.mem_map_of_mem member) row.1 (List.mem_singleton_self _)
      rw [List.foldl_cons, put, fresh, if_neg Bool.false_ne_true, ih distinct, List.append_assoc, List.singleton_append]

theorem trimmed_nil : Trimmed [] := ⟨nofun, nofun⟩

theorem Entry.Readable.foldl_flow {after : ComposeService Link} (trimmed : Trimmed value)
    (noHash : '#' ∉ value) (isOpen : scan.Open closed service) (sets : setKey json env key value service = after) :
    (([keyLine key value] : List Text).foldl (composeLine json env links) scan).Open closed after := by
  rw [← sets]
  exact foldl_keyLine json env links isOpen key trimmed noHash

theorem foldl_build {context : Scalar} (readable : context.Readable env) (isOpen : scan.Open closed service) :
    ((mapLines .build [contextRow context] .block).foldl (composeLine json env links) scan).Open closed
      { service with buildContext := some context.value } := by
  have plain : ':' ∉ "context".toList := by decide
  have keyIs : '#' ∉ "context".toList ∧ "context".toList ≠ [] ∧ kotlinTrim "context".toList = "context".toList := by
    decide
  have rows : ∀ row ∈ [contextRow context],
      Trimmed (row.1 ++ ':' :: ' ' :: row.2) ∧ '#' ∉ row.1 ++ ':' :: ' ' :: row.2 := by
    refine List.forall_mem_singleton.mpr ⟨?_, noHash_row (keyIs.1) readable.noHash_text⟩
    exact trimmed_row keyIs.2.1 (trimmed_iff.mp keyIs.2.2) readable.filled readable.trimmed
  have lines := foldl_mapLines json env links isOpen (by decide : ServiceKey.build ≠ .deploy) rows
  have sets : setBlock env .build false ("context".toList ++ ':' :: ' ' :: context.text)
      (setKey json env .build [] service) = { service with buildContext := some context.value } := by
    rw [setBlock, firstPart_append plain, if_pos rfl, lineValue_append plain, kotlinTrim_blank_cons readable.trimmed, readable.read]
    rfl
  rw [← sets]
  exact lines

theorem TableKey.setKey_blank (key : TableKey) : setKey json env key.key [] service = service := by
  cases key <;> rfl

theorem ListKey.setKey_blank (key : ListKey) : setKey json env key.key [] service = service := by
  cases key <;> rfl

theorem TableKey.notDeploy (key : TableKey) : key.key ≠ .deploy := by
  cases key <;> decide

theorem ListKey.notDeploy (key : ListKey) : key.key ≠ .deploy := by
  cases key <;> decide

theorem TableKey.putAll_nil (key : TableKey) (service : ComposeService Link) : key.putAll [] service = service := by
  cases key <;> rfl

theorem ListKey.addAll_nil (key : ListKey) (service : ComposeService Link) : key.addAll [] service = service := by
  cases key <;> simp only [ListKey.addAll, List.append_nil]

theorem foldl_table {key : TableKey} {rows : List (Scalar × Scalar)} (readable : ∀ row ∈ rows, RowReadable env row.1 row.2)
    (isOpen : scan.Open closed service) :
    ((mapLines key.key (tableRows rows) .block).foldl (composeLine json env links) scan).Open closed
      (key.putAll (rows.map fun row => (row.1.value, row.2.value)) service) := by
  have text : ∀ row ∈ rows, row.1.text = row.1.value := by
    intro row member
    rw [Scalar.text, (readable row member).plain]
  have plain : ∀ row ∈ tableRows rows,
      Trimmed (row.1 ++ ':' :: ' ' :: row.2) ∧ '#' ∉ row.1 ++ ':' :: ' ' :: row.2 := by
    intro body member
    obtain ⟨row, isRow, rfl⟩ := List.mem_map.mp member
    have own := readable row isRow
    dsimp only
    rw [text row isRow]
    exact ⟨trimmed_row own.filled own.trimmed own.readable.filled own.readable.trimmed,
      noHash_row (own.keyFree '#' (by decide)) own.readable.noHash_text⟩
  have lines := foldl_mapLines json env links isOpen key.notDeploy plain
  have parse : ∀ row ∈ rows, parseComposeMapOrList (row.1.text ++ ':' :: ' ' :: row.2.text) env =
      some (row.1.value, row.2.value) := by
    intro row member
    rw [text row member]
    exact (readable row member).parse
  rw [tableRows, List.foldl_map, key.setKey_blank, key.foldl_setBlock env parse] at lines
  exact lines

theorem foldl_assignments {key : TableKey} {rows : List Assignment} (readable : ∀ row ∈ rows, row.BlockReadable env)
    (isOpen : scan.Open closed service) :
    ((listLines key.key (rows.map Assignment.scalar) (.block true)).foldl (composeLine json env links) scan).Open closed
      (key.putAll (rows.map fun row => (row.key, row.value)) service) := by
  have text : ∀ row ∈ rows, row.scalar.text = row.scalar.value := by
    intro row member
    rw [Scalar.text, Assignment.scalar, (readable row member).plain]
  have plain : ∀ item ∈ rows.map Assignment.scalar, item.text ≠ [] ∧ Trimmed item.text ∧ '#' ∉ item.text := by
    intro item member
    obtain ⟨row, isRow, rfl⟩ := List.mem_map.mp member
    rw [text row isRow]
    exact ⟨List.append_ne_nil_of_right_ne_nil _ (List.cons_ne_nil _ _), (readable row isRow).pair.whole,
      (readable row isRow).noHash⟩
  have lines := foldl_listLines json env links isOpen key.notDeploy plain
  have parse : ∀ row ∈ rows, parseComposeMapOrList ('-' :: ' ' :: row.scalar.text) env = some (row.key, row.value) := by
    intro row member
    rw [text row member]
    exact (readable row member).pair.parse
  rw [List.foldl_map, key.setKey_blank, key.foldl_setBlock env parse] at lines
  exact lines

theorem foldl_list {key : ListKey}
    (readable : ∀ item ∈ items, item.Readable env ∧ (key = .dependsOn → '=' ∉ item.value ∧ ':' ∉ item.value))
    (isOpen : scan.Open closed service) :
    ((listLines key.key items (.block true)).foldl (composeLine json env links) scan).Open closed
      (key.addAll (items.map Scalar.value) service) := by
  have lines := foldl_listLines json env links isOpen key.notDeploy fun item member => (readable item member).1.item
  rw [key.setKey_blank, key.foldl_setBlock env readable] at lines
  exact lines

theorem Entry.Readable.foldl {entry : Entry} (readable : entry.Readable json env) (isOpen : scan.Open closed service) :
    (entry.lines.foldl (composeLine json env links) scan).Open closed (entry.describe service) := by
  cases entry with
  | scalar key value =>
      refine foldl_flow json env links readable.trimmed readable.noHash_text isOpen ?_
      cases key <;> simp only [ScalarKey.key, setKey, Entry.describe, ScalarKey.set, readable.read]
  | shell text =>
      obtain ⟨readable, noList⟩ := readable
      refine foldl_flow json env links readable.trimmed readable.noHash_text isOpen ?_
      rw [setKey, composeCommand, readable.read, noList, if_neg Bool.false_ne_true]
      rfl
  | command items style =>
      cases style with
      | block style =>
          obtain rfl : items = [] := readable
          exact foldl_flow json env links trimmed_nil List.not_mem_nil isOpen rfl
      | flow =>
          obtain ⟨flow, array⟩ := readable
          have values : (items.map fun item => some item.value).mapM id = some (items.map Scalar.value) := by
            rw [← mapM_some, List.map_map]
            rfl
          refine foldl_flow json env links (trimmed_flowList _) flow.noHash isOpen ?_
          rw [setKey, composeCommand, composeValue_flowList flow, bracketed_flowList, if_pos rfl, array,
            Option.bind_some, values, Option.getD_some]
          rfl
  | build context style =>
      cases style with
      | short =>
          refine foldl_flow json env links readable.trimmed readable.noHash_text isOpen ?_
          rw [setKey, not_isBlank readable.filled readable.trimmed, if_neg Bool.false_ne_true, readable.read]
          rfl
      | map style =>
          cases style with
          | flow => exact readable.elim
          | block => exact foldl_build json env links readable isOpen
  | table key rows style =>
      cases style with
      | block => exact foldl_table json env links readable isOpen
      | flow =>
          cases key with
          | environment =>
              obtain rfl : rows = [] := readable
              exact foldl_flow json env links (trimmed_flowMap _) (by decide) isOpen rfl
          | labels =>
              obtain ⟨flow, object⟩ := readable
              refine foldl_flow json env links (trimmed_flowMap _) flow.noHash isOpen ?_
              rw [TableKey.key, setKey, not_isBlank (flowMap_ne_nil _) (trimmed_flowMap _), if_neg Bool.false_ne_true,
                composeInlineMapOrList, composeValue_flowMap flow]
              rw [not_isBlank (flowMap_ne_nil _) (trimmed_flowMap _), if_neg Bool.false_ne_true,
                (bracketed_flowMap _).1, if_neg Bool.false_ne_true, (bracketed_flowMap _).2, if_pos rfl, object]
              rfl
  | assignments key rows style =>
      cases style with
      | block style =>
          cases style with
          | true => exact foldl_assignments json env links readable isOpen
          | false =>
              obtain rfl : rows = [] := readable
              refine foldl_flow json env links trimmed_nil List.not_mem_nil isOpen ?_
              rw [key.setKey_blank]
              exact (key.putAll_nil service).symm
      | flow =>
          cases key with
          | environment =>
              obtain rfl : rows = [] := readable
              exact foldl_flow json env links (trimmed_flowList _) (by decide) isOpen rfl
          | labels =>
              obtain ⟨flow, array, pairs, distinct⟩ := readable
              have parsed : (rows.map fun row => some row.scalar.value).filterMap
                  (fun item => parseComposeMapOrList ('-' :: ' ' :: item.getD []) env) =
                    rows.map fun row => (row.key, row.value) := by
                rw [List.filterMap_map]
                refine (List.filterMap_congr fun row member => ?_).trans (congrFun List.filterMap_eq_map' _)
                exact (pairs row member).parse
              have once : (rows.map fun row => (row.key, row.value)).foldl put [] =
                  rows.map fun row => (row.key, row.value) := by
                refine foldl_put ?_
                rw [List.nil_append, List.map_map]
                exact distinct
              have lines : Entry.lines (.assignments .labels rows .flow) =
                  [keyLine .labels (flowList (rows.map fun row => row.scalar.text))] := by
                rw [Entry.lines, listLines, List.map_map]
                rfl
              rw [lines]
              refine foldl_flow json env links (trimmed_flowList _) flow.noHash isOpen ?_
              rw [setKey, not_isBlank (flowList_ne_nil _) (trimmed_flowList _), if_neg Bool.false_ne_true,
                composeInlineMapOrList, composeValue_flowList flow]
              rw [not_isBlank (flowList_ne_nil _) (trimmed_flowList _), if_neg Bool.false_ne_true,
                bracketed_flowList, if_pos rfl, array]
              dsimp only
              rw [parsed, once]
              rfl
  | list key items style =>
      cases style with
      | block style =>
          cases style with
          | true => exact foldl_list json env links readable isOpen
          | false =>
              obtain rfl : items = [] := readable
              refine foldl_flow json env links trimmed_nil List.not_mem_nil isOpen ?_
              rw [key.setKey_blank]
              exact (key.addAll_nil service).symm
      | flow =>
          cases key with
          | ports =>
              obtain rfl : items = [] := readable
              exact foldl_flow json env links (trimmed_flowList _) (by decide) isOpen
                (ListKey.ports.addAll_nil service).symm
          | volumes =>
              obtain rfl : items = [] := readable
              exact foldl_flow json env links (trimmed_flowList _) (by decide) isOpen
                (ListKey.volumes.addAll_nil service).symm
          | dependsOn =>
              obtain ⟨flow, array, visible⟩ := readable
              have kept : ((items.map fun item => some item.value).map (·.getD [])).filter (fun item => !isBlank item) =
                  items.map Scalar.value := by
                rw [List.map_map, List.filter_eq_self.mpr]
                · rfl
                · intro value member
                  obtain ⟨item, isItem, rfl⟩ := List.mem_map.mp member
                  exact congrArg (!·) (visible item isItem)
              refine foldl_flow json env links (trimmed_flowList _) flow.noHash isOpen ?_
              rw [ListKey.key, setKey, not_isBlank (flowList_ne_nil _) (trimmed_flowList _), if_neg Bool.false_ne_true,
                composeStringList, composeValue_flowList flow]
              rw [bracketed_flowList, if_pos rfl, array]
              dsimp only
              rw [kept]
              rfl

theorem foldl_entries {entries : List Entry} (readable : ∀ entry ∈ entries, entry.Readable json env)
    (isOpen : scan.Open closed service) :
    ((entries.flatMap Entry.lines).foldl (composeLine json env links) scan).Open closed
      (entries.foldl (fun described entry => entry.describe described) service) := by
  induction entries generalizing scan service with
  | nil => exact isOpen
  | cons entry entries ih =>
      obtain ⟨first, readable⟩ := List.forall_mem_cons.mp readable
      rw [List.flatMap_cons, List.foldl_append, List.foldl_cons]
      exact ih readable (first.foldl json env links isOpen)

theorem scanLine_name {trimmed : Text} (last : trimmed.getLast? = some ':') (inServices : scan.inServices = true) :
    scanLine json env links scan 2 trimmed =
      { scan with
        closed := scan.services
        current := some (.new trimmed.dropLast links)
        blockKey := none
        inResources := false
        inLimits := false } := by
  rw [scanLine, inServices, last]
  rfl

theorem composeLine_name {service : SpelledService} (readable : service.Readable json env) (inServices : scan.inServices = true) :
    (composeLine json env links scan (indented 2 (service.name.text ++ [':']))).Open scan.services
      (.new service.name.value links) := by
  have text : service.name.text = service.name.value := by
    rw [Scalar.text, readable.plain]
  have trimmed : Trimmed (service.name.value ++ [':']) := by
    constructor
    · intro char first
      rw [List.head?_append_of_ne_nil _ readable.filled] at first
      exact readable.shown char first
    · intro char last
      rw [List.getLast?_concat] at last
      rw [← Option.some.inj last]
      decide
  have noHash : '#' ∉ service.name.value ++ [':'] := by
    rw [List.mem_append, List.mem_singleton]
    exact not_or.mpr ⟨readable.noHash, by decide⟩
  rw [text, composeLine_indented (List.append_ne_nil_of_right_ne_nil _ (List.cons_ne_nil _ _)) trimmed noHash,
    scanLine_name json env links List.getLast?_concat inServices, List.dropLast_concat]
  exact ⟨rfl, rfl, inServices⟩

theorem foldl_services {services : List SpelledService} (readable : ∀ service ∈ services, service.Readable json env)
    (inServices : scan.inServices = true) :
    ((services.flatMap SpelledService.lines).foldl (composeLine json env links) scan).services =
      scan.services ++ services.map fun service => service.described links := by
  induction services generalizing scan with
  | nil => rw [List.map_nil, List.append_nil]; rfl
  | cons service services ih =>
      obtain ⟨first, readable⟩ := List.forall_mem_cons.mp readable
      have lines : service.lines =
          indented 2 (service.name.text ++ [':']) :: service.entries.flatMap Entry.lines := by
        rw [SpelledService.lines, first.block]
      have done := foldl_entries json env links first.entries (composeLine_name json env links first inServices)
      rw [List.flatMap_cons, List.foldl_append, lines, List.foldl_cons, ih readable done.inServices, Scan.services,
        done.closed, done.current, Option.toList_some, List.append_assoc, List.map_cons, List.singleton_append]
      rfl

def ComposeFile.Reads (json : Json) (env : Variables) (headerServiceLinks : List Text → List Link) (file : ComposeFile) :
    Prop :=
  ∀ raws, Commented file.lines raws → parseComposeServices json env headerServiceLinks (some raws) =
      file.services.map fun service => service.described (headerServiceLinks raws)

/-- A file in the styles that are read, with scalars that are read as they are, gives its services. -/
theorem reads_of_readable (json : Json) (env : Variables) (headerServiceLinks : List Text → List Link)
    (file : ComposeFile) (readable : file.Readable json env) : file.Reads json env headerServiceLinks := by
  intro raws commented
  rw [parseComposeServices, foldl_commented commented]
  obtain ⟨services, style⟩ := file
  cases style with
  | block =>
      have header : composeLine json env (headerServiceLinks raws) .start "services:".toList =
          { Scan.start with inServices := true } := by
        have plain : "services:".toList ≠ [] ∧ kotlinTrim "services:".toList = "services:".toList ∧
            '#' ∉ "services:".toList := by decide
        exact composeLine_indented plain.1 (trimmed_iff.mp plain.2.1) plain.2.2 0
      rw [ComposeFile.lines, List.foldl_cons, header, foldl_services json env _ readable rfl]
      rfl
  | flow =>
      obtain rfl : services = [] := readable
      rfl

theorem Commented.refl (lines : List Text) : Commented lines lines := by
  induction lines with
  | nil => exact .nil
  | cons line lines ih => exact .line ih

def noVariables : Variables := fun _ => none

def smallJson : Json where
  array text := if text = "[\"a\"]".toList then some [some ['a']] else none
  object _ := none

def oneService (entries : List Entry) : ComposeFile where
  services := [⟨⟨['w'], .plain⟩, entries, .block⟩]
  style := .block

def readFile : ComposeFile :=
  oneService [.scalar .image ⟨"a:b=c".toList, .double⟩, .command [⟨['a'], .double⟩] .flow,
    .assignments .environment [⟨['K'], "a=b".toList, .plain⟩] (.block true),
    .list .ports [⟨"80:80".toList, .single⟩] (.block true)]

theorem reads_of_readable_service : readFile.Valid ∧ readFile.Reads smallJson noVariables fun _ => ([] : List Unit) := by
  refine ⟨by decide +kernel, reads_of_readable smallJson noVariables _ readFile ?_⟩
  have shown : ∀ char, ['w'].head? = some char → isKotlinSpace char = false := by
    rintro char ⟨⟩
    decide
  refine List.forall_mem_singleton.mpr ⟨rfl, rfl, by decide, shown, by decide, ?_⟩
  have image : (⟨"a:b=c".toList, .double⟩ : Scalar).Readable noVariables := ⟨by decide, by decide, by decide, by decide⟩
  have port : (⟨"80:80".toList, .single⟩ : Scalar).Readable noVariables := ⟨by decide, by decide, by decide, by decide⟩
  have row : (⟨['K'], "a=b".toList, .plain⟩ : Assignment).BlockReadable noVariables :=
    ⟨rfl, by decide, by decide, trimmed_iff.mp (by decide), trimmed_iff.mp (by decide), by decide, by decide⟩
  simp only [List.forall_mem_cons, List.not_mem_nil, false_implies, implies_true, and_true]
  exact ⟨image, ⟨⟨by decide, by decide⟩, by decide⟩, List.forall_mem_singleton.mpr row,
    List.forall_mem_singleton.mpr ⟨port, nofun⟩⟩

theorem not_reads {file : ComposeFile} {Field : Type} (field : ComposeService Unit → Field)
    (differs : (parseComposeServices smallJson noVariables (fun _ => []) (some file.lines)).map field ≠
      file.services.map fun service => field (service.described [])) :
    ¬ file.Reads smallJson noVariables fun _ => ([] : List Unit) := by
  intro reads
  have same := congrArg (List.map field) (reads file.lines (.refl _))
  rw [List.map_map] at same
  exact differs same

def hashFile : ComposeFile := oneService [.scalar .image ⟨"a#b".toList, .double⟩]

def flowFile : ComposeFile := oneService [.table .environment [(⟨['K'], .plain⟩, ⟨['a'], .plain⟩)] .flow]

def flushFile : ComposeFile := oneService [.list .ports [⟨"80:80".toList, .single⟩] (.block false)]

def quotedFile : ComposeFile := oneService [.assignments .environment [⟨['K'], ['a'], .double⟩] (.block true)]

def equalsFile : ComposeFile := oneService [.table .environment [(⟨['K'], .plain⟩, ⟨"a=b".toList, .plain⟩)] .block]

theorem valid_unread :
    (hashFile.Valid ∧ ¬ hashFile.Reads smallJson noVariables fun _ => ([] : List Unit)) ∧
      (flowFile.Valid ∧ ¬ flowFile.Reads smallJson noVariables fun _ => ([] : List Unit)) ∧
      (flushFile.Valid ∧ ¬ flushFile.Reads smallJson noVariables fun _ => ([] : List Unit)) ∧
      (quotedFile.Valid ∧ ¬ quotedFile.Reads smallJson noVariables fun _ => ([] : List Unit)) ∧
      (equalsFile.Valid ∧ ¬ equalsFile.Reads smallJson noVariables fun _ => ([] : List Unit)) := by
  refine ⟨⟨by decide +kernel, ?_⟩, ⟨by decide +kernel, ?_⟩, ⟨by decide +kernel, ?_⟩, ⟨by decide +kernel, ?_⟩, ⟨by decide +kernel, ?_⟩⟩
  · exact not_reads ComposeService.image (by decide)
  · exact not_reads ComposeService.environment (by decide)
  · exact not_reads ComposeService.ports (by decide)
  · exact not_reads ComposeService.environment (by decide)
  · exact not_reads ComposeService.environment (by decide)

end PDocker.Compose
