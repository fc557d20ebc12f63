import PDocker.Compose.Parser

/-!
# Compose files

The ways to write services down in YAML with two blanks of indentation: scalars plain or quoted, lists
and maps in block or in flow style, the items of a list below their key or at its indentation, and
comments anywhere.
-/

set_option autoImplicit false

namespace PDocker.Compose

open Data
open Context (isBlank)

inductive Quoting where
  | plain
  | single
  | double
  deriving DecidableEq, Repr

structure Scalar where
  value : Text
  quoting : Quoting
  deriving DecidableEq, Repr

def escapeSingle (char : Char) : Text := if char = '\'' then ['\'', '\''] else [char]

def escapeDouble (char : Char) : Text :=
  if char = '"' then ['\\', '"']
  else if char = '\\' then ['\\', '\\']
  else if char = '\n' then ['\\', 'n']
  else if char = '\r' then ['\\', 'r']
  else if char = '\t' then ['\\', 't']
  else [char]

namespace Scalar

def text (scalar : Scalar) : Text :=
  match scalar.quoting with
  | .plain => scalar.value
  | .single => '\'' :: scalar.value.flatMap escapeSingle ++ ['\'']
  | .double => '"' :: scalar.value.flatMap escapeDouble ++ ['"']

def indicators : Text := "-?:,[]\x7b\x7d#&*!|>\x27\"%@\x60".toList

def flowIndicators : Text := ",[]\x7b\x7d".toList

def plainStart (inFlow : Bool) : Text → Bool
  | [] => false
  | [first] => first ≠ ' ' && first ∉ indicators
  | first :: second :: _ =>
      first ≠ ' ' && (first ∉ indicators || first ∈ "-?:".toList && second ≠ ' ' && !(inFlow && second ∈ flowIndicators))

structure PlainSafe (inFlow : Bool) (value : Text) : Prop where
  start : plainStart inFlow value = true
  last : ∀ char ∈ value.getLast?, char ≠ ' ' ∧ char ≠ ':'
  noKey : contains [':', ' '] value = false
  noComment : contains [' ', '#'] value = false
  oneLine : ∀ char ∈ ['\n', '\r', '\t'], char ∉ value
  flow : inFlow = true → ∀ char ∈ flowIndicators, char ∉ value

instance (inFlow : Bool) (value : Text) : Decidable (PlainSafe inFlow value) :=
  decidable_of_iff
    (plainStart inFlow value = true ∧ (value.getLast?.all fun char => char ≠ ' ' ∧ char ≠ ':') = true ∧
      contains [':', ' '] value = false ∧ contains [' ', '#'] value = false ∧
      (['\n', '\r', '\t'].all fun char => char ∉ value) = true ∧
      (inFlow = true → (flowIndicators.all fun char => char ∉ value) = true))
    ⟨fun ⟨start, last, noKey, noComment, oneLine, flow⟩ =>
        ⟨start, by simpa [Option.all_eq_true] using last, noKey, noComment, by simpa using oneLine, by simpa using flow⟩,
      fun ⟨start, last, noKey, noComment, oneLine, flow⟩ =>
        ⟨start, by simpa [Option.all_eq_true] using last, noKey, noComment, by simpa using oneLine, by simpa using flow⟩⟩

def Valid (inFlow : Bool) (scalar : Scalar) : Prop :=
  match scalar.quoting with
  | .plain => PlainSafe inFlow scalar.value
  | .single => '\n' ∉ scalar.value ∧ '\r' ∉ scalar.value
  | .double => True

instance (inFlow : Bool) (scalar : Scalar) : Decidable (scalar.Valid inFlow) :=
  match scalar with
  | ⟨value, .plain⟩ => inferInstanceAs (Decidable (PlainSafe inFlow value))
  | ⟨value, .single⟩ => inferInstanceAs (Decidable ('\n' ∉ value ∧ '\r' ∉ value))
  | ⟨_, .double⟩ => isTrue trivial

end Scalar

inductive ScalarKey where
  | image
  | containerName
  | workingDir
  | memLimit
  deriving DecidableEq, Repr

inductive TableKey where
  | environment
  | labels
  deriving DecidableEq, Repr

inductive ListKey where
  | ports
  | volumes
  | dependsOn
  deriving DecidableEq, Repr

def ScalarKey.key : ScalarKey → ServiceKey
  | .image => .image
  | .containerName => .containerName
  | .workingDir => .workingDir
  | .memLimit => .memLimit

def TableKey.key : TableKey → ServiceKey
  | .environment => .environment
  | .labels => .labels

def ListKey.key : ListKey → ServiceKey
  | .ports => .ports
  | .volumes => .volumes
  | .dependsOn => .dependsOn

inductive ListStyle where
  | block (indented : Bool)
  | flow
  deriving DecidableEq, Repr

inductive MapStyle where
  | block
  | flow
  deriving DecidableEq, Repr

/-- `build: context`, or a map with a `context` -/
inductive BuildStyle where
  | short
  | map (style : MapStyle)
  deriving DecidableEq, Repr

structure Assignment where
  key : Text
  value : Text
  quoting : Quoting
  deriving DecidableEq, Repr

def Assignment.scalar (row : Assignment) : Scalar := ⟨row.key ++ '=' :: row.value, row.quoting⟩

inductive Entry where
  | scalar (key : ScalarKey) (value : Scalar)
  | shell (line : Scalar)
  | command (items : List Scalar) (style : ListStyle)
  | build (context : Scalar) (style : BuildStyle)
  | table (key : TableKey) (rows : List (Scalar × Scalar)) (style : MapStyle)
  | assignments (key : TableKey) (rows : List Assignment) (style : ListStyle)
  | list (key : ListKey) (items : List Scalar) (style : ListStyle)

structure SpelledService where
  name : Scalar
  entries : List Entry
  style : MapStyle

structure ComposeFile where
  services : List SpelledService
  style : MapStyle

variable {Link : Type}

def ScalarKey.set (key : ScalarKey) (value : Text) (service : ComposeService Link) : ComposeService Link :=
  match key with
  | .image => { service with image := value }
  | .containerName => { service with containerName := value }
  | .workingDir => { service with workingDir := value }
  | .memLimit => { service with memLimit := value }

def TableKey.putAll (key : TableKey) (rows : List (Text × Text)) (service : ComposeService Link) : ComposeService Link :=
  match key with
  | .environment => { service with environment := rows.foldl put service.environment }
  | .labels => { service with labels := rows.foldl put service.labels }

def ListKey.addAll (key : ListKey) (items : List Text) (service : ComposeService Link) : ComposeService Link :=
  match key with
  | .ports => { service with ports := service.ports ++ items }
  | .volumes => { service with volumes := service.volumes ++ items }
  | .dependsOn => { service with dependsOn := service.dependsOn ++ items }

/-- What a key says of its service. A command that is one line is run by a shell. -/
def Entry.describe (entry : Entry) (service : ComposeService Link) : ComposeService Link :=
  match entry with
  | .scalar key value => key.set value.value service
  | .shell line => { service with command := if isBlank line.value then [] else shellCommand line.value }
  | .command items _ => { service with command := items.map Scalar.value }
  | .build context _ => { service with buildContext := some context.value }
  | .table key rows _ => key.putAll (rows.map fun row => (row.1.value, row.2.value)) service
  | .assignments key rows _ => key.putAll (rows.map fun row => (row.key, row.value)) service
  | .list key items _ => key.addAll (items.map Scalar.value) service

def SpelledService.described (service : SpelledService) (links : List Link) : ComposeService Link :=
  service.entries.foldl (fun described entry => entry.describe described) (.new service.name.value links)

def indented (indent : Nat) (text : Text) : Text := List.replicate indent ' ' ++ text

def flowList (items : List Text) : Text := '[' :: [',', ' '].intercalate items ++ [']']

def flowMap (rows : List (Text × Text)) : Text :=
  '{' :: [',', ' '].intercalate (rows.map fun row => row.1 ++ ':' :: ' ' :: row.2) ++ ['}']

def keyLine (key : ServiceKey) (value : Text) : Text :=
  indented 4 (key.text.toList ++ ':' :: if value = [] then [] else ' ' :: value)

def itemLine (style : Bool) (item : Text) : Text := indented (if style then 6 else 4) ('-' :: ' ' :: item)

def listLines (key : ServiceKey) (items : List Scalar) : ListStyle → List Text
  | .block style => keyLine key [] :: items.map fun item => itemLine style item.text
  | .flow => [keyLine key (flowList (items.map Scalar.text))]

def mapLines (key : ServiceKey) (rows : List (Text × Text)) : MapStyle → List Text
  | .block => keyLine key [] :: rows.map fun row => indented 6 (row.1 ++ ':' :: ' ' :: row.2)
  | .flow => [keyLine key (flowMap rows)]

def contextRow (context : Scalar) : Text × Text := ("context".toList, context.text)

def tableRows (rows : List (Scalar × Scalar)) : List (Text × Text) := rows.map fun row => (row.1.text, row.2.text)

def Entry.lines : Entry → List Text
  | .scalar key value => [keyLine key.key value.text]
  | .shell line => [keyLine .command line.text]
  | .command items style => listLines .command items style
  | .build context .short => [keyLine .build context.text]
  | .build context (.map style) => mapLines .build [contextRow context] style
  | .table key rows style => mapLines key.key (tableRows rows) style
  | .assignments key rows style => listLines key.key (rows.map Assignment.scalar) style
  | .list key items style => listLines key.key items style

def Entry.flowRow : Entry → Text × Text
  | .scalar key value => (key.key.text.toList, value.text)
  | .shell line => (ServiceKey.command.text.toList, line.text)
  | .command items _ => (ServiceKey.command.text.toList, flowList (items.map Scalar.text))
  | .build context .short => (ServiceKey.build.text.toList, context.text)
  | .build context (.map _) => (ServiceKey.build.text.toList, flowMap [contextRow context])
  | .table key rows _ => (key.key.text.toList, flowMap (tableRows rows))
  | .assignments key rows _ => (key.key.text.toList, flowList (rows.map fun row => row.scalar.text))
  | .list key items _ => (key.key.text.toList, flowList (items.map Scalar.text))

def SpelledService.flowRow (service : SpelledService) : Text × Text :=
  (service.name.text, flowMap (service.entries.map Entry.flowRow))

def SpelledService.lines (service : SpelledService) : List Text :=
  match service.style with
  | .block => indented 2 (service.name.text ++ [':']) :: service.entries.flatMap Entry.lines
  | .flow => [indented 2 (service.flowRow.1 ++ ':' :: ' ' :: service.flowRow.2)]

def ComposeFile.lines (file : ComposeFile) : List Text :=
  match file.style with
  | .block => "services:".toList :: file.services.flatMap SpelledService.lines
  | .flow => ["services: ".toList ++ flowMap (file.services.map SpelledService.flowRow)]

inductive Commented : List Text → List Text → Prop where
  | nil : Commented [] []
  | line {line : Text} {lines raws : List Text} : Commented lines raws → Commented (line :: lines) (line :: raws)
  | after {line : Text} {lines raws : List Text} (comment : Text) :
      Commented lines raws → Commented (line :: lines) ((line ++ ' ' :: '#' :: comment) :: raws)
  | between {lines raws : List Text} (indent : Nat) (comment : Text) :
      Commented lines raws → Commented lines (indented indent ('#' :: comment) :: raws)
  | blank {lines raws : List Text} (indent : Nat) :
      Commented lines raws → Commented lines (List.replicate indent ' ' :: raws)

def Entry.Valid (inFlow : Bool) : Entry → Prop
  | .scalar _ value => value.Valid inFlow
  | .shell line => line.Valid inFlow
  | .command items style => (style ≠ .flow → items ≠ []) ∧ ∀ item ∈ items, item.Valid (inFlow || style = .flow)
  | .build context style => context.Valid (inFlow || style = .map .flow)
  | .table _ rows style =>
      (style ≠ .flow → rows ≠ []) ∧ (rows.map fun row => row.1.value).Nodup ∧
        ∀ row ∈ rows, row.1.Valid (inFlow || style = .flow) ∧ row.2.Valid (inFlow || style = .flow)
  | .assignments _ rows style =>
      (style ≠ .flow → rows ≠ []) ∧ (rows.map Assignment.key).Nodup ∧
        ∀ row ∈ rows, '=' ∉ row.key ∧ row.scalar.Valid (inFlow || style = .flow)
  | .list _ items style => (style ≠ .flow → items ≠ []) ∧ ∀ item ∈ items, item.Valid (inFlow || style = .flow)

instance (inFlow : Bool) (entry : Entry) : Decidable (entry.Valid inFlow) :=
  match entry with
  | .scalar _ value => inferInstanceAs (Decidable (value.Valid inFlow))
  | .shell line => inferInstanceAs (Decidable (line.Valid inFlow))
  | .command .. => inferInstanceAs (Decidable (_ ∧ _))
  | .build context style => inferInstanceAs (Decidable (context.Valid (inFlow || style = .map .flow)))
  | .table .. => inferInstanceAs (Decidable (_ ∧ _))
  | .assignments .. => inferInstanceAs (Decidable (_ ∧ _))
  | .list .. => inferInstanceAs (Decidable (_ ∧ _))

def Entry.key : Entry → ServiceKey
  | .scalar key _ => key.key
  | .shell _ | .command .. => .command
  | .build .. => .build
  | .table key .. | .assignments key .. => key.key
  | .list key .. => key.key

def SpelledService.Valid (inFlow : Bool) (service : SpelledService) : Prop :=
  service.name.Valid inFlow ∧ (service.entries.map Entry.key).Nodup ∧
    ∀ entry ∈ service.entries, entry.Valid (inFlow || service.style = .flow)

instance (inFlow : Bool) (service : SpelledService) : Decidable (service.Valid inFlow) :=
  inferInstanceAs (Decidable (_ ∧ _))

def ComposeFile.Valid (file : ComposeFile) : Prop :=
  (file.services.map fun service => service.name.value).Nodup ∧
    ∀ service ∈ file.services, service.Valid (file.style = .flow)

instance (file : ComposeFile) : Decidable file.Valid := inferInstanceAs (Decidable (_ ∧ _))

end PDocker.Compose
