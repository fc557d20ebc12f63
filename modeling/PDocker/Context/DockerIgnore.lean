import Mathlib.Data.List.Sort
import PDocker.Data.Glob

/-!
# `.dockerignore`

A build context is filtered twice: the application leaves out what the file
excludes when it packs the context, and the daemon removes what it excludes from
the context it has unpacked. Both read the lines in order and the last line that
matches a path decides about it, but they do not match alike. The order of the
entries in the archive and the attributes of files are left out.
-/

set_option autoImplicit false

namespace PDocker.Context

open Data

def ContextName : Type :=
  { name : Text // name ≠ [] ∧ name ≠ ['.'] ∧ '/' ∉ name ∧ '\\' ∉ name }

instance : DecidableEq ContextName := inferInstanceAs (DecidableEq (Subtype _))

inductive Node where
  | file (text : Text)
  | symlink (target : Text)
  | dir (children : List (ContextName × Node))

inductive EntryKind where
  | file (text : Text)
  | symlink (target : Text)
  | dir
  deriving DecidableEq

structure Entry where
  path : List ContextName
  kind : EntryKind
  deriving DecidableEq

mutual

def Node.entries (path : List ContextName) : Node → List Entry
  | .file text => [⟨path, .file text⟩]
  | .symlink target => [⟨path, .symlink target⟩]
  | .dir children => ⟨path, .dir⟩ :: childEntries path children

def childEntries (path : List ContextName) : List (ContextName × Node) → List Entry
  | [] => []
  | (name, node) :: rest => node.entries (path ++ [name]) ++ childEntries path rest

end

/-- `.dockerignore` -/
def ignoreName : ContextName :=
  ⟨['.', 'd', 'o', 'c', 'k', 'e', 'r', 'i', 'g', 'n', 'o', 'r', 'e'], by decide⟩

/-- A directory, whose `.dockerignore` is a file if there is one. -/
structure BuildContext where
  ignoreText : Option Text
  others : List (ContextName × Node)
  once : ∀ child ∈ others, child.1 ≠ ignoreName

def BuildContext.children (context : BuildContext) : List (ContextName × Node) :=
  (context.ignoreText.map fun text => (ignoreName, .file text)).toList ++ context.others

def BuildContext.entries (context : BuildContext) : List Entry := childEntries [] context.children

/-- `"/".join(path)` -/
def relText (path : List ContextName) : Text := ['/'].intercalate (path.map (·.val))

structure IgnoreRule where
  pattern : Text
  directoryOnly : Bool
  basenameOnly : Bool
  negated : Bool
  deriving DecidableEq

def ignored (applies : IgnoreRule → Bool) (rules : List IgnoreRule) : Bool :=
  rules.foldl (fun excluded rule => if applies rule then !rule.negated else excluded) false

def universalNewlines : Text → Text
  | '\r' :: '\n' :: rest => '\n' :: universalNewlines rest
  | '\r' :: rest => '\n' :: universalNewlines rest
  | char :: rest => char :: universalNewlines rest
  | [] => []

/-- The lines of a file, and an empty one behind the last line end, which both
sides skip. -/
def readLines (text : Text) : List Text := splitParts '\n' (universalNewlines text)

/-- `replace('\\', '/')` -/
def forwardSlashes (text : Text) : Text := text.map fun char => if char = '\\' then '/' else char

def trimStartSlashes (text : Text) : Text := text.dropWhile (· = '/')
def trimEndSlashes (text : Text) : Text := text.rdropWhile (· = '/')
def trimSlashes (text : Text) : Text := trimEndSlashes (trimStartSlashes text)

/-- `Char.isWhitespace` -/
def isKotlinSpace (char : Char) : Bool := isPythonSpace char && char.toNat != 133

/-- `trim()` -/
def kotlinTrim (text : Text) : Text := (text.dropWhile isKotlinSpace).rdropWhile isKotlinSpace

def isBlank (text : Text) : Bool := text.all isKotlinSpace

/-- One line in `DockerIgnore.load` -/
def DockerIgnore.loadLine (line : Text) : Option IgnoreRule :=
  let raw := kotlinTrim line
  if isBlank raw || raw.head? = some '#' then none
  else
    let negated := raw.head? = some '!'
    let body := trimStartSlashes (kotlinTrim (if negated then raw.drop 1 else raw))
    if isBlank body then none
    else
      let pattern := forwardSlashes (trimEndSlashes body)
      some {
        pattern
        directoryOnly := body.getLast? = some '/'
        basenameOnly := '/' ∉ pattern
        negated }

def DockerIgnore.load (text : Option Text) : List IgnoreRule :=
  (text.elim [] readLines).filterMap DockerIgnore.loadLine

/-- An item of the regular expression of `glob`, where brackets are escaped -/
def DockerIgnore.globItem (char : Char) : GlobItem :=
  if char = '*' then .many (· ≠ '/') else if char = '?' then .one (· ≠ '/') else .one (· = char)

def DockerIgnore.glob (pattern value : Text) : Bool := Glob.accepts (pattern.map globItem) value

def DockerIgnore.matchesRule (rule : IgnoreRule) (rel : Text) (isDir : Bool) : Bool :=
  let below := (rule.pattern ++ ['/']).isPrefixOf rel
  if rule.directoryOnly && !isDir && !below then false
  else
    let target := if rule.basenameOnly then lastPart '/' rel else rel
    glob rule.pattern target || (!rule.basenameOnly && below)

def DockerIgnore.excludes (rules : List IgnoreRule) (rel : Text) (isDir : Bool) : Bool :=
  let normalized := forwardSlashes (trimSlashes rel)
  !normalized.isEmpty && ignored (fun rule => matchesRule rule normalized isDir) rules

/-- The two tests with which `addTarPath` leaves a path out -/
def leftOut (rules : List IgnoreRule) (path : List ContextName) (isDir : Bool) : Bool :=
  let rel := forwardSlashes (relText path)
  isBlank rel || DockerIgnore.excludes rules rel isDir

mutual

def addTarPath (rules : List IgnoreRule) (path : List ContextName) : Node → List Entry
  | .file text => if leftOut rules path false then [] else [⟨path, .file text⟩]
  | .symlink target => if leftOut rules path false then [] else [⟨path, .symlink target⟩]
  | .dir children =>
      if leftOut rules path true then [] else ⟨path, .dir⟩ :: addTarPaths rules path children

def addTarPaths (rules : List IgnoreRule) (path : List ContextName) :
    List (ContextName × Node) → List Entry
  | [] => []
  | (name, node) :: rest => addTarPath rules (path ++ [name]) node ++ addTarPaths rules path rest

end

/-- What `createTar` packs. -/
def createTar (context : BuildContext) : List Entry :=
  addTarPaths (DockerIgnore.load context.ignoreText) [] context.children

/-- One line in `_dockerignore_rules`. The slashes are gone before the last one
is looked for. -/
def dockerignoreRule (raw : Text) : Option IgnoreRule :=
  let line := stripSpace raw
  if line.isEmpty || line.head? = some '#' then none
  else
    let negated := line.head? = some '!'
    let line := if negated then stripSpace (line.drop 1) else line
    let line := trimSlashes (forwardSlashes line)
    if line.isEmpty || line = ['.'] then none
    else
      let pattern := trimEndSlashes line
      some {
        pattern
        directoryOnly := line.getLast? = some '/'
        basenameOnly := '/' ∉ pattern
        negated }

/-- `_dockerignore_rules`, with the text of the file if there is one -/
def dockerignoreRules (text : Option Text) : List IgnoreRule :=
  (text.elim [] readLines).filterMap dockerignoreRule

def dockerignoreRuleMatches (rule : IgnoreRule) (rel : Text) (isDir : Bool) : Bool :=
  let pattern := rule.pattern
  let rel := trimSlashes rel
  let below := (pattern ++ ['/']).isPrefixOf rel
  let anyPart := (splitParts '/' rel).any (fnmatchcase · pattern)
  let whole := fnmatchcase rel pattern || fnmatchcase rel (pattern ++ ['/', '*'])
  if rel.isEmpty then false
  else if rule.directoryOnly then
    if !isDir && !below then false
    else if rule.basenameOnly then anyPart
    else rel = pattern || below || whole
  else if rule.basenameOnly then anyPart
  else whole

def dockerignoreExcluded (rules : List IgnoreRule) (rel : Text) (isDir : Bool) : Bool :=
  ignored (fun rule => dockerignoreRuleMatches rule rel isDir) rules

/-- The text of `.dockerignore` in an unpacked context -/
def unpackedIgnore (entries : List Entry) : Option Text :=
  entries.findSome? fun entry =>
    match entry.path, entry.kind with
    | [name], .file text => if name = ignoreName then some text else none
    | _, _ => none

def removeTree (entries : List Entry) (path : List ContextName) : List Entry :=
  entries.filter fun entry => !path.isPrefixOf entry.path

/-- `apply_dockerignore` on an unpacked context. The walk reaches every entry
before the first one is removed. -/
def applyDockerignore (entries : List Entry) : List Entry :=
  let rules := dockerignoreRules (unpackedIgnore entries)
  let doomed := (entries.filter fun entry =>
    dockerignoreExcluded rules (relText entry.path) (entry.kind = .dir)).map (·.path)
  (doomed.insertionSort fun left right => right.length ≤ left.length).foldl removeTree entries

end PDocker.Context
