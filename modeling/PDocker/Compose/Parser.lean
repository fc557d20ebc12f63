import PDocker.Context.DockerIgnore

/-!
# The Compose parser

`parseComposeServices` reads a Compose file line by line. A line is cut at its first `#`, its
indentation says what it belongs to, and its key what it sets. The variables, the JSON library and
the links in the comments at the top of the file are parameters.
-/

set_option autoImplicit false

namespace PDocker.Compose

open Data
open Context (isBlank isKotlinSpace kotlinTrim)

structure ComposeService (Link : Type) where
  name : Text
  image : Text
  containerName : Text
  buildContext : Option Text
  workingDir : Text
  command : List Text
  environment : List (Text × Text)
  labels : List (Text × Text)
  ports : List Text
  volumes : List Text
  dependsOn : List Text
  memLimit : Text
  memSwapLimit : Text
  deployMemoryLimit : Text
  gpus : Text
  hasHealthcheck : Bool
  serviceLinks : List Link

def ComposeService.new {Link : Type} (name : Text) (serviceLinks : List Link) : ComposeService Link where
  name
  image := []
  containerName := []
  buildContext := none
  workingDir := []
  command := []
  environment := []
  labels := []
  ports := []
  volumes := []
  dependsOn := []
  memLimit := []
  memSwapLimit := []
  deployMemoryLimit := []
  gpus := []
  hasHealthcheck := false
  serviceLinks

def trimEnd (text : Text) : Text := text.rdropWhile isKotlinSpace

/-- `substringAfter(char, missing)` -/
def afterFirst (char : Char) (text missing : Text) : Text :=
  if char ∈ text then (text.dropWhile (· ≠ char)).tail else missing

def isQuote (char : Char) : Bool := char = '"' || char = '\''

/-- `trim('"', '\'')` -/
def trimQuotes (text : Text) : Text := (text.dropWhile isQuote).rdropWhile isQuote

/-- `removePrefix("-")` -/
def removeDash : Text → Text
  | '-' :: rest => rest
  | text => text

def bracketed (first last : Char) (text : Text) : Bool := text.head? = some first && text.getLast? = some last

/-- `map[key] = value` for a map that keeps the order of its keys -/
def put (rows : List (Text × Text)) (row : Text × Text) : List (Text × Text) :=
  if rows.any (·.1 = row.1) then rows.map fun old => if old.1 = row.1 then row else old else rows ++ [row]

abbrev Variables := Text → Option Text

def isNameStart (char : Char) : Bool := ('A' ≤ char && char ≤ 'Z') || ('a' ≤ char && char ≤ 'z') || char = '_'

def isNameChar (char : Char) : Bool := isNameStart char || ('0' ≤ char && char ≤ '9')

/-- `[A-Za-z_][A-Za-z0-9_]*` at the start of a text, with what follows -/
def variableName : Text → Option (Text × Text)
  | [] => none
  | char :: rest =>
      if isNameStart char then some (char :: rest.takeWhile isNameChar, rest.dropWhile isNameChar) else none

/-- `${name-default}` with the given separator, with what follows -/
def bracedDefault (separator : Text) : Text → Option ((Text × Text) × Text)
  | '$' :: '{' :: body => do
      let (name, rest) ← variableName body
      guard (separator.isPrefixOf rest)
      let inner := rest.drop separator.length
      guard ('}' ∈ inner)
      return ((name, inner.takeWhile (· ≠ '}')), (inner.dropWhile (· ≠ '}')).tail)
  | _ => none

/-- `${name}`, with what follows -/
def braced : Text → Option (Text × Text)
  | '$' :: '{' :: body => do
      let (name, rest) ← variableName body
      guard (rest.head? = some '}')
      return (name, rest.tail)
  | _ => none

/-- `$name`, with what follows -/
def unbraced : Text → Option (Text × Text)
  | '$' :: body => variableName body
  | _ => none

/-- `Regex.replace`, given what replaces a match at the start of a text and what follows it. The fuel
is the length of the text. -/
def replaceMatches (replacement : Text → Option (Text × Text)) : Nat → Text → Text
  | 0, text => text
  | _ + 1, [] => []
  | fuel + 1, char :: rest =>
      match replacement (char :: rest) with
      | some (new, rest') => new ++ replaceMatches replacement fuel rest'
      | none => char :: replaceMatches replacement fuel rest

def replaceAll (replacement : Text → Option (Text × Text)) (text : Text) : Text :=
  replaceMatches replacement text.length text

/-- The four replacements in `composeValue` -/
def replaceVariables (out : Text) (env : Variables) : Text :=
  let out := replaceAll (fun text => (bracedDefault [':', '-'] text).map fun found =>
    ((((env found.1.1).filter fun value => value ≠ []).getD found.1.2), found.2)) out
  let out := replaceAll (fun text => (bracedDefault ['-'] text).map fun found =>
    ((env found.1.1).getD found.1.2, found.2)) out
  let out := replaceAll (fun text => (braced text).map fun found => ((env found.1).getD [], found.2)) out
  replaceAll (fun text => (unbraced text).map fun found => ((env found.1).getD [], found.2)) out

def composeValue (value : Text) (env : Variables) : Text := replaceVariables (trimQuotes (kotlinTrim value)) env

/-- What `JSONArray` and `JSONObject` make of a text, `none` when they throw. An element that is
missing has no string. -/
structure Json where
  array : Text → Option (List (Option Text))
  object : Text → Option (List (Text × Text))

def parseComposeMapOrList (line : Text) (env : Variables) : Option (Text × Text) :=
  let item := kotlinTrim (removeDash line)
  if '=' ∈ item then some (firstPart '=' item, composeValue (afterFirst '=' item item) env)
  else if ':' ∈ item then
    some (kotlinTrim (firstPart ':' item), composeValue (kotlinTrim (afterFirst ':' item item)) env)
  else none

def parseComposeListValue (line : Text) (env : Variables) : Option Text :=
  if (line.dropWhile isKotlinSpace).head? = some '-' then
    some (composeValue (kotlinTrim (removeDash (kotlinTrim line))) env)
  else none

def composeInlineMapOrList (json : Json) (value : Text) (env : Variables) : List (Text × Text) :=
  let cleaned := composeValue value env
  if isBlank cleaned then []
  else if bracketed '[' ']' cleaned then
    match json.array cleaned with
    | none => []
    | some items =>
        (items.filterMap fun item => parseComposeMapOrList ('-' :: ' ' :: item.getD []) env).foldl put []
  else if bracketed '{' '}' cleaned then (json.object cleaned).getD []
  else (parseComposeMapOrList cleaned env).toList

/-- `split(',').map { composeValue(it, env) }.filter { it.isNotBlank() }` -/
def splitValues (text : Text) (env : Variables) : List Text :=
  ((splitParts ',' text).map fun part => composeValue part env).filter fun part => !isBlank part

def composeStringList (json : Json) (value : Text) (env : Variables) : List Text :=
  let cleaned := composeValue value env
  if bracketed '[' ']' cleaned then
    match json.array cleaned with
    | some items => (items.map (·.getD [])).filter fun item => !isBlank item
    | none => splitValues ((cleaned.dropWhile fun char => char = '[' || char = ']').rdropWhile
        fun char => char = '[' || char = ']') env
  else splitValues cleaned env

/-- `/bin/sh -lc` -/
def shellCommand (line : Text) : List Text :=
  [['/', 'b', 'i', 'n', '/', 's', 'h'], ['-', 'l', 'c'], line]

def composeCommand (json : Json) (value : Text) (env : Variables) : List Text :=
  let cleaned := composeValue value env
  if bracketed '[' ']' cleaned then ((json.array cleaned).bind (·.mapM id)).getD []
  else if isBlank cleaned then [] else shellCommand cleaned

inductive ServiceKey where
  | image
  | containerName
  | workingDir
  | command
  | gpus
  | memLimit
  | memSwapLimit
  | build
  | dependsOn
  | labels
  | healthcheck
  | environment
  | ports
  | volumes
  | deploy
  deriving DecidableEq, Repr

def ServiceKey.text : ServiceKey → String
  | .image => "image"
  | .containerName => "container_name"
  | .workingDir => "working_dir"
  | .command => "command"
  | .gpus => "gpus"
  | .memLimit => "mem_limit"
  | .memSwapLimit => "memswap_limit"
  | .build => "build"
  | .dependsOn => "depends_on"
  | .labels => "labels"
  | .healthcheck => "healthcheck"
  | .environment => "environment"
  | .ports => "ports"
  | .volumes => "volumes"
  | .deploy => "deploy"

def ServiceKey.all : List ServiceKey :=
  [.image, .containerName, .workingDir, .command, .gpus, .memLimit, .memSwapLimit, .build, .dependsOn, .labels,
    .healthcheck, .environment, .ports, .volumes, .deploy]

def ServiceKey.ofText (text : Text) : Option ServiceKey := ServiceKey.all.find? fun key => key.text.toList = text

structure Scan (Link : Type) where
  closed : List (ComposeService Link)
  current : Option (ComposeService Link)
  inServices : Bool
  blockKey : Option ServiceKey
  inResources : Bool
  inLimits : Bool

variable {Link : Type}

def Scan.start : Scan Link where
  closed := []
  current := none
  inServices := false
  blockKey := none
  inResources := false
  inLimits := false

def Scan.services (scan : Scan Link) : List (ComposeService Link) := scan.closed ++ scan.current.toList

/-- `trimmed.substringAfter(':', "").trim()` -/
def lineValue (trimmed : Text) : Text := kotlinTrim (afterFirst ':' trimmed [])

def setKey (json : Json) (env : Variables) (key : ServiceKey) (value : Text) (service : ComposeService Link) :
    ComposeService Link :=
  match key with
  | .image => { service with image := composeValue value env }
  | .containerName => { service with containerName := composeValue value env }
  | .workingDir => { service with workingDir := composeValue value env }
  | .command => { service with command := composeCommand json value env }
  | .gpus => { service with gpus := composeValue value env }
  | .memLimit => { service with memLimit := composeValue value env }
  | .memSwapLimit => { service with memSwapLimit := composeValue value env }
  | .build => if isBlank value then service else { service with buildContext := some (composeValue value env) }
  | .dependsOn =>
      if isBlank value then service
      else { service with dependsOn := service.dependsOn ++ composeStringList json value env }
  | .labels =>
      if isBlank value then service
      else { service with labels := (composeInlineMapOrList json value env).foldl put service.labels }
  | .healthcheck => { service with hasHealthcheck := true }
  | .environment | .ports | .volumes | .deploy => service

/-- A line of the block of a key, at an indentation of six or more; a limit is read from the line
when the block is `deploy` and has come to `resources` and `limits`. -/
def setBlock (env : Variables) (key : ServiceKey) (limits : Bool) (trimmed : Text) (service : ComposeService Link) :
    ComposeService Link :=
  match key with
  | .build =>
      if firstPart ':' trimmed = "context".toList then
        { service with buildContext := some (composeValue (lineValue trimmed) env) }
      else service
  | .environment => { service with environment := (parseComposeMapOrList trimmed env).toList.foldl put service.environment }
  | .labels => { service with labels := (parseComposeMapOrList trimmed env).toList.foldl put service.labels }
  | .ports => { service with ports := service.ports ++ (parseComposeListValue trimmed env).toList }
  | .volumes => { service with volumes := service.volumes ++ (parseComposeListValue trimmed env).toList }
  | .dependsOn =>
      { service with
        dependsOn := service.dependsOn ++ (parseComposeListValue trimmed env).toList ++
          ((parseComposeMapOrList trimmed env).map Prod.fst).toList }
  | .deploy =>
      if limits && firstPart ':' trimmed = "memory".toList then
        { service with deployMemoryLimit := composeValue (lineValue trimmed) env }
      else service
  | _ => service

def scanLine (json : Json) (env : Variables) (links : List Link) (scan : Scan Link) (indent : Nat) (trimmed : Text) :
    Scan Link :=
  let ended :=
    { scan with closed := scan.services, current := none, blockKey := none, inResources := false, inLimits := false }
  if indent = 0 then { ended with inServices := trimmed = "services:".toList }
  else if !scan.inServices then scan
  else if indent = 2 && trimmed.getLast? = some ':' then { ended with current := some (.new trimmed.dropLast links) }
  else
    match scan.current with
    | none => scan
    | some service =>
        let key := firstPart ':' trimmed
        let value := lineValue trimmed
        if indent = 4 then
          let known := ServiceKey.ofText key
          { scan with
            current := some (known.elim service fun known => setKey json env known value service)
            blockKey := if isBlank value then known else none
            inResources := scan.inResources && known = some .deploy
            inLimits := scan.inLimits && known = some .deploy }
        else if 6 ≤ indent then
          let limits := 10 ≤ indent && scan.inResources && scan.inLimits
          let after :=
            { scan with
              current := some (scan.blockKey.elim service fun known => setBlock env known limits trimmed service) }
          if scan.blockKey = some .deploy then
            if indent = 6 then
              { after with inResources := key = "resources".toList && isBlank value, inLimits := false }
            else if indent = 8 && scan.inResources then
              { after with inLimits := key = "limits".toList && isBlank value }
            else after
          else after
        else scan

def composeLine (json : Json) (env : Variables) (links : List Link) (scan : Scan Link) (raw : Text) : Scan Link :=
  let line := trimEnd (firstPart '#' raw)
  if isBlank line then scan
  else scanLine json env links scan (raw.takeWhile (· = ' ')).length (kotlinTrim line)

/-- `parseComposeServices`, given the lines of the file unless there is none -/
def parseComposeServices (json : Json) (env : Variables) (headerServiceLinks : List Text → List Link)
    (file : Option (List Text)) : List (ComposeService Link) :=
  match file with
  | none => []
  | some lines => (lines.foldl (composeLine json env (headerServiceLinks lines)) .start).services

end PDocker.Compose
