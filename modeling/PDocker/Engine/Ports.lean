import PDocker.Data.Json
import PDocker.Data.Table
import PDocker.Engine.RequestBody
import Mathlib.Data.Char

/-!
# Published ports

The ports of a container are planned when it is created: what they are bound to on the host, and one
rewrite for each port. Claims on host ports are taken from the rewrites, and from the bindings only
where there is no rewrite.
-/

set_option autoImplicit false

namespace PDocker.Engine

open Data

/-- `int(text)` -/
def intOf (text : Text) : Option Int := parseInt 10 (stripSpace text)

def splitPortProto (key : Text) : Option (Int × Text) :=
  let port := key.takeWhile (· ≠ '/')
  let proto := (key.dropWhile (· ≠ '/')).drop 1
  (intOf port).map fun port => (port, if proto = [] then "tcp".toList else proto)

structure PortName where
  port : Int
  protocol : Text
  some_port : port ≠ 0
  some_protocol : protocol ≠ []
deriving DecidableEq

/-- What a key of a configuration names, if it is to be looked at; its protocol is never empty. -/
def PortName.ofKey (key : Text) : Option PortName :=
  match splitPortProto key with
  | none => none
  | some (port, protocol) => if named : port ≠ 0 ∧ protocol ≠ [] then some ⟨port, protocol, named.1, named.2⟩ else none

def PortName.key (name : PortName) : Text := Json.integer name.port ++ '/' :: name.protocol

/-! ## The plan -/

/-- What `int()` is given for a host port. -/
inductive PortValue where
  | absent
  | number (n : Int)
  | text (digits : Text)
deriving DecidableEq

def PortValue.int : PortValue → Option Int
  | .absent => none
  | .number n => some n
  | .text digits => intOf digits

def safeHostPort (value : PortValue) (fallback : Nat) : Nat :=
  match value.int with
  | none => fallback
  | some n => if 0 < n ∧ n ≤ 65535 then n.toNat else fallback

structure PortBinding where
  hostIp : Text := []
  hostPort : PortValue := .absent
deriving DecidableEq

/-- An item of the `Ports` map. -/
structure PortEntry where
  hostIp : Text
  hostPort : Text
deriving DecidableEq

/-- `ExposedPorts` of the configuration and of the image, `PortBindings` and `PublishAllPorts`. -/
structure PortConfig where
  exposed : List Text := []
  imageExposed : List Text := []
  bindings : Table Text (List PortBinding) := ∅
  publishAll : Bool := false

structure PortRewrite where
  containerPort : Int
  protocol : Text
  hostIp : Text
  hostPort : Nat
deriving DecidableEq

def localhost : Text := "127.0.0.1".toList

section
-- The first eight digits of a SHA-256 hash.
variable (digest : Text → Nat)

def stableRewritePort (cid : Text) (name : PortName) : Nat :=
  20000 + digest (cid ++ ':' :: name.key) % 40000

def PortConfig.requested (config : PortConfig) (key : Text) (name : PortName) : List PortBinding :=
  let standard := (config.bindings.lookup name.key).getD []
  if standard = [] then (config.bindings.lookup key).getD [] else standard

def portEntries (cid : Text) (config : PortConfig) (key : Text) (name : PortName) : List PortEntry :=
  let requested := config.requested key name
  if requested ≠ [] then
    requested.map fun item =>
      { hostIp := if item.hostIp = [] then localhost else item.hostIp
        hostPort := Json.integer (safeHostPort item.hostPort (stableRewritePort digest cid name)) }
  else if config.publishAll then [⟨localhost, Json.integer (stableRewritePort digest cid name)⟩]
  else []

def PortConfig.keys (config : PortConfig) : List Text :=
  (config.imageExposed ++ config.exposed ++ config.bindings.keys).dedup.insertionSort (· ≤ ·)

structure PlannedPort where
  name : PortName
  entries : List PortEntry
deriving DecidableEq

def plannedPorts (cid : Text) (config : PortConfig) : List PlannedPort :=
  config.keys.filterMap fun key =>
    (PortName.ofKey key).map fun name => ⟨name, portEntries digest cid config key name⟩

def PlannedPort.first (cid : Text) (planned : PlannedPort) : PortEntry :=
  planned.entries.headD ⟨localhost, Json.integer (stableRewritePort digest cid planned.name)⟩

def PlannedPort.rewrite (cid : Text) (planned : PlannedPort) : PortRewrite where
  containerPort := planned.name.port
  protocol := planned.name.protocol
  hostIp := (planned.first digest cid).hostIp
  hostPort := safeHostPort (.text (planned.first digest cid).hostPort) (stableRewritePort digest cid planned.name)

abbrev PortsMap := Table Text (Option (List PortEntry))

/-- `_network_port_plan`: one loop fills the map and the list. -/
def networkPortPlan (cid : Text) (config : PortConfig) : PortsMap × List PortRewrite :=
  let planned := plannedPorts digest cid config
  (planned.foldl (fun ports port => ports.insert port.name.key (if port.entries = [] then none else some port.entries)) ∅,
    planned.map (PlannedPort.rewrite digest cid))

end

structure PortState where
  id : Text
  name : Text
  ports : PortsMap
  rewrite : List PortRewrite
  running : Bool

structure PortClaim where
  containerId : Text
  containerName : Text
  containerPort : Int
  protocol : Text
  hostIp : Text
  hostPort : Int
deriving DecidableEq

def orDefault (default text : Text) : Text := if text = [] then default else text

def PortState.claimOfRewrite (state : PortState) (item : PortRewrite) : Option PortClaim :=
  if (item.hostPort : Int) ≤ 0 ∨ item.containerPort ≤ 0 then none
  else some
    { containerId := state.id
      containerName := state.name.dropWhile (· = '/')
      containerPort := item.containerPort
      protocol := orDefault "tcp".toList item.protocol
      hostIp := orDefault localhost item.hostIp
      hostPort := item.hostPort }

def PortState.claimOfEntry (state : PortState) (name : PortName) (entry : PortEntry) : Option PortClaim :=
  match intOf entry.hostPort with
  | none => none
  | some hostPort =>
      if hostPort ≤ 0 then none
      else some
        { containerId := state.id
          containerName := state.name.dropWhile (· = '/')
          containerPort := name.port
          protocol := name.protocol
          hostIp := orDefault localhost entry.hostIp
          hostPort := hostPort }

/-- The claims for a key of the `Ports` map. -/
def PortState.claimsUnder (state : PortState) (key : Text) (entries : Option (List PortEntry)) : List PortClaim :=
  match PortName.ofKey key, entries with
  | some name, some entries => entries.filterMap (state.claimOfEntry name)
  | _, _ => []

def portMappingClaims (state : PortState) : List PortClaim :=
  let claims := state.rewrite.filterMap state.claimOfRewrite
  if claims ≠ [] then claims
  else state.ports.entries.flatMap fun item => state.claimsUnder item.1 item.2

inductive IpAddress where
  | v4 (address : Nat)
  | v6 (address : Nat) (scope : Option Text)
deriving DecidableEq, Repr

def ipv4Octet (text : Text) : Option Nat :=
  if text = [] ∨ !text.all (isDigit 10) ∨ 3 < text.length ∨ text ≠ ['0'] ∧ text.head? = some '0' then none
  else if 255 < numeralValue 10 text then none
  else some (numeralValue 10 text)

def ipv4Address (text : Text) : Option Nat :=
  match (splitParts '.' text).mapM ipv4Octet with
  | some [a, b, c, d] => some (((a * 256 + b) * 256 + c) * 256 + d)
  | _ => none

def hextet (text : Text) : Option Nat :=
  if text = [] ∨ !text.all (isDigit 16) ∨ 4 < text.length then none else some (numeralValue 16 text)

def ipv6Parts (text : Text) : Option (List Text) :=
  let parts := splitParts ':' text
  let last := parts.getLastD []
  if parts.length < 3 then none
  else if '.' ∈ last then
    (ipv4Address last).map fun address => parts.dropLast ++ [numeral 16 (address / 65536), numeral 16 (address % 65536)]
  else some parts

def besideGap (empty : Bool) (parts : List Text) : Option (List Text) :=
  if empty then if parts.length = 1 then some [] else none else some parts

def ipv6Hextets (parts : List Text) : Option (List Text) :=
  if 9 < parts.length then none
  else
    match (List.range parts.length).filter fun i => 1 ≤ i && i + 1 < parts.length && parts[i]? == some [] with
    | [] => if parts.length = 8 then some parts else none
    | [gap] =>
        match besideGap (parts.head? == some []) (parts.take gap), besideGap (parts.getLast? == some []) (parts.drop (gap + 1)) with
        | some high, some low =>
            if high.length + low.length < 8 then some (high ++ List.replicate (8 - (high.length + low.length)) ['0'] ++ low)
            else none
        | _, _ => none
    | _ => none

def ipv6Int (text : Text) : Option Nat :=
  match (ipv6Parts text).bind ipv6Hextets with
  | none => none
  | some hextets => (hextets.mapM hextet).map fun values => values.foldl (fun address value => address * 65536 + value) 0

/-- `ipaddress.ip_address` -/
def ipAddress (text : Text) : Option IpAddress :=
  match ipv4Address text with
  | some address => some (.v4 address)
  | none =>
      let scope := (text.dropWhile (· ≠ '%')).drop 1
      if '/' ∈ text then none
      else if '%' ∉ text then (ipv6Int text).map (.v6 · none)
      else if scope = [] ∨ '%' ∈ scope then none
      else (ipv6Int (firstPart '%' text)).map (.v6 · (some scope))

def portMappingHostWildcard (host : Text) : Bool :=
  (["", "0.0.0.0", "::", "*"].map String.toList).contains (stripSpace host)

def portMappingHostsMatch (requested observed : Text) : Bool :=
  let requested := stripSpace requested
  let observed := stripSpace observed
  if portMappingHostWildcard requested || portMappingHostWildcard observed then true
  else if requested = observed then true
  else
    match ipAddress requested, ipAddress observed with
    | some first, some second => first = second
    | _, _ => false

/-- `lower()` of ASCII. -/
def lower (text : Text) : Text := text.map Char.toLower

def portMappingConflict (first second : PortClaim) : Bool :=
  if lower (orDefault "tcp".toList first.protocol) ≠ lower (orDefault "tcp".toList second.protocol) ∨
      first.hostPort ≠ second.hostPort then false
  else portMappingHostsMatch first.hostIp second.hostIp

inductive MappingState where
  | active
  | inactive
  | planned
  | conflict
deriving DecidableEq, Repr

/-- What `/proc` and the declarations of running code say about a claim: whether a process that is not
the container's listens there, and whether something serves it. -/
structure HostView where
  listenerConflicts : PortClaim → Bool
  evidence : PortClaim → Bool

structure MappingStatus where
  claim : PortClaim
  state : MappingState
  conflicts : List PortClaim

structure MappingSummary where
  active : Nat := 0
  inactive : Nat := 0
  planned : Nat := 0
  conflict : Nat := 0
deriving DecidableEq, Repr

def MappingSummary.add (counts : MappingSummary) : MappingState → MappingSummary
  | .active => { counts with active := counts.active + 1 }
  | .inactive => { counts with inactive := counts.inactive + 1 }
  | .planned => { counts with planned := counts.planned + 1 }
  | .conflict => { counts with conflict := counts.conflict + 1 }

def MappingSummary.total (counts : MappingSummary) : Nat :=
  counts.active + counts.inactive + counts.planned + counts.conflict

def mappingStatus (host : HostView) (running : Bool) (peerClaims : List PortClaim) (claim : PortClaim) : MappingStatus :=
  let conflicts := peerClaims.filter (portMappingConflict claim)
  { claim
    conflicts
    state :=
      if conflicts ≠ [] then .conflict
      else if host.listenerConflicts claim then .conflict
      else if host.evidence claim then .active
      else if running then .inactive
      else .planned }

def refreshPortMappingStatus (host : HostView) (state : PortState) (peers : List PortState) :
    List MappingStatus × MappingSummary :=
  let claims := portMappingClaims state
  if claims = [] then ([], {})
  else
    let peerClaims := (peers.filter fun peer => peer.id ≠ state.id).flatMap portMappingClaims
    let statuses := claims.map (mappingStatus host state.running peerClaims)
    (statuses, statuses.foldl (fun counts status => counts.add status.state) {})

structure PublishedPort where
  containerPort : Int
  protocol : Text
  hostIp : Text
  hostPort : Text
deriving DecidableEq

/-- The bindings under a key of the `Ports` map. -/
def publishedUnder (key : Text) (entries : Option (List PortEntry)) : List PublishedPort :=
  match splitPortProto key with
  | none => []
  | some (port, protocol) => (entries.getD []).map fun entry => ⟨port, protocol, entry.hostIp, entry.hostPort⟩

def PortState.published (state : PortState) : List PublishedPort :=
  state.ports.entries.flatMap fun item => publishedUnder item.1 item.2

def PortClaim.subject (claim : PortClaim) : PublishedPort where
  containerPort := claim.containerPort
  protocol := claim.protocol
  hostIp := claim.hostIp
  hostPort := Json.integer claim.hostPort

def HostWildcard (host : Text) : Prop :=
  stripSpace host ∈ ["".toList, "0.0.0.0".toList, "::".toList, "*".toList]

/-- An address of the host that both stand for, or are taken to. -/
def HostsOverlap (first second : Text) : Prop :=
  HostWildcard first ∨ HostWildcard second ∨ stripSpace first = stripSpace second ∨
    ∃ address, ipAddress (stripSpace first) = some address ∧ ipAddress (stripSpace second) = some address

def PublishedPort.Overlaps (first second : PublishedPort) : Prop :=
  lower first.protocol = lower second.protocol ∧ first.hostPort = second.hostPort ∧
    HostsOverlap first.hostIp second.hostIp

structure PortContainer where
  id : Text
  name : Text
  config : PortConfig
  running : Bool

section
variable (digest : Text → Nat)

def PortContainer.state (container : PortContainer) : PortState where
  id := container.id
  name := container.name
  ports := (networkPortPlan digest container.id container.config).1
  rewrite := (networkPortPlan digest container.id container.config).2
  running := container.running

/-- Each published port is claimed once and nothing else is, overlapping ports are in conflict, and the
summary counts what is published. -/
structure PortsClaimed (host : HostView) (containers : List PortContainer) : Prop where
  claimed : ∀ container ∈ containers, ∀ port : PublishedPort,
    ((portMappingClaims (container.state digest)).map PortClaim.subject).count port =
      if port ∈ (container.state digest).published then 1 else 0
  conflicting : ∀ container ∈ containers, ∀ other ∈ containers, container.id ≠ other.id →
    ∀ port ∈ (container.state digest).published, ∀ rival ∈ (other.state digest).published, port.Overlaps rival →
      (∃ status ∈ (refreshPortMappingStatus host (container.state digest) (containers.map (PortContainer.state digest))).1,
        status.claim.subject = port) ∧
      ∀ status ∈ (refreshPortMappingStatus host (container.state digest) (containers.map (PortContainer.state digest))).1,
        status.claim.subject = port → status.state = .conflict
  counted : ∀ container ∈ containers,
    (refreshPortMappingStatus host (container.state digest) (containers.map (PortContainer.state digest))).2.total =
      (container.state digest).published.length

def PortContainer.naming (container : PortContainer) (name : PortName) : List PlannedPort :=
  (plannedPorts digest container.id container.config).filter fun planned => planned.name = name

def PortContainer.kept (container : PortContainer) (name : PortName) : List PortEntry :=
  (((container.naming digest name).getLast?).map PlannedPort.entries).getD []

/-- The bindings of a port are different, and are the first ones of the keys that name it: of one key, its
only one. A port below zero has bindings only if every port is below zero. -/
structure PortContainer.Single (container : PortContainer) : Prop where
  different : ∀ name, (container.kept digest name).Nodup
  firsts : ∀ name : PortName, 0 < name.port →
    ((container.naming digest name).map (PlannedPort.first digest container.id)).Perm (container.kept digest name)
  negative : ∀ name : PortName, name.port < 0 → container.kept digest name ≠ [] →
    ∀ planned ∈ plannedPorts digest container.id container.config, planned.name.port < 0

end

theorem decimal_facts : ∀ digit < 10, isPythonSpace (Nat.digitChar digit) = false ∧ Nat.digitChar digit ≠ '/' ∧
    Nat.digitChar digit ≠ '+' ∧ Nat.digitChar digit ≠ '-' := by
  decide

theorem numeral_facts {n : Nat} {char : Char} (member : char ∈ numeral 10 n) :
    isPythonSpace char = false ∧ char ≠ '/' ∧ char ≠ '+' ∧ char ≠ '-' := by
  obtain ⟨digit, small, rfl⟩ := mem_numeral (by decide) member
  exact decimal_facts digit small

theorem underscored_numeral (n : Nat) : underscored 10 (numeral 10 n) = some n := by
  have digits : (numeral 10 n).all (isDigit 10) = true :=
    List.all_eq_true.mpr fun char member => isDigit_of_mem (by decide) (by decide) member
  rw [underscored_digits (by decide) (List.length_pos_iff.mp (length_numeral_pos n)) digits,
    numeralValue_numeral (by decide) (by decide)]

theorem withoutPrefix_ten (text : Text) : withoutPrefix 10 text = text := by
  rw [withoutPrefix.eq_def]
  split
  · exact if_neg fun same => by cases same.1
  · rfl

theorem parseInt_integer (n : Int) : parseInt 10 (Json.integer n) = some n := by
  rw [Json.integer]
  by_cases negative : n < 0
  · rw [if_pos negative, parseInt, withoutPrefix_ten, underscored_numeral, Option.map_some, Option.some.injEq]
    show -(n.natAbs : Int) = n
    omega
  rw [if_neg negative, parseInt.eq_def]
  split
  · rename_i rest same
    exact absurd rfl (numeral_facts (n := n.natAbs) (same ▸ List.mem_cons_self)).2.2.1
  · rename_i rest same
    exact absurd rfl (numeral_facts (n := n.natAbs) (same ▸ List.mem_cons_self)).2.2.2
  · rw [withoutPrefix_ten, underscored_numeral, Option.map_some, Option.some.injEq]
    show (n.natAbs : Int) = n
    omega

theorem mem_integer {n : Int} {char : Char} (member : char ∈ Json.integer n) :
    isPythonSpace char = false ∧ char ≠ '/' := by
  rw [Json.integer] at member
  split at member
  · rcases List.mem_cons.mp member with rfl | digit
    · decide
    · exact ⟨(numeral_facts digit).1, (numeral_facts digit).2.1⟩
  · exact ⟨(numeral_facts member).1, (numeral_facts member).2.1⟩

theorem intOf_integer (n : Int) : intOf (Json.integer n) = some n := by
  rw [intOf, stripSpace_eq fun char member => (mem_integer member).1, parseInt_integer]

theorem integer_injective {first second : Int} (same : Json.integer first = Json.integer second) : first = second := by
  have parsed := intOf_integer first
  rw [same, intOf_integer] at parsed
  exact (Option.some.inj parsed).symm

theorem splitPortProto_key (name : PortName) : splitPortProto name.key = some (name.port, name.protocol) := by
  have digits : ∀ char ∈ Json.integer name.port, decide (char ≠ '/') = true :=
    fun char member => decide_eq_true (mem_integer member).2
  have port : name.key.takeWhile (· ≠ '/') = Json.integer name.port := by
    rw [PortName.key, List.takeWhile_append_of_pos digits]
    simp
  have rest : name.key.dropWhile (· ≠ '/') = '/' :: name.protocol := by
    rw [PortName.key, List.dropWhile_append_of_pos digits]
    simp
  rw [splitPortProto, port, rest, intOf_integer, Option.map_some, List.drop_one, List.tail_cons, if_neg name.some_protocol]

theorem PortName.ofKey_key (name : PortName) : PortName.ofKey name.key = some name := by
  rw [ofKey, splitPortProto_key]
  exact dif_pos ⟨name.some_port, name.some_protocol⟩

theorem PortName.key_injective {first second : PortName} (same : first.key = second.key) : first = second := by
  have named := first.ofKey_key
  rw [same, second.ofKey_key] at named
  exact (Option.some.inj named).symm

end PDocker.Engine
