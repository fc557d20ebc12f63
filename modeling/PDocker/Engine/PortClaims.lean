import PDocker.Engine.Ports

/-!
# Claims on published ports

The map of a plan keeps the last key for each port, the rewrites have one item for each key. The claims
are the published bindings where both agree.
-/

set_option autoImplicit false

namespace PDocker.Engine

open Data

section
variable {digest : Text → Nat} {cid : Text} {config : PortConfig} {planned : PlannedPort} {state : PortState}

def PortEntry.Valid (entry : PortEntry) : Prop :=
  entry.hostIp ≠ [] ∧ ∃ n : Nat, 0 < n ∧ n ≤ 65535 ∧ entry.hostPort = Json.integer n

theorem stableRewritePort_range (name : PortName) :
    0 < stableRewritePort digest cid name ∧ stableRewritePort digest cid name ≤ 65535 := by
  rw [stableRewritePort]
  omega

theorem safeHostPort_range {fallback : Nat} (range : 0 < fallback ∧ fallback ≤ 65535) (value : PortValue) :
    0 < safeHostPort value fallback ∧ safeHostPort value fallback ≤ 65535 := by
  rw [safeHostPort]
  split
  · exact range
  · split
    · omega
    · exact range

theorem safeHostPort_integer {n : Nat} (positive : 0 < n) (small : n ≤ 65535) (fallback : Nat) :
    safeHostPort (.text (Json.integer n)) fallback = n := by
  rw [safeHostPort, PortValue.int, intOf_integer]
  show (if 0 < (n : Int) ∧ (n : Int) ≤ 65535 then (n : Int).toNat else fallback) = n
  rw [if_pos (by omega)]
  rfl

variable (name : PortName) (ports : List PlannedPort)

theorem localhost_entry_valid :
    PortEntry.Valid ⟨localhost, Json.integer (stableRewritePort digest cid name)⟩ := by
  have range := @stableRewritePort_range digest cid name
  exact ⟨(by decide : localhost ≠ []), _, range.1, range.2, rfl⟩

theorem portEntries_valid {key : Text} {name : PortName} {entry : PortEntry}
    (member : entry ∈ portEntries digest cid config key name) : entry.Valid := by
  simp only [portEntries] at member
  split at member
  · obtain ⟨item, -, rfl⟩ := List.mem_map.mp member
    have range := safeHostPort_range (@stableRewritePort_range digest cid name) item.hostPort
    refine ⟨?_, _, range.1, range.2, rfl⟩
    show (if item.hostIp = [] then localhost else item.hostIp) ≠ []
    split
    · decide
    · assumption
  · split at member
    · rw [List.mem_singleton.mp member]
      exact localhost_entry_valid name
    · cases member

theorem plannedPorts_valid (member : planned ∈ plannedPorts digest cid config) :
    ∀ entry ∈ planned.entries, entry.Valid := by
  obtain ⟨key, -, found⟩ := List.mem_filterMap.mp member
  obtain ⟨name, -, rfl⟩ := Option.map_eq_some_iff.mp found
  exact fun entry => portEntries_valid

theorem PlannedPort.first_valid (valid : ∀ entry ∈ planned.entries, entry.Valid) : (planned.first digest cid).Valid := by
  rw [first]
  cases entries : planned.entries with
  | nil => exact localhost_entry_valid planned.name
  | cons entry rest => exact valid entry (entries ▸ List.mem_cons_self)

def PortName.published (name : PortName) (entry : PortEntry) : PublishedPort :=
  ⟨name.port, name.protocol, entry.hostIp, entry.hostPort⟩

theorem publishedUnder_key (entries : Option (List PortEntry)) :
    publishedUnder name.key entries = (entries.getD []).map name.published := by
  rw [publishedUnder, splitPortProto_key]
  rfl

theorem orDefault_self {default text : Text} (filled : text ≠ []) : orDefault default text = text := if_neg filled

theorem claimOfRewrite_subject (valid : ∀ entry ∈ planned.entries, entry.Valid) :
    (state.claimOfRewrite (planned.rewrite digest cid)).map PortClaim.subject =
      if 0 < planned.name.port then some (planned.name.published (planned.first digest cid)) else none := by
  obtain ⟨filled, n, positive, small, same⟩ := @PlannedPort.first_valid digest cid planned valid
  have port : (planned.rewrite digest cid).hostPort = n := by
    rw [PlannedPort.rewrite, same]
    exact safeHostPort_integer positive small _
  rw [PortState.claimOfRewrite, port]
  by_cases above : 0 < planned.name.port
  · have claimed : ¬ ((n : Int) ≤ 0 ∨ (planned.rewrite digest cid).containerPort ≤ 0) := by
      rw [not_or]
      exact ⟨by omega, Int.not_le.mpr above⟩
    rw [if_neg claimed, if_pos above, Option.map_some, Option.some.injEq, PortClaim.subject, PortName.published]
    congr
    · exact orDefault_self planned.name.some_protocol
    · exact orDefault_self filled
    · exact same.symm
  · rw [if_pos (.inr (Int.not_lt.mp above)), if_neg above, Option.map_none]

theorem claimsOfRewrites (valid : ∀ planned ∈ ports, ∀ entry ∈ planned.entries, entry.Valid) :
    ((ports.map (PlannedPort.rewrite digest cid)).filterMap state.claimOfRewrite).map PortClaim.subject =
      (ports.filter fun planned => 0 < planned.name.port).map
        fun planned => planned.name.published (planned.first digest cid) := by
  rw [List.filterMap_map, List.map_filterMap]
  induction ports with
  | nil => rfl
  | cons planned ports ih =>
      have rest := ih fun other member => valid other (List.mem_cons_of_mem _ member)
      have first := @claimOfRewrite_subject digest cid planned state (valid planned List.mem_cons_self)
      rw [List.filterMap_cons, List.filter_cons, Function.comp_apply, first, rest]
      by_cases above : 0 < planned.name.port
      · rw [if_pos above, if_pos (by simpa using above), List.map_cons]
      · rw [if_neg above, if_neg (by simpa using above)]

theorem claimOfEntry_subject {entry : PortEntry} (valid : entry.Valid) (name : PortName) :
    (state.claimOfEntry name entry).map PortClaim.subject = some (name.published entry) := by
  obtain ⟨filled, n, positive, small, same⟩ := valid
  rw [PortState.claimOfEntry, same, intOf_integer]
  show Option.map PortClaim.subject (if (n : Int) ≤ 0 then none else _) = _
  rw [if_neg (by omega), Option.map_some, Option.some.injEq, PortClaim.subject, PortName.published, same, orDefault_self filled]

def portsMap (ports : List PlannedPort) : PortsMap :=
  ports.foldl (fun map port => map.insert port.name.key (if port.entries = [] then none else some port.entries)) ∅

theorem portsMap_append (last : PlannedPort) : portsMap (ports ++ [last]) =
      (portsMap ports).insert last.name.key (if last.entries = [] then none else some last.entries) := by
  rw [portsMap, List.foldl_append]
  rfl

theorem lookup_portsMap (name : PortName) : (portsMap ports).lookup name.key =
      ((ports.filter fun planned => planned.name = name).getLast?).map
        fun planned => if planned.entries = [] then none else some planned.entries := by
  induction ports using List.reverseRecOn with
  | nil => rfl
  | append_singleton ports last ih =>
      rw [portsMap_append, Table.lookup_insert_eq_ite, List.filter_append, ih]
      by_cases same : last.name = name
      · rw [if_pos (congrArg PortName.key same.symm)]
        simp [same]
      · rw [if_neg fun equal => same (PortName.key_injective equal.symm)]
        simp [same]

theorem portsMap_some {ports : List PlannedPort} {key : Text} {value : Option (List PortEntry)}
    (found : (portsMap ports).lookup key = some value) :
    ∃ planned ∈ ports, key = planned.name.key ∧ value = if planned.entries = [] then none else some planned.entries := by
  induction ports using List.reverseRecOn with
  | nil => cases found
  | append_singleton ports last ih =>
      rw [portsMap_append] at found
      rcases Table.lookup_insert_cases found with ⟨same, value⟩ | ⟨-, before⟩
      · exact ⟨last, by simp, same, value⟩
      · obtain ⟨planned, member, facts⟩ := ih before
        exact ⟨planned, List.mem_append_left _ member, facts⟩

theorem getD_entries (entries : List PortEntry) : (if entries = [] then none else some entries).getD [] = entries := by
  by_cases none_there : entries = []
  · rw [if_pos none_there, none_there]
    rfl
  · rw [if_neg none_there]
    rfl

end

section
variable {digest : Text → Nat} {container : PortContainer}

theorem PortContainer.state_ports (container : PortContainer) :
    (container.state digest).ports = portsMap (plannedPorts digest container.id container.config) := rfl

def PublishedPort.port (published : PublishedPort) : Int × Text := (published.containerPort, published.protocol)

def PortName.pair (name : PortName) : Int × Text := (name.port, name.protocol)

theorem PortName.pair_injective {first second : PortName} (same : first.pair = second.pair) : first = second := by
  obtain ⟨port, protocol, _, _⟩ := first
  obtain ⟨other, another, _, _⟩ := second
  cases same
  rfl

variable (name : PortName)

theorem PortName.published_injective : Function.Injective name.published := by
  intro first second same
  obtain ⟨hostIp, hostPort⟩ := first
  obtain ⟨otherIp, otherPort⟩ := second
  cases same
  rfl

theorem published_filter :
    ((container.state digest).published.filter fun item => item.port = name.pair) =
      (container.kept digest name).map name.published := by
  rw [PortState.published, PortContainer.state_ports]
  rw [@Table.filter_flatMap _ _ _ _ _ publishedUnder _ name.key, lookup_portsMap, PortContainer.kept, PortContainer.naming]
  · cases (List.filter (fun planned => decide (planned.name = name)) (plannedPorts digest container.id container.config)).getLast? with
    | none => rfl
    | some last =>
        show publishedUnder name.key _ = _
        rw [publishedUnder_key, getD_entries]
        rfl
  · intro value item member
    rw [publishedUnder_key] at member
    obtain ⟨entry, -, rfl⟩ := List.mem_map.mp member
    exact decide_eq_true rfl
  · intro key value found other item member
    obtain ⟨planned, -, rfl, -⟩ := portsMap_some found
    rw [publishedUnder_key] at member
    obtain ⟨entry, -, rfl⟩ := List.mem_map.mp member
    exact decide_eq_false fun same => other (congrArg PortName.key (PortName.pair_injective same))

theorem published_named {item : PublishedPort} (member : item ∈ (container.state digest).published) :
    ∃ name : PortName, item.port = name.pair := by
  obtain ⟨⟨key, value⟩, there, under⟩ := List.mem_flatMap.mp member
  obtain ⟨planned, -, rfl, -⟩ := portsMap_some (AList.mem_lookup_iff.mpr there)
  rw [publishedUnder_key] at under
  obtain ⟨entry, -, rfl⟩ := List.mem_map.mp under
  exact ⟨planned.name, rfl⟩

theorem claimsUnder_subject {state : PortState} {planned : PlannedPort} (valid : ∀ entry ∈ planned.entries, entry.Valid) :
    (state.claimsUnder planned.name.key (if planned.entries = [] then none else some planned.entries)).map PortClaim.subject =
      publishedUnder planned.name.key (if planned.entries = [] then none else some planned.entries) := by
  rw [publishedUnder_key, getD_entries]
  simp only [PortState.claimsUnder, PortName.ofKey_key]
  by_cases empty : planned.entries = []
  · rw [if_pos empty, empty]
    rfl
  rw [if_neg empty, List.map_filterMap]
  have each : ∀ entries : List PortEntry, (∀ entry ∈ entries, entry.Valid) →
      entries.filterMap (fun entry => (state.claimOfEntry planned.name entry).map PortClaim.subject) =
        entries.map planned.name.published := by
    intro entries valid
    induction entries with
    | nil => rfl
    | cons entry entries ih =>
        have head := @claimOfEntry_subject state entry (valid entry List.mem_cons_self) planned.name
        rw [List.filterMap_cons, head, ih fun other member => valid other (List.mem_cons_of_mem _ member)]
        rfl
  exact each planned.entries valid

theorem claims_of_negative (negative : ∀ planned ∈ plannedPorts digest container.id container.config, planned.name.port < 0) :
    (portMappingClaims (container.state digest)).map PortClaim.subject = (container.state digest).published := by
  have none_positive : ((container.state digest).rewrite.filterMap (container.state digest).claimOfRewrite).map PortClaim.subject = [] := by
    rw [PortContainer.state, networkPortPlan, claimsOfRewrites _ fun planned member => plannedPorts_valid member, List.map_eq_nil_iff,
      List.filter_eq_nil_iff]
    intro planned member above
    have below := negative planned member
    have above := of_decide_eq_true above
    omega
  rw [portMappingClaims, List.map_eq_nil_iff.mp none_positive]
  show List.map PortClaim.subject (List.flatMap _ _) = _
  rw [List.map_flatMap, PortState.published]
  refine List.flatMap_congr fun item member => ?_
  obtain ⟨key, value⟩ := item
  obtain ⟨planned, there, rfl, rfl⟩ := portsMap_some (AList.mem_lookup_iff.mpr member)
  have valid := plannedPorts_valid there
  exact claimsUnder_subject (plannedPorts_valid there)

theorem claims_of_positive (positive : ∃ planned ∈ plannedPorts digest container.id container.config, 0 < planned.name.port) :
    (portMappingClaims (container.state digest)).map PortClaim.subject =
      ((plannedPorts digest container.id container.config).filter fun planned => 0 < planned.name.port).map
        fun planned => planned.name.published (planned.first digest container.id) := by
  have claimed : ((container.state digest).rewrite.filterMap (container.state digest).claimOfRewrite).map PortClaim.subject =
      ((plannedPorts digest container.id container.config).filter fun planned => 0 < planned.name.port).map
        fun planned => planned.name.published (planned.first digest container.id) := by
    rw [PortContainer.state, networkPortPlan]
    exact claimsOfRewrites _ fun planned member => plannedPorts_valid member
  have some_claim : (container.state digest).rewrite.filterMap (container.state digest).claimOfRewrite ≠ [] := by
    intro none_there
    rw [none_there, List.map_nil, eq_comm, List.map_eq_nil_iff, List.filter_eq_nil_iff] at claimed
    obtain ⟨planned, member, above⟩ := positive
    exact claimed planned member (decide_eq_true above)
  rw [portMappingClaims, if_pos some_claim, claimed]

theorem claims_filter (positive : ∃ planned ∈ plannedPorts digest container.id container.config, 0 < planned.name.port)
    (name : PortName) :
    ((portMappingClaims (container.state digest)).map PortClaim.subject).filter (fun item => item.port = name.pair) =
      if 0 < name.port then
        ((container.naming digest name).map (PlannedPort.first digest container.id)).map name.published
      else [] := by
  rw [claims_of_positive positive, List.filter_map, List.filter_filter, List.map_map]
  by_cases above : 0 < name.port
  · rw [if_pos above]
    have same : ((plannedPorts digest container.id container.config).filter fun planned =>
        ((fun item : PublishedPort => decide (item.port = name.pair)) ∘
          fun planned => planned.name.published (planned.first digest container.id)) planned &&
            decide (0 < planned.name.port)) = container.naming digest name := by
      refine List.filter_congr fun planned _ => ?_
      show (decide (planned.name.pair = name.pair) && decide (0 < planned.name.port)) = decide (planned.name = name)
      rw [Bool.eq_iff_iff, Bool.and_eq_true, decide_eq_true_iff, decide_eq_true_iff, decide_eq_true_iff]
      constructor
      · exact fun facts => PortName.pair_injective facts.1
      · rintro rfl
        exact ⟨rfl, above⟩
    rw [same]
    refine List.map_congr_left fun planned member => ?_
    have named : planned.name = name := of_decide_eq_true (List.mem_filter.mp member).2
    rw [Function.comp_apply, named]
  · rw [if_neg above, List.map_eq_nil_iff, List.filter_eq_nil_iff]
    intro planned _ both
    rw [Bool.and_eq_true] at both
    have named : planned.name = name := PortName.pair_injective (of_decide_eq_true both.1)
    exact above (named ▸ of_decide_eq_true both.2)

theorem claims_named {item : PublishedPort}
    (member : item ∈ (portMappingClaims (container.state digest)).map PortClaim.subject) :
    ∃ name : PortName, item.port = name.pair := by
  by_cases positive : ∃ planned ∈ plannedPorts digest container.id container.config, 0 < planned.name.port
  · rw [claims_of_positive positive] at member
    obtain ⟨planned, -, rfl⟩ := List.mem_map.mp member
    exact ⟨planned.name, rfl⟩
  refine @published_named digest container item ?_
  rw [← claims_of_negative]
  · exact member
  intro planned there
  have below : ¬ 0 < planned.name.port := fun above => positive ⟨planned, there, above⟩
  have some_port := planned.name.some_port
  omega

theorem kept_published :
    ((container.kept digest name).map name.published).Nodup ↔ (container.kept digest name).Nodup :=
  List.nodup_map_iff name.published_injective

theorem claims_perm_iff :
    ((portMappingClaims (container.state digest)).map PortClaim.subject).Perm (container.state digest).published ∧
        (container.state digest).published.Nodup ↔
      container.Single digest := by
  have nodup : (container.state digest).published.Nodup ↔ ∀ name, (container.kept digest name).Nodup := by
    rw [@nodup_iff_filter _ _ _ _ PublishedPort.port (fun pair => ∃ name : PortName, pair = name.pair) _
      fun item member => published_named member]
    constructor
    · intro distinct name
      have filtered := distinct name.pair ⟨name, rfl⟩
      rwa [published_filter, kept_published] at filtered
    · rintro distinct _ ⟨name, rfl⟩
      rw [published_filter, kept_published]
      exact distinct name
  by_cases positive : ∃ planned ∈ plannedPorts digest container.id container.config, 0 < planned.name.port
  · have perm : ((portMappingClaims (container.state digest)).map PortClaim.subject).Perm (container.state digest).published ↔
        ∀ name : PortName, (if 0 < name.port then
          ((container.naming digest name).map (PlannedPort.first digest container.id)).map name.published else []).Perm
            ((container.kept digest name).map name.published) := by
      rw [@perm_iff_filter _ _ _ _ PublishedPort.port (fun pair => ∃ name : PortName, pair = name.pair) _ _
        (fun item member => claims_named member) fun item member => published_named member]
      constructor
      · intro same name
        have filtered := same name.pair ⟨name, rfl⟩
        rwa [published_filter, claims_filter positive] at filtered
      · rintro same _ ⟨name, rfl⟩
        rw [published_filter, claims_filter positive]
        exact same name
    rw [perm, nodup]
    constructor
    · rintro ⟨same, distinct⟩
      refine ⟨distinct, fun name above => ?_, fun name below filled => ?_⟩
      · have mapped := same name
        rw [if_pos above] at mapped
        exact (List.map_perm_map_iff name.published_injective).mp mapped
      · have mapped := same name
        rw [if_neg (by omega), List.nil_perm, List.map_eq_nil_iff] at mapped
        exact absurd mapped filled
    · rintro ⟨distinct, firsts, negative⟩
      refine ⟨fun name => ?_, distinct⟩
      by_cases above : 0 < name.port
      · rw [if_pos above]
        exact (firsts name above).map _
      rw [if_neg above, List.nil_perm, List.map_eq_nil_iff]
      by_contra filled
      have some_port := name.some_port
      obtain ⟨planned, member, high⟩ := positive
      have under := negative name (by omega) filled planned member
      omega
  · have negative : ∀ planned ∈ plannedPorts digest container.id container.config, planned.name.port < 0 := by
      intro planned there
      have below : ¬ 0 < planned.name.port := fun above => positive ⟨planned, there, above⟩
      have some_port := planned.name.some_port
      omega
    rw [claims_of_negative negative, nodup]
    constructor
    · rintro ⟨-, distinct⟩
      refine ⟨distinct, fun name above => ?_, fun _ _ _ => negative⟩
      have none_named : container.naming digest name = [] := by
        rw [PortContainer.naming, List.filter_eq_nil_iff]
        intro planned member named
        have below := negative planned member
        rw [of_decide_eq_true named] at below
        omega
      rw [PortContainer.kept, none_named]
      exact .nil
    · exact fun single => ⟨.refl _, single.different⟩

end

section
variable {host : HostView} {state : PortState} {peers : List PortState}

theorem portMappingHostWildcard_iff (text : Text) : portMappingHostWildcard text = true ↔ HostWildcard text := by
  rw [portMappingHostWildcard, HostWildcard, List.contains_iff_mem]
  rfl

theorem portMappingHostsMatch_iff (first second : Text) :
    portMappingHostsMatch first second = true ↔ HostsOverlap first second := by
  have wildcard (text : Text) : portMappingHostWildcard (stripSpace text) = true ↔ HostWildcard text := by
    rw [portMappingHostWildcard_iff, HostWildcard, stripSpace_idem, HostWildcard]
  rw [portMappingHostsMatch, HostsOverlap, ← wildcard first, ← wildcard second, ← or_assoc, ← Bool.or_eq_true]
  by_cases wild : (portMappingHostWildcard (stripSpace first) || portMappingHostWildcard (stripSpace second)) = true
  · simp only [wild, if_true, true_or]
  simp only [wild, if_false, Bool.false_eq_true, false_or]
  by_cases same : stripSpace first = stripSpace second
  · simp only [same, if_true, true_or]
  simp only [same, if_false, false_or]
  cases ipAddress (stripSpace first) with
  | none => simp
  | some one =>
      cases ipAddress (stripSpace second) with
      | none => simp
      | some two => simp [eq_comm]

theorem refresh_statuses : (refreshPortMappingStatus host state peers).1 =
      (portMappingClaims state).map (mappingStatus host state.running
        ((peers.filter fun peer => peer.id ≠ state.id).flatMap portMappingClaims)) := by
  rw [refreshPortMappingStatus]
  by_cases none_there : portMappingClaims state = []
  · rw [if_pos none_there, none_there]
    rfl
  · rw [if_neg none_there]

theorem MappingSummary.total_add (counts : MappingSummary) (state : MappingState) :
    (counts.add state).total = counts.total + 1 := by
  cases state <;> simp only [add, total] <;> omega

theorem total_foldl (statuses : List MappingStatus) (counts : MappingSummary) :
    (statuses.foldl (fun counts status => counts.add status.state) counts).total = counts.total + statuses.length := by
  induction statuses generalizing counts with
  | nil => rfl
  | cons status statuses ih =>
      rw [List.foldl_cons, ih, MappingSummary.total_add, List.length_cons]
      omega

theorem refresh_total : (refreshPortMappingStatus host state peers).2.total = (portMappingClaims state).length := by
  rw [refreshPortMappingStatus]
  by_cases none_there : portMappingClaims state = []
  · rw [if_pos none_there, none_there]
    rfl
  rw [if_neg none_there]
  show MappingSummary.total (List.foldl _ _ _) = _
  rw [total_foldl, List.length_map]
  exact Nat.zero_add _

theorem portMappingConflict_of_overlap {claim rival : PortClaim} (named : claim.protocol ≠ [] ∧ rival.protocol ≠ [])
    (overlap : claim.subject.Overlaps rival.subject) : portMappingConflict claim rival = true := by
  obtain ⟨protocol, port, hosts⟩ := overlap
  have ports : claim.hostPort = rival.hostPort := integer_injective port
  rw [portMappingConflict, orDefault_self named.1, orDefault_self named.2, if_neg]
  · exact (portMappingHostsMatch_iff _ _).mpr hosts
  · rw [not_or, not_not, not_not]
    exact ⟨protocol, ports⟩

end

section
variable {digest : Text → Nat} {host : HostView} {containers : List PortContainer}

theorem single_of_claimed (claimed : PortsClaimed digest host containers) {container : PortContainer}
    (member : container ∈ containers) : container.Single digest := by
  have once := claimed.claimed container member
  have length := claimed.counted container member
  rw [refresh_total, ← @List.length_map _ _ _ PortClaim.subject] at length
  have distinct : ((portMappingClaims (container.state digest)).map PortClaim.subject).Nodup := by
    rw [List.nodup_iff_count_le_one]
    intro port
    rw [once port]
    split <;> omega
  have inside : (portMappingClaims (container.state digest)).map PortClaim.subject ⊆ (container.state digest).published := by
    intro port there
    have counted := List.count_pos_iff.mpr there
    rw [once port] at counted
    by_contra absent
    rw [if_neg absent] at counted
    omega
  have same := (List.subperm_of_subset distinct inside).perm_of_length_le (Nat.le_of_eq length.symm)
  exact claims_perm_iff.mp ⟨same, same.nodup_iff.mp distinct⟩

theorem claim_protocol_ne {container : PortContainer} {claim : PortClaim}
    (member : claim ∈ portMappingClaims (container.state digest)) : claim.protocol ≠ [] := by
  obtain ⟨name, same⟩ := claims_named (List.mem_map_of_mem member)
  have protocol : claim.protocol = name.protocol := congrArg Prod.snd same
  rw [protocol]
  exact name.some_protocol

theorem claimed_of_single (single : ∀ container ∈ containers, container.Single digest) :
    PortsClaimed digest host containers := by
  have same : ∀ container ∈ containers,
      ((portMappingClaims (container.state digest)).map PortClaim.subject).Perm (container.state digest).published ∧
        (container.state digest).published.Nodup :=
    fun container member => claims_perm_iff.mpr (single container member)
  constructor
  · intro container member port
    obtain ⟨perm, distinct⟩ := same container member
    rw [perm.count_eq]
    split
    · rename_i there
      exact List.count_eq_one_of_mem distinct there
    · rename_i absent
      exact List.count_eq_zero.mpr absent
  · intro container member other others apart port there rival rivals overlap
    rw [refresh_statuses]
    constructor
    · obtain ⟨claim, claimed, subject⟩ := List.mem_map.mp ((same container member).1.mem_iff.mpr there)
      exact ⟨_, List.mem_map_of_mem claimed, subject⟩
    intro status found subject
    obtain ⟨claim, claimed, rfl⟩ := List.mem_map.mp found
    obtain ⟨peer, peers, against⟩ := List.mem_map.mp ((same other others).1.mem_iff.mpr rivals)
    have conflict : portMappingConflict claim peer = true := by
      refine portMappingConflict_of_overlap ⟨claim_protocol_ne claimed, claim_protocol_ne peers⟩ ?_
      rw [show claim.subject = port from subject, against]
      exact overlap
    have known : peer ∈ (((containers.map (PortContainer.state digest)).filter
        fun peer => peer.id ≠ (container.state digest).id).flatMap portMappingClaims).filter (portMappingConflict claim) := by
      refine List.mem_filter.mpr ⟨List.mem_flatMap.mpr ⟨other.state digest, ?_, peers⟩, conflict⟩
      exact List.mem_filter.mpr ⟨List.mem_map_of_mem others, decide_eq_true (Ne.symm apart)⟩
    exact if_pos (List.ne_nil_of_mem known)
  · intro container member
    rw [refresh_total, ← (same container member).1.length_eq, List.length_map]

theorem portsClaimed_iff (digest : Text → Nat) (host : HostView) (containers : List PortContainer) :
    PortsClaimed digest host containers ↔ ∀ container ∈ containers, container.Single digest :=
  ⟨fun claimed _ member => single_of_claimed claimed member, claimed_of_single⟩

/-- Of two bindings of a port the second is not claimed. -/
theorem second_binding_unclaimed : ¬ ∀ (digest : Text → Nat) (host : HostView) (containers : List PortContainer),
    PortsClaimed digest host containers := by
  intro claim
  let config : PortConfig :=
    { bindings := (∅ : Table Text (List PortBinding)).insert ['8', '0', '/', 't', 'c', 'p']
        [⟨[], .number 8080⟩, ⟨[], .number 8081⟩] }
  let container : PortContainer := ⟨['c'], ['c'], config, false⟩
  let web : PortName := ⟨80, ['t', 'c', 'p'], by decide, by decide⟩
  have single := single_of_claimed (claim (fun _ => 0) ⟨fun _ => false, fun _ => false⟩ [container]) List.mem_cons_self
  have same := (single.firsts web (by decide)).length_eq
  revert same
  decide

end

end PDocker.Engine
