import SpatiumDdi.Appliance.Firewall

/-!
The declarative merge: `compile_firewall_from_policies` interprets the layered policies of the
fleet, and `builtin_policy_set` is what it is fed on an unseeded database. The database loader and
its cache are left out.
-/

namespace SpatiumDdi.Appliance

open Text

inductive Action where
  | accept | drop
  deriving DecidableEq

inductive Protocol where
  | tcp | udp | icmp | icmpv6
  deriving DecidableEq

inductive SourceKind where
  | any | cidr | alias | clusterPeers | podCidr | serviceCidr | kubeapi | kubelet | mgmt | vip
  deriving DecidableEq

inductive Family where
  | both | v4 | v6

instance : ToString Action where
  toString
    | .accept => "accept"
    | .drop => "drop"

instance : ToString Protocol where
  toString
    | .tcp => "tcp"
    | .udp => "udp"
    | .icmp => "icmp"
    | .icmpv6 => "icmpv6"

instance : ToString SourceKind where
  toString
    | .any => "any"
    | .cidr => "cidr"
    | .alias => "alias"
    | .clusterPeers => "cluster_peers"
    | .podCidr => "pod_cidr"
    | .serviceCidr => "service_cidr"
    | .kubeapi => "kubeapi"
    | .kubelet => "kubelet"
    | .mgmt => "mgmt"
    | .vip => "vip"

structure RenderGuard where
  minCpMembers : Option ℤ := none
  requiresVip : Bool := false

/-- `_Rule`. A comment that is `NULL` is empty: both read as no comment. -/
structure Rule where
  seq : ℤ
  action : Action
  protocol : Protocol
  ports : List ℤ
  sourceKind : SourceKind
  sourceCidrs : List (Option String) := []
  sourceAlias : String := ""
  family : Family := .both
  comment : String := ""
  renderGuard : RenderGuard := {}
  enabled : Bool := true

/-- `_Policy`, without its scope: the policy set files it under that. -/
structure Policy where
  enabled : Bool
  rules : List Rule

structure Alias where
  v4Members : List (Option String)
  v6Members : List (Option String)

structure PolicySet where
  fleet : Option Policy := none
  roles : List (String × Policy) := []
  aliases : List (String × Alias) := []

def dnsRules : List Rule :=
  [{ seq := 10, action := .accept, protocol := .udp, ports := [53], sourceKind := .any },
    { seq := 20, action := .accept, protocol := .tcp, ports := [53], sourceKind := .any }]

def builtinGuard : RenderGuard := { minCpMembers := some 2, requiresVip := true }

def controlPlaneRules : List Rule :=
  [{ seq := 10, action := .accept, protocol := .tcp, ports := [2379, 2380, 10250],
     sourceKind := .clusterPeers, comment := "k3s-peer" },
    { seq := 20, action := .accept, protocol := .tcp, ports := [6443], sourceKind := .kubeapi,
      comment := "kubeapi" },
    { seq := 25, action := .accept, protocol := .tcp, ports := [10250], sourceKind := .kubelet,
      comment := "kubelet" },
    { seq := 30, action := .accept, protocol := .tcp, ports := [7946], sourceKind := .clusterPeers,
      comment := "metallb-memberlist-tcp", renderGuard := builtinGuard },
    { seq := 40, action := .accept, protocol := .udp, ports := [7946], sourceKind := .clusterPeers,
      comment := "metallb-memberlist-udp", renderGuard := builtinGuard },
    { seq := 50, action := .accept, protocol := .tcp, ports := [19443],
      sourceKind := .clusterPeers, comment := "frr-k8s-webhook", renderGuard := builtinGuard }]

def builtinPolicySet : PolicySet where
  fleet := some ⟨true, []⟩
  roles :=
    [("dns-bind9", ⟨true, dnsRules⟩),
      ("dns-powerdns", ⟨true, dnsRules⟩),
      ("dhcp", ⟨true,
        [{ seq := 10, action := .accept, protocol := .udp, ports := [67, 68], sourceKind := .any },
          { seq := 20, action := .accept, protocol := .udp, ports := [547],
            sourceKind := .any }]⟩),
      ("looking-glass", ⟨true,
        [{ seq := 10, action := .accept, protocol := .tcp, ports := [179], sourceKind := .any }]⟩),
      ("control-plane", ⟨true, controlPlaneRules⟩),
      ("observer", ⟨false, []⟩),
      ("custom", ⟨true, []⟩),
      ("dns-technitium", ⟨true, dnsRules⟩)]

/-- `MergeContext`. A pair of lists holds the `v4` and the `v6` members of a scope. -/
structure MergeContext where
  roles : List String
  profile : String
  isCp : Bool
  cpMemberCount : ℤ
  vipConfigured : Bool
  peers : List String × List String
  pods : List String × List String
  services : List String × List String
  kubeapi : List String × List String
  kubelet : List String × List String
  mgmt : List String × List String
  vip : List String × List String
  aliases : List (String × Alias)

variable {Raw : Type}

def MergeContext.build (P : Parsers Raw) (i : Inputs Raw) (mgmtCidrs vipCidrs : List (Option String))
    (aliases : List (String × Alias)) : MergeContext :=
  let roles := i.roleAssignment.roleNames
  let peers := P.splitFamilies i.clusterPeerCidrs
  { roles := roles
    profile := profileName roles
    -- `is_cp` reads the raw lists of pods and services, the scopes read the valid entries.
    isCp := decide (peers.1 ≠ [] ∨ peers.2 ≠ []) || decide (i.podCidrs ≠ []) ||
      decide (i.serviceCidrs ≠ [])
    cpMemberCount := i.cpMemberCount
    vipConfigured := i.vipConfigured
    peers := peers
    pods := P.splitFamilies i.podCidrs
    services := P.splitFamilies i.serviceCidrs
    kubeapi := P.splitFamilies (i.clusterPeerCidrs ++ i.podCidrs ++ i.serviceCidrs ++
      i.roleAssignment.kubeapiExposeCidrs)
    kubelet := P.splitFamilies (i.podCidrs ++ i.serviceCidrs)
    mgmt := P.splitFamilies mgmtCidrs
    vip := P.splitFamilies vipCidrs
    aliases := aliases }

/-- The scope a rule names, before its family is applied. -/
def MergeContext.scope (P : Parsers Raw) (ctx : MergeContext) (rule : Rule) :
    List String × List String :=
  match rule.sourceKind with
  | .clusterPeers => ctx.peers
  | .kubeapi => ctx.kubeapi
  | .kubelet => ctx.kubelet
  | .podCidr => ctx.pods
  | .serviceCidr => ctx.services
  | .mgmt => ctx.mgmt
  | .vip => ctx.vip
  | .cidr => P.splitFamilies rule.sourceCidrs
  | .alias =>
    match ctx.aliases.lookup rule.sourceAlias with
    | none => ([], [])
    | some al => P.splitFamilies (al.v4Members ++ al.v6Members)
  | .any => ([], [])

def MergeContext.resolveSource (P : Parsers Raw) (ctx : MergeContext) (rule : Rule) :
    List String × List String :=
  let (v4, v6) := ctx.scope P rule
  match rule.family with
  | .both => (v4, v6)
  | .v4 => (v4, [])
  | .v6 => ([], v6)

def guardOk (guard : RenderGuard) (ctx : MergeContext) : Bool :=
  (match guard.minCpMembers with
    | none => true
    | some minCp => decide (minCp ≤ ctx.cpMemberCount)) &&
  (!guard.requiresVip || ctx.vipConfigured)

def portset : List ℤ → String
  | [port] => toString port
  | ports => "\x7b " ++ commas (ports.map toString) ++ " \x7d"

structure OverlayGroup where
  action : Action
  protocol : Protocol
  portset : String
  comment : String
  v4 : List String := []
  v6 : List String := []
  any : Bool := false

namespace OverlayGroup

def sameKey (g h : OverlayGroup) : Bool :=
  g.action = h.action && g.protocol = h.protocol && g.portset = h.portset && g.comment = h.comment

def union (g h : OverlayGroup) : OverlayGroup :=
  { g with v4 := g.v4 ++ h.v4, v6 := g.v6 ++ h.v6, any := g.any || h.any }

def ofRule (P : Parsers Raw) (ctx : MergeContext) (r : Rule) : OverlayGroup :=
  let sources := if r.sourceKind = .any then ([], []) else ctx.resolveSource P r
  { action := r.action
    protocol := r.protocol
    portset := if r.ports = [] then "" else Appliance.portset (r.ports.insertionSort (· ≤ ·))
    comment := r.comment
    v4 := sources.1
    v6 := sources.2
    any := decide (r.sourceKind = .any) }

def add (groups : List OverlayGroup) (g : OverlayGroup) : List OverlayGroup :=
  if groups.any (sameKey g) then
    groups.map fun h => if sameKey g h then h.union g else h
  else groups ++ [g]

def lines (g : OverlayGroup) : List String :=
  let dport := if g.portset = "" then "" else s!" dport {g.portset}"
  if g.any ∨ (g.v4 = [] ∧ g.v6 = []) then
    let c := if g.comment = "" then "" else s!" comment \"{g.comment}\""
    [s!"{g.protocol}{dport} {g.action}{c}"]
  else
    emitFamilyRule (sortedSet g.v4) (sortedSet g.v6) s!"{g.protocol}{dport} {g.action}"
      (if g.comment = "" then toString g.protocol else g.comment)

end OverlayGroup

/-- `_compile_overlay`: the first match wins, so what drops comes first. -/
def compileOverlay (P : Parsers Raw) (fleetPolicy appliancePolicy : Option Policy)
    (ctx : MergeContext) : List String :=
  let collected := (fleetPolicy.toList ++ appliancePolicy.toList).flatMap fun pol =>
    if pol.enabled then pol.rules.filter (·.enabled) else []
  let groups := (collected.map (OverlayGroup.ofRule P ctx)).foldl OverlayGroup.add []
  (groups.filter (·.action = .drop) ++ groups.filter (·.action ≠ .drop)).flatMap OverlayGroup.lines

/-- The ports of a protocol the policy of a declared role opens to everyone. -/
def rolePorts (ps : PolicySet) (protocol : Protocol) (role : String) : List ℤ :=
  match ps.roles.lookup role with
  | none => []
  | some pol =>
    if pol.enabled then
      (pol.rules.filter fun r =>
        r.enabled && r.action = .accept && r.sourceKind = .any && r.protocol = protocol).flatMap
          Rule.ports
    else []

def emitControlPlane (P : Parsers Raw) (ctx : MergeContext) (r : Rule) : List String :=
  if r.enabled && guardOk r.renderGuard ctx then
    let (v4, v6) := ctx.resolveSource P r
    emitFamilyRule v4 v6 s!"{r.protocol} dport {portset r.ports} {r.action}"
      (if r.comment = "" then toString r.sourceKind else r.comment)
  else []

/-- The lines under `Per-role service ports`, with the ports the policies open. -/
def policyPortLines (P : Parsers Raw) (ra : RoleAssignment Raw) (ps : PolicySet)
    (ctx : MergeContext) : List String :=
  let roleTcp := ctx.roles.flatMap (rolePorts ps .tcp) ++
    if hasDns ctx.roles then ra.dnsEncryptedTcpPorts.filterMap P.port else []
  let roleUdp := ctx.roles.flatMap (rolePorts ps .udp) ++
    if hasDns ctx.roles then ra.dnsEncryptedUdpPorts.filterMap P.port else []
  let header := ["", "# ── Per-role service ports ─────────────────────────────"]
  let ha :=
    match P.dhcpHaRule ra ctx.roles with
    | none => []
    | some (port, v4, v6) =>
      (if roleUdp = [] ∧ roleTcp = [] then header else []) ++
        emitFamilyRule v4 v6 s!"tcp dport {port} accept" "role:dhcp-ha"
  (if roleUdp = [] ∧ roleTcp = [] then [] else header) ++
    (sortedSet roleUdp).map (fun p => s!"udp dport {p} accept comment \"role:{ctx.profile}\"") ++
    (sortedSet roleTcp).map (fun p => s!"tcp dport {p} accept comment \"role:{ctx.profile}\"") ++
    ha

/-- The lines under `Control-plane derived`, with the rules of the policy `control-plane`. -/
def policyControlPlaneLines (P : Parsers Raw) (ps : PolicySet) (ctx : MergeContext) :
    List String :=
  ["", "# ── Control-plane derived (peer-scoped, #272/#285) ─────"] ++
  match ps.roles.lookup "control-plane" with
  | none => []
  | some pol => if pol.enabled then pol.rules.flatMap (emitControlPlane P ctx) else []

def mgmtFloor : List String :=
  ["tcp dport 22 accept comment \"ssh\"",
    "icmp type echo-request accept comment \"icmpv4 ping\"",
    "icmpv6 type echo-request accept comment \"icmpv6 ping\"",
    "iif lo accept comment \"loopback\""]

def compileFirewallFromPolicies (P : Parsers Raw) (i : Inputs Raw) (ps : PolicySet)
    (appliancePolicy : Option Policy) (mgmtCidrs vipCidrs : List (Option String)) : String :=
  let ctx := MergeContext.build P i mgmtCidrs vipCidrs ps.aliases
  let ra := i.roleAssignment
  let rolesText := if ctx.roles = [] then "(idle)" else ",".intercalate ctx.roles
  let bootstrapAction := if 2 ≤ ctx.cpMemberCount ∧ ctx.isCp = true then "retire" else "keep"
  let webuiAction := if i.webUiAllowedCidrs = [] then "keep" else "retire"
  let sshAction := if i.sshScopeCidrs = [] then "keep" else "retire"
  let header :=
    ["# Auto-generated by spatium-supervisor — do not hand-edit. " ++
        "See /etc/spatiumddi/firewall-extra on the host (or the fleet UI)",
      "# for the operator-override surface that lands at the end of this file.",
      s!"# profile: {ctx.profile}",
      s!"# roles: {rolesText}",
      s!"# spatium-bootstrap: {bootstrapAction}",
      s!"# spatium-webui: {webuiAction}",
      s!"# spatium-ssh: {sshAction}",
      "",
      "# ── Management (always open) ────────────────────────────────"]
  let ssh :=
    if i.sshScopeCidrs = [] then mgmtFloor.take 1
    else
      let (v4, v6) := P.splitFamilies i.sshScopeCidrs
      emitFamilyRule v4 v6 "tcp dport 22 accept" "ssh"
  let webUi :=
    if i.webUiAllowedCidrs = [] then ["tcp dport \x7b 80, 443 \x7d accept comment \"web-ui\""]
    else
      let (v4, v6) := P.splitFamilies i.webUiAllowedCidrs
      emitFamilyRule v4 v6 "tcp dport \x7b 80, 443 \x7d accept" "web-ui"
  let services := policyPortLines P ra ps ctx
  let controlPlane := if ctx.isCp then policyControlPlaneLines P ps ctx else []
  let overlay := compileOverlay P ps.fleet appliancePolicy ctx
  let overlaySection :=
    if overlay = [] then []
    else ["", "# ── Fleet / appliance overlay ──────────────────────────"] ++ overlay
  let extra :=
    if strip ra.firewallExtra = "" then []
    else
      ["", "# ── Operator override (firewall_extra) ─────────────────",
        rstripNewlines ra.firewallExtra]
  bodyOf (header ++ ssh ++ mgmtFloor.drop 1 ++ webUi ++ services ++ controlPlane ++
    overlaySection ++ extra)

variable {Raw β : Type} (P : Parsers Raw) (i : Inputs Raw) {role : String}

def knownRoles : List String :=
  ["dns-bind9", "dns-powerdns", "dhcp", "looking-glass", "control-plane", "observer", "custom",
    "dns-technitium"]

private theorem lookup_unknown {table : List (String × β)}
    (htable : ∀ entry ∈ table, entry.1 ∈ knownRoles) (hrole : role ∉ knownRoles) :
    table.lookup role = none := by
  rw [List.lookup_eq_none_iff]
  intro entry hentry
  have hne : role ≠ entry.1 := fun h => hrole (h ▸ htable entry hentry)
  exact bne_iff_ne.mpr hne

private theorem rolePorts_unknown {protocol : Protocol} (hrole : role ∉ knownRoles) :
    rolePorts builtinPolicySet protocol role = [] := by
  rw [rolePorts, lookup_unknown (by decide) hrole]

variable (role : String) {ctx : MergeContext}

theorem rolePorts_tcp :
    rolePorts builtinPolicySet .tcp role = (rolePortsTcp.lookup role).getD [] := by
  by_cases hrole : role ∈ knownRoles
  · simp only [knownRoles, List.mem_cons, List.not_mem_nil, or_false] at hrole
    rcases hrole with rfl | rfl | rfl | rfl | rfl | rfl | rfl | rfl <;> decide
  · rw [rolePorts_unknown hrole, lookup_unknown (by decide) hrole, Option.getD_none]

theorem rolePorts_udp :
    rolePorts builtinPolicySet .udp role = (rolePortsUdp.lookup role).getD [] := by
  by_cases hrole : role ∈ knownRoles
  · simp only [knownRoles, List.mem_cons, List.not_mem_nil, or_false] at hrole
    rcases hrole with rfl | rfl | rfl | rfl | rfl | rfl | rfl | rfl <;> decide
  · rw [rolePorts_unknown hrole, lookup_unknown (by decide) hrole, Option.getD_none]

theorem supervisor_rolePortsTcp :
    Supervisor.rolePortsTcp role = (rolePortsTcp.lookup role).getD [] := by
  unfold Supervisor.rolePortsTcp
  split
  case h_5 h1 h2 h3 h4 =>
    have hnone : rolePortsTcp.lookup role = none := by
      rw [List.lookup_eq_none_iff]
      simpa [rolePortsTcp] using ⟨h1, h2, h3, h4⟩
    rw [hnone, Option.getD_none]
  all_goals decide

theorem supervisor_rolePortsUdp :
    Supervisor.rolePortsUdp role = (rolePortsUdp.lookup role).getD [] := by
  unfold Supervisor.rolePortsUdp
  split
  case h_5 h1 h2 h3 h4 =>
    have hnone : rolePortsUdp.lookup role = none := by
      rw [List.lookup_eq_none_iff]
      simpa [rolePortsUdp] using ⟨h1, h2, h3, h4⟩
    rw [hnone, Option.getD_none]
  all_goals decide

private theorem ite_or_ne {α γ : Type} [DecidableEq α] [DecidableEq β] (as : List α) (bs : List β)
    (x y : γ) : (if as ≠ [] ∨ bs ≠ [] then x else y) = if as = [] ∧ bs = [] then y else x := by
  by_cases h : as = [] ∧ bs = []
  · rw [if_pos h, if_neg (by simpa using h)]
  · rw [if_neg h, if_pos (not_and_or.mp h)]

theorem supervisor_servicePorts (ra : RoleAssignment Raw) (roles : List String)
    (profile : String) :
    (Supervisor.servicePorts P ra roles profile).lines = servicePortLines P ra roles profile := by
  have htcp : Supervisor.rolePortsTcp = fun role => (rolePortsTcp.lookup role).getD [] :=
    funext supervisor_rolePortsTcp
  have hudp : Supervisor.rolePortsUdp = fun role => (rolePortsUdp.lookup role).getD [] :=
    funext supervisor_rolePortsUdp
  simp only [Supervisor.servicePorts, servicePortLines, htcp, hudp, ite_or_ne]
  cases P.dhcpHaRule ra roles with
  | none => rw [List.append_nil]
  | some rule => rfl

theorem policyPortLines_builtin (ra : RoleAssignment Raw) :
    policyPortLines P ra builtinPolicySet ctx =
      servicePortLines P ra ctx.roles ctx.profile := by
  have htcp : rolePorts builtinPolicySet .tcp = fun role => (rolePortsTcp.lookup role).getD [] :=
    funext rolePorts_tcp
  have hudp : rolePorts builtinPolicySet .udp = fun role => (rolePortsUdp.lookup role).getD [] :=
    funext rolePorts_udp
  cases hrule : P.dhcpHaRule ra ctx.roles with
  | none => simp only [policyPortLines, servicePortLines, htcp, hudp, hrule]
  | some rule => simp only [policyPortLines, servicePortLines, htcp, hudp, hrule]

theorem emitFamilyRule_of (v4 v6 : List String) (suffix comment : String) :
    (if v4 ≠ [] ∨ v6 ≠ [] then emitFamilyRule v4 v6 suffix comment else []) =
      emitFamilyRule v4 v6 suffix comment := by
  split
  case isTrue => rfl
  case isFalse h =>
    obtain ⟨rfl, rfl⟩ : v4 = [] ∧ v6 = [] := by simpa [not_or] using h
    rfl

theorem scopedRule_lines (sources : List String × List String) (port : ℤ) (comment : String) :
    (Supervisor.scopedRule sources port comment).lines =
      if sources.1 ≠ [] ∨ sources.2 ≠ [] then
        emitFamilyRule sources.1 sources.2 s!"tcp dport {port} accept" comment
      else [] := by
  unfold Supervisor.scopedRule
  split <;> rfl

theorem supervisor_controlPlane (peerV4 peerV6 : List String) :
    (Supervisor.controlPlane P i peerV4 peerV6).lines = controlPlaneLines P i peerV4 peerV6 := by
  simp only [Supervisor.controlPlane, Supervisor.Section.append, controlPlaneLines,
    scopedRule_lines]
  congr 1
  · congr 1
    congr 1
    congr 1
    split <;> rfl
  · split <;> rfl

theorem emitControlPlane_of {r : Rule} (henabled : r.enabled = true)
    (hguard : guardOk r.renderGuard ctx = true) (hfamily : r.family = .both)
    (hcomment : r.comment ≠ "") :
    emitControlPlane P ctx r =
      emitFamilyRule (ctx.scope P r).1 (ctx.scope P r).2
        s!"{r.protocol} dport {portset r.ports} {r.action}" r.comment := by
  simp only [emitControlPlane, MergeContext.resolveSource, henabled, hguard, hfamily,
    if_neg hcomment, Bool.and_true, if_true]

theorem emitControlPlane_of_guard {r : Rule} (hguard : guardOk r.renderGuard ctx = false) :
    emitControlPlane P ctx r = [] := by
  simp only [emitControlPlane, hguard, Bool.and_false, Bool.false_eq_true, if_false]

variable (ctx : MergeContext)

theorem guardOk_builtin :
    guardOk builtinGuard ctx = true ↔ 2 ≤ ctx.cpMemberCount ∧ ctx.vipConfigured = true := by
  simp [guardOk, builtinGuard]

theorem emitControlPlane_unguarded :
    (controlPlaneRules.take 3).flatMap (emitControlPlane P ctx) =
      emitFamilyRule ctx.peers.1 ctx.peers.2
        s!"tcp dport {portset k3sEtcdKubeletTcp} accept" "k3s-peer" ++
      emitFamilyRule ctx.kubeapi.1 ctx.kubeapi.2 s!"tcp dport {k3sApiserverTcp} accept"
        "kubeapi" ++
      emitFamilyRule ctx.kubelet.1 ctx.kubelet.2 s!"tcp dport {k3sKubeletTcp} accept"
        "kubelet" := by
  simp only [controlPlaneRules, List.take_succ_cons, List.take_zero, List.flatMap_cons,
    List.flatMap_nil, List.append_nil]
  rw [emitControlPlane_of P rfl rfl rfl (by decide), emitControlPlane_of P rfl rfl rfl (by decide),
    emitControlPlane_of P rfl rfl rfl (by decide), ← List.append_assoc]
  rfl

theorem emitControlPlane_guarded :
    (controlPlaneRules.drop 3).flatMap (emitControlPlane P ctx) =
      if (ctx.peers.1 ≠ [] ∨ ctx.peers.2 ≠ []) ∧ 2 ≤ ctx.cpMemberCount ∧
          ctx.vipConfigured = true then
        emitFamilyRule ctx.peers.1 ctx.peers.2 s!"tcp dport {metallbMemberlist} accept"
          "metallb-memberlist-tcp" ++
        emitFamilyRule ctx.peers.1 ctx.peers.2 s!"udp dport {metallbMemberlist} accept"
          "metallb-memberlist-udp" ++
        emitFamilyRule ctx.peers.1 ctx.peers.2 s!"tcp dport {frrK8sWebhook} accept"
          "frr-k8s-webhook"
      else [] := by
  simp only [← guardOk_builtin, controlPlaneRules, List.drop_succ_cons, List.drop_zero, List.flatMap_cons,
    List.flatMap_nil, List.append_nil]
  cases hguard : guardOk builtinGuard ctx with
  | false =>
    rw [emitControlPlane_of_guard P hguard, emitControlPlane_of_guard P hguard,
      emitControlPlane_of_guard P hguard, if_neg (fun h => Bool.false_ne_true h.2)]
    rfl
  | true =>
    rw [emitControlPlane_of P rfl hguard rfl (by decide),
      emitControlPlane_of P rfl hguard rfl (by decide),
      emitControlPlane_of P rfl hguard rfl (by decide), ← List.append_assoc]
    simp only [and_true]
    by_cases hpeers : ctx.peers.1 ≠ [] ∨ ctx.peers.2 ≠ []
    · rw [if_pos hpeers]
      rfl
    · rw [if_neg hpeers]
      obtain ⟨hv4, hv6⟩ : ctx.peers.1 = [] ∧ ctx.peers.2 = [] := by
        simpa [not_or] using hpeers
      simp only [MergeContext.scope, hv4, hv6]
      rfl

variable (mgmtCidrs vipCidrs : List (Option String))

theorem policyControlPlaneLines_builtin :
    policyControlPlaneLines P builtinPolicySet (MergeContext.build P i mgmtCidrs vipCidrs []) =
      controlPlaneLines P i (P.splitFamilies i.clusterPeerCidrs).1
        (P.splitFamilies i.clusterPeerCidrs).2 := by
  have hrules : controlPlaneRules = controlPlaneRules.take 3 ++ controlPlaneRules.drop 3 :=
    (List.take_append_drop 3 _).symm
  have hlookup : builtinPolicySet.roles.lookup "control-plane" =
      some ⟨true, controlPlaneRules⟩ := rfl
  simp only [policyControlPlaneLines, hlookup, if_true, controlPlaneLines, emitFamilyRule_of]
  rw [hrules, List.flatMap_append, emitControlPlane_unguarded, emitControlPlane_guarded]
  simp only [MergeContext.build, List.append_assoc]
  rfl

theorem compileOverlay_builtin :
    compileOverlay P builtinPolicySet.fleet none ctx = [] := rfl

theorem build_isCp (aliases : List (String × Alias)) :
    (MergeContext.build P i mgmtCidrs vipCidrs aliases).isCp = true ↔
      ((P.splitFamilies i.clusterPeerCidrs).1 ≠ [] ∨ (P.splitFamilies i.clusterPeerCidrs).2 ≠ []) ∨
        i.podCidrs ≠ [] ∨ i.serviceCidrs ≠ [] := by
  simp only [MergeContext.build, Bool.or_eq_true, decide_eq_true_eq, or_assoc]

private theorem ite_lines {c : Prop} [Decidable c] (s : Supervisor.Section) :
    (if c then s else {}).lines = if c then s.lines else [] := by
  split <;> rfl

theorem renderDropIn_body : (Supervisor.renderDropIn P i).body = compileFirewallBody P i := by
  simp only [Supervisor.renderDropIn, compileFirewallBody, ite_not, ite_lines,
    supervisor_servicePorts, supervisor_controlPlane]

theorem compileFirewallFromPolicies_builtin :
    compileFirewallFromPolicies P i builtinPolicySet none mgmtCidrs vipCidrs =
      compileFirewallBody P i := by
  simp only [compileFirewallFromPolicies, compileFirewallBody, compileOverlay_builtin,
    policyPortLines_builtin]
  have haliases : builtinPolicySet.aliases = [] := rfl
  simp only [haliases, policyControlPlaneLines_builtin, build_isCp, if_true, List.append_nil]
  simp only [MergeContext.build, mgmtFloor, List.take_succ_cons, List.take_zero,
    List.drop_succ_cons, List.drop_zero]
  -- The two sides decide `is_cp` by different instances.
  congr!

/-- **The three renderers agree byte for byte.** -/
theorem renderers_agree (mgmtCidrs vipCidrs : List (Option String)) :
    (Supervisor.renderDropIn P i).body = compileFirewallBody P i ∧
      compileFirewallFromPolicies P i builtinPolicySet none mgmtCidrs vipCidrs =
        compileFirewallBody P i :=
  ⟨renderDropIn_body P i, compileFirewallFromPolicies_builtin P i mgmtCidrs vipCidrs⟩

end SpatiumDdi.Appliance
