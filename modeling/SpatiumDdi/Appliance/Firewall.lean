import SpatiumDdi.Lib.Ipaddress
import SpatiumDdi.Lib.Text

/-!
`compile_firewall_body`: the nftables drop-in of an appliance as the control plane renders it, and
the helpers whose text this module and the supervisor's renderer share. Logs are left out.
-/

namespace SpatiumDdi.Appliance

open Text Ipaddress

/-- The parsers a renderer calls: `ipaddress.ip_network`, which gives the canonical text of a
network and its version, and `int`. -/
structure Parsers (Raw : Type) where
  ipNetwork : String → Option (String × Version)
  int : Raw → Option ℤ

/-- The `role_assignment` block, without what no renderer reads. A list entry is `none` where it is
no string, and a key that is missing is empty. -/
structure RoleAssignment (Raw : Type) where
  roles : List (Option String) := []
  firewallExtra : String := ""
  kubeapiExposeCidrs : List (Option String) := []
  dnsEncryptedTcpPorts : List Raw := []
  dnsEncryptedUdpPorts : List Raw := []
  dhcpHaPort : Option Raw := none
  dhcpHaPeerCidrs : List (Option String) := []

structure Inputs (Raw : Type) where
  roleAssignment : RoleAssignment Raw
  clusterPeerCidrs : List (Option String) := []
  podCidrs : List (Option String) := []
  serviceCidrs : List (Option String) := []
  cpMemberCount : ℤ := 1
  vipConfigured : Bool := false
  webUiAllowedCidrs : List (Option String) := []
  sshScopeCidrs : List (Option String) := []

variable {Raw : Type}

def sortedSet {α : Type} [DecidableEq α] [LE α] [DecidableLE α] (l : List α) : List α :=
  l.eraseDups.insertionSort (· ≤ ·)

/-- `", ".join`. -/
def commas (l : List String) : String := ", ".intercalate l

/-- `str.rstrip("\n")`. -/
def rstripNewlines (s : String) : String :=
  String.ofList ((s.toList.reverse.dropWhile (· = '\n')).reverse)

/-- `"\n".join(lines) + "\n"`. -/
def bodyOf (lines : List String) : String := "\n".intercalate lines ++ "\n"

namespace Parsers

variable (P : Parsers Raw)

def validatedCidrs (raw : List (Option String)) : List (String × Version) :=
  raw.filterMap fun c => c.bind fun c =>
    let s := strip c
    if s = "" then none else P.ipNetwork s

def splitFamilies (cidrs : List (Option String)) : List String × List String :=
  let valid := P.validatedCidrs cidrs
  (sortedSet ((valid.filter (·.2 ≠ .v6)).map Prod.fst),
    sortedSet ((valid.filter (·.2 = .v6)).map Prod.fst))

/-- `int(raw)` where it is a port. -/
def port (raw : Raw) : Option ℤ := (P.int raw).filter fun p => 1 ≤ p ∧ p ≤ 65535

def dhcpHaRule (ra : RoleAssignment Raw) (roles : List String) :
    Option (ℤ × List String × List String) :=
  if "dhcp" ∉ roles then none
  else
    (ra.dhcpHaPort.bind P.port).bind fun port =>
      let (v4, v6) := P.splitFamilies ra.dhcpHaPeerCidrs
      if v4 = [] ∧ v6 = [] then none else some (port, v4, v6)

end Parsers

def RoleAssignment.roleNames (ra : RoleAssignment Raw) : List String := ra.roles.filterMap id

def hasDns (roles : List String) : Bool :=
  ["dns-bind9", "dns-powerdns", "dns-technitium"].any (· ∈ roles)

def profileName (roles : List String) : String :=
  let dhcp := decide ("dhcp" ∈ roles)
  if hasDns roles && dhcp then "dns-and-dhcp"
  else if hasDns roles then "dns-only"
  else if dhcp then "dhcp-only"
  else "idle"

def emitFamilyRule (v4 v6 : List String) (ruleSuffix comment : String) : List String :=
  (if v4 = [] then []
    else [s!"ip saddr \x7b {commas v4} \x7d {ruleSuffix} comment \"{comment}-v4\""]) ++
  if v6 = [] then []
    else [s!"ip6 saddr \x7b {commas v6} \x7d {ruleSuffix} comment \"{comment}-v6\""]

def rolePortsTcp : List (String × List ℤ) :=
  [("dns-bind9", [53]), ("dns-powerdns", [53]), ("dns-technitium", [53]), ("looking-glass", [179])]

def rolePortsUdp : List (String × List ℤ) :=
  [("dns-bind9", [53]), ("dns-powerdns", [53]), ("dns-technitium", [53]), ("dhcp", [67, 68, 547])]

def k3sEtcdKubeletTcp : List ℤ := [2379, 2380, 10250]
def k3sApiserverTcp : ℤ := 6443
def k3sKubeletTcp : ℤ := 10250
def metallbMemberlist : ℤ := 7946
def frrK8sWebhook : ℤ := 19443

def servicePortLines (P : Parsers Raw) (ra : RoleAssignment Raw) (roles : List String)
    (profile : String) : List String :=
  let roleTcp := (roles.flatMap fun role => (rolePortsTcp.lookup role).getD []) ++
    if hasDns roles then ra.dnsEncryptedTcpPorts.filterMap P.port else []
  let roleUdp := (roles.flatMap fun role => (rolePortsUdp.lookup role).getD []) ++
    if hasDns roles then ra.dnsEncryptedUdpPorts.filterMap P.port else []
  let header := ["", "# ── Per-role service ports ─────────────────────────────"]
  let ha :=
    match P.dhcpHaRule ra roles with
    | none => []
    | some (port, v4, v6) =>
      (if roleUdp = [] ∧ roleTcp = [] then header else []) ++
        emitFamilyRule v4 v6 s!"tcp dport {port} accept" "role:dhcp-ha"
  (if roleUdp = [] ∧ roleTcp = [] then [] else header) ++
    (sortedSet roleUdp).map (fun p => s!"udp dport {p} accept comment \"role:{profile}\"") ++
    (sortedSet roleTcp).map (fun p => s!"tcp dport {p} accept comment \"role:{profile}\"") ++ ha

def controlPlaneLines (P : Parsers Raw) (i : Inputs Raw) (peerV4 peerV6 : List String) :
    List String :=
  ["", "# ── Control-plane derived (peer-scoped, #272/#285) ─────"] ++
  (if peerV4 ≠ [] ∨ peerV6 ≠ [] then
    let etcdKubelet := "\x7b " ++ commas (k3sEtcdKubeletTcp.map toString) ++ " \x7d"
    emitFamilyRule peerV4 peerV6 s!"tcp dport {etcdKubelet} accept" "k3s-peer"
  else []) ++
  (let (v4, v6) := P.splitFamilies (i.clusterPeerCidrs ++ i.podCidrs ++ i.serviceCidrs ++
    i.roleAssignment.kubeapiExposeCidrs)
  if v4 ≠ [] ∨ v6 ≠ [] then emitFamilyRule v4 v6 s!"tcp dport {k3sApiserverTcp} accept" "kubeapi"
  else []) ++
  (let (v4, v6) := P.splitFamilies (i.podCidrs ++ i.serviceCidrs)
  if v4 ≠ [] ∨ v6 ≠ [] then emitFamilyRule v4 v6 s!"tcp dport {k3sKubeletTcp} accept" "kubelet"
  else []) ++
  if (peerV4 ≠ [] ∨ peerV6 ≠ []) ∧ 2 ≤ i.cpMemberCount ∧ i.vipConfigured = true then
    emitFamilyRule peerV4 peerV6 s!"tcp dport {metallbMemberlist} accept"
      "metallb-memberlist-tcp" ++
    emitFamilyRule peerV4 peerV6 s!"udp dport {metallbMemberlist} accept"
      "metallb-memberlist-udp" ++
    emitFamilyRule peerV4 peerV6 s!"tcp dport {frrK8sWebhook} accept" "frr-k8s-webhook"
  else []

def compileFirewallBody (P : Parsers Raw) (i : Inputs Raw) : String :=
  let ra := i.roleAssignment
  let roles := ra.roleNames
  let profile := profileName roles
  let (peerV4, peerV6) := P.splitFamilies i.clusterPeerCidrs
  let isCp := (peerV4 ≠ [] ∨ peerV6 ≠ []) ∨ i.podCidrs ≠ [] ∨ i.serviceCidrs ≠ []
  let rolesText := if roles = [] then "(idle)" else ",".intercalate roles
  let bootstrapAction := if 2 ≤ i.cpMemberCount ∧ isCp then "retire" else "keep"
  let webuiAction := if i.webUiAllowedCidrs = [] then "keep" else "retire"
  let sshAction := if i.sshScopeCidrs = [] then "keep" else "retire"
  let header :=
    ["# Auto-generated by spatium-supervisor — do not hand-edit. " ++
        "See /etc/spatiumddi/firewall-extra on the host (or the fleet UI)",
      "# for the operator-override surface that lands at the end of this file.",
      s!"# profile: {profile}",
      s!"# roles: {rolesText}",
      s!"# spatium-bootstrap: {bootstrapAction}",
      s!"# spatium-webui: {webuiAction}",
      s!"# spatium-ssh: {sshAction}",
      "",
      "# ── Management (always open) ────────────────────────────────"]
  let ssh :=
    if i.sshScopeCidrs = [] then ["tcp dport 22 accept comment \"ssh\""]
    else
      let (v4, v6) := P.splitFamilies i.sshScopeCidrs
      emitFamilyRule v4 v6 "tcp dport 22 accept" "ssh"
  let management :=
    ["icmp type echo-request accept comment \"icmpv4 ping\"",
      "icmpv6 type echo-request accept comment \"icmpv6 ping\"",
      "iif lo accept comment \"loopback\""]
  let webUi :=
    if i.webUiAllowedCidrs = [] then ["tcp dport \x7b 80, 443 \x7d accept comment \"web-ui\""]
    else
      let (v4, v6) := P.splitFamilies i.webUiAllowedCidrs
      emitFamilyRule v4 v6 "tcp dport \x7b 80, 443 \x7d accept" "web-ui"
  let controlPlane := if isCp then controlPlaneLines P i peerV4 peerV6 else []
  let extra :=
    if strip ra.firewallExtra = "" then []
    else
      ["", "# ── Operator override (firewall_extra) ─────────────────",
        rstripNewlines ra.firewallExtra]
  bodyOf (header ++ ssh ++ management ++ webUi ++ servicePortLines P ra roles profile ++
    controlPlane ++ extra)

end SpatiumDdi.Appliance

namespace SpatiumDdi.Appliance.Supervisor

open Text

structure FirewallProfile where
  name : String
  body : String
  expectedTcpPorts : Finset ℤ
  expectedUdpPorts : Finset ℤ

def rolePortsTcp : String → List ℤ
  | "dns-bind9" => [53]
  | "dns-powerdns" => [53]
  | "dns-technitium" => [53]
  | "looking-glass" => [179]
  | _ => []

def rolePortsUdp : String → List ℤ
  | "dns-bind9" => [53]
  | "dns-powerdns" => [53]
  | "dns-technitium" => [53]
  | "dhcp" => [67, 68, 547]
  | _ => []

def etcdPeerPort : ℤ := 2380
def k3sEtcdKubeletTcp : List ℤ := [2379, etcdPeerPort, 10250]
def k3sApiserverTcp : ℤ := 6443
def k3sKubeletTcp : ℤ := 10250
def metallbMemberlist : ℤ := 7946
def frrK8sWebhook : ℤ := 19443

variable {Raw : Type}

/-- A section of the drop-in: its lines, and the ports it adds to `tcp_ports` and `udp_ports`. -/
structure Section where
  lines : List String := []
  tcp : List ℤ := []
  udp : List ℤ := []

def Section.append (s t : Section) : Section :=
  ⟨s.lines ++ t.lines, s.tcp ++ t.tcp, s.udp ++ t.udp⟩

def servicePorts (P : Parsers Raw) (ra : RoleAssignment Raw) (roles : List String)
    (profile : String) : Section :=
  let roleTcp := roles.flatMap rolePortsTcp ++
    if hasDns roles then ra.dnsEncryptedTcpPorts.filterMap P.port else []
  let roleUdp := roles.flatMap rolePortsUdp ++
    if hasDns roles then ra.dnsEncryptedUdpPorts.filterMap P.port else []
  let header := ["", "# ── Per-role service ports ─────────────────────────────"]
  let ports : Section :=
    { lines :=
        (if roleUdp ≠ [] ∨ roleTcp ≠ [] then header else []) ++
        (sortedSet roleUdp).map (fun p => s!"udp dport {p} accept comment \"role:{profile}\"") ++
        (sortedSet roleTcp).map fun p => s!"tcp dport {p} accept comment \"role:{profile}\""
      tcp := roleTcp
      udp := roleUdp }
  match P.dhcpHaRule ra roles with
  | none => ports
  | some (port, v4, v6) =>
    ports.append
      { lines :=
          (if roleUdp ≠ [] ∨ roleTcp ≠ [] then [] else header) ++
          emitFamilyRule v4 v6 s!"tcp dport {port} accept" "role:dhcp-ha"
        tcp := [port] }

/-- A rule of the control plane with one port, emitted where it has a source. -/
def scopedRule (sources : List String × List String) (port : ℤ) (comment : String) : Section :=
  if sources.1 ≠ [] ∨ sources.2 ≠ [] then
    { lines := emitFamilyRule sources.1 sources.2 s!"tcp dport {port} accept" comment
      tcp := [port] }
  else {}

def controlPlane (P : Parsers Raw) (i : Inputs Raw) (peerV4 peerV6 : List String) : Section :=
  let header : Section :=
    { lines := ["", "# ── Control-plane derived (peer-scoped, #272/#285) ─────"] }
  let peers : Section :=
    if peerV4 ≠ [] ∨ peerV6 ≠ [] then
      let etcdKubelet := "\x7b " ++ commas (k3sEtcdKubeletTcp.map toString) ++ " \x7d"
      { lines := emitFamilyRule peerV4 peerV6 s!"tcp dport {etcdKubelet} accept" "k3s-peer"
        tcp := k3sEtcdKubeletTcp }
    else {}
  let apiserver := scopedRule
    (P.splitFamilies (i.clusterPeerCidrs ++ i.podCidrs ++ i.serviceCidrs ++
      i.roleAssignment.kubeapiExposeCidrs)) k3sApiserverTcp "kubeapi"
  let kubelet := scopedRule (P.splitFamilies (i.podCidrs ++ i.serviceCidrs)) k3sKubeletTcp "kubelet"
  let multiNode : Section :=
    if (peerV4 ≠ [] ∨ peerV6 ≠ []) ∧ 2 ≤ i.cpMemberCount ∧ i.vipConfigured = true then
      { lines :=
          emitFamilyRule peerV4 peerV6 s!"tcp dport {metallbMemberlist} accept"
            "metallb-memberlist-tcp" ++
          emitFamilyRule peerV4 peerV6 s!"udp dport {metallbMemberlist} accept"
            "metallb-memberlist-udp" ++
          emitFamilyRule peerV4 peerV6 s!"tcp dport {frrK8sWebhook} accept" "frr-k8s-webhook"
        tcp := [metallbMemberlist, frrK8sWebhook]
        udp := [metallbMemberlist] }
    else {}
  (((header.append peers).append apiserver).append kubelet).append multiNode

def renderDropIn (P : Parsers Raw) (i : Inputs Raw) : FirewallProfile :=
  let ra := i.roleAssignment
  let roles := ra.roleNames
  let profile := profileName roles
  let (peerV4, peerV6) := P.splitFamilies i.clusterPeerCidrs
  let isCp := (peerV4 ≠ [] ∨ peerV6 ≠ []) ∨ i.podCidrs ≠ [] ∨ i.serviceCidrs ≠ []
  let rolesText := if roles ≠ [] then ",".intercalate roles else "(idle)"
  let bootstrapAction := if 2 ≤ i.cpMemberCount ∧ isCp then "retire" else "keep"
  let webuiAction := if i.webUiAllowedCidrs ≠ [] then "retire" else "keep"
  let sshAction := if i.sshScopeCidrs ≠ [] then "retire" else "keep"
  let header :=
    ["# Auto-generated by spatium-supervisor — do not hand-edit. " ++
        "See /etc/spatiumddi/firewall-extra on the host (or the fleet UI)",
      "# for the operator-override surface that lands at the end of this file.",
      s!"# profile: {profile}",
      s!"# roles: {rolesText}",
      s!"# spatium-bootstrap: {bootstrapAction}",
      s!"# spatium-webui: {webuiAction}",
      s!"# spatium-ssh: {sshAction}",
      "",
      "# ── Management (always open) ────────────────────────────────"]
  let ssh :=
    if i.sshScopeCidrs ≠ [] then
      let (v4, v6) := P.splitFamilies i.sshScopeCidrs
      emitFamilyRule v4 v6 "tcp dport 22 accept" "ssh"
    else ["tcp dport 22 accept comment \"ssh\""]
  let management :=
    ["icmp type echo-request accept comment \"icmpv4 ping\"",
      "icmpv6 type echo-request accept comment \"icmpv6 ping\"",
      "iif lo accept comment \"loopback\""]
  let webUi :=
    if i.webUiAllowedCidrs ≠ [] then
      let (v4, v6) := P.splitFamilies i.webUiAllowedCidrs
      emitFamilyRule v4 v6 "tcp dport \x7b 80, 443 \x7d accept" "web-ui"
    else ["tcp dport \x7b 80, 443 \x7d accept comment \"web-ui\""]
  let services := servicePorts P ra roles profile
  let cp := if isCp then controlPlane P i peerV4 peerV6 else {}
  let extra :=
    if strip ra.firewallExtra ≠ "" then
      ["", "# ── Operator override (firewall_extra) ─────────────────",
        rstripNewlines ra.firewallExtra]
    else []
  { name := profile
    body := bodyOf (header ++ ssh ++ management ++ webUi ++ services.lines ++ cp.lines ++ extra)
    expectedTcpPorts := (services.tcp ++ cp.tcp).toFinset
    expectedUdpPorts := (services.udp ++ cp.udp).toFinset }

end SpatiumDdi.Appliance.Supervisor
