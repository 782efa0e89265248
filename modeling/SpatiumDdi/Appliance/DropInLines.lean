import SpatiumDdi.Appliance.NetworkText
import SpatiumDdi.Appliance.OverlayVerdict

/-!
The lines of `render_drop_in`, and what nft reads of them. Where no source keeps a zone, every line
has one of the shapes the renderer knows and nft reads each rule as it was written.
-/

namespace SpatiumDdi.Appliance.Supervisor

open Text Ipaddress

variable {Raw : Type} {s line : String} {lines : List String}

/-- A node of the control plane. -/
def IsCp (P : Parsers Raw) (i : Inputs Raw) : Prop :=
  ((P.splitFamilies i.clusterPeerCidrs).1 ≠ [] ∨ (P.splitFamilies i.clusterPeerCidrs).2 ≠ []) ∨
    i.podCidrs ≠ [] ∨ i.serviceCidrs ≠ []

instance (P : Parsers Raw) (i : Inputs Raw) : Decidable (IsCp P i) := by
  unfold IsCp
  infer_instance

def topLines (i : Inputs Raw) : List String :=
  let roles := i.roleAssignment.roleNames
  let rolesText := if roles ≠ [] then ",".intercalate roles else "(idle)"
  ["# Auto-generated by spatium-supervisor — do not hand-edit. " ++
      "See /etc/spatiumddi/firewall-extra on the host (or the fleet UI)",
    "# for the operator-override surface that lands at the end of this file.",
    s!"# profile: {profileName roles}",
    s!"# roles: {rolesText}"]

def directives (P : Parsers Raw) (i : Inputs Raw) : List String :=
  let bootstrapAction := if 2 ≤ i.cpMemberCount ∧ IsCp P i then "retire" else "keep"
  let webuiAction := if i.webUiAllowedCidrs ≠ [] then "retire" else "keep"
  let sshAction := if i.sshScopeCidrs ≠ [] then "retire" else "keep"
  [s!"# spatium-bootstrap: {bootstrapAction}",
    s!"# spatium-webui: {webuiAction}",
    s!"# spatium-ssh: {sshAction}",
    "",
    "# ── Management (always open) ────────────────────────────────"]

def scopedOrOpen (P : Parsers Raw) (cidrs : List (Option String)) (rule comment : String) :
    List String :=
  if cidrs ≠ [] then
    emitFamilyRule (P.splitFamilies cidrs).1 (P.splitFamilies cidrs).2 rule comment
  else [s!"{rule} comment \"{comment}\""]

def management : List String :=
  ["icmp type echo-request accept comment \"icmpv4 ping\"",
    "icmpv6 type echo-request accept comment \"icmpv6 ping\"",
    "iif lo accept comment \"loopback\""]

/-- The lines below the roles, where nothing is left to the operator. -/
def emittedLines (P : Parsers Raw) (i : Inputs Raw) : List String :=
  let ra := i.roleAssignment
  let peers := P.splitFamilies i.clusterPeerCidrs
  directives P i ++ scopedOrOpen P i.sshScopeCidrs "tcp dport 22 accept" "ssh" ++ management ++
    scopedOrOpen P i.webUiAllowedCidrs "tcp dport \x7b 80, 443 \x7d accept" "web-ui" ++
    (servicePorts P ra ra.roleNames (profileName ra.roleNames)).lines ++
    (if IsCp P i then controlPlane P i peers.1 peers.2 else {}).lines

theorem renderDropIn_body {P : Parsers Raw} {i : Inputs Raw}
    (h : i.roleAssignment.firewallExtra = "") :
    (renderDropIn P i).body = bodyOf (topLines i ++ emittedLines P i) := by
  have hstrip : strip "" = "" := rfl
  unfold renderDropIn
  dsimp only
  rw [h, if_neg (not_not.2 hstrip), List.append_nil]
  congr 1

def fixedComments : List String :=
  ["# spatium-bootstrap: retire", "# spatium-bootstrap: keep", "# spatium-webui: retire",
    "# spatium-webui: keep", "# spatium-ssh: retire", "# spatium-ssh: keep",
    "# ── Management (always open) ────────────────────────────────",
    "# ── Per-role service ports ─────────────────────────────",
    "# ── Control-plane derived (peer-scoped, #272/#285) ─────"]

/-- The rules with any source and fixed ports. -/
def openRules : List String :=
  ["tcp dport 22 accept comment \"ssh\"",
    "tcp dport \x7b 80, 443 \x7d accept comment \"web-ui\""] ++ management

def profileNames : List String := ["dns-and-dhcp", "dns-only", "dhcp-only", "idle"]

inductive ScopedRule : String → String → Prop
  | ssh : ScopedRule "tcp dport 22 accept" "ssh"
  | webUi : ScopedRule "tcp dport \x7b 80, 443 \x7d accept" "web-ui"
  | dhcpHa (port : ℤ) : 1 ≤ port → port ≤ 65535 →
      ScopedRule s!"tcp dport {port} accept" "role:dhcp-ha"
  | peer : ScopedRule "tcp dport \x7b 2379, 2380, 10250 \x7d accept" "k3s-peer"
  | kubeapi : ScopedRule "tcp dport 6443 accept" "kubeapi"
  | kubelet : ScopedRule "tcp dport 10250 accept" "kubelet"
  | memberlistTcp : ScopedRule "tcp dport 7946 accept" "metallb-memberlist-tcp"
  | memberlistUdp : ScopedRule "udp dport 7946 accept" "metallb-memberlist-udp"
  | webhook : ScopedRule "tcp dport 19443 accept" "frr-k8s-webhook"

/-- Digits, hexadecimal letters, dots, colons, slashes and what separates the sources. -/
def PlainSet (sources : String) : Prop :=
  ∀ c ∈ sources.toList, isPlain c = true ∨ c = ',' ∨ c = ' '

inductive FixedLine : String → Prop
  | blank : FixedLine ""
  | comment {line : String} : line ∈ fixedComments → FixedLine line
  | openRule {line : String} : line ∈ openRules → FixedLine line
  | udpPort {port : ℤ} {profile : String} : 1 ≤ port → port ≤ 65535 → profile ∈ profileNames →
      FixedLine s!"udp dport {port} accept comment \"role:{profile}\""
  | tcpPort {port : ℤ} {profile : String} : 1 ≤ port → port ≤ 65535 → profile ∈ profileNames →
      FixedLine s!"tcp dport {port} accept comment \"role:{profile}\""
  | ip {sources rule comment : String} : PlainSet sources → ScopedRule rule comment →
      FixedLine s!"ip saddr \x7b {sources} \x7d {rule} comment \"{comment}-v4\""
  | ip6 {sources rule comment : String} : PlainSet sources → ScopedRule rule comment →
      FixedLine s!"ip6 saddr \x7b {sources} \x7d {rule} comment \"{comment}-v6\""

/-- The statements nft reads. A comment goes to the end of its line, a line break or a semicolon
ends a statement, and an empty one says nothing. -/
def nftStatements (text : Chars) : List Chars :=
  ((text.splitOn '\n').flatMap fun line => (line.takeWhile (· ≠ '#')).splitOn ';').filter (· ≠ [])

def isRule (line : String) : Bool := line.toList.head?.any (· ≠ '#')

/-- A character that no rule has: it would end the rule, or it is part of a zone. -/
def foreignChar (c : Char) : Bool := c = '%' || c = '\n' || c = ';' || c = '#'

/-- A text without any. -/
def clean (s : String) : Bool := s.toList.all fun c => !foreignChar c

theorem clean_append (s t : String) : clean (s ++ t) = (clean s && clean t) := by
  rw [clean, String.toList_append, List.all_append]
  rfl

theorem clean_toString_int (n : ℤ) : clean (toString n) = true := by
  rw [clean, List.all_eq_true]
  intro c hc
  rcases isDigit_or_minus hc with hdigit | rfl
  · have hne : ∀ d : Char, d.isDigit = false → c ≠ d := by
      rintro d hd rfl
      rw [hdigit] at hd
      cases hd
    simp [foreignChar, hne '%' rfl, hne '\n' rfl, hne ';' rfl, hne '#' rfl]
  · rfl

theorem clean_of_plainSet {sources : String} (h : PlainSet sources) : clean sources = true := by
  rw [clean, List.all_eq_true]
  intro c hc
  have hne : ∀ d : Char, isPlain d = false → d ≠ ',' → d ≠ ' ' → c ≠ d := by
    rintro d hd hcomma hblank rfl
    rcases h c hc with hplain | hcase | hcase
    · rw [hplain] at hd
      cases hd
    · exact hcomma hcase
    · exact hblank hcase
  simp [foreignChar, hne '%' (by decide), hne '\n' (by decide), hne ';' (by decide),
    hne '#' (by decide)]

theorem clean_of_scopedRule {rule comment : String} (h : ScopedRule rule comment) :
    clean rule = true ∧ clean comment = true := by
  cases h with
  | dhcpHa port =>
    simp only [clean_append, clean_toString_int]
    decide
  | _ => decide

theorem clean_of_profile {profile : String} (h : profile ∈ profileNames) :
    clean profile = true := by
  have hall : ∀ profile ∈ profileNames, clean profile = true := by decide
  exact hall profile h

theorem isRule_append (h : isRule s = true) (t : String) : isRule (s ++ t) = true := by
  rw [isRule, Option.any_eq_true] at h
  obtain ⟨c, hc, hne⟩ := h
  rw [isRule, String.toList_append, List.head?_append, hc]
  exact hne

theorem FixedLine.cases_isRule (h : FixedLine line) :
    (isRule line = true ∧ clean line = true) ∨
      isRule line = false ∧ '\n' ∉ line.toList ∧ '%' ∉ line.toList := by
  cases h with
  | blank => exact .inr (by decide)
  | comment h =>
    have hall : ∀ line ∈ fixedComments, isRule line = false ∧ '\n' ∉ line.toList ∧
      '%' ∉ line.toList := by decide +kernel
    exact .inr (hall line h)
  | openRule h =>
    have hall : ∀ line ∈ openRules, isRule line = true ∧ clean line = true := by decide
    exact .inl (hall line h)
  | udpPort _ _ h =>
    refine .inl ⟨?_, ?_⟩
    · simp only [String.append_assoc]
      exact isRule_append (by decide) _
    · simp only [clean_append, clean_toString_int]
      simp only [toString, clean_of_profile h]
      decide
  | tcpPort _ _ h =>
    refine .inl ⟨?_, ?_⟩
    · simp only [String.append_assoc]
      exact isRule_append (by decide) _
    · simp only [clean_append, clean_toString_int]
      simp only [toString, clean_of_profile h]
      decide
  | ip hset hrule =>
    refine .inl ⟨?_, ?_⟩
    · simp only [String.append_assoc]
      exact isRule_append (by decide) _
    · simp only [clean_append, toString, clean_of_plainSet hset, clean_of_scopedRule hrule]
      decide
  | ip6 hset hrule =>
    refine .inl ⟨?_, ?_⟩
    · simp only [String.append_assoc]
      exact isRule_append (by decide) _
    · simp only [clean_append, toString, clean_of_plainSet hset, clean_of_scopedRule hrule]
      decide

theorem not_mem_of_clean (h : clean s = true) {c : Char} (hc : foreignChar c = true) :
    c ∉ s.toList := by
  intro hmem
  have hnot := List.all_eq_true.1 h c hmem
  rw [hc] at hnot
  cases hnot

theorem FixedLine.newline (h : FixedLine line) : '\n' ∉ line.toList := by
  rcases h.cases_isRule with ⟨-, hclean⟩ | ⟨-, hbreak, -⟩
  · exact not_mem_of_clean hclean rfl
  · exact hbreak

theorem FixedLine.percent (h : FixedLine line) : '%' ∉ line.toList := by
  rcases h.cases_isRule with ⟨-, hclean⟩ | ⟨-, -, hzone⟩
  · exact not_mem_of_clean hclean rfl
  · exact hzone

theorem FixedLine.statements (h : FixedLine line) :
    ((line.toList.takeWhile (· ≠ '#')).splitOn ';').filter (· ≠ []) =
      if isRule line then [line.toList] else [] := by
  rcases h.cases_isRule with ⟨hrule, hclean⟩ | ⟨hrule, -⟩
  · have htake : line.toList.takeWhile (· ≠ '#') = line.toList := by
      rw [List.takeWhile_eq_self_iff]
      intro c hc
      exact decide_eq_true fun heq => not_mem_of_clean hclean (c := '#') rfl (heq ▸ hc)
    have hne : line.toList ≠ [] := by
      intro hnil
      rw [isRule, hnil] at hrule
      cases hrule
    rw [htake, List.splitOn_eq_singleton (not_mem_of_clean hclean rfl), if_pos hrule,
      List.filter_singleton]
    simp [hne]
  · have htake : line.toList.takeWhile (· ≠ '#') = [] := by
      cases hline : line.toList with
      | nil => rfl
      | cons c rest =>
        rw [isRule, hline] at hrule
        have hc : decide (c ≠ '#') = false := hrule
        rw [List.takeWhile_cons_of_neg (by rw [hc]; exact Bool.false_ne_true)]
    rw [htake, hrule]
    rfl

theorem splitOn_bodyOf (hne : lines ≠ []) (h : ∀ line ∈ lines, '\n' ∉ line.toList) :
    (bodyOf lines).toList.splitOn '\n' = lines.map String.toList ++ [[]] := by
  have htext : (bodyOf lines).toList = ['\n'].intercalate (lines.map String.toList) ++ ['\n'] := by
    rw [bodyOf, String.toList_append, String.toList_intercalate]
    rfl
  rw [htext, List.splitOn_append_cons_self, List.splitOn_intercalate '\n' ?_ (by simpa using hne)]
  · rfl
  · intro part hpart
    obtain ⟨line, hline, rfl⟩ := List.mem_map.1 hpart
    exact h line hline

theorem nftStatements_bodyOf (hne : lines ≠ []) (h : ∀ line ∈ lines, FixedLine line) :
    nftStatements (bodyOf lines).toList = (lines.filter isRule).map String.toList := by
  have hlines : ∀ lines : List String, (∀ line ∈ lines, FixedLine line) →
      ((lines.map String.toList).flatMap fun line =>
        (line.takeWhile (· ≠ '#')).splitOn ';').filter (· ≠ []) =
      (lines.filter isRule).map String.toList := by
    intro lines h
    induction lines with
    | nil => rfl
    | cons line lines ih =>
      obtain ⟨hline, hrest⟩ := List.forall_mem_cons.1 h
      rw [List.map_cons, List.flatMap_cons, List.filter_append, ih hrest, hline.statements,
        List.filter_cons]
      split <;> rfl
  rw [nftStatements, splitOn_bodyOf hne fun line hline => (h line hline).newline,
    List.flatMap_append, List.filter_append, hlines lines h]
  exact List.append_nil _

end SpatiumDdi.Appliance.Supervisor
