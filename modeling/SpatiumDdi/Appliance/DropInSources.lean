import SpatiumDdi.Appliance.DropInLines

/-!
No source of the drop-in injects a rule, but one that keeps a zone: `ipaddress` prints a zone back
as it stands, and a zone holds any text.
-/

namespace SpatiumDdi.Appliance.Supervisor

open Text Ipaddress

variable {Raw : Type}

/-- The renderer's parsers, with Python's `ipaddress`. -/
def pythonParsers (int : Raw → Option ℤ) : Parsers Raw := ⟨ipNetwork, int⟩

def textBelow (P : Parsers Raw) (i : Inputs Raw) : Chars :=
  (renderDropIn P i).body.toList.drop (bodyOf (topLines i)).toList.length

/-- Above the roles stand comments, below them lines of the fixed shapes, and nft reads the rules
the renderer emitted. -/
structure NoInjection (P : Parsers Raw) (i : Inputs Raw) : Prop where
  top : (renderDropIn P i).body.toList = (bodyOf (topLines i)).toList ++ textBelow P i
  lines : ∀ line ∈ (textBelow P i).splitOn '\n', FixedLine (String.ofList line)
  rules : nftStatements (textBelow P i) = ((emittedLines P i).filter isRule).map String.toList

def renderedCidrs (P : Parsers Raw) (i : Inputs Raw) : List (Option String) :=
  let ra := i.roleAssignment
  i.sshScopeCidrs ++ i.webUiAllowedCidrs ++ i.clusterPeerCidrs ++ i.podCidrs ++ i.serviceCidrs ++
    (if IsCp P i then ra.kubeapiExposeCidrs else []) ++
    if "dhcp" ∈ ra.roleNames ∧ (ra.dhcpHaPort.bind P.port).isSome then ra.dhcpHaPeerCidrs else []

def zoned (cidr : Option String) : Bool := cidr.any fun c => keepsZone (strip c)

@[simp] theorem zoned_some (c : String) : zoned (some c) = keepsZone (strip c) := by
  rw [zoned, Option.any_some]

@[simp] theorem pythonParsers_ipNetwork (int : Raw → Option ℤ) (s : String) :
    (pythonParsers int).ipNetwork s = ipNetwork s := by
  rw [pythonParsers]

theorem keepsZone_empty : keepsZone "" = false := by decide

variable {int : Raw → Option ℤ}

variable {P : Parsers Raw} {cidrs : List (Option String)} {text : String}

theorem mem_splitFamilies :
    (text ∈ (P.splitFamilies cidrs).1 ↔ ∃ version, version ≠ .v6 ∧
      (text, version) ∈ P.validatedCidrs cidrs) ∧
    (text ∈ (P.splitFamilies cidrs).2 ↔ (text, .v6) ∈ P.validatedCidrs cidrs) := by
  simp only [Parsers.splitFamilies, mem_sortedSet, List.mem_map, List.mem_filter]
  constructor
  · constructor
    · rintro ⟨⟨text, version⟩, ⟨hmem, hversion⟩, rfl⟩
      exact ⟨version, by simpa using hversion, hmem⟩
    · rintro ⟨version, hversion, hmem⟩
      exact ⟨(text, version), ⟨hmem, by simpa using hversion⟩, rfl⟩
  · constructor
    · rintro ⟨⟨text, version⟩, ⟨hmem, hversion⟩, rfl⟩
      have hv6 : version = .v6 := by simpa using hversion
      exact hv6 ▸ hmem
    · intro hmem
      exact ⟨(text, .v6), ⟨hmem, by simp⟩, rfl⟩

theorem mem_validatedCidrs {network : String × Version} :
    network ∈ P.validatedCidrs cidrs ↔
      ∃ s, some s ∈ cidrs ∧ strip s ≠ "" ∧ P.ipNetwork (strip s) = some network := by
  rw [Parsers.validatedCidrs, List.mem_filterMap]
  constructor
  · rintro ⟨cidr, hcidr, hread⟩
    obtain ⟨s, rfl, hs⟩ := Option.bind_eq_some_iff.1 hread
    obtain ⟨hne, hs⟩ := Option.ite_none_left_eq_some.mp hs
    exact ⟨s, hcidr, hne, hs⟩
  · rintro ⟨s, hcidr, hne, hs⟩
    refine ⟨some s, hcidr, ?_⟩
    rw [Option.bind_some, if_neg hne, hs]

theorem isPlain_of_validated {version : Version}
    (hmem : (text, version) ∈ (pythonParsers int).validatedCidrs cidrs)
    (h : ∀ cidr ∈ cidrs, zoned cidr = false) : ∀ c ∈ text.toList, isPlain c = true := by
  obtain ⟨s, hs, -, hread⟩ := mem_validatedCidrs.1 hmem
  have hnot := h _ hs
  rw [zoned_some] at hnot
  rw [pythonParsers_ipNetwork] at hread
  rcases ipNetwork_cases hread with ⟨hkeeps, -⟩ | ⟨-, hplain⟩
  · rw [hnot] at hkeeps
    cases hkeeps
  · exact hplain

theorem isPlain_splitFamilies
    (hmem : text ∈ ((pythonParsers int).splitFamilies cidrs).1 ∨ text ∈ ((pythonParsers int).splitFamilies cidrs).2)
    (h : ∀ cidr ∈ cidrs, zoned cidr = false) : ∀ c ∈ text.toList, isPlain c = true := by
  rcases hmem with hmem | hmem
  · obtain ⟨version, -, hmem⟩ := mem_splitFamilies.1.1 hmem
    exact isPlain_of_validated hmem h
  · exact isPlain_of_validated (mem_splitFamilies.2.1 hmem) h

variable {cidr : Option String}

theorem exists_of_zoned (int : Raw → Option ℤ) (hmem : cidr ∈ cidrs) (h : zoned cidr = true) :
    ∃ text ∈ ((pythonParsers int).splitFamilies cidrs).2, '%' ∈ text.toList := by
  obtain ⟨s, rfl, hkeeps⟩ := (Option.any_eq_true _ _).1 h
  obtain ⟨text, hread, hzone⟩ := ipNetwork_of_keepsZone hkeeps
  have hne : strip s ≠ "" := by
    intro hempty
    rw [hempty, keepsZone_empty] at hkeeps
    cases hkeeps
  rw [← pythonParsers_ipNetwork int] at hread
  exact ⟨text, mem_splitFamilies.2.2 (mem_validatedCidrs.2 ⟨s, hmem, hne, hread⟩), hzone⟩

theorem plainSet_commas {sources : List String}
    (h : ∀ text ∈ sources, ∀ c ∈ text.toList, isPlain c = true) : PlainSet (commas sources) := by
  intro c hc
  rw [commas, String.toList_intercalate] at hc
  induction sources with
  | nil => cases hc
  | cons text sources ih =>
    obtain ⟨htext, hrest⟩ := List.forall_mem_cons.1 h
    cases sources with
    | nil => exact .inl (htext c (by simpa using hc))
    | cons text' sources =>
      rw [List.map_cons, List.map_cons, List.intercalate_cons_cons, List.append_assoc,
        List.mem_append, List.mem_append] at hc
      rcases hc with hc | hc | hc
      · exact .inl (htext c hc)
      · exact .inr (by simpa using hc)
      · exact ih hrest hc

theorem mem_toList_intercalate {sep : String} {parts : List String} {part : String}
    (h : part ∈ parts) {c : Char} (hc : c ∈ part.toList) : c ∈ (sep.intercalate parts).toList := by
  rw [String.toList_intercalate]
  induction parts with
  | nil => cases h
  | cons first parts ih =>
    cases parts with
    | nil =>
      rw [List.mem_singleton.1 h] at hc
      simpa using hc
    | cons second parts =>
      rw [List.map_cons, List.map_cons, List.intercalate_cons_cons, List.append_assoc,
        List.mem_append, List.mem_append]
      rcases List.mem_cons.1 h with rfl | h
      · exact .inl hc
      · exact .inr (.inr (ih h))

variable {rule comment : String} {v4 v6 : List String}

theorem fixedLine_of_emitFamilyRule (hv4 : ∀ text ∈ v4, ∀ c ∈ text.toList, isPlain c = true)
    (hv6 : ∀ text ∈ v6, ∀ c ∈ text.toList, isPlain c = true) (hrule : ScopedRule rule comment) :
    ∀ line ∈ emitFamilyRule v4 v6 rule comment, FixedLine line := by
  intro line hline
  rcases List.mem_append.1 hline with hline | hline
  · split at hline
    next => cases hline
    next =>
      rw [List.mem_singleton.1 hline]
      exact .ip (plainSet_commas hv4) hrule
  · split at hline
    next => cases hline
    next =>
      rw [List.mem_singleton.1 hline]
      exact .ip6 (plainSet_commas hv6) hrule

def scopedLines (P : Parsers Raw) (cidrs : List (Option String)) (rule comment : String) :
    List String :=
  emitFamilyRule (P.splitFamilies cidrs).1 (P.splitFamilies cidrs).2 rule comment

theorem fixedLine_of_scoped (h : ∀ cidr ∈ cidrs, zoned cidr = false)
    (hrule : ScopedRule rule comment) :
    ∀ line ∈ scopedLines (pythonParsers int) cidrs rule comment, FixedLine line :=
  fixedLine_of_emitFamilyRule (fun _ htext => isPlain_splitFamilies (.inl htext) h)
    (fun _ htext => isPlain_splitFamilies (.inr htext) h) hrule

theorem exists_of_zoned_scoped (int : Raw → Option ℤ) (hmem : cidr ∈ cidrs) (h : zoned cidr = true)
    (rule comment : String) :
    ∃ line ∈ scopedLines (pythonParsers int) cidrs rule comment, '%' ∈ line.toList := by
  obtain ⟨text, htext, hzone⟩ := exists_of_zoned int hmem h
  let sources := commas ((pythonParsers int).splitFamilies cidrs).2
  refine ⟨s!"ip6 saddr \x7b {sources} \x7d {rule} comment \"{comment}-v6\"",
    List.mem_append_right _ ?_, ?_⟩
  · rw [if_neg (List.ne_nil_of_mem htext)]
    exact List.mem_singleton_self _
  · have hcommas : '%' ∈ sources.toList := mem_toList_intercalate htext hzone
    simp [toString, hcommas]

theorem fixedLine_of_directives (P : Parsers Raw) (i : Inputs Raw) :
    ∀ line ∈ directives P i, FixedLine line := by
  have hcomments : ∀ line ∈ directives P i, line ∈ fixedComments ∨ line = "" := by
    unfold directives
    dsimp only
    split <;> split <;> split <;> decide +kernel
  intro line hline
  rcases hcomments line hline with h | rfl
  · exact .comment h
  · exact .blank

theorem fixedLine_of_scopedOrOpen (h : ∀ cidr ∈ cidrs, zoned cidr = false)
    (hrule : ScopedRule rule comment) (hopen : s!"{rule} comment \"{comment}\"" ∈ openRules) :
    ∀ line ∈ scopedOrOpen (pythonParsers int) cidrs rule comment, FixedLine line := by
  intro line hline
  unfold scopedOrOpen at hline
  split at hline
  · exact fixedLine_of_scoped h hrule line hline
  · rw [List.mem_singleton.1 hline]
    exact .openRule hopen

theorem mem_profileNames (roles : List String) : profileName roles ∈ profileNames := by
  unfold profileName
  dsimp only
  split
  · decide
  · split
    · decide
    · split <;> decide

variable {roles : List String} {port : ℤ}

theorem port_of_mem_sortedSet {table : String → List ℤ} {encrypted : List Raw}
    (htable : ∀ role, ∀ port ∈ table role, 1 ≤ port ∧ port ≤ 65535)
    (h : port ∈ sortedSet (roles.flatMap table ++ if hasDns roles then encrypted.filterMap P.port else [])) :
    1 ≤ port ∧ port ≤ 65535 := by
  rcases List.mem_append.1 (mem_sortedSet.1 h) with h | h
  · obtain ⟨role, -, hrole⟩ := List.mem_flatMap.1 h
    exact htable role port hrole
  · split at h
    · obtain ⟨raw, -, hraw⟩ := List.mem_filterMap.1 h
      exact of_decide_eq_true (Option.filter_eq_some_iff.1 hraw).2
    · cases h

theorem rolePortsTcp_port (role : String) :
    ∀ port ∈ rolePortsTcp role, 1 ≤ port ∧ port ≤ 65535 := by
  unfold rolePortsTcp
  split <;> decide

theorem rolePortsUdp_port (role : String) :
    ∀ port ∈ rolePortsUdp role, 1 ≤ port ∧ port ≤ 65535 := by
  unfold rolePortsUdp
  split <;> decide

variable {ra : RoleAssignment Raw}

theorem dhcpHaRule_eq_some (h : P.dhcpHaRule ra roles = some (port, v4, v6)) :
    "dhcp" ∈ roles ∧ ra.dhcpHaPort.bind P.port = some port ∧
      P.splitFamilies ra.dhcpHaPeerCidrs = (v4, v6) := by
  obtain ⟨hdhcp, h⟩ := Option.ite_none_left_eq_some.mp h
  obtain ⟨port', hport, h⟩ := Option.bind_eq_some_iff.1 h
  dsimp only at h
  split at h
  next => cases h
  next =>
    obtain ⟨rfl, hfamilies⟩ : port' = port ∧ P.splitFamilies ra.dhcpHaPeerCidrs = (v4, v6) := by
      simpa using h
    exact ⟨not_not.1 hdhcp, hport, hfamilies⟩

theorem port_bounds {raw : Option Raw} (h : raw.bind P.port = some port) :
    1 ≤ port ∧ port ≤ 65535 := by
  obtain ⟨raw, -, hport⟩ := Option.bind_eq_some_iff.1 h
  exact of_decide_eq_true (Option.filter_eq_some_iff.1 hport).2

theorem fixedLine_of_serviceHeader {b : Prop} [Decidable b] :
    ∀ line ∈ (if b then ["", "# ── Per-role service ports ─────────────────────────────"] else []),
      FixedLine line := by
  intro line hline
  split at hline
  · rcases List.mem_cons.1 hline with rfl | hline
    · exact .blank
    · rw [List.mem_singleton.1 hline]
      exact .comment (by decide +kernel)
  · cases hline

theorem fixedLine_of_servicePorts {profile : String} (hprofile : profile ∈ profileNames)
    (h : "dhcp" ∈ roles → (ra.dhcpHaPort.bind (pythonParsers int).port).isSome → ∀ cidr ∈ ra.dhcpHaPeerCidrs, zoned cidr = false) :
    ∀ line ∈ (servicePorts (pythonParsers int) ra roles profile).lines, FixedLine line := by
  have hports : ∀ roleUdp roleTcp : List ℤ,
      (∀ port ∈ sortedSet roleUdp, 1 ≤ port ∧ port ≤ 65535) →
      (∀ port ∈ sortedSet roleTcp, 1 ≤ port ∧ port ≤ 65535) →
      ∀ line ∈ (if roleUdp ≠ [] ∨ roleTcp ≠ [] then
          ["", "# ── Per-role service ports ─────────────────────────────"] else []) ++
        (sortedSet roleUdp).map (fun p => s!"udp dport {p} accept comment \"role:{profile}\"") ++
        (sortedSet roleTcp).map fun p => s!"tcp dport {p} accept comment \"role:{profile}\"",
      FixedLine line := by
    intro roleUdp roleTcp hudp htcp line hline
    rcases List.mem_append.1 hline with hline | hline
    · rcases List.mem_append.1 hline with hline | hline
      · exact fixedLine_of_serviceHeader line hline
      · obtain ⟨port, hport, rfl⟩ := List.mem_map.1 hline
        exact .udpPort (hudp port hport).1 (hudp port hport).2 hprofile
    · obtain ⟨port, hport, rfl⟩ := List.mem_map.1 hline
      exact .tcpPort (htcp port hport).1 (htcp port hport).2 hprofile
  unfold servicePorts
  dsimp only
  split
  next =>
    exact hports _ _ (fun _ => port_of_mem_sortedSet rolePortsUdp_port)
      fun _ => port_of_mem_sortedSet rolePortsTcp_port
  next port v4 v6 hha =>
    obtain ⟨hdhcp, hport, hfamilies⟩ := dhcpHaRule_eq_some hha
    intro line hline
    rcases List.mem_append.1 hline with hline | hline
    · exact hports _ _ (fun _ => port_of_mem_sortedSet rolePortsUdp_port)
        (fun _ => port_of_mem_sortedSet rolePortsTcp_port) line hline
    · rcases List.mem_append.1 hline with hline | hline
      · rw [← ite_not] at hline
        exact fixedLine_of_serviceHeader line hline
      · have hrule := ScopedRule.dhcpHa port (port_bounds hport).1 (port_bounds hport).2
        have hpeers := h hdhcp (Option.isSome_of_mem hport)
        have hlines : line ∈ scopedLines (pythonParsers int) ra.dhcpHaPeerCidrs
            s!"tcp dport {port} accept" "role:dhcp-ha" := by
          rw [scopedLines, hfamilies]
          exact hline
        exact fixedLine_of_scoped hpeers hrule line hlines

theorem fixedLine_of_scopedRule (h : ∀ cidr ∈ cidrs, zoned cidr = false)
    (hrule : ScopedRule s!"tcp dport {port} accept" comment) :
    ∀ line ∈ (scopedRule ((pythonParsers int).splitFamilies cidrs) port comment).lines,
      FixedLine line := by
  intro line hline
  unfold scopedRule at hline
  split at hline
  · exact fixedLine_of_scoped h hrule line hline
  · cases hline

variable {i : Inputs Raw}

theorem fixedLine_of_controlPlane (hpeers : ∀ cidr ∈ i.clusterPeerCidrs, zoned cidr = false)
    (hnetworks : ∀ cidr ∈ i.podCidrs ++ i.serviceCidrs, zoned cidr = false)
    (hkubeapi : ∀ cidr ∈ i.roleAssignment.kubeapiExposeCidrs, zoned cidr = false) :
    ∀ line ∈ (controlPlane (pythonParsers int) i
        ((pythonParsers int).splitFamilies i.clusterPeerCidrs).1
        ((pythonParsers int).splitFamilies i.clusterPeerCidrs).2).lines, FixedLine line := by
  intro line hline
  have hpeer : ∀ {rule comment}, ScopedRule rule comment →
      line ∈ scopedLines (pythonParsers int) i.clusterPeerCidrs rule comment → FixedLine line :=
    fun hrule => fixedLine_of_scoped hpeers hrule line
  unfold controlPlane at hline
  simp only [Section.append, List.mem_append] at hline
  rcases hline with (((hline | hline) | hline) | hline) | hline
  · rcases List.mem_cons.1 hline with rfl | hline
    · exact .blank
    · rw [List.mem_singleton.1 hline]
      exact .comment (by decide +kernel)
  · split at hline
    · exact hpeer .peer hline
    · cases hline
  · have hrule : ScopedRule s!"tcp dport {k3sApiserverTcp} accept" "kubeapi" := .kubeapi
    refine fixedLine_of_scopedRule ?_ hrule line hline
    intro cidr hcidr
    simp only [List.mem_append] at hcidr hnetworks
    rcases hcidr with ((hcidr | hcidr) | hcidr) | hcidr
    · exact hpeers cidr hcidr
    · exact hnetworks cidr (.inl hcidr)
    · exact hnetworks cidr (.inr hcidr)
    · exact hkubeapi cidr hcidr
  · have hrule : ScopedRule s!"tcp dport {k3sKubeletTcp} accept" "kubelet" := .kubelet
    exact fixedLine_of_scopedRule hnetworks hrule line hline
  · split at hline
    · simp only [List.mem_append] at hline
      rcases hline with (hline | hline) | hline
      · exact hpeer .memberlistTcp hline
      · exact hpeer .memberlistUdp hline
      · exact hpeer .webhook hline
    · cases hline

theorem fixedLine_of_emitted
    (h : ∀ cidr ∈ renderedCidrs (pythonParsers int) i, zoned cidr = false) :
    ∀ line ∈ emittedLines (pythonParsers int) i, FixedLine line := by
  simp only [renderedCidrs, List.mem_append, or_imp, forall_and] at h
  obtain ⟨⟨⟨⟨⟨⟨hssh, hweb⟩, hpeers⟩, hpods⟩, hservices⟩, hkubeapi⟩, hha⟩ := h
  intro line hline
  simp only [emittedLines, List.mem_append] at hline
  rcases hline with ((((hline | hline) | hline) | hline) | hline) | hline
  · exact fixedLine_of_directives _ i line hline
  · exact fixedLine_of_scopedOrOpen hssh .ssh (by decide) line hline
  · exact .openRule (List.mem_append_right _ hline)
  · exact fixedLine_of_scopedOrOpen hweb .webUi (by decide) line hline
  · refine fixedLine_of_servicePorts (mem_profileNames _) ?_ line hline
    intro hdhcp hport
    rw [if_pos ⟨hdhcp, hport⟩] at hha
    exact hha
  · split at hline
    next hcp =>
      rw [if_pos hcp] at hkubeapi
      refine fixedLine_of_controlPlane hpeers ?_ hkubeapi line hline
      intro cidr hcidr
      rcases List.mem_append.1 hcidr with hcidr | hcidr
      · exact hpods cidr hcidr
      · exact hservices cidr hcidr
    next => cases hline

theorem exists_of_zoned_scopedRule (int : Raw → Option ℤ) (hmem : cidr ∈ cidrs)
    (h : zoned cidr = true) (port : ℤ) (comment : String) :
    ∃ line ∈ (scopedRule ((pythonParsers int).splitFamilies cidrs) port comment).lines,
      '%' ∈ line.toList := by
  obtain ⟨text, htext, -⟩ := exists_of_zoned int hmem h
  rw [scopedRule, if_pos (.inr (List.ne_nil_of_mem htext))]
  exact exists_of_zoned_scoped int hmem h _ _

theorem exists_of_zoned_scopedOrOpen (int : Raw → Option ℤ) (hmem : cidr ∈ cidrs)
    (h : zoned cidr = true) (rule comment : String) :
    ∃ line ∈ scopedOrOpen (pythonParsers int) cidrs rule comment, '%' ∈ line.toList := by
  rw [scopedOrOpen, if_pos (List.ne_nil_of_mem hmem)]
  exact exists_of_zoned_scoped int hmem h rule comment

theorem exists_of_zoned_controlPlane (int : Raw → Option ℤ)
    (hmem : cidr ∈ i.clusterPeerCidrs ++ i.podCidrs ++ i.serviceCidrs ++ i.roleAssignment.kubeapiExposeCidrs)
    (h : zoned cidr = true) (peerV4 peerV6 : List String) :
    ∃ line ∈ (controlPlane (pythonParsers int) i peerV4 peerV6).lines, '%' ∈ line.toList := by
  obtain ⟨line, hline, hzone⟩ := exists_of_zoned_scopedRule int hmem h k3sApiserverTcp
    "kubeapi"
  refine ⟨line, ?_, hzone⟩
  simp only [controlPlane, Section.append, List.mem_append]
  exact .inl (.inl (.inr hline))

theorem exists_of_zoned_servicePorts (int : Raw → Option ℤ) (hmem : cidr ∈ ra.dhcpHaPeerCidrs)
    (h : zoned cidr = true) (hdhcp : "dhcp" ∈ roles)
    (hport : (ra.dhcpHaPort.bind (pythonParsers int).port).isSome) (profile : String) :
    ∃ line ∈ (servicePorts (pythonParsers int) ra roles profile).lines, '%' ∈ line.toList := by
  obtain ⟨port, hport⟩ := Option.isSome_iff_exists.1 hport
  obtain ⟨text, htext, -⟩ := exists_of_zoned int hmem h
  have hha : (pythonParsers int).dhcpHaRule ra roles =
      some (port, (pythonParsers int).splitFamilies ra.dhcpHaPeerCidrs) := by
    rw [Parsers.dhcpHaRule, if_neg (not_not.2 hdhcp), hport, Option.bind_some]
    dsimp only
    rw [if_neg fun hnil => List.ne_nil_of_mem htext hnil.2]
  obtain ⟨line, hline, hzone⟩ := exists_of_zoned_scoped int hmem h
    s!"tcp dport {port} accept" "role:dhcp-ha"
  refine ⟨line, ?_, hzone⟩
  unfold servicePorts
  dsimp only
  rw [hha]
  exact List.mem_append_right _ (List.mem_append_right _ hline)

theorem exists_of_zoned_rendered (hmem : cidr ∈ renderedCidrs (pythonParsers int) i)
    (h : zoned cidr = true) : ∃ line ∈ emittedLines (pythonParsers int) i, '%' ∈ line.toList := by
  have hcontrol : IsCp (pythonParsers int) i →
      cidr ∈ i.clusterPeerCidrs ++ i.podCidrs ++ i.serviceCidrs ++
        i.roleAssignment.kubeapiExposeCidrs →
      ∃ line ∈ emittedLines (pythonParsers int) i, '%' ∈ line.toList := by
    intro hcp hcidr
    obtain ⟨line, hline, hzone⟩ := exists_of_zoned_controlPlane int hcidr h
      ((pythonParsers int).splitFamilies i.clusterPeerCidrs).1
      ((pythonParsers int).splitFamilies i.clusterPeerCidrs).2
    refine ⟨line, ?_, hzone⟩
    simp only [emittedLines, if_pos hcp, List.mem_append]
    exact .inr hline
  simp only [renderedCidrs, List.mem_append] at hmem
  rcases hmem with (((((hmem | hmem) | hmem) | hmem) | hmem) | hmem) | hmem
  · obtain ⟨line, hline, hzone⟩ := exists_of_zoned_scopedOrOpen int hmem h
      "tcp dport 22 accept" "ssh"
    refine ⟨line, ?_, hzone⟩
    simp only [emittedLines, List.mem_append]
    exact .inl (.inl (.inl (.inl (.inr hline))))
  · obtain ⟨line, hline, hzone⟩ := exists_of_zoned_scopedOrOpen int hmem h
      "tcp dport \x7b 80, 443 \x7d accept" "web-ui"
    refine ⟨line, ?_, hzone⟩
    simp only [emittedLines, List.mem_append]
    exact .inl (.inl (.inr hline))
  · obtain ⟨text, htext, -⟩ := exists_of_zoned int hmem h
    refine hcontrol (.inl (.inr (List.ne_nil_of_mem htext))) ?_
    simp only [List.mem_append]
    exact .inl (.inl (.inl hmem))
  · refine hcontrol (.inr (.inl (List.ne_nil_of_mem hmem))) ?_
    simp only [List.mem_append]
    exact .inl (.inl (.inr hmem))
  · refine hcontrol (.inr (.inr (List.ne_nil_of_mem hmem))) ?_
    simp only [List.mem_append]
    exact .inl (.inr hmem)
  · split at hmem
    next hcp =>
      refine hcontrol hcp ?_
      simp only [List.mem_append]
      exact .inr hmem
    next => cases hmem
  · split at hmem
    next hha =>
      obtain ⟨line, hline, hzone⟩ := exists_of_zoned_servicePorts int hmem h hha.1 hha.2
        (profileName i.roleAssignment.roleNames)
      refine ⟨line, ?_, hzone⟩
      simp only [emittedLines, List.mem_append]
      exact .inl (.inr hline)
    next => cases hmem

theorem emittedLines_ne_nil (P : Parsers Raw) (i : Inputs Raw) : emittedLines P i ≠ [] := by
  simp [emittedLines, directives]

theorem bodyOf_append {lines more : List String} (h : lines ≠ []) (hmore : more ≠ []) :
    bodyOf (lines ++ more) = bodyOf lines ++ bodyOf more := by
  rw [bodyOf, String.intercalate_append_of_ne_nil h hmore, bodyOf, bodyOf]
  simp only [String.append_assoc]

section

variable (h : i.roleAssignment.firewallExtra = "")
include h

theorem renderDropIn_toList :
    (renderDropIn P i).body.toList =
      (bodyOf (topLines i)).toList ++ (bodyOf (emittedLines P i)).toList := by
  have htop : topLines i ≠ [] := List.cons_ne_nil _ _
  rw [renderDropIn_body h, bodyOf_append htop (emittedLines_ne_nil P i), String.toList_append]

theorem textBelow_eq : textBelow P i = (bodyOf (emittedLines P i)).toList := by
  rw [textBelow, renderDropIn_toList h, List.drop_left]

end

theorem zoned_of_noInjection (hextra : i.roleAssignment.firewallExtra = "")
    (h : NoInjection (pythonParsers int) i) :
    ∀ cidr ∈ renderedCidrs (pythonParsers int) i, zoned cidr = false := by
  intro cidr hcidr
  by_contra hzoned
  obtain ⟨line, hline, hzone⟩ := exists_of_zoned_rendered hcidr (Bool.of_not_eq_false hzoned)
  have hmem : '%' ∈ textBelow (pythonParsers int) i := by
    rw [textBelow_eq hextra, bodyOf, String.toList_append]
    exact List.mem_append_left _ (mem_toList_intercalate hline hzone)
  have hjoin : ['\n'].intercalate ((textBelow (pythonParsers int) i).splitOn '\n') =
      textBelow (pythonParsers int) i := List.intercalate_splitOn '\n'
  rw [← hjoin] at hmem
  rcases mem_intercalate hmem with hbreak | ⟨part, hpart, hzone⟩
  · exact absurd hbreak (by decide)
  · have hfixed := (h.lines part hpart).percent
    rw [String.toList_ofList] at hfixed
    exact hfixed hzone

/-- No source injects a rule exactly where none that is written keeps a zone. -/
theorem noInjection_iff (int : Raw → Option ℤ) (i : Inputs Raw)
    (hextra : i.roleAssignment.firewallExtra = "") :
    NoInjection (pythonParsers int) i ↔
      ∀ cidr ∈ renderedCidrs (pythonParsers int) i, zoned cidr = false := by
  have hbelow := textBelow_eq (P := pythonParsers int) hextra
  have hne := emittedLines_ne_nil (pythonParsers int) i
  constructor
  · exact zoned_of_noInjection hextra
  · intro h
    have hlines := fixedLine_of_emitted h
    refine ⟨?_, ?_, ?_⟩
    · rw [hbelow]
      exact renderDropIn_toList hextra
    · intro line hline
      rw [hbelow, splitOn_bodyOf hne fun line hline => (hlines line hline).newline] at hline
      rcases List.mem_append.1 hline with hline | hline
      · obtain ⟨line, hmem, rfl⟩ := List.mem_map.1 hline
        rw [String.ofList_toList]
        exact hlines line hmem
      · rw [List.mem_singleton.1 hline]
        exact .blank
    · rw [hbelow]
      exact nftStatements_bodyOf hne hlines

def sshFrom (cidr : String) : Inputs Unit := { roleAssignment := {}, sshScopeCidrs := [some cidr] }

theorem noInjection_plain : NoInjection (pythonParsers fun _ => none) (sshFrom "10.1.2.3/8") :=
  (noInjection_iff _ _ rfl).2 (by decide +kernel)

/-- A zone that closes the set and adds a rule. -/
def ruleInZone : String := "fe80::1%x \x7d\ntcp dport 6443 accept\nip6 saddr \x7b ::1"

theorem not_noInjection_zone :
    ¬ NoInjection (pythonParsers fun _ => none) (sshFrom ruleInZone) := by
  intro h
  have hzoned := zoned_of_noInjection rfl h (some ruleInZone) (by decide +kernel)
  exact absurd hzoned (by decide +kernel)

end SpatiumDdi.Appliance.Supervisor
