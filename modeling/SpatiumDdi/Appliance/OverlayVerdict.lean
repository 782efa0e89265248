import SpatiumDdi.Appliance.FirewallMerge

/-!
What the lines of the overlay do to a packet. The first line that matches decides, and a line
without a source set matches every source. The groups are read back to the rules they were made
of: a group says what its rules say, but where it has no source set and should have one.
-/

namespace SpatiumDdi.Appliance

open Text Ipaddress

private theorem toList_toString_int (n : ℤ) :
    (toString n).toList =
      if 0 ≤ n then Nat.toDigits 10 n.toNat else '-' :: Nat.toDigits 10 (-n).toNat := by
  rw [Int.toString_eq_repr, Int.repr_eq_if]
  split <;> simp [Nat.repr_eq_ofList_toDigits]

variable {n : ℤ}

theorem isDigit_or_minus {c : Char} (h : c ∈ (toString n).toList) : c.isDigit = true ∨ c = '-' := by
  have hdigit : ∀ m, c ∈ Nat.toDigits 10 m → c.isDigit = true := fun m hc =>
    Nat.isDigit_of_mem_toDigits (by decide) (by decide) hc
  rw [toList_toString_int] at h
  split at h
  · exact .inl (hdigit _ h)
  · rcases List.mem_cons.mp h with rfl | h
    · exact .inr rfl
    · exact .inl (hdigit _ h)

private theorem toDigits_inj {m n : ℕ} (h : Nat.toDigits 10 m = Nat.toDigits 10 n) : m = n := by
  rw [← Nat.ofDigitChars_ten_toDigits (n := m), h, Nat.ofDigitChars_ten_toDigits]

private theorem minus_ne {m : ℕ} {digits : List Char} : Nat.toDigits 10 m ≠ '-' :: digits := by
  intro h
  have hmem : '-' ∈ Nat.toDigits 10 m := by
    rw [h]
    exact List.mem_cons_self
  cases Nat.isDigit_of_mem_toDigits (b := 10) (by decide) (by decide) hmem

theorem toString_int_inj {m : ℤ} (h : toString m = toString n) : m = n := by
  have hlist := congrArg String.toList h
  rw [toList_toString_int, toList_toString_int] at hlist
  split at hlist
  · split at hlist
    · have := toDigits_inj hlist
      omega
    · exact absurd hlist minus_ne
  · split at hlist
    · exact absurd hlist.symm minus_ne
    · have := toDigits_inj (List.cons.inj hlist).2
      omega

/-- What stands around the ports of a set. -/
def inPort (c : Char) : Bool := c ≠ '\x7b' && c ≠ '\x7d' && c ≠ ' '

def portTexts (portset : String) : List String :=
  ((portset.toList.filter inPort).splitOn ',').map String.ofList

private theorem inPort_of_mem {c : Char} (h : c ∈ (toString n).toList) :
    inPort c = true ∧ c ≠ ',' := by
  rcases isDigit_or_minus h with hdigit | rfl
  · have hne : ∀ d : Char, d.isDigit = false → c ≠ d := by
      rintro d hd rfl
      rw [hdigit] at hd
      cases hd
    refine ⟨?_, hne ',' rfl⟩
    simp [inPort, hne '\x7b' rfl, hne '\x7d' rfl, hne ' ' rfl]
  · decide

theorem portTexts_portset {ports : List ℤ} (h : ports ≠ []) :
    portTexts (portset ports) = ports.map toString := by
  have hfilter : ∀ n : ℤ, (toString n).toList.filter inPort = (toString n).toList := fun n =>
    List.filter_eq_self.mpr fun c hc => (inPort_of_mem hc).1
  have hcommas : ∀ ports : List ℤ, (commas (ports.map toString)).toList.filter inPort =
      [','].intercalate (ports.map fun n => (toString n).toList) := by
    intro ports
    rw [commas, String.toList_intercalate, List.map_map]
    induction ports with
    | nil => rfl
    | cons n ports ih =>
      cases ports with
      | nil => simpa using hfilter n
      | cons m ports =>
        rw [List.map_cons, List.map_cons, List.intercalate_cons_cons, List.filter_append,
          List.filter_append, ← List.map_cons, ih]
        simp only [Function.comp_apply, hfilter, List.map_cons, List.intercalate_cons_cons]
        rfl
  have hset : (portset ports).toList.filter inPort =
      [','].intercalate (ports.map fun n => (toString n).toList) := by
    unfold portset
    split
    next n => simpa using hfilter n
    next =>
      rw [String.toList_append, String.toList_append, List.filter_append, List.filter_append,
        hcommas]
      exact List.append_nil _
  have hsplit : ([','].intercalate (ports.map fun n => (toString n).toList)).splitOn ',' =
      ports.map fun n => (toString n).toList := by
    refine List.splitOn_intercalate ',' ?_ (by simpa using h)
    intro part hpart hcomma
    obtain ⟨n, -, rfl⟩ := List.mem_map.mp hpart
    exact (inPort_of_mem hcomma).2 rfl
  rw [portTexts, hset, hsplit, List.map_map]
  exact List.map_congr_left fun n _ => String.ofList_toList

structure Packet (Addr : Type) where
  version : Version
  source : Addr
  protocol : Protocol
  port : Option ℤ

inductive Sources where
  | bare
  | ip (cidrs : List String)
  | ip6 (cidrs : List String)

structure OverlayLine where
  sources : Sources
  protocol : Protocol
  portset : String
  action : Action
  comment : String

def OverlayLine.text (l : OverlayLine) : String :=
  let dport := if l.portset = "" then "" else s!" dport {l.portset}"
  let rule := s!"{l.protocol}{dport} {l.action}"
  let comment := if l.comment = "" then toString l.protocol else l.comment
  match l.sources with
  | .bare => rule ++ if l.comment = "" then "" else s!" comment \"{l.comment}\""
  | .ip cidrs => s!"ip saddr \x7b {commas cidrs} \x7d {rule} comment \"{comment}-v4\""
  | .ip6 cidrs => s!"ip6 saddr \x7b {commas cidrs} \x7d {rule} comment \"{comment}-v6\""

def OverlayGroup.overlayLines (g : OverlayGroup) : List OverlayLine :=
  let line := fun sources => ⟨sources, g.protocol, g.portset, g.action, g.comment⟩
  if g.any ∨ (g.v4 = [] ∧ g.v6 = []) then [line .bare]
  else
    (if sortedSet g.v4 = [] then [] else [line (.ip (sortedSet g.v4))]) ++
      if sortedSet g.v6 = [] then [] else [line (.ip6 (sortedSet g.v6))]

theorem OverlayGroup.lines_eq (g : OverlayGroup) :
    g.lines = g.overlayLines.map OverlayLine.text := by
  unfold lines overlayLines
  by_cases h : g.any = true ∨ (g.v4 = [] ∧ g.v6 = [])
  · simp only [if_pos h]
    rfl
  · simp only [if_neg h, emitFamilyRule, List.map_append]
    congr 1 <;> split <;> rfl

def overlayRules (fleetPolicy appliancePolicy : Option Policy) : List Rule :=
  (fleetPolicy.toList ++ appliancePolicy.toList).flatMap fun pol =>
    if pol.enabled then pol.rules.filter (·.enabled) else []

variable {Raw Addr : Type}

def overlayGroups (P : Parsers Raw) (ctx : MergeContext) (rules : List Rule) : List OverlayGroup :=
  (rules.map (OverlayGroup.ofRule P ctx)).foldl OverlayGroup.add []

def overlayLines (P : Parsers Raw) (ctx : MergeContext) (rules : List Rule) : List OverlayLine :=
  let groups := overlayGroups P ctx rules
  (groups.filter (·.action = .drop) ++ groups.filter (·.action ≠ .drop)).flatMap
    OverlayGroup.overlayLines

variable (P : Parsers Raw)

theorem compileOverlay_eq (fleetPolicy appliancePolicy : Option Policy) (ctx : MergeContext) :
    compileOverlay P fleetPolicy appliancePolicy ctx =
      (overlayLines P ctx (overlayRules fleetPolicy appliancePolicy)).map OverlayLine.text := by
  rw [overlayLines, List.map_flatMap, compileOverlay]
  exact List.flatMap_congr fun g _ => g.lines_eq

section

variable (contains : String → Addr → Bool)

/-- A packet whose source is in a set of its family. -/
def sourceIn (v4 v6 : List String) (p : Packet Addr) : Bool :=
  match p.version with
  | .v4 => v4.any (contains · p.source)
  | .v6 => v6.any (contains · p.source)

def Sources.passes : Sources → Packet Addr → Bool
  | .bare, _ => true
  | .ip cidrs, p => sourceIn contains cidrs [] p
  | .ip6 cidrs, p => sourceIn contains [] cidrs p

def portsAdmit (portset : String) (p : Packet Addr) : Bool :=
  portset = "" || p.port.any fun port => toString port ∈ portTexts portset

def OverlayLine.passes (l : OverlayLine) (p : Packet Addr) : Bool :=
  l.protocol = p.protocol && portsAdmit l.portset p && l.sources.passes contains p

/-- The first line that matches decides. -/
def verdict (lines : List OverlayLine) (p : Packet Addr) : Option Action :=
  (lines.find? (·.passes contains p)).map (·.action)

def Family.admits : Family → Version → Bool
  | .both, _ => true
  | .v4, version => version = .v4
  | .v6, version => version = .v6

def Rule.targets (r : Rule) (p : Packet Addr) : Prop :=
  r.protocol = p.protocol ∧ (r.ports = [] ∨ ∃ port ∈ r.ports, p.port = some port)

def Rule.admits (P : Parsers Raw) (ctx : MergeContext) (r : Rule) (p : Packet Addr) : Prop :=
  r.targets p ∧ r.family.admits p.version = true ∧
    (r.sourceKind = .any ∨
      sourceIn contains (ctx.resolveSource P r).1 (ctx.resolveSource P r).2 p = true)

def Says (P : Parsers Raw) (ctx : MergeContext) (rules : List Rule) (action : Action)
    (p : Packet Addr) : Prop :=
  ∃ r ∈ rules, r.action = action ∧ r.admits contains P ctx p

end

def Rule.portKey (r : Rule) : String :=
  if r.ports = [] then "" else portset (r.ports.insertionSort (· ≤ ·))

def Rule.Alike (r s : Rule) : Prop :=
  r.action = s.action ∧ r.protocol = s.protocol ∧ r.portKey = s.portKey ∧ r.comment = s.comment

/-- A rule that should match some sources only, in a group where no rule has any. -/
def Rule.Sourceless (P : Parsers Raw) (ctx : MergeContext) (rules : List Rule) (r : Rule) : Prop :=
  ∀ s ∈ rules, r.Alike s → s.sourceKind ≠ .any ∧ ctx.resolveSource P s = ([], [])

/-- A rule with an action matches the packet as a line only: it has no source at all, or any source
and another family. -/
def SaysWider (P : Parsers Raw) (ctx : MergeContext) (rules : List Rule) (action : Action)
    (p : Packet Addr) : Prop :=
  ∃ r ∈ rules, r.action = action ∧ r.targets p ∧
    (r.Sourceless P ctx rules ∨ (r.sourceKind = .any ∧ r.family.admits p.version = false))

@[simp] theorem ofRule_portset (ctx : MergeContext) (r : Rule) :
    (OverlayGroup.ofRule P ctx r).portset = r.portKey := rfl

theorem portset_ne_empty (ports : List ℤ) : portset ports ≠ "" := by
  intro h
  unfold portset at h
  split at h
  next port =>
    have hlist := congrArg String.toList h
    rw [toList_toString_int] at hlist
    split at hlist
    · exact Nat.toDigits_ne_nil hlist
    · cases hlist
  next =>
    have hlist := congrArg String.toList h
    rw [String.toList_append, String.toList_append] at hlist
    cases hlist

theorem portsAdmit_portKey (r : Rule) (p : Packet Addr) :
    portsAdmit r.portKey p = true ↔ r.ports = [] ∨ ∃ port ∈ r.ports, p.port = some port := by
  by_cases hports : r.ports = []
  · simp [portsAdmit, Rule.portKey, hports]
  have hsorted : r.ports.insertionSort (· ≤ ·) ≠ [] := fun hnil => hports
    (List.eq_nil_iff_forall_not_mem.mpr fun port hport => by
      rw [← List.mem_insertionSort (· ≤ ·), hnil] at hport
      cases hport)
  rw [portsAdmit, Rule.portKey, if_neg hports, decide_eq_false (portset_ne_empty _),
    Bool.false_or, portTexts_portset hsorted, Option.any_eq_true]
  simp only [hports, false_or, List.mem_map, List.mem_insertionSort, decide_eq_true_eq]
  constructor
  · rintro ⟨port, hport, other, hmem, heq⟩
    exact ⟨other, hmem, by rw [hport, toString_int_inj heq]⟩
  · rintro ⟨port, hmem, hport⟩
    exact ⟨port, hport, port, hmem, rfl⟩

namespace OverlayGroup

/-- Two groups of one action, protocol, port set and comment. -/
def Alike (g h : OverlayGroup) : Prop :=
  g.action = h.action ∧ g.protocol = h.protocol ∧ g.portset = h.portset ∧ g.comment = h.comment

variable {g h : OverlayGroup}

theorem sameKey_iff : g.sameKey h = true ↔ g.Alike h := by
  simp [sameKey, Alike, and_assoc]

theorem Alike.symm (e : g.Alike h) : h.Alike g :=
  ⟨e.1.symm, e.2.1.symm, e.2.2.1.symm, e.2.2.2.symm⟩

theorem Alike.trans {f : OverlayGroup} (e : f.Alike g) (e' : g.Alike h) : f.Alike h :=
  ⟨e.1.trans e'.1, e.2.1.trans e'.2.1, e.2.2.1.trans e'.2.2.1, e.2.2.2.trans e'.2.2.2⟩

structure Unites (hs : List OverlayGroup) (g : OverlayGroup) : Prop where
  some : ∃ h ∈ hs, g.Alike h
  v4 : ∀ c, c ∈ g.v4 ↔ ∃ h ∈ hs, g.Alike h ∧ c ∈ h.v4
  v6 : ∀ c, c ∈ g.v6 ↔ ∃ h ∈ hs, g.Alike h ∧ c ∈ h.v6
  any : g.any = true ↔ ∃ h ∈ hs, g.Alike h ∧ h.any = true

structure Gathers (hs groups : List OverlayGroup) : Prop where
  unites : ∀ g ∈ groups, g.Unites hs
  covers : ∀ h ∈ hs, ∃ g ∈ groups, g.Alike h

variable {hs groups : List OverlayGroup}

theorem exists_mem_concat {p : OverlayGroup → Prop} :
    (∃ x ∈ hs ++ [h], p x) ↔ (∃ x ∈ hs, p x) ∨ p h := by
  simp [or_and_right, exists_or]

theorem Unites.union (hg : g.Unites hs) (e : g.Alike h) : (g.union h).Unites (hs ++ [h]) where
  some := exists_mem_concat.mpr (.inr e)
  v4 c := by
    rw [exists_mem_concat, OverlayGroup.union, List.mem_append, hg.v4]
    exact or_congr_right ⟨fun hc => ⟨e, hc⟩, fun hc => hc.2⟩
  v6 c := by
    rw [exists_mem_concat, OverlayGroup.union, List.mem_append, hg.v6]
    exact or_congr_right ⟨fun hc => ⟨e, hc⟩, fun hc => hc.2⟩
  any := by
    rw [exists_mem_concat, OverlayGroup.union, Bool.or_eq_true, hg.any]
    exact or_congr_right ⟨fun hc => ⟨e, hc⟩, fun hc => hc.2⟩

theorem Unites.append (hg : g.Unites hs) (e : ¬ g.Alike h) : g.Unites (hs ++ [h]) where
  some := exists_mem_concat.mpr (.inl hg.some)
  v4 c := by
    rw [exists_mem_concat, hg.v4]
    exact ⟨.inl, fun hc => hc.resolve_right fun hc => e hc.1⟩
  v6 c := by
    rw [exists_mem_concat, hg.v6]
    exact ⟨.inl, fun hc => hc.resolve_right fun hc => e hc.1⟩
  any := by
    rw [exists_mem_concat, hg.any]
    exact ⟨.inl, fun hc => hc.resolve_right fun hc => e hc.1⟩

theorem unites_self (hnone : ∀ x ∈ hs, ¬ h.Alike x) : h.Unites (hs ++ [h]) := by
  have hself : h.Alike h := ⟨rfl, rfl, rfl, rfl⟩
  have honly : ∀ p : OverlayGroup → Prop, p h ↔ ∃ x ∈ hs ++ [h], h.Alike x ∧ p x := by
    intro p
    rw [exists_mem_concat]
    constructor
    · exact fun hp => .inr ⟨hself, hp⟩
    · rintro (⟨x, hx, hlike, -⟩ | ⟨-, hp⟩)
      · exact absurd hlike (hnone x hx)
      · exact hp
  exact ⟨⟨h, by simp, hself⟩, fun c => honly (c ∈ ·.v4), fun c => honly (c ∈ ·.v6),
    honly (·.any = true)⟩

theorem Gathers.add (hgroups : Gathers hs groups) (h : OverlayGroup) :
    Gathers (hs ++ [h]) (OverlayGroup.add groups h) := by
  unfold OverlayGroup.add
  by_cases hany : groups.any (sameKey h) = true
  · rw [if_pos hany]
    obtain ⟨g₀, hg₀, hlike₀⟩ := List.any_eq_true.mp hany
    constructor
    · intro g' hg'
      obtain ⟨g, hg, rfl⟩ := List.mem_map.mp hg'
      by_cases hlike : sameKey h g = true
      · rw [if_pos hlike]
        exact (hgroups.unites g hg).union (sameKey_iff.mp hlike).symm
      · rw [if_neg hlike]
        exact (hgroups.unites g hg).append fun e => hlike (sameKey_iff.mpr e.symm)
    · have hmap : ∀ g ∈ groups, ∀ x, g.Alike x →
          ∃ g' ∈ groups.map fun g => if sameKey h g then g.union h else g, g'.Alike x := by
        intro g hg x hlike
        refine ⟨_, List.mem_map_of_mem hg, ?_⟩
        split
        · exact hlike
        · exact hlike
      intro x hx
      rcases List.mem_append.mp hx with hx | hx
      · obtain ⟨g, hg, hlike⟩ := hgroups.covers x hx
        exact hmap g hg x hlike
      · rw [List.mem_singleton.mp hx]
        exact hmap g₀ hg₀ h (sameKey_iff.mp hlike₀).symm
  · rw [if_neg hany]
    have hnone : ∀ g ∈ groups, ¬ g.Alike h := fun g hg e =>
      hany (List.any_eq_true.mpr ⟨g, hg, sameKey_iff.mpr e.symm⟩)
    constructor
    · intro g hg
      rcases List.mem_append.mp hg with hg | hg
      · exact (hgroups.unites g hg).append (hnone g hg)
      · rw [List.mem_singleton.mp hg]
        refine unites_self fun x hx hlike => ?_
        obtain ⟨g, hg, hlike'⟩ := hgroups.covers x hx
        exact hnone g hg (hlike'.trans hlike.symm)
    · intro x hx
      rcases List.mem_append.mp hx with hx | hx
      · obtain ⟨g, hg, hlike⟩ := hgroups.covers x hx
        exact ⟨g, List.mem_append_left _ hg, hlike⟩
      · rw [List.mem_singleton.mp hx]
        exact ⟨h, List.mem_append_right _ List.mem_cons_self, rfl, rfl, rfl, rfl⟩

theorem Gathers.foldl (hgroups : Gathers hs groups) (more : List OverlayGroup) :
    Gathers (hs ++ more) (more.foldl OverlayGroup.add groups) := by
  induction more generalizing hs groups with
  | nil => rwa [List.append_nil]
  | cons h more ih =>
    rw [List.foldl_cons, ← List.singleton_append, ← List.append_assoc]
    exact ih (hgroups.add h)

end OverlayGroup

theorem gathers_overlayGroups (ctx : MergeContext) (rules : List Rule) :
    OverlayGroup.Gathers (rules.map (OverlayGroup.ofRule P ctx)) (overlayGroups P ctx rules) := by
  have hnil : OverlayGroup.Gathers [] [] := ⟨nofun, nofun⟩
  exact hnil.foldl _

variable {contains : String → Addr → Bool} {p : Packet Addr} {g : OverlayGroup}

theorem mem_sortedSet {α : Type} [DecidableEq α] [LE α] [DecidableLE α] {a : α} {l : List α} :
    a ∈ sortedSet l ↔ a ∈ l := by
  rw [sortedSet, List.mem_insertionSort, List.mem_eraseDups]

theorem sortedSet_eq_nil {l : List String} : sortedSet l = [] ↔ l = [] := by
  rw [List.eq_nil_iff_forall_not_mem, List.eq_nil_iff_forall_not_mem]
  exact forall_congr' fun c => not_congr mem_sortedSet

theorem sourceIn_iff {v4 v6 : List String} : sourceIn contains v4 v6 p = true ↔
    (p.version = .v4 ∧ ∃ c ∈ v4, contains c p.source = true) ∨
      (p.version = .v6 ∧ ∃ c ∈ v6, contains c p.source = true) := by
  unfold sourceIn
  cases p.version <;> simp

/-- A group's lines match where the group does. -/
def OverlayGroup.Admits (contains : String → Addr → Bool) (g : OverlayGroup) (p : Packet Addr) :
    Prop :=
  g.protocol = p.protocol ∧ portsAdmit g.portset p = true ∧
    (g.any = true ∨ (g.v4 = [] ∧ g.v6 = []) ∨ sourceIn contains g.v4 g.v6 p = true)

theorem OverlayGroup.exists_overlayLines :
    (∃ l ∈ g.overlayLines, l.passes contains p = true) ↔ g.Admits contains p := by
  unfold overlayLines Admits
  by_cases h : g.any = true ∨ (g.v4 = [] ∧ g.v6 = [])
  · simp only [if_pos h, List.mem_singleton, exists_eq_left]
    simp only [OverlayLine.passes, Sources.passes, Bool.and_true, Bool.and_eq_true,
      decide_eq_true_eq, ← or_assoc, h, true_or, and_true]
  · simp only [if_neg h, List.mem_append, or_and_right, exists_or]
    simp only [← or_assoc, h, false_or]
    have hline : ∀ (cidrs : List String) (sources : Sources),
        (∃ l ∈ (if sortedSet cidrs = [] then []
          else [(⟨sources, g.protocol, g.portset, g.action, g.comment⟩ : OverlayLine)]),
            l.passes contains p = true) ↔
        g.protocol = p.protocol ∧ portsAdmit g.portset p = true ∧ cidrs ≠ [] ∧
          sources.passes contains p = true := by
      intro cidrs sources
      by_cases hnil : sortedSet cidrs = []
      · rw [if_pos hnil, sortedSet_eq_nil.mp hnil]
        simp
      · have hne : cidrs ≠ [] := fun heq => hnil (sortedSet_eq_nil.mpr heq)
        simp [hnil, hne, OverlayLine.passes, and_assoc]
    rw [hline, hline, ← and_or_left, ← and_or_left, sourceIn_iff]
    simp only [Sources.passes, sourceIn_iff, mem_sortedSet, List.not_mem_nil, false_and,
      exists_false, and_false, or_false, false_or]
    refine and_congr_right fun _ => and_congr_right fun _ => or_congr ?_ ?_
    · exact and_iff_right_of_imp fun ⟨_, c, hc, _⟩ => List.ne_nil_of_mem hc
    · exact and_iff_right_of_imp fun ⟨_, c, hc, _⟩ => List.ne_nil_of_mem hc

theorem action_of_mem_overlayLines {l : OverlayLine} (h : l ∈ g.overlayLines) :
    l.action = g.action := by
  unfold OverlayGroup.overlayLines at h
  simp only at h
  split at h
  · rw [List.mem_singleton.mp h]
  · rcases List.mem_append.mp h with h | h <;> split at h
    · cases h
    · rw [List.mem_singleton.mp h]
    · cases h
    · rw [List.mem_singleton.mp h]

/-- A group with an action whose lines match. -/
def GroupSays (contains : String → Addr → Bool) (groups : List OverlayGroup) (action : Action)
    (p : Packet Addr) : Prop :=
  ∃ g ∈ groups, g.action = action ∧ g.Admits contains p

theorem verdict_overlayLines (ctx : MergeContext) (rules : List Rule) :
    verdict contains (overlayLines P ctx rules) p = some .accept ↔
      GroupSays contains (overlayGroups P ctx rules) .accept p ∧
        ¬ GroupSays contains (overlayGroups P ctx rules) .drop p := by
  rw [verdict, overlayLines]
  simp only [List.flatMap_append, List.find?_append]
  cases hdrop : ((overlayGroups P ctx rules).filter (·.action = .drop)).flatMap
      OverlayGroup.overlayLines |>.find? (·.passes contains p) with
  | some l =>
    obtain ⟨g, hg, hl⟩ := List.mem_flatMap.mp (List.mem_of_find?_eq_some hdrop)
    have hadmit : l.passes contains p = true :=
      List.find?_some (p := fun l : OverlayLine => l.passes contains p) hdrop
    obtain ⟨hmem, haction⟩ := List.mem_filter.mp hg
    have hsaid : GroupSays contains (overlayGroups P ctx rules) .drop p :=
      ⟨g, hmem, of_decide_eq_true haction,
        OverlayGroup.exists_overlayLines.mp ⟨l, hl, hadmit⟩⟩
    rw [Option.some_or, Option.map_some, action_of_mem_overlayLines hl,
      of_decide_eq_true haction]
    exact ⟨nofun, fun h => absurd hsaid h.2⟩
  | none =>
    have hnone : ¬ GroupSays contains (overlayGroups P ctx rules) .drop p := by
      rintro ⟨g, hg, haction, hadmit⟩
      obtain ⟨l, hl, hmatch⟩ := OverlayGroup.exists_overlayLines.mpr hadmit
      exact List.find?_eq_none.mp hdrop l
        (List.mem_flatMap.mpr ⟨g, List.mem_filter.mpr ⟨hg, decide_eq_true haction⟩, hl⟩) hmatch
    rw [Option.none_or, and_iff_left hnone, Option.map_eq_some_iff]
    constructor
    · rintro ⟨l, hfind, haction⟩
      obtain ⟨g, hg, hl⟩ := List.mem_flatMap.mp (List.mem_of_find?_eq_some hfind)
      have hadmit : l.passes contains p = true :=
        List.find?_some (p := fun l : OverlayLine => l.passes contains p) hfind
      exact ⟨g, (List.mem_filter.mp hg).1, (action_of_mem_overlayLines hl).symm.trans haction,
        OverlayGroup.exists_overlayLines.mp ⟨l, hl, hadmit⟩⟩
    · rintro ⟨g, hg, haction, hadmit⟩
      obtain ⟨l, hl, hmatch⟩ := OverlayGroup.exists_overlayLines.mpr hadmit
      have hmem : l ∈ ((overlayGroups P ctx rules).filter (·.action ≠ .drop)).flatMap
          OverlayGroup.overlayLines := by
        refine List.mem_flatMap.mpr ⟨g, List.mem_filter.mpr ⟨hg, ?_⟩, hl⟩
        rw [haction]
        rfl
      cases hfind : (((overlayGroups P ctx rules).filter (·.action ≠ .drop)).flatMap
          OverlayGroup.overlayLines).find? (·.passes contains p) with
      | none => exact absurd hmatch (List.find?_eq_none.mp hfind l hmem)
      | some found =>
        obtain ⟨g', hg', hl'⟩ := List.mem_flatMap.mp (List.mem_of_find?_eq_some hfind)
        refine ⟨found, rfl, (action_of_mem_overlayLines hl').trans ?_⟩
        have hne := of_decide_eq_true (List.mem_filter.mp hg').2
        cases haction' : g'.action with
        | accept => rfl
        | drop => exact absurd haction' hne

variable {r : Rule}

section

variable (ctx : MergeContext)
include ctx

theorem ofRule_alike {s : Rule} :
    (OverlayGroup.ofRule P ctx r).Alike (OverlayGroup.ofRule P ctx s) ↔ r.Alike s := Iff.rfl

theorem ofRule_any (r : Rule) :
    (OverlayGroup.ofRule P ctx r).any = true ↔ r.sourceKind = .any := decide_eq_true_iff

theorem ofRule_sources (h : r.sourceKind ≠ .any) :
    ((OverlayGroup.ofRule P ctx r).v4, (OverlayGroup.ofRule P ctx r).v6) =
      ctx.resolveSource P r := by
  simp only [OverlayGroup.ofRule, if_neg h]

theorem family_admits (r : Rule)
    (h : sourceIn contains (ctx.resolveSource P r).1 (ctx.resolveSource P r).2 p = true) :
    r.family.admits p.version = true := by
  rw [sourceIn_iff] at h
  unfold MergeContext.resolveSource at h
  cases hfamily : r.family with
  | both => rfl
  | v4 =>
    rw [hfamily] at h
    rcases h with ⟨hversion, -⟩ | ⟨-, c, hc, -⟩
    · rw [hversion]
      rfl
    · cases hc
  | v6 =>
    rw [hfamily] at h
    rcases h with ⟨-, c, hc, -⟩ | ⟨hversion, -⟩
    · cases hc
    · rw [hversion]
      rfl

end

theorem groupSays_of_rule {P : Parsers Raw} {ctx : MergeContext} {rules : List Rule}
    (hr : r ∈ rules) (htargets : r.targets p)
    (h : ∀ g : OverlayGroup, g.Unites (rules.map (OverlayGroup.ofRule P ctx)) → g.Alike (OverlayGroup.ofRule P ctx r) → g.any = true ∨ (g.v4 = [] ∧ g.v6 = []) ∨ sourceIn contains g.v4 g.v6 p = true) :
    GroupSays contains (overlayGroups P ctx rules) r.action p := by
  have hgathers := gathers_overlayGroups P ctx rules
  obtain ⟨g, hg, hlike⟩ := hgathers.covers _ (List.mem_map_of_mem hr)
  refine ⟨g, hg, hlike.1, hlike.2.1.trans htargets.1, ?_, h g (hgathers.unites g hg) hlike⟩
  rw [hlike.2.2.1]
  exact (portsAdmit_portKey r p).mpr htargets.2

theorem groupSays_iff (ctx : MergeContext) (rules : List Rule) (action : Action) :
    GroupSays contains (overlayGroups P ctx rules) action p ↔
      Says contains P ctx rules action p ∨ SaysWider P ctx rules action p := by
  constructor
  · rintro ⟨g, hg, haction, hprotocol, hports, hsources⟩
    have hunites := (gathers_overlayGroups P ctx rules).unites g hg
    have htargets : ∀ r, g.Alike (OverlayGroup.ofRule P ctx r) →
        r.action = action ∧ r.targets p := by
      intro r hlike
      refine ⟨hlike.1.symm.trans haction, hlike.2.1.symm.trans hprotocol,
        (portsAdmit_portKey r p).mp ?_⟩
      rw [← ofRule_portset P ctx, ← hlike.2.2.1]
      exact hports
    by_cases hany : g.any = true
    · obtain ⟨h, hmem, hlike, hrany⟩ := hunites.any.mp hany
      obtain ⟨r, hr, rfl⟩ := List.mem_map.mp hmem
      have hkind := (ofRule_any P ctx r).mp hrany
      obtain ⟨hraction, hrtargets⟩ := htargets r hlike
      cases hfamily : r.family.admits p.version with
      | true => exact .inl ⟨r, hr, hraction, hrtargets, hfamily, .inl hkind⟩
      | false => exact .inr ⟨r, hr, hraction, hrtargets, .inr ⟨hkind, hfamily⟩⟩
    have hnotany : ∀ s ∈ rules, g.Alike (OverlayGroup.ofRule P ctx s) → s.sourceKind ≠ .any :=
      fun s hs hlike hkind => hany
        (hunites.any.mpr ⟨_, List.mem_map_of_mem hs, hlike, (ofRule_any P ctx s).mpr hkind⟩)
    rcases hsources.resolve_left hany with ⟨hv4, hv6⟩ | hsource
    · obtain ⟨h, hmem, hlike⟩ := hunites.some
      obtain ⟨r, hr, rfl⟩ := List.mem_map.mp hmem
      obtain ⟨hraction, hrtargets⟩ := htargets r hlike
      refine .inr ⟨r, hr, hraction, hrtargets, .inl fun s hs halike => ?_⟩
      have hlike' := hlike.trans ((ofRule_alike P ctx).mpr halike)
      have hkind := hnotany s hs hlike'
      refine ⟨hkind, ?_⟩
      rw [← ofRule_sources P ctx hkind, Prod.mk.injEq, List.eq_nil_iff_forall_not_mem,
        List.eq_nil_iff_forall_not_mem]
      constructor
      · intro c hc
        have hmem := (hunites.v4 c).mpr ⟨_, List.mem_map_of_mem hs, hlike', hc⟩
        rw [hv4] at hmem
        cases hmem
      · intro c hc
        have hmem := (hunites.v6 c).mpr ⟨_, List.mem_map_of_mem hs, hlike', hc⟩
        rw [hv6] at hmem
        cases hmem
    · have hsaid : ∀ h ∈ rules.map (OverlayGroup.ofRule P ctx), g.Alike h →
          sourceIn contains h.v4 h.v6 p = true → Says contains P ctx rules action p := by
        intro h hmem hlike hin
        obtain ⟨r, hr, rfl⟩ := List.mem_map.mp hmem
        obtain ⟨hraction, hrtargets⟩ := htargets r hlike
        have hresolve := ofRule_sources P ctx (hnotany r hr hlike)
        have hin' : sourceIn contains (ctx.resolveSource P r).1 (ctx.resolveSource P r).2 p =
            true := by rwa [← hresolve]
        exact ⟨r, hr, hraction, hrtargets, family_admits P ctx r hin', .inr hin'⟩
      rcases sourceIn_iff.mp hsource with
        ⟨hversion, c, hc, hcontains⟩ | ⟨hversion, c, hc, hcontains⟩
      · obtain ⟨h, hmem, hlike, hch⟩ := (hunites.v4 c).mp hc
        exact .inl (hsaid h hmem hlike (sourceIn_iff.mpr (.inl ⟨hversion, c, hch, hcontains⟩)))
      · obtain ⟨h, hmem, hlike, hch⟩ := (hunites.v6 c).mp hc
        exact .inl (hsaid h hmem hlike (sourceIn_iff.mpr (.inr ⟨hversion, c, hch, hcontains⟩)))
  · rintro (⟨r, hr, rfl, htargets, -, hsource⟩ | ⟨r, hr, rfl, htargets, hwide⟩)
    · refine groupSays_of_rule hr htargets fun g hunites hlike => ?_
      by_cases hkind : r.sourceKind = .any
      · exact .inl (hunites.any.mpr
          ⟨_, List.mem_map_of_mem hr, hlike, (ofRule_any P ctx r).mpr hkind⟩)
      have hin := hsource.resolve_left hkind
      rw [← ofRule_sources P ctx hkind, sourceIn_iff] at hin
      refine .inr (.inr (sourceIn_iff.mpr ?_))
      rcases hin with ⟨hversion, c, hc, hcontains⟩ | ⟨hversion, c, hc, hcontains⟩
      · exact .inl ⟨hversion, c,
          (hunites.v4 c).mpr ⟨_, List.mem_map_of_mem hr, hlike, hc⟩, hcontains⟩
      · exact .inr ⟨hversion, c,
          (hunites.v6 c).mpr ⟨_, List.mem_map_of_mem hr, hlike, hc⟩, hcontains⟩
    · refine groupSays_of_rule hr htargets fun g hunites hlike => ?_
      rcases hwide with hless | ⟨hkind, -⟩
      · have hempty : ∀ h ∈ rules.map (OverlayGroup.ofRule P ctx), g.Alike h →
            h.v4 = [] ∧ h.v6 = [] := by
          intro h hmem hlike'
          obtain ⟨s, hs, rfl⟩ := List.mem_map.mp hmem
          obtain ⟨hkind, hresolve⟩ := hless s hs
            ((ofRule_alike P ctx).mp (hlike.symm.trans hlike'))
          exact Prod.mk.inj ((ofRule_sources P ctx hkind).trans hresolve)
        refine .inr (.inl ⟨List.eq_nil_iff_forall_not_mem.mpr fun c hc => ?_,
          List.eq_nil_iff_forall_not_mem.mpr fun c hc => ?_⟩)
        · obtain ⟨h, hmem, hlike', hch⟩ := (hunites.v4 c).mp hc
          rw [(hempty h hmem hlike').1] at hch
          cases hch
        · obtain ⟨h, hmem, hlike', hch⟩ := (hunites.v6 c).mp hc
          rw [(hempty h hmem hlike').2] at hch
          cases hch
      · exact .inl (hunites.any.mpr
          ⟨_, List.mem_map_of_mem hr, hlike, (ofRule_any P ctx r).mpr hkind⟩)

def VerdictIsRules (contains : String → Addr → Bool) (P : Parsers Raw) (ctx : MergeContext)
    (rules : List Rule) (p : Packet Addr) : Prop :=
  verdict contains (overlayLines P ctx rules) p = some .accept ↔
    Says contains P ctx rules .accept p ∧ ¬ Says contains P ctx rules .drop p

/-- A line wider than its rules accepts only what some other line decides, and drops only what the
rules do not accept. -/
theorem compile_overlay_verdict (contains : String → Addr → Bool) (P : Parsers Raw)
    (fleetPolicy appliancePolicy : Option Policy) (ctx : MergeContext) (p : Packet Addr) :
    let rules := overlayRules fleetPolicy appliancePolicy
    compileOverlay P fleetPolicy appliancePolicy ctx =
        (overlayLines P ctx rules).map OverlayLine.text ∧
      (VerdictIsRules contains P ctx rules p ↔
        (SaysWider P ctx rules .accept p → Says contains P ctx rules .accept p ∨
          Says contains P ctx rules .drop p ∨ SaysWider P ctx rules .drop p) ∧
        (SaysWider P ctx rules .drop p → Says contains P ctx rules .accept p →
          Says contains P ctx rules .drop p)) := by
  refine ⟨compileOverlay_eq P fleetPolicy appliancePolicy ctx, ?_⟩
  rw [VerdictIsRules, verdict_overlayLines, groupSays_iff, groupSays_iff]
  tauto

def hostNetworks : Parsers Unit where
  ipNetwork s := some (s ++ "/32", .v4)
  int _ := none

def officeRule : Rule where
  seq := 10
  action := .accept
  protocol := .tcp
  ports := [8080]
  sourceKind := .alias
  sourceAlias := "office"

def idleContext : MergeContext :=
  MergeContext.build hostNetworks { roleAssignment := {} } [] [] []

def strangerPacket : Packet String where
  version := .v4
  source := "198.51.100.7"
  protocol := .tcp
  port := some 8080

/-- The line has no source set, and takes every packet to the port. -/
theorem unknown_alias_opens_port :
    ¬ VerdictIsRules (fun cidr source => cidr = source ++ "/32") hostNetworks idleContext
      (overlayRules (some ⟨true, [officeRule]⟩) none) strangerPacket := by
  have hrules : overlayRules (some ⟨true, [officeRule]⟩) none = [officeRule] := rfl
  have hresolve : idleContext.resolveSource hostNetworks officeRule = ([], []) := rfl
  have hsaid : ∀ action, ¬ Says (fun cidr source => cidr = source ++ "/32") hostNetworks
      idleContext [officeRule] action strangerPacket := by
    rintro action ⟨r, hr, -, -, -, hsource⟩
    rw [List.mem_singleton.mp hr, hresolve] at hsource
    rcases hsource with hkind | hin
    · cases hkind
    · cases hin
  have hwider : SaysWider hostNetworks idleContext [officeRule] .accept strangerPacket := by
    refine ⟨officeRule, List.mem_cons_self, rfl,
      ⟨rfl, .inr ⟨8080, List.mem_cons_self, rfl⟩⟩, .inl fun s hs _ => ?_⟩
    rw [List.mem_singleton.mp hs]
    exact ⟨nofun, hresolve⟩
  have hdrop : ¬ SaysWider hostNetworks idleContext [officeRule] .drop strangerPacket := by
    rintro ⟨r, hr, haction, -⟩
    rw [List.mem_singleton.mp hr] at haction
    cases haction
  rw [hrules, VerdictIsRules, verdict_overlayLines, groupSays_iff, groupSays_iff]
  intro h
  exact hsaid _ (h.mp ⟨.inr hwider, not_or.mpr ⟨hsaid _, hdrop⟩⟩).1

end SpatiumDdi.Appliance
