import SpatiumDdi.Lib.AddressText
import SpatiumDdi.Lib.Grouping
import SpatiumDdi.Lib.Spans
import SpatiumDdi.Lib.UnionFind

/-!
How the Windows members of a DHCP server group serve one scope
(`services/dhcp/windows_failover.py`): the members that hold it are put into units, a failover
pair being one, and the units are judged by the addresses they hand out.
-/

namespace SpatiumDdi.Dhcp.WindowsFailover

open Ipaddress (parseIPv4 parseIPv6)

/-- Intervals of addresses, none of them empty. -/
def Ranges : Type := {spans : List (ℕ × ℕ) // ∀ span ∈ spans, span.1 ≤ span.2}

instance : DecidableEq Ranges :=
  inferInstanceAs (DecidableEq {spans : List (ℕ × ℕ) // ∀ span ∈ spans, span.1 ≤ span.2})

/-- `int(ipaddress.ip_address(text))`. -/
def ipInt (text : List Char) : Option ℕ := (parseIPv4 text).orElse fun _ => parseIPv6 text

/-- What an exclusion leaves of an interval. -/
def cut (exStart exEnd : ℕ) (span : ℕ × ℕ) : List (ℕ × ℕ) :=
  if exEnd < span.1 ∨ span.2 < exStart then [span]
  else
    (if span.1 < exStart then [(span.1, exStart - 1)] else []) ++
      if exEnd < span.2 then [(exEnd + 1, span.2)] else []

theorem cut_le {exStart exEnd : ℕ} {span part : ℕ × ℕ} (hspan : span.1 ≤ span.2)
    (h : part ∈ cut exStart exEnd span) : part.1 ≤ part.2 := by
  unfold cut at h
  split at h
  next =>
    rw [List.mem_singleton.mp h]
    exact hspan
  next =>
    rcases List.mem_append.mp h with h | h
    · split at h
      next hlt =>
        rw [List.mem_singleton.mp h]
        exact Nat.le_sub_one_of_lt hlt
      next => cases h
    · split at h
      next hlt =>
        rw [List.mem_singleton.mp h]
        exact hlt
      next => cases h

def Ranges.exclude (ranges : Ranges) (exStart exEnd : ℕ) : Ranges where
  val := ranges.val.flatMap (cut exStart exEnd)
  property := by
    intro part hpart
    obtain ⟨span, hspan, hcut⟩ := List.mem_flatMap.mp hpart
    exact cut_le (ranges.property span hspan) hcut

def Ranges.sorted (ranges : Ranges) : Ranges where
  val := ranges.val.insertionSort Spans.pairOrder
  property := fun span hspan => ranges.property span ((List.mem_insertionSort _).mp hspan)

/-- The bounds of an exclusion, where both are addresses. -/
def readExclusion (ex : List (List Char)) : Option (ℕ × ℕ) := do
  let exStart ← ex[0]?.bind ipInt
  let exEnd ← ex[1]?.bind ipInt
  return (exStart, exEnd)

def excludeNext (ranges : Ranges) (ex : List (List Char)) : Ranges :=
  match readExclusion ex with
  | some (exStart, exEnd) => ranges.exclude exStart exEnd
  | none => ranges

def effectiveRanges (startIp endIp : List Char) (exclusions : List (List (List Char))) :
    Option Ranges :=
  match ipInt startIp, ipInt endIp with
  | some lo, some hi =>
    if h : lo ≤ hi then
      some (exclusions.foldl excludeNext ⟨[(lo, hi)], List.forall_mem_singleton.mpr h⟩).sorted
    else none
  | _, _ => none

def rangesOverlap (a b : List (ℕ × ℕ)) : Bool :=
  a.any fun x => b.any fun y => x.1 ≤ y.2 && y.1 ≤ x.2

structure Member where
  serverId : ℕ
  name : String
  host : String
  deriving DecidableEq

structure Relationship where
  name : Option String
  partnerServer : Option String
  mode : Option String
  loadBalancePercent : Option ℤ
  deriving DecidableEq

structure Holder where
  member : Member
  isActive : Option Bool
  /-- No relationship where the dictionary is empty. -/
  relationship : Option Relationship
  failoverKnown : Bool
  failoverError : Option String
  ranges : Option Ranges
  configHash : Option String
  deriving DecidableEq

section Pairing

-- `str.lower`.
variable (lower : String → String)

/-- A name as `_partner_matches` compares it. -/
def plainName (name : String) : String := Text.rstripDots (lower (Text.strip name))

def isIp (value : String) : Bool := (ipInt value.toList).isSome

def shortName (value : String) : List Char := value.toList.takeWhile (· ≠ '.')

def partnerMatches (partner : String) (member : Member) : Bool :=
  let p := plainName lower partner
  p ≠ "" && [member.host, member.name].any fun candidate =>
    let c := plainName lower candidate
    c ≠ "" && (p = c || (!isIp p && !isIp c && shortName p = shortName c))

def partnerMember (relationship : Relationship) (members : List Member) : Option Member :=
  match members.filter (partnerMatches lower (relationship.partnerServer.getD "")) with
  | [hit] => some hit
  | _ => none

def pointsElsewhere (holder other : Holder) (members : List Member) : Bool :=
  match holder.relationship.bind fun rel => partnerMember lower rel members with
  | some target =>
    target.serverId ≠ holder.member.serverId && target.serverId ≠ other.member.serverId
  | none => false

def paired (a b : Holder) (members : List Member) : Bool :=
  match a.relationship, b.relationship with
  | some ra, some rb =>
    ra.name = rb.name && !(pointsElsewhere lower a b members || pointsElsewhere lower b a members)
  | _, _ => false

/-- The pairs of holders that are united, by their places, as the two loops come to them. -/
def unitedPairs (holders : List Holder) (members : List Member) : List (ℕ × ℕ) :=
  holders.zipIdx.flatMap fun a =>
    (holders.zipIdx.filter fun b => a.2 < b.2 && paired lower a.1 b.1 members).map fun b =>
      (a.2, b.2)

/-- `grouped`: the holders of one root together. -/
def group (n : ℕ) (parent : ℕ → ℕ) (grouped : List (ℕ × List Holder)) :
    List (Holder × ℕ) → List (ℕ × List Holder)
  | [] => grouped
  | (h, i) :: rest =>
    let found := UnionFind.find n parent i
    group n found.2 (Grouping.addTo found.1 h grouped) rest

/-- A relationship spans two servers: more that are united are units of their own. -/
def splitComponent (comp : List Holder) : List (List Holder) :=
  if comp.length ≤ 2 then [comp] else comp.map fun h => [h]

def units (holders : List Holder) (members : List Member) : List (List Holder) :=
  let parent := UnionFind.unions holders.length (unitedPairs lower holders members) id
  ((group holders.length parent [] holders.zipIdx).map Prod.snd).flatMap splitComponent

inductive Verdict where
  | notOnWindows
  | single
  | failover
  | failoverOneSided
  | splitScope
  | uncoordinated
  | unknown
  deriving DecidableEq

def safeVerdicts : List Verdict :=
  [.notOnWindows, .single, .failover, .failoverOneSided, .splitScope]

structure ScopeServing where
  verdict : Verdict
  holders : List Holder
  units : List (List Holder)
  relationship : Option Relationship
  drift : Option Bool
  detail : String

def names (holders : List Holder) : String :=
  let items := (holders.map fun h => h.member.name).insertionSort (· ≤ ·)
  match items.getLast? with
  | none => ""
  | some last =>
    if items.length ≤ 1 then last else ", ".intercalate items.dropLast ++ " and " ++ last

def printed (value : Option String) : String := value.getD "None"

def modeLabel (rel : Relationship) : String :=
  let raw := rel.mode.getD ""
  let mode := lower raw
  if mode = "loadbalance" then
    match rel.loadBalancePercent with
    | some pct => "load balance " ++ toString pct ++ "%"
    | none => "load balance"
  else if mode = "hotstandby" then "hot standby"
  else if raw = "" then "unknown mode" else raw

def failoverDetail (a b : Holder) (rel : Relationship) (drift : Option Bool) : String :=
  "Coordinated by failover relationship '" ++ printed rel.name ++ "' (" ++ a.member.name ++ " ↔ " ++
    b.member.name ++ ", " ++ modeLabel lower rel ++ "). SpatiumDDI writes changes to both " ++
    "partners: Windows keeps leases in sync between them, but not configuration." ++
    if drift = some true then
      " The two partners' configuration of this scope currently differs — re-save it here to " ++
        "write SpatiumDDI's configuration to both, or replicate one partner's over the other " ++
        "(Replicate on the group's Windows failover panel, or " ++
        "Invoke-DhcpServerv4FailoverReplication on Windows)."
    else ""

def oneSidedDetail (only : Holder) (rel : Relationship) (members : List Member) : String :=
  let partner := match rel.partnerServer with
    | some p => if p = "" then "its partner" else p
    | none => "its partner"
  let elsewhere := match partnerMember lower rel members with
    | some peer =>
      if peer.serverId ≠ only.member.serverId then
        peer.name ++ " is in this group but does not report the scope"
      else partner ++ " is not a member of this group"
    | none => partner ++ " is not a member of this group"
  only.member.name ++ " has this scope in failover relationship '" ++ printed rel.name ++
    "' with " ++ partner ++ ", and " ++ elsewhere ++ ". Changes made here reach " ++
    only.member.name ++ " only; Windows does not replicate configuration to the partner on its own."

def unknownDetail (holders : List Holder) : String :=
  let unknown := holders.filter fun h => !h.failoverKnown
  let why := "; ".intercalate (unknown.filterMap fun h =>
    h.failoverError.bind fun error =>
      if error = "" then none else some (h.member.name ++ ": " ++ error))
  "Held by " ++ names holders ++ ", but the failover relationships of " ++ names unknown ++
    " could not be read" ++ (if why = "" then "" else " (" ++ why ++ ")") ++
    ", so whether these servers coordinate is unknown."

/-- The configurations of two partners differ, where both are known. -/
def driftOf (a b : Holder) : Option Bool :=
  match a.configHash, b.configHash with
  | some x, some y => if x = "" ∨ y = "" then none else some (x ≠ y)
  | _, _ => none

def pairServing (holders : List Holder) (units : List (List Holder)) (x y : Holder) :
    ScopeServing :=
  let a := if y.member.name < x.member.name then y else x
  let b := if y.member.name < x.member.name then x else y
  let rel := a.relationship.getD ⟨none, none, none, none⟩
  ⟨.failover, holders, units, rel, driftOf a b, failoverDetail lower a b rel (driftOf a b)⟩

def loneServing (holders : List Holder) (members : List Member) (units : List (List Holder))
    (only : Holder) : ScopeServing :=
  match only.relationship with
  | some rel => ⟨.failoverOneSided, holders, units, rel, none, oneSidedDetail lower only rel members⟩
  | none =>
    ⟨.single, holders, units, none, none,
      "Served by " ++ only.member.name ++ " only. It is not in a failover relationship, so no " ++
        "other server hands out its addresses."⟩

def unitRanges (unit : List Holder) : Option (List (ℕ × ℕ)) :=
  (unit.mapM fun h : Holder => h.ranges.map Subtype.val).map List.flatten

def disjointUnits (units : List (List Holder)) : Bool :=
  let ranges := units.map unitRanges
  ranges.all Option.isSome &&
    ranges.Pairwise fun r r' => rangesOverlap (r.getD []) (r'.getD []) = false

/-- Two or more independent units. -/
def apartServing (holders : List Holder) (units : List (List Holder)) : ScopeServing :=
  if holders.any fun h => !h.failoverKnown then
    ⟨.unknown, holders, units, none, none, unknownDetail holders⟩
  else if disjointUnits units then
    ⟨.splitScope, holders, units, none, none,
      "Held by " ++ names holders ++ " with no failover relationship between them, over address " ++
        "ranges that do not overlap — a split scope. No address is handed out twice, but " ++
        "SpatiumDDI models one scope per group with one set of exclusions, so it cannot " ++
        "represent each server's half: put each server in its own server group."⟩
  else
    ⟨.uncoordinated, holders, units, none, none,
      "Held by " ++ names holders ++ " with no failover relationship covering it on both, over " ++
        "overlapping address ranges: each server can hand out the same address to a different " ++
        "client. Put the scope in a failover relationship, or remove it from all but one server."⟩

def classifyServing (holders : List Holder) (members : List Member) : ScopeServing :=
  match holders with
  | [] =>
    ⟨.notOnWindows, [], [], none, none,
      "No Windows DHCP server in this group reports this scope."⟩
  | _ =>
    match units lower holders members with
    | [[x, y]] => pairServing lower holders [[x, y]] x y
    | [only :: rest] => loneServing lower holders members [only :: rest] only
    | units => apartServing holders units

end Pairing

variable (lower : String → String) (members : List Member) (holders : List Holder)

def Linked : Holder → Holder → Prop :=
  Relation.EqvGen fun a b => a ∈ holders ∧ b ∈ holders ∧ paired lower a b members = true

/-- The same holder, or two that are linked to each other and to nobody else. -/
def SameUnit (a b : Holder) : Prop :=
  a = b ∨ Linked lower members holders a b ∧
    ∀ x ∈ holders, Linked lower members holders a x → x = a ∨ x = b

variable {lower members holders}

theorem paired_comm (a b : Holder) : paired lower a b members = paired lower b a members := by
  unfold paired
  cases a.relationship with
  | none => cases b.relationship <;> rfl
  | some ra =>
    cases b.relationship with
    | none => rfl
    | some rb =>
      dsimp only
      rw [Bool.or_comm]
      exact congrArg (· && _) (decide_eq_decide.mpr eq_comm)

theorem mem_unitedPairs {i j : ℕ} :
    (i, j) ∈ unitedPairs lower holders members ↔ i < j ∧ ∃ a b, holders[i]? = some a ∧
      holders[j]? = some b ∧ paired lower a b members = true := by
  simp only [unitedPairs, List.mem_flatMap, List.mem_map, List.mem_filter, Bool.and_eq_true,
    decide_eq_true_iff, Prod.mk.injEq, Prod.exists, List.mk_mem_zipIdx_iff_getElem?]
  constructor
  · rintro ⟨a, i', ha, b, j', ⟨hb, hlt, hpaired⟩, rfl, rfl⟩
    exact ⟨hlt, a, b, ha, hb, hpaired⟩
  · rintro ⟨hlt, a, b, ha, hb, hpaired⟩
    exact ⟨a, i, ha, b, j, ⟨hb, hlt, hpaired⟩, rfl, rfl⟩

theorem unitedPairs_lt : ∀ e ∈ unitedPairs lower holders members,
    e.1 < holders.length ∧ e.2 < holders.length := by
  rintro ⟨i, j⟩ he
  obtain ⟨_, a, b, ha, hb, _⟩ := mem_unitedPairs.mp he
  exact ⟨(List.getElem?_eq_some_iff.mp ha).1, (List.getElem?_eq_some_iff.mp hb).1⟩

theorem getElem?_idxOf {h : Holder} (hmem : h ∈ holders) : holders[holders.idxOf h]? = some h := by
  rw [List.getElem?_eq_getElem (List.idxOf_lt_length_iff.mpr hmem), List.getElem_idxOf]

theorem idxOf_of_getElem? (hnodup : holders.Nodup) {i : ℕ} {h : Holder}
    (hi : holders[i]? = some h) : holders.idxOf h = i := by
  obtain ⟨hlt, rfl⟩ := List.getElem?_eq_some_iff.mp hi
  exact List.Nodup.idxOf_getElem hnodup i hlt

variable {a b : Holder}

theorem eqvGen_iff_linked (ha : a ∈ holders) (hb : b ∈ holders) :
    Relation.EqvGen (fun x y => (x, y) ∈ unitedPairs lower holders members) (holders.idxOf a)
      (holders.idxOf b) ↔ Linked lower members holders a b := by
  constructor
  · intro h
    suffices hplaces : ∀ i j, Relation.EqvGen
        (fun x y => (x, y) ∈ unitedPairs lower holders members) i j →
        i = j ∨ ∃ x y, holders[i]? = some x ∧ holders[j]? = some y ∧
          Linked lower members holders x y by
      rcases hplaces _ _ h with heq | ⟨x, y, hx, hy, hxy⟩
      · rw [List.idxOf_inj ha] at heq
        exact heq ▸ .refl a
      · rw [getElem?_idxOf ha] at hx
        rw [getElem?_idxOf hb] at hy
        rw [Option.some.inj hx, Option.some.inj hy]
        exact hxy
    intro i j hij
    induction hij with
    | rel i j hmem =>
      obtain ⟨_, x, y, hx, hy, hpaired⟩ := mem_unitedPairs.mp hmem
      exact .inr ⟨x, y, hx, hy,
        .rel x y ⟨List.mem_of_getElem? hx, List.mem_of_getElem? hy, hpaired⟩⟩
    | refl i => exact .inl rfl
    | symm i j _ ih =>
      rcases ih with rfl | ⟨x, y, hx, hy, hxy⟩
      · exact .inl rfl
      · exact .inr ⟨y, x, hy, hx, hxy.symm⟩
    | trans i j k _ _ ih ih' =>
      rcases ih with rfl | ⟨x, y, hx, hy, hxy⟩
      · exact ih'
      · rcases ih' with rfl | ⟨y', z, hy', hz, hyz⟩
        · exact .inr ⟨x, y, hx, hy, hxy⟩
        · rw [hy] at hy'
          rw [← Option.some.inj hy'] at hyz
          exact .inr ⟨x, z, hx, hz, hxy.trans _ _ _ hyz⟩
  · intro h
    clear ha hb
    induction h with
    | rel x y hxy =>
      obtain ⟨hx, hy, hpaired⟩ := hxy
      rcases Nat.lt_trichotomy (holders.idxOf x) (holders.idxOf y) with hlt | heq | hlt
      · exact .rel _ _ (mem_unitedPairs.mpr
          ⟨hlt, x, y, getElem?_idxOf hx, getElem?_idxOf hy, hpaired⟩)
      · exact heq ▸ .refl _
      · rw [paired_comm] at hpaired
        exact .symm _ _ (.rel _ _ (mem_unitedPairs.mpr
          ⟨hlt, y, x, getElem?_idxOf hy, getElem?_idxOf hx, hpaired⟩))
    | refl x => exact .refl _
    | symm x y _ ih => exact ih.symm
    | trans x y z _ _ ih ih' => exact ih.trans _ _ _ ih'

variable (lower members holders) in
def rootOf (h : Holder) : ℕ :=
  (UnionFind.find holders.length
    (UnionFind.unions holders.length (unitedPairs lower holders members) id)
    (holders.idxOf h)).1

theorem rootOf_eq_iff (ha : a ∈ holders) (hb : b ∈ holders) :
    rootOf lower members holders a = rootOf lower members holders b ↔
      Linked lower members holders a b := by
  have hforest := (UnionFind.unions_spec (UnionFind.forest_id holders.length)
    (@unitedPairs_lt lower members holders)).1
  have ha' := List.idxOf_lt_length_iff.mpr ha
  have hb' := List.idxOf_lt_length_iff.mpr hb
  rw [rootOf, rootOf, UnionFind.find_eq_iff_same hforest ha' hb',
    UnionFind.same_unions_iff unitedPairs_lt ha' hb']
  exact eqvGen_iff_linked ha hb

theorem group_eq {n : ℕ} {parent parent' : ℕ → ℕ} (hf : UnionFind.Forest n parent)
    (hf' : UnionFind.Forest n parent') (hkeeps : UnionFind.Keeps parent parent')
    {items : List (Holder × ℕ)} (hitems : ∀ x ∈ items, x.2 < n)
    (grouped : List (ℕ × List Holder)) :
    group n parent' grouped items = items.foldl
      (fun grouped x => Grouping.addTo (UnionFind.find n parent x.2).1 x.1 grouped) grouped := by
  induction items generalizing parent' grouped with
  | nil => rfl
  | cons x items ih =>
    obtain ⟨hx, hitems⟩ := List.forall_mem_cons.mp hitems
    obtain ⟨_, hforest, hmore⟩ := UnionFind.find_spec hf' hx
    rw [List.foldl_cons, ← UnionFind.find_of_keeps hf hf' hkeeps hx]
    exact ih hforest (hkeeps.trans hmore) hitems _

theorem grouped_eq (hnodup : holders.Nodup) :
    group holders.length (UnionFind.unions holders.length (unitedPairs lower holders members) id) []
        holders.zipIdx =
      holders.foldl
        (fun grouped h => Grouping.addTo (rootOf lower members holders h) h grouped) [] := by
  have hforest := (UnionFind.unions_spec (UnionFind.forest_id holders.length)
    (@unitedPairs_lt lower members holders)).1
  have hplace : ∀ x ∈ holders.zipIdx, holders[x.2]? = some x.1 := fun x hx =>
    List.mem_zipIdx_iff_getElem?.mp hx
  rw [group_eq hforest hforest (UnionFind.Keeps.refl _)
    fun x hx => (List.getElem?_eq_some_iff.mp (hplace x hx)).1]
  have hkeys : holders.zipIdx.foldl (fun grouped x => Grouping.addTo (UnionFind.find holders.length
      (UnionFind.unions holders.length (unitedPairs lower holders members) id) x.2).1 x.1 grouped)
      [] = holders.zipIdx.foldl
        (fun grouped x => Grouping.addTo (rootOf lower members holders x.1) x.1 grouped) [] := by
    refine List.foldl_ext _ _ _ fun grouped x hx => ?_
    rw [rootOf, idxOf_of_getElem? hnodup (hplace x hx)]
  rw [hkeys]
  generalize rootOf lower members holders = root
  rw [← List.foldl_map (f := Prod.fst) (g := fun grouped h => Grouping.addTo (root h) h grouped),
    List.zipIdx_map_fst]

variable (lower members holders) in
def components : List (List Holder) :=
  (holders.foldl
    (fun grouped h => Grouping.addTo (rootOf lower members holders h) h grouped) []).map Prod.snd

theorem units_eq (hnodup : holders.Nodup) :
    units lower holders members = (components lower members holders).flatMap splitComponent := by
  rw [units, grouped_eq hnodup]
  rfl

theorem gathered_components : Grouping.Gathered (rootOf lower members holders) holders
    (holders.foldl
      (fun grouped h => Grouping.addTo (rootOf lower members holders h) h grouped) []) :=
  (Grouping.gathered_nil (rootOf lower members holders)).foldl

variable {comp unit : List Holder}

theorem mem_component (hcomp : comp ∈ components lower members holders) (ha : a ∈ comp)
    (b : Holder) : b ∈ comp ↔ b ∈ holders ∧ Linked lower members holders a b := by
  obtain ⟨c, hc, rfl⟩ := gathered_components.mem_map_iff.mp hcomp
  rw [List.mem_filter, decide_eq_true_iff] at ha ⊢
  refine and_congr_right fun hb => ?_
  rw [← ha.2, ← rootOf_eq_iff ha.1 hb, eq_comm]

theorem component_nodup (hnodup : holders.Nodup) (hcomp : comp ∈ components lower members holders) :
    comp.Nodup := by
  obtain ⟨c, _, rfl⟩ := gathered_components.mem_map_iff.mp hcomp
  exact hnodup.filter _

theorem mem_holders_of_component (hcomp : comp ∈ components lower members holders) (ha : a ∈ comp) :
    a ∈ holders := by
  obtain ⟨c, _, rfl⟩ := gathered_components.mem_map_iff.mp hcomp
  exact (List.mem_filter.mp ha).1

theorem eq_or_eq_of_length_le {l : List Holder} (hlength : l.length ≤ 2) {x : Holder} (ha : a ∈ l)
    (hb : b ∈ l) (hx : x ∈ l) (hab : a ≠ b) : x = a ∨ x = b := by
  by_contra hne
  rw [not_or] at hne
  have hthree : [x, a, b].Nodup := by
    rw [List.nodup_cons, List.nodup_cons, List.mem_cons, List.mem_singleton, List.mem_singleton,
      not_or]
    exact ⟨hne, hab, List.nodup_singleton b⟩
  have hsubset : [x, a, b] ⊆ l := by
    intro y hy
    simp only [List.mem_cons, List.not_mem_nil, or_false] at hy
    rcases hy with rfl | rfl | rfl <;> assumption
  have hle := (hthree.subperm hsubset).length_le
  exact absurd (Nat.le_trans hle hlength) (Nat.not_succ_le_self 2)

theorem mem_unit (hnodup : holders.Nodup) (hunit : unit ∈ units lower holders members)
    (ha : a ∈ unit) (b : Holder) : b ∈ unit ↔ b ∈ holders ∧ SameUnit lower members holders a b := by
  rw [units_eq hnodup] at hunit
  obtain ⟨comp, hcomp, hsplit⟩ := List.mem_flatMap.mp hunit
  rw [splitComponent] at hsplit
  split at hsplit
  next hlength =>
    rw [List.mem_singleton.mp hsplit] at ha ⊢
    have hmem := mem_component hcomp ha
    rw [hmem]
    refine and_congr_right fun hb => ⟨fun hlinked => ?_, ?_⟩
    · by_cases hab : a = b
      · exact .inl hab
      · refine .inr ⟨hlinked, fun x hx hax => ?_⟩
        exact eq_or_eq_of_length_le hlength ha ((hmem b).mpr ⟨hb, hlinked⟩)
          ((hmem x).mpr ⟨hx, hax⟩) hab
    · rintro (rfl | ⟨hlinked, _⟩)
      · exact .refl a
      · exact hlinked
  next hlength =>
    obtain ⟨c, hc, rfl⟩ := List.mem_map.mp hsplit
    rw [List.mem_singleton.mp ha, List.mem_singleton]
    constructor
    · rintro rfl
      exact ⟨mem_holders_of_component hcomp hc, .inl rfl⟩
    · rintro ⟨_, heq | ⟨_, honly⟩⟩
      · exact heq.symm
      · have hsubset : comp ⊆ [c, b] := by
          intro x hx
          obtain ⟨hmem, hlinked⟩ := (mem_component hcomp hc x).mp hx
          simpa using honly x hmem hlinked
        exact absurd ((component_nodup hnodup hcomp).subperm hsubset).length_le hlength

theorem flatten_splitComponent (comp : List Holder) : (splitComponent comp).flatten = comp := by
  unfold splitComponent
  split
  next => rw [List.flatten_cons, List.flatten_nil, List.append_nil]
  next => rw [← List.flatMap_def, List.flatMap_singleton']

section

variable (hnodup : holders.Nodup)
include hnodup

theorem flatten_units : (units lower holders members).flatten.Perm holders := by
  have hflatten : ((components lower members holders).flatMap splitComponent).flatten =
      (components lower members holders).flatten := by
    induction components lower members holders with
    | nil => rfl
    | cons comp comps ih =>
      rw [List.flatMap_cons, List.flatten_append, flatten_splitComponent, ih, List.flatten_cons]
  rw [units_eq hnodup, hflatten]
  exact Grouping.flatten_foldl (rootOf lower members holders) holders []

theorem unit_ne_nil (hunit : unit ∈ units lower holders members) : unit ≠ [] := by
  rw [units_eq hnodup] at hunit
  obtain ⟨comp, hcomp, hsplit⟩ := List.mem_flatMap.mp hunit
  obtain ⟨c, hc, heq⟩ := gathered_components.mem_map_iff.mp hcomp
  rw [splitComponent] at hsplit
  split at hsplit
  next =>
    rw [List.mem_singleton.mp hsplit, heq]
    exact List.ne_nil_of_mem (List.mem_filter.mpr ⟨hc, decide_eq_true rfl⟩)
  next =>
    obtain ⟨x, _, rfl⟩ := List.mem_map.mp hsplit
    exact List.cons_ne_nil _ _

theorem exists_unit {a : Holder} (ha : a ∈ holders) :
    ∃ unit ∈ units lower holders members, a ∈ unit :=
  List.mem_flatten.mp ((flatten_units hnodup).mem_iff.mpr ha)

end

theorem paired_of_sameUnit (h : SameUnit lower members holders a b) (hne : a ≠ b) :
    paired lower a b members = true := by
  obtain ⟨hlinked, honly⟩ := h.resolve_left hne
  by_contra hnot
  -- From `a` the links lead nowhere.
  suffices hstay : ∀ x y, Linked lower members holders x y → (x = a ↔ y = a) from
    hne ((hstay a b hlinked).mp rfl).symm
  have hstep : ∀ y ∈ holders, a ∈ holders → paired lower a y members = true → y = a := by
    intro y hy ha hpaired
    refine (honly y hy (.rel _ _ ⟨ha, hy, hpaired⟩)).resolve_right ?_
    rintro rfl
    exact hnot hpaired
  intro x y hxy
  induction hxy with
  | rel x y hxy =>
    obtain ⟨hx, hy, hpaired⟩ := hxy
    constructor
    · rintro rfl
      exact hstep y hy hx hpaired
    · rintro rfl
      rw [paired_comm] at hpaired
      exact hstep x hx hy hpaired
  | refl x => exact Iff.rfl
  | symm x y _ ih => exact ih.symm
  | trans x y z _ _ ih ih' => exact ih.trans ih'

end SpatiumDdi.Dhcp.WindowsFailover
