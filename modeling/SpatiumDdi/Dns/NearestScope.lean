import SpatiumDdi.Dns.Blackhole
import SpatiumDdi.Lib.Subnets

/-!
Which of a pool's records a client inside the scopes is served.

The client lands in the geo view of the first scope, in the order of the sorted CIDR
texts, that holds it, and there finds the records of the members with that very scope
and of the members that were never scoped. Specificity plays no part: where scopes are
nested the order of their texts says which of them is served.
-/

namespace SpatiumDdi.Dns

open Ipaddress

section Nearest

variable (ipNetwork : String → Option Net) (client : Address) {scope : List String}

def matching (scope : List String) : List Net :=
  (scope.filterMap ipNetwork).filter fun net => net.contains client

def holds (scope : List String) : Bool := !(matching ipNetwork client scope).isEmpty

/-- One more than the longest prefix that holds the client, 0 where none does. -/
def longestMatch (scope : List String) : Nat :=
  ((matching ipNetwork client scope).map fun net => net.prefixlen + 1).foldr max 0

theorem longestMatch_eq_zero (h : holds ipNetwork client scope = false) :
    longestMatch ipNetwork client scope = 0 := by
  have hnil : matching ipNetwork client scope = [] := by simpa [holds] using h
  rw [longestMatch, hnil]
  rfl

variable (normaliseCidr : String → Option String) (t : PoolTable)

/-- The query is the client's: an address-match list of CIDRs admits it where one of them
holds the client. -/
def AskedBy (q : Query) : Prop :=
  ∀ scope ∈ scopeKeys normaliseCidr t, q.admits scope [] = holds ipNetwork client scope

structure PoolRecord (pool : List DnsPoolMember) (records : List ZoneRecord) (name : String)
    (m : DnsPoolMember) (r : ZoneRecord) : Prop where
  member : m ∈ pool
  record : r ∈ records
  named : r.name = name
  rendered : r.poolMemberId = some m.id

def Nearest (pool : List DnsPoolMember) (records : List ZoneRecord) (name : String)
    (m : DnsPoolMember) : Prop :=
  ∀ m' r', PoolRecord pool records name m' r' →
    longestMatch ipNetwork client (memberScope normaliseCidr t m') ≤
      longestMatch ipNetwork client (memberScope normaliseCidr t m)

def ServesNearest (pool : List DnsPoolMember) (records served : List ZoneRecord)
    (name : String) : Prop :=
  ∃ m r, PoolRecord pool records name m r ∧ r ∈ served ∧
    holds ipNetwork client (memberScope normaliseCidr t m) ∧
    Nearest ipNetwork client normaliseCidr t pool records name m

variable {t} {normaliseCidr} {pool : List DnsPoolMember} {records : List ZoneRecord} {name : String}
  {m : DnsPoolMember} {r : ZoneRecord}

theorem PoolRecord.memberOf (hpool : pool ∈ t.pools) (h : PoolRecord pool records name m r) :
    r.poolMemberId.bind (memberOf t) = some m := by
  rw [h.rendered, Option.bind_some, memberOf_eq_some_iff]
  exact ⟨List.mem_flatten.mpr ⟨pool, hpool, h.member⟩, rfl⟩

theorem isScoped_of_eq (hne : scope ≠ []) (h : memberScope normaliseCidr t m = scope) :
    isScoped normaliseCidr t m = true := by
  rw [isScoped, h]
  cases scope with
  | nil => exact absurd rfl hne
  | cons cidr rest => rfl

theorem scope_ne_nil (h : scope ∈ scopeKeys normaliseCidr t) : scope ≠ [] := by
  obtain ⟨m, -, hscoped, rfl⟩ := (mem_scopeKeys normaliseCidr).mp h
  rintro hnil
  rw [isScoped, hnil] at hscoped
  cases hscoped

/-- In the geo view of a scope a pool's record is served where its member has that scope,
or was never scoped and the record is in no operator's view. -/
theorem mem_served_iff (hscope : scope ∈ scopeKeys normaliseCidr t) {order : Nat}
    (hpool : pool ∈ t.pools) (h : PoolRecord pool records name m r) :
    r ∈ recordsForView records
        (geoDescriptor ⟨geoViewName (scopeIdx normaliseCidr t scope), scope⟩ order)
        (buildGeoSteering normaliseCidr t) ↔
      memberScope normaliseCidr t m = scope ∨
        (isUnscoped normaliseCidr t m = true ∧ r.viewId = none) := by
  have hne := scope_ne_nil hscope
  rw [recordsForView, List.mem_filter, servedIn_eq, servedAt_geo_iff normaliseCidr hscope,
    placement, h.memberOf hpool]
  simp only [h.record, true_and]
  by_cases hgone : isUnreachable normaliseCidr t m = true
  · have hempty : memberScope normaliseCidr t m = [] ∧ m.siteId.isSome = true := by
      simpa [isUnreachable] using hgone
    have hscoped : isUnscoped normaliseCidr t m = false := by
      simp [isUnscoped, hempty]
    simp [hgone, hscoped, hempty, hne.symm]
  · by_cases hscoped : isScoped normaliseCidr t m = true
    · have hsome : memberScope normaliseCidr t m ≠ [] := by simpa [isScoped] using hscoped
      have hnot : isUnscoped normaliseCidr t m = false := by simp [isUnscoped, hsome]
      simp [hgone, hscoped, hnot]
    · have hempty : memberScope normaliseCidr t m = [] := by simpa [isScoped] using hscoped
      have hunscoped : isUnscoped normaliseCidr t m = true := by
        simpa [isUnscoped, isUnreachable, hempty] using hgone
      cases hview : r.viewId with
      | none => simp [hgone, hscoped, hunscoped, plainPlacement, hview]
      | some viewId => simp [hgone, hscoped, plainPlacement, hview, hempty, hne.symm]

end Nearest

def nestedScopes : PoolTable where
  pools := [[⟨"wide", true, ["10.0.0.0/8"], none⟩, ⟨"near", true, ["10.1.0.0/16"], none⟩,
    ⟨"rest", true, [], none⟩]]
  siteSubnets := []
  nodup_ids := by decide

def nestedNetwork (cidr : String) : Option Net :=
  if cidr = "10.0.0.0/8" then some (.ofValue .v4 (10 * 2 ^ 24) 8)
  else if cidr = "10.1.0.0/16" then some (.ofValue .v4 (10 * 2 ^ 24 + 2 ^ 16) 16)
  else none

def nearClient : Address := ⟨.v4, 10 * 2 ^ 24 + 2 ^ 16 + 2 * 2 ^ 8 + 3, by decide⟩

def nearQuery : Query where
  admits clients _ := clients.contains "any" || holds nestedNetwork nearClient clients
  any_admits := by decide

def nestedRecords : List ZoneRecord :=
  [⟨"www", some "wide", none⟩, ⟨"www", some "near", none⟩, ⟨"www", some "rest", none⟩]

theorem nearQuery_asked : AskedBy nestedNetwork nearClient some nestedScopes nearQuery := by
  unfold AskedBy
  decide +kernel

def wideView : ViewDescriptor := geoDescriptor ⟨"spatium-geo-1", ["10.0.0.0/8"]⟩ 0

theorem lands_wideView :
    landing nearQuery (buildViewDescriptors [] (buildGeoSteering some nestedScopes)) =
      some wideView := by
  decide +kernel

end SpatiumDdi.Dns
