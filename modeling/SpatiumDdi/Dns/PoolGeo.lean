import Mathlib.Data.List.Dedup
import Mathlib.Data.List.Sort
import Mathlib.Data.String.Basic

/-!
Geo steering of DNS pools (`services/dns/pool_geo.py`): the views synthesized from the
pool members' serving scopes, the order the views are rendered in, and the records a view
serves. `normaliseCidr` stands for `_normalise_cidr`, the canonical text of a CIDR.
-/

namespace SpatiumDdi.Dns

def geoDefaultView : String := "spatium-geo-default"

structure DnsPoolMember where
  id : String
  enabled : Bool
  servingCidrs : List String
  siteId : Option String
  deriving DecidableEq

/-- The pools of a group with their members, and the live subnets of the sites. Member
ids are the table's primary key. -/
structure PoolTable where
  pools : List (List DnsPoolMember)
  siteSubnets : List (String × String)
  nodup_ids : (pools.flatten.map DnsPoolMember.id).Nodup

structure GeoView where
  name : String
  matchClients : List String

structure GeoSteering where
  views : List GeoView
  /-- The items of `member_view`, later ones overriding earlier ones. -/
  memberView : List (String × String)
  defaultFallbackMembers : List String
  unreachableMembers : List String

/-- `member_view.get`. -/
def GeoSteering.viewOf (geo : GeoSteering) (memberId : String) : Option String :=
  (geo.memberView.reverse.find? fun item => item.1 == memberId).map Prod.snd

def GeoSteering.active (geo : GeoSteering) : Bool := !geo.views.isEmpty

section Steering

variable (normaliseCidr : String → Option String)

def siteCidrs (t : PoolTable) (siteId : String) : List String :=
  (t.siteSubnets.filter fun row => row.1 == siteId).filterMap fun row => normaliseCidr row.2

/-- `tuple(sorted(_member_scope(member)))`: the serving CIDRs and those of the site. -/
def memberScope (t : PoolTable) (m : DnsPoolMember) : List String :=
  let own := m.servingCidrs.filterMap normaliseCidr
  let site :=
    match m.siteId with
    | none => []
    | some siteId => siteCidrs normaliseCidr t siteId
  (own ++ site).dedup.insertionSort fun a b => a ≤ b

/-- Scoped to a site whose subnets are gone. -/
def isUnreachable (t : PoolTable) (m : DnsPoolMember) : Bool :=
  (memberScope normaliseCidr t m).isEmpty && m.siteId.isSome

def isUnscoped (t : PoolTable) (m : DnsPoolMember) : Bool :=
  (memberScope normaliseCidr t m).isEmpty && m.siteId.isNone

def isScoped (t : PoolTable) (m : DnsPoolMember) : Bool :=
  !(memberScope normaliseCidr t m).isEmpty

/-- The items of `scope_to_members`, one for each scoped member. -/
def scopeEntries (t : PoolTable) : List (List String × String) :=
  (t.pools.flatten.filter (isScoped normaliseCidr t)).map fun m =>
    (memberScope normaliseCidr t m, m.id)

def scopeKeys (t : PoolTable) : List (List String) :=
  ((scopeEntries normaliseCidr t).map Prod.fst).dedup.insertionSort fun a b => a ≤ b

/-- `spatium-geo-{idx}`. -/
def geoViewName (idx : Nat) : String := "spatium-geo-" ++ toString idx

def fallbackMembers (t : PoolTable) : List String :=
  t.pools.flatMap fun p =>
    if p.any (isUnscoped normaliseCidr t) then []
    else (p.filter (isScoped normaliseCidr t)).map DnsPoolMember.id

def buildGeoSteering (t : PoolTable) : GeoSteering where
  views := ((scopeKeys normaliseCidr t).zipIdx 1).map fun (key, idx) =>
    ⟨geoViewName idx, key⟩
  memberView := ((scopeKeys normaliseCidr t).zipIdx 1).flatMap fun (key, idx) =>
    ((scopeEntries normaliseCidr t).filter fun entry => entry.1 == key).map fun entry =>
      (entry.2, geoViewName idx)
  defaultFallbackMembers := fallbackMembers normaliseCidr t
  unreachableMembers :=
    (t.pools.flatten.filter (isUnreachable normaliseCidr t)).map DnsPoolMember.id

end Steering

inductive ViewKind
  | geo
  | operator
  | default
  deriving DecidableEq

structure DnsView where
  id : String
  name : String
  matchClients : List String
  matchDestinations : List String
  recursion : Bool
  allowQuery : Option (List String)
  allowQueryCache : Option (List String)

structure ViewDescriptor where
  kind : ViewKind
  id : Option String
  name : String
  matchClients : List String
  matchDestinations : List String
  recursion : Bool
  order : Nat
  allowQuery : Option (List String)
  allowQueryCache : Option (List String)
  deriving DecidableEq

def geoDescriptor (gv : GeoView) (order : Nat) : ViewDescriptor where
  kind := .geo
  id := none
  name := gv.name
  matchClients := gv.matchClients
  matchDestinations := []
  recursion := true
  order := order
  allowQuery := none
  allowQueryCache := none

def DnsView.clients (v : DnsView) : List String :=
  if v.matchClients.isEmpty then ["any"] else v.matchClients

def operatorDescriptor (v : DnsView) (order : Nat) : ViewDescriptor where
  kind := .operator
  id := some v.id
  name := v.name
  matchClients := v.clients
  matchDestinations := v.matchDestinations
  recursion := v.recursion
  order := order
  allowQuery := v.allowQuery
  allowQueryCache := v.allowQueryCache

def defaultDescriptor (order : Nat) : ViewDescriptor where
  kind := .default
  id := none
  name := geoDefaultView
  matchClients := ["any"]
  matchDestinations := []
  recursion := true
  order := order
  allowQuery := none
  allowQueryCache := none

/-- `build_view_descriptors`: geo views, operator views, and the catch-all last. -/
def buildViewDescriptors (orderedViews : List DnsView) (geo : GeoSteering) :
    List ViewDescriptor :=
  (geo.views.zipIdx.map fun (gv, order) => geoDescriptor gv order) ++
    ((orderedViews.zipIdx geo.views.length).map fun (v, order) =>
      operatorDescriptor v order) ++
    if geo.active then [defaultDescriptor (geo.views.length + orderedViews.length)] else []

structure ZoneRecord where
  name : String
  poolMemberId : Option String
  viewId : Option String
  deriving DecidableEq

/-- A record no scope moves: an operator-scoped one renders in its own view, any other in
every view. -/
def servedPlain (view : ViewDescriptor) (r : ZoneRecord) : Bool :=
  match r.viewId with
  | some viewId => view.kind == .operator && view.id == some viewId
  | none => true

def servedIn (view : ViewDescriptor) (geo : GeoSteering) (r : ZoneRecord) : Bool :=
  if r.poolMemberId.any geo.unreachableMembers.contains then false
  else
    match r.poolMemberId.bind geo.viewOf with
    | some gview =>
      view.name == gview ||
        (view.kind != .geo && r.poolMemberId.any geo.defaultFallbackMembers.contains)
    | none => servedPlain view r

def recordsForView (records : List ZoneRecord) (view : ViewDescriptor) (geo : GeoSteering) :
    List ZoneRecord :=
  records.filter (servedIn view geo)

/-- A query: which address-match lists admit its client and its destination. Every client
is in `any`, and an empty destination list admits all. -/
structure Query where
  admits : List String → List String → Bool
  any_admits : admits ["any"] [] = true

/-- The first view, in render order, that admits the query. -/
def landing (q : Query) (views : List ViewDescriptor) : Option ViewDescriptor :=
  views.find? fun vd => q.admits vd.matchClients vd.matchDestinations

end SpatiumDdi.Dns
