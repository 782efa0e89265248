import SpatiumDdi.Dns.PoolGeo
import SpatiumDdi.Lib.Guards

/-!
Moving a zone to another server group (`services/dns/zone_move.py`): the plan, which resolves the
views and TSIG keys of the zone by name, and the commit, which resolves them once more and writes.
What the drivers of the target refuse, and the rendered name collisions, are inputs of the move:
they only ever refuse it.
-/

namespace SpatiumDdi.Dns

def viewRendersZone (view : ViewDescriptor) (targets : List String) : Bool :=
  !(view.kind == .operator && !targets.isEmpty && !view.id.any targets.contains)

/-- The operator views a zone is kept to: its pin, or the views its records name. -/
def zoneTargets (zoneViewId : Option String) (recordViewIds : List (Option String)) :
    List String :=
  match zoneViewId with
  | some pin => [pin]
  | none => recordViewIds.filterMap id

def viewsRenderingZone (views : List ViewDescriptor) (zoneViewId : Option String)
    (recordViewIds : List (Option String)) : List ViewDescriptor :=
  views.filter (viewRendersZone · (zoneTargets zoneViewId recordViewIds))

namespace ZoneMove

structure View where
  groupId : String
  view : DnsView
  name_ne : view.name ≠ ""

structure TsigKey where
  id : String
  groupId : String
  name : String
  name_ne : name ≠ ""

structure Acl where
  groupId : String
  name : String

structure Server where
  id : String
  groupId : String

structure Zone where
  id : String
  name : String
  groupId : String
  viewId : Option String
  citedAcls : List String
  citedKeys : List String
  dnssecSigned : Bool

structure Record where
  id : String
  zoneId : String
  record : ZoneRecord
  deleted : Bool
  /-- Read back from a server, not written here. -/
  learned : Bool

structure Grant where
  id : String
  zoneId : String
  tsigKeyId : Option String
  ipCidr : Option String

structure Pool where
  id : String
  zoneId : String
  groupId : String

structure ServerZoneState where
  serverId : String
  zoneId : String

structure QueuedOp where
  serverId : String
  zoneName : String
  queued : Bool

structure State where
  views : List View
  keys : List TsigKey
  acls : List Acl
  servers : List Server
  zones : List Zone
  records : List Record
  grants : List Grant
  pools : List Pool
  zoneStates : List ServerZoneState
  ingestSnapshots : List ServerZoneState
  ops : List QueuedOp
  view_ids : (views.map (·.view.id)).Nodup
  key_ids : (keys.map (·.id)).Nodup

/-- `DNSView` rows of a group. -/
def State.viewsOf (s : State) (groupId : String) : List DnsView :=
  (s.views.filter (·.groupId == groupId)).map (·.view)

def State.keysOf (s : State) (groupId : String) : List TsigKey :=
  s.keys.filter (·.groupId == groupId)

/-- `{v.id: v.name}.get`. -/
def viewName (views : List DnsView) (id : String) : Option String :=
  (views.find? (·.id == id)).map (·.name)

/-- `{v.name: v.id}.get`. -/
def viewId (views : List DnsView) (name : String) : Option String :=
  (views.find? (·.name == name)).map (·.id)

def keyName (keys : List TsigKey) (id : String) : Option String :=
  (keys.find? (·.id == id)).map (·.name)

def keyId (keys : List TsigKey) (name : String) : Option String :=
  (keys.find? (·.name == name)).map (·.id)

inductive ViewAction where
  | keptNone
  | remapped
  | clearedWidening
  | clearedInert
  deriving DecidableEq

inductive Acknowledgement where
  | viewWidening
  | dnssecRollover
  | lostUpdateGrants
  deriving DecidableEq

structure Request where
  targetGroup : String
  confirmed : Bool
  lockTaken : Bool
  acknowledgements : List Acknowledgement
  /-- The target is steered by geography before the move. -/
  targetGeo : Bool
  driverRefusal : Bool
  renderCollision : Bool

structure Plan where
  zoneViewAction : ViewAction
  zoneViewToId : Option String
  recordsWidened : Nat
  grantKeysLost : List String
  aclNamesLost : List String
  keyNamesLost : List String
  poolsRepointed : Nat
  nameCollision : Bool
  required : List Acknowledgement

def resolve (source target : List DnsView) (targetHasViews : Bool) :
    Option String → ViewAction × Option String
  | none => (.keptNone, none)
  | some id =>
    match (viewName source id).bind (viewId target) with
    | some newId => (.remapped, some newId)
    | none => (if targetHasViews then .clearedWidening else .clearedInert, none)

/-- `assemble_move_plan`, with the acknowledgements `_fill_warnings` asks for. -/
def assembleMovePlan (s : State) (zone : Zone) (req : Request) : Plan :=
  let source := s.viewsOf zone.groupId
  let target := s.viewsOf req.targetGroup
  let targetHasViews := !target.isEmpty || req.targetGeo
  let (zoneViewAction, zoneViewToId) := resolve source target targetHasViews zone.viewId
  -- The trashed records count too: a restore must not bring back a view of the old group.
  let scopedRecords := s.records.filter fun r => r.zoneId == zone.id && r.record.viewId.isSome
  let recordsWidened := (scopedRecords.filter fun r =>
    (resolve source target targetHasViews r.record.viewId).1 = .clearedWidening).length
  let grantKeysLost := (s.grants.filter (·.zoneId == zone.id)).filterMap fun g =>
    g.tsigKeyId.bind fun key =>
      match keyName (s.keysOf zone.groupId) key with
      | none => some "(unknown key)"
      | some name => if (keyId (s.keysOf req.targetGroup) name).isSome then none else some name
  let aclsOf := fun groupId => (s.acls.filter (·.groupId == groupId)).map (·.name)
  let keyNamesOf := fun groupId => (s.keysOf groupId).map (·.name)
  { zoneViewAction := zoneViewAction
    zoneViewToId := zoneViewToId
    recordsWidened := recordsWidened
    grantKeysLost := grantKeysLost
    aclNamesLost := zone.citedAcls.filter fun n =>
      (aclsOf zone.groupId).contains n && !(aclsOf req.targetGroup).contains n
    keyNamesLost := zone.citedKeys.filter fun n =>
      (keyNamesOf zone.groupId).contains n && !(keyNamesOf req.targetGroup).contains n
    poolsRepointed := (s.pools.filter (·.zoneId == zone.id)).length
    nameCollision := req.renderCollision || s.zones.any fun z =>
      z.groupId == req.targetGroup && z.name == zone.name && z.viewId == zoneViewToId &&
        z.id != zone.id
    required :=
      (if zoneViewAction = .clearedWidening ∨ 0 < recordsWidened then [.viewWidening] else []) ++
        (if zone.dnssecSigned then [.dnssecRollover] else []) ++
          (if grantKeysLost.isEmpty then [] else [.lostUpdateGrants]) }

inductive Refusal where
  | sameGroup
  | confirmation
  | lock
  | driver
  | aclNamesLost (names : List String)
  | keyNamesLost (names : List String)
  | nameCollision
  | acknowledgements (missing : List Acknowledgement)

/-- `_new_view_id`. Its test that the name is not empty always passes. -/
def newViewId (source target : List DnsView) (id : Option String) : Option String :=
  (id.bind (viewName source)).bind (viewId target)

def moveRecord (source target : List DnsView) (r : Record) : Record :=
  { r with record := { r.record with viewId := newViewId source target r.record.viewId } }

/-- What becomes of one grant: a network's stays, a key's follows the name of the key or goes. -/
def newGrant (source target : List TsigKey) (g : Grant) : Option Grant :=
  match g.tsigKeyId with
  | none => some g
  | some key =>
    ((keyName source key).bind (keyId target)).map fun newKey => { g with tsigKeyId := some newKey }

def queuedZoneOp (s : State) (zoneName groupId : String) (op : QueuedOp) : Bool :=
  op.queued && op.zoneName == zoneName &&
    s.servers.any fun server => server.id == op.serverId && server.groupId == groupId

def moved (s : State) (zone : Zone) (req : Request) (plan : Plan) : State :=
  let source := s.viewsOf zone.groupId
  let target := s.viewsOf req.targetGroup
  { s with
    zones := s.zones.map fun z =>
      if z.id == zone.id then
        { z with groupId := req.targetGroup, viewId := newViewId source target zone.viewId }
      else z
    records := s.records.map fun r =>
      if r.zoneId == zone.id then moveRecord source target r else r
    grants := s.grants.filterMap fun g =>
      if g.zoneId == zone.id then newGrant (s.keysOf zone.groupId) (s.keysOf req.targetGroup) g
      else some g
    pools := if plan.poolsRepointed = 0 then s.pools else s.pools.map fun p =>
      if p.zoneId == zone.id then { p with groupId := req.targetGroup } else p
    zoneStates := s.zoneStates.filter (·.zoneId != zone.id)
    ingestSnapshots := s.ingestSnapshots.filter (·.zoneId != zone.id)
    ops := s.ops.filter fun op => !queuedZoneOp s zone.name zone.groupId op }

def commitMove (s : State) (zone : Zone) (req : Request) : Except Refusal State := do
  require (zone.groupId ≠ req.targetGroup) .sameGroup
  require (req.confirmed = true) .confirmation
  require (req.lockTaken = true) .lock
  let plan := assembleMovePlan s zone req
  require (req.driverRefusal = false) .driver
  require (plan.aclNamesLost = []) (.aclNamesLost plan.aclNamesLost)
  require (plan.keyNamesLost = []) (.keyNamesLost plan.keyNamesLost)
  require (plan.nameCollision = false) .nameCollision
  let missing := plan.required.filter (!req.acknowledgements.contains ·)
  require (missing = []) (.acknowledgements missing)
  pure (moved s zone req plan)

def State.live (s : State) (zoneId : String) : List Record :=
  s.records.filter fun r => r.zoneId == zoneId && !r.deleted

def State.placing (s : State) (zoneId : String) : List (Option String) :=
  ((s.live zoneId).filter (!·.learned)).map (·.record.viewId)

def servedViews (s : State) (zone : Zone) (geo : GeoSteering) (r : ZoneRecord) :
    List ViewDescriptor :=
  (viewsRenderingZone (buildViewDescriptors (s.viewsOf zone.groupId) geo) zone.viewId
    (s.placing zone.id)).filter (servedIn · geo r)

/-- Whether a client, by the names of the views it matches, is served a record of the zone. A group
that renders no views serves it to every client. -/
def servedTo (s : State) (zone : Zone) (geo : GeoSteering) (client : String → Bool)
    (r : ZoneRecord) : Bool :=
  if (s.viewsOf zone.groupId).isEmpty && !geo.active then
    !r.poolMemberId.any geo.unreachableMembers.contains
  else (servedViews s zone geo r).any (client ·.name)

end ZoneMove

end SpatiumDdi.Dns

namespace SpatiumDdi.Dns.ZoneMove

variable {s s' : State} {zone : Zone} {req : Request}

def State.HasView (s : State) (groupId viewId : String) : Prop :=
  ∃ v ∈ s.views, v.groupId = groupId ∧ v.view.id = viewId

def State.HasKey (s : State) (groupId keyId name : String) : Prop :=
  ∃ k ∈ s.keys, k.groupId = groupId ∧ k.id = keyId ∧ k.name = name

structure LeftBehindNothing (s : State) (zone : Zone) (targetGroup : String) : Prop where
  zones : ∀ z ∈ s.zones, z.id = zone.id →
    z.groupId = targetGroup ∧ ∀ v, z.viewId = some v → s.HasView targetGroup v
  records : ∀ r ∈ s.records, r.zoneId = zone.id → ∀ v, r.record.viewId = some v →
    s.HasView targetGroup v
  grants : ∀ g ∈ s.grants, g.zoneId = zone.id → ∀ k, g.tsigKeyId = some k →
    ∃ name, s.HasKey targetGroup k name
  pools : ∀ p ∈ s.pools, p.zoneId = zone.id → p.groupId = targetGroup
  zoneStates : ∀ st ∈ s.zoneStates, st.zoneId ≠ zone.id
  ops : ∀ op ∈ s.ops, queuedZoneOp s zone.name zone.groupId op = false

/-- Every grant of the zone is there still, to the same network or to a key of the same name. -/
def KeepsGrants (s s' : State) (zone : Zone) (targetGroup : String) : Prop :=
  ∀ g ∈ s.grants, g.zoneId = zone.id → ∃ g' ∈ s'.grants, g'.id = g.id ∧ g'.ipCidr = g.ipCidr ∧
    (g.tsigKeyId = none → g'.tsigKeyId = none) ∧
    ∀ k, g.tsigKeyId = some k → ∃ k' name, g'.tsigKeyId = some k' ∧
      s.HasKey zone.groupId k name ∧ s'.HasKey targetGroup k' name

def OnlyIn (s : State) (zone : Zone) (geo : GeoSteering) (r : ZoneRecord) (name : String) : Prop :=
  (∃ d ∈ servedViews s zone geo r, d.name = name) ∧
    ∀ d ∈ servedViews s zone geo r, d.name = name

/-- What keeps a record to one view: the zone's pin, its own scope, or the scopes of others. -/
def Narrowed (s : State) (zone : Zone) (r : ZoneRecord) : Prop :=
  zone.viewId ≠ none ∨ r.viewId ≠ none ∨ (s.placing zone.id).filterMap id ≠ []

def NotSteered (geo : GeoSteering) (r : ZoneRecord) : Prop :=
  r.poolMemberId.bind geo.viewOf = none

/-- A client that is served a record after the move matches the view the record was kept to. -/
def Narrow (s s' : State) (zone : Zone) (geo geo' : GeoSteering) : Prop :=
  ∀ z' ∈ s'.zones, z'.id = zone.id → ∀ r' ∈ s'.live zone.id, ∀ client,
    servedTo s' z' geo' client r'.record = true →
    ∃ r ∈ s.live zone.id, r.id = r'.id ∧ ∀ name, OnlyIn s zone geo r.record name →
      Narrowed s zone r.record → NotSteered geo r.record → NotSteered geo' r.record →
      client name = true

variable {views : List DnsView} {id name : String} {keys : List TsigKey}

theorem viewName_some (h : viewName views id = some name) :
    ∃ v ∈ views, v.id = id ∧ v.name = name := by
  obtain ⟨v, hv, rfl⟩ := Option.map_eq_some_iff.mp h
  exact ⟨v, List.mem_of_find?_eq_some hv, by simpa using List.find?_some hv, rfl⟩

theorem viewId_some (h : viewId views name = some id) : ∃ v ∈ views, v.id = id ∧ v.name = name := by
  obtain ⟨v, hv, rfl⟩ := Option.map_eq_some_iff.mp h
  exact ⟨v, List.mem_of_find?_eq_some hv, rfl, by simpa using List.find?_some hv⟩

theorem keyName_some (h : keyName keys id = some name) : ∃ k ∈ keys, k.id = id ∧ k.name = name := by
  obtain ⟨k, hk, rfl⟩ := Option.map_eq_some_iff.mp h
  exact ⟨k, List.mem_of_find?_eq_some hk, by simpa using List.find?_some hk, rfl⟩

theorem keyId_some (h : keyId keys name = some id) : ∃ k ∈ keys, k.id = id ∧ k.name = name := by
  obtain ⟨k, hk, rfl⟩ := Option.map_eq_some_iff.mp h
  exact ⟨k, List.mem_of_find?_eq_some hk, rfl, by simpa using List.find?_some hk⟩

variable {groupId new : String} {v w : DnsView} {source target : List DnsView}

theorem mem_viewsOf (h : v ∈ s.viewsOf groupId) :
    ∃ row ∈ s.views, row.groupId = groupId ∧ row.view = v := by
  obtain ⟨row, hrow, rfl⟩ := List.mem_map.mp h
  obtain ⟨hmem, hgroup⟩ := List.mem_filter.mp hrow
  exact ⟨row, hmem, by simpa using hgroup, rfl⟩

theorem mem_keysOf {k : TsigKey} (h : k ∈ s.keysOf groupId) : k ∈ s.keys ∧ k.groupId = groupId := by
  obtain ⟨hmem, hgroup⟩ := List.mem_filter.mp h
  exact ⟨hmem, by simpa using hgroup⟩

theorem view_eq_of_id (hv : v ∈ s.viewsOf groupId) (hw : w ∈ s.viewsOf groupId) (h : v.id = w.id) :
    v = w := by
  obtain ⟨rv, hrv, -, rfl⟩ := mem_viewsOf hv
  obtain ⟨rw, hrw, -, rfl⟩ := mem_viewsOf hw
  rw [List.inj_on_of_nodup_map s.view_ids hrv hrw h]

theorem newViewId_some {id : Option String} (h : newViewId source target id = some new) :
    ∃ old name, id = some old ∧ (∃ v ∈ source, v.id = old ∧ v.name = name) ∧
      ∃ v ∈ target, v.id = new ∧ v.name = name := by
  obtain ⟨name, hname, hnew⟩ := Option.bind_eq_some_iff.mp h
  obtain ⟨old, rfl, hold⟩ := Option.bind_eq_some_iff.mp hname
  exact ⟨old, name, rfl, viewName_some hold, viewId_some hnew⟩

theorem newViewId_hasView {id : Option String}
    (h : newViewId source (s.viewsOf groupId) id = some new) : s.HasView groupId new := by
  obtain ⟨old, name, -, -, v, hv, rfl, -⟩ := newViewId_some h
  obtain ⟨row, hrow, hgroup, rfl⟩ := mem_viewsOf hv
  exact ⟨row, hrow, hgroup, rfl⟩

theorem newViewId_of_not_widening {id : Option String}
    (h : (resolve source target true id).1 ≠ .clearedWidening) :
    id = none ∨ ∃ new, newViewId source target id = some new := by
  cases id with
  | none => exact Or.inl rfl
  | some old =>
    right
    simp only [resolve] at h
    split at h
    case h_1 new hnew => exact ⟨new, hnew⟩
    case h_2 => exact absurd rfl h

theorem commitMove_ok (h : commitMove s zone req = .ok s') :
    s' = moved s zone req (assembleMovePlan s zone req) ∧
      ∀ a ∈ (assembleMovePlan s zone req).required, a ∈ req.acknowledgements := by
  simp only [commitMove, bind_eq_ok, require_eq_ok, pure_eq_ok] at h
  obtain ⟨-, -, -, -, -, -, -, -, -, -, -, -, -, -, -, hmissing, rfl⟩ := h
  refine ⟨rfl, fun a ha => ?_⟩
  have hnone := List.filter_eq_nil_iff.mp hmissing a ha
  simpa using hnone

theorem required_eq (s : State) (zone : Zone) (req : Request) :
    (assembleMovePlan s zone req).required =
      (if (assembleMovePlan s zone req).zoneViewAction = .clearedWidening ∨
        0 < (assembleMovePlan s zone req).recordsWidened then [.viewWidening] else []) ++
      (if zone.dnssecSigned then [.dnssecRollover] else []) ++
        (if (assembleMovePlan s zone req).grantKeysLost.isEmpty then []
          else [.lostUpdateGrants]) := rfl

theorem required_of_widening
    (h : (assembleMovePlan s zone req).zoneViewAction = .clearedWidening ∨
      0 < (assembleMovePlan s zone req).recordsWidened) :
    .viewWidening ∈ (assembleMovePlan s zone req).required := by
  rw [required_eq, if_pos h]
  simp

theorem required_of_lost_grant (h : (assembleMovePlan s zone req).grantKeysLost ≠ []) :
    .lostUpdateGrants ∈ (assembleMovePlan s zone req).required := by
  have hsome : ¬ (assembleMovePlan s zone req).grantKeysLost.isEmpty = true := by simpa using h
  rw [required_eq, if_neg hsome]
  simp

theorem scopes_resolve (h : commitMove s zone req = .ok s')
    (hack : .viewWidening ∉ req.acknowledgements) (htarget : s.viewsOf req.targetGroup ≠ []) :
    let newId := newViewId (s.viewsOf zone.groupId) (s.viewsOf req.targetGroup)
    (zone.viewId = none ∨ ∃ new, newId zone.viewId = some new) ∧
      ∀ r ∈ s.records, r.zoneId = zone.id →
        r.record.viewId = none ∨ ∃ new, newId r.record.viewId = some new := by
  obtain ⟨-, hrequired⟩ := commitMove_ok h
  have hviews : (!(s.viewsOf req.targetGroup).isEmpty || req.targetGeo) = true := by
    cases hlist : s.viewsOf req.targetGroup with
    | nil => exact absurd hlist htarget
    | cons v vs => rfl
  have hnot : ¬ ((assembleMovePlan s zone req).zoneViewAction = .clearedWidening ∨
      0 < (assembleMovePlan s zone req).recordsWidened) := fun hwidening =>
    hack (hrequired _ (required_of_widening hwidening))
  rw [not_or] at hnot
  constructor
  · apply newViewId_of_not_widening
    rw [← hviews]
    exact hnot.1
  · intro r hr hzone
    cases hview : r.record.viewId with
    | none => exact Or.inl rfl
    | some old =>
      rw [← hview]
      apply newViewId_of_not_widening
      intro hwidens
      have hcounted : r ∈ (s.records.filter fun r =>
          r.zoneId == zone.id && r.record.viewId.isSome).filter fun r =>
            (resolve (s.viewsOf zone.groupId) (s.viewsOf req.targetGroup)
              (!(s.viewsOf req.targetGroup).isEmpty || req.targetGeo) r.record.viewId).1 =
              .clearedWidening := by
        simp only [List.mem_filter, decide_eq_true_eq]
        exact ⟨⟨hr, by simp [hzone, hview]⟩, by rw [hviews]; exact hwidens⟩
      exact hnot.2 (List.length_pos_of_mem hcounted)

theorem keyId_hasKey {key : String} (h : keyId (s.keysOf groupId) name = some key) :
    s.HasKey groupId key name := by
  obtain ⟨row, hrow, rfl, rfl⟩ := keyId_some h
  obtain ⟨hmem, hgroup⟩ := mem_keysOf hrow
  exact ⟨row, hmem, hgroup, rfl, rfl⟩

theorem newGrant_some {source target : List TsigKey} {g g' : Grant}
    (h : newGrant source target g = some g') :
    g'.id = g.id ∧ g'.zoneId = g.zoneId ∧ g'.ipCidr = g.ipCidr ∧
      (g.tsigKeyId = none → g' = g) ∧
      ∀ k', g'.tsigKeyId = some k' → ∃ k name, g.tsigKeyId = some k ∧
        keyName source k = some name ∧ keyId target name = some k' := by
  unfold newGrant at h
  split at h
  case h_1 hnone =>
    cases h
    exact ⟨rfl, rfl, rfl, fun _ => rfl, fun k' hk' => by rw [hnone] at hk'; cases hk'⟩
  case h_2 key hkey =>
    obtain ⟨newKey, hnewKey, rfl⟩ := Option.map_eq_some_iff.mp h
    obtain ⟨name, hname, hid⟩ := Option.bind_eq_some_iff.mp hnewKey
    refine ⟨rfl, rfl, rfl, fun hnone => ?_, fun k' hk' => ?_⟩
    · rw [hkey] at hnone
      cases hnone
    · cases hk'
      exact ⟨key, name, hkey, hname, hid⟩

theorem leftBehindNothing_moved (s : State) (zone : Zone) (req : Request) :
    LeftBehindNothing (moved s zone req (assembleMovePlan s zone req)) zone req.targetGroup where
  zones := by
    intro z hz hid
    obtain ⟨old, -, rfl⟩ := List.mem_map.mp hz
    split at hid
    case isTrue hsame =>
      rw [if_pos hsame]
      exact ⟨rfl, fun v hv => newViewId_hasView hv⟩
    case isFalse hother => exact absurd (by simpa using hid) hother
  records := by
    intro r hr hzone v hv
    obtain ⟨old, -, rfl⟩ := List.mem_map.mp hr
    split at hzone
    case isTrue hsame =>
      rw [if_pos hsame] at hv
      exact newViewId_hasView hv
    case isFalse hother => exact absurd (by simpa using hzone) hother
  grants := by
    intro g hg hzone k hk
    obtain ⟨old, -, hnew⟩ := List.mem_filterMap.mp hg
    split at hnew
    case isTrue =>
      obtain ⟨-, -, -, -, hkey⟩ := newGrant_some hnew
      obtain ⟨-, name, -, -, hnewKey⟩ := hkey k hk
      exact ⟨name, keyId_hasKey hnewKey⟩
    case isFalse hother =>
      cases hnew
      exact absurd (by simpa using hzone) hother
  pools := by
    intro p hp hzone
    dsimp only [moved] at hp
    split at hp
    case isTrue hnone =>
      have hcounted : p ∈ s.pools.filter (·.zoneId == zone.id) :=
        List.mem_filter.mpr ⟨hp, by simpa using hzone⟩
      exact absurd hnone (Nat.ne_of_gt (List.length_pos_of_mem hcounted))
    case isFalse =>
      obtain ⟨old, -, rfl⟩ := List.mem_map.mp hp
      split at hzone
      case isTrue hsame => rw [if_pos hsame]
      case isFalse hother => exact absurd (by simpa using hzone) hother
  zoneStates := by
    intro st hst
    simpa using (List.mem_filter.mp hst).2
  ops := by
    intro op hop
    have hkept : queuedZoneOp s zone.name zone.groupId op = false := by
      simpa using (List.mem_filter.mp hop).2
    exact hkept

theorem keepsGrants_moved (h : (assembleMovePlan s zone req).grantKeysLost = []) :
    KeepsGrants s (moved s zone req (assembleMovePlan s zone req)) zone req.targetGroup := by
  intro g hg hzone
  have hsame : (g.zoneId == zone.id) = true := by simpa using hzone
  have hmoved : ∀ g', newGrant (s.keysOf zone.groupId) (s.keysOf req.targetGroup) g = some g' →
      g' ∈ (moved s zone req (assembleMovePlan s zone req)).grants := by
    intro g' hg'
    exact List.mem_filterMap.mpr ⟨g, hg, by rw [if_pos hsame]; exact hg'⟩
  cases hkey : g.tsigKeyId with
  | none =>
    have hkept : newGrant (s.keysOf zone.groupId) (s.keysOf req.targetGroup) g = some g := by
      rw [newGrant, hkey]
    exact ⟨g, hmoved g hkept, rfl, rfl, fun _ => hkey, fun k hk => (nomatch hk)⟩
  | some key =>
    -- A key that the target does not have by name would be in the plan's list.
    have hnotLost := List.filterMap_eq_nil_iff.mp h g (List.mem_filter.mpr ⟨hg, hsame⟩)
    rw [hkey, Option.bind_some] at hnotLost
    split at hnotLost
    case h_1 => cases hnotLost
    case h_2 name hname =>
      split at hnotLost
      case isFalse => cases hnotLost
      case isTrue hfound =>
        obtain ⟨newKey, hnewKey⟩ := Option.isSome_iff_exists.mp hfound
        have hnew : newGrant (s.keysOf zone.groupId) (s.keysOf req.targetGroup) g =
            some { g with tsigKeyId := some newKey } := by
          rw [newGrant, hkey]
          simp [hname, hnewKey]
        refine ⟨_, hmoved _ hnew, rfl, rfl, fun hnone => (nomatch hnone), fun k hk => ?_⟩
        cases hk
        obtain ⟨row, hrow, rfl, rfl⟩ := keyName_some hname
        obtain ⟨hmem, hgroup⟩ := mem_keysOf hrow
        exact ⟨newKey, row.name, rfl, ⟨row, hmem, hgroup, rfl, rfl⟩, keyId_hasKey hnewKey⟩

theorem fst_mem_of_mem_zipIdx {α : Type} {l : List α} {k : Nat} {p : α × Nat}
    (h : p ∈ l.zipIdx k) : p.1 ∈ l := by
  have hmem : p.1 ∈ (l.zipIdx k).map Prod.fst := List.mem_map_of_mem h
  rwa [List.zipIdx_map_fst] at hmem

variable {geo : GeoSteering} {d : ViewDescriptor}

theorem operator_descriptor (hd : d ∈ buildViewDescriptors views geo) (hkind : d.kind = .operator) :
    ∃ v ∈ views, d.id = some v.id ∧ d.name = v.name := by
  rw [buildViewDescriptors, List.mem_append, List.mem_append] at hd
  rcases hd with (hgeo | hop) | hdefault
  · obtain ⟨row, -, rfl⟩ := List.mem_map.mp hgeo
    cases hkind
  · obtain ⟨row, hrow, rfl⟩ := List.mem_map.mp hop
    exact ⟨row.1, fst_mem_of_mem_zipIdx hrow, rfl, rfl⟩
  · split at hdefault
    · obtain rfl := List.mem_singleton.mp hdefault
      cases hkind
    · cases hdefault

theorem exists_descriptor (geo : GeoSteering) (hv : v ∈ views) :
    ∃ d ∈ buildViewDescriptors views geo,
      d.kind = .operator ∧ d.id = some v.id ∧ d.name = v.name := by
  have hmem : v ∈ (views.zipIdx geo.views.length).map Prod.fst := by
    rwa [List.zipIdx_map_fst]
  obtain ⟨row, hrow, rfl⟩ := List.mem_map.mp hmem
  refine ⟨operatorDescriptor row.1 row.2, ?_, rfl, rfl, rfl⟩
  rw [buildViewDescriptors, List.mem_append, List.mem_append]
  exact Or.inl (Or.inr (List.mem_map.mpr ⟨row, hrow, rfl⟩))

theorem kind_of_not_active (hgeo : geo.active = false) (hd : d ∈ buildViewDescriptors views geo) :
    d.kind = .operator := by
  have hnone : geo.views = [] := by simpa [GeoSteering.active] using hgeo
  rw [buildViewDescriptors, hnone, hgeo] at hd
  simp only [List.zipIdx_nil, List.map_nil, List.nil_append, Bool.false_eq_true, if_false,
    List.append_nil] at hd
  obtain ⟨row, -, rfl⟩ := List.mem_map.mp hd
  rfl

variable {r : ZoneRecord} {targets : List String} {pin : Option String}
  {placing : List (Option String)} {geo' : GeoSteering}

theorem mem_servedViews :
    d ∈ servedViews s zone geo r ↔ d ∈ buildViewDescriptors (s.viewsOf zone.groupId) geo ∧
      viewRendersZone d (zoneTargets zone.viewId (s.placing zone.id)) = true ∧
        servedIn d geo r = true := by
  rw [servedViews, viewsRenderingZone, List.mem_filter, List.mem_filter, and_assoc]

theorem servedIn_of_notSteered (h : NotSteered geo r) (d : ViewDescriptor) :
    servedIn d geo r = true ↔
      r.poolMemberId.any geo.unreachableMembers.contains = false ∧ servedPlain d r = true := by
  have hnone : r.poolMemberId.bind geo.viewOf = none := h
  rw [servedIn, hnone]
  cases r.poolMemberId.any geo.unreachableMembers.contains with
  | true => simp
  | false => simp

theorem mem_targets_of_renders (h : viewRendersZone d targets = true) (hkind : d.kind = .operator)
    (hne : targets ≠ []) : ∃ id ∈ targets, d.id = some id := by
  have hid : d.id.any targets.contains = true := by
    simpa [viewRendersZone, hkind, hne] using h
  obtain ⟨id, hsome, hmem⟩ := (Option.any_eq_true _ _).mp hid
  exact ⟨id, by simpa using hmem, hsome⟩

theorem renders_of_mem_targets (hid : d.id = some id) (hmem : id ∈ targets) :
    viewRendersZone d targets = true := by
  simp [viewRendersZone, hid, hmem]

theorem servedPlain_scoped {view : String} (h : servedPlain d r = true)
    (hview : r.viewId = some view) : d.kind = .operator ∧ d.id = some view := by
  simpa [servedPlain, hview] using h

theorem live_moved (s : State) (zone : Zone) (req : Request) :
    (moved s zone req (assembleMovePlan s zone req)).live zone.id =
      (s.live zone.id).map
        (moveRecord (s.viewsOf zone.groupId) (s.viewsOf req.targetGroup)) := by
  let move := moveRecord (s.viewsOf zone.groupId) (s.viewsOf req.targetGroup)
  let f : Record → Record := fun r => if r.zoneId == zone.id then move r else r
  have hsame : ((fun r : Record => r.zoneId == zone.id && !r.deleted) ∘ f) =
      fun r => r.zoneId == zone.id && !r.deleted := by
    funext r
    by_cases hzone : r.zoneId = zone.id
    · simp [f, hzone, move, moveRecord]
    · simp [f, hzone]
  change (s.records.map f).filter (fun r => r.zoneId == zone.id && !r.deleted) = _
  rw [List.filter_map, hsame]
  apply List.map_congr_left
  intro r hr
  have hzone : (r.zoneId == zone.id) = true := by
    have hboth := (List.mem_filter.mp hr).2
    rw [Bool.and_eq_true] at hboth
    exact hboth.1
  exact if_pos hzone

theorem placing_moved (s : State) (zone : Zone) (req : Request) :
    (moved s zone req (assembleMovePlan s zone req)).placing zone.id =
      (s.placing zone.id).map
        (newViewId (s.viewsOf zone.groupId) (s.viewsOf req.targetGroup)) := by
  rw [State.placing, live_moved, List.filter_map, List.map_map, State.placing, List.map_map]
  rfl

theorem name_of_newViewId {old : String} (hv : v ∈ s.viewsOf groupId)
    (h : newViewId source (s.viewsOf groupId) (some old) = some v.id) :
    ∃ w ∈ source, w.id = old ∧ w.name = v.name := by
  obtain ⟨_, name, hold, ⟨w, hw, hid, hname⟩, v', hv', hnew, hname'⟩ := newViewId_some h
  cases hold
  rw [view_eq_of_id hv' hv hnew] at hname'
  exact ⟨w, hw, hid, hname.trans hname'.symm⟩

theorem OnlyIn.eq_name (h : OnlyIn s zone geo r name) (hd : d ∈ servedViews s zone geo r)
    (hkind : d.kind = .operator) (hw : w ∈ s.viewsOf zone.groupId) (hid : d.id = some w.id) :
    w.name = name := by
  obtain ⟨v, hv, hvid, hvname⟩ := operator_descriptor (mem_servedViews.mp hd).1 hkind
  have hsame : v = w := view_eq_of_id hv hw (Option.some.inj (hvid.symm.trans hid))
  rw [← hsame, ← hvname]
  exact h.2 d hd

section

variable (hpin : pin = none ∨ ∃ new, newViewId source target pin = some new)
include hpin

theorem mem_newTargets
    (h : id ∈ zoneTargets (newViewId source target pin) (placing.map (newViewId source target))) :
    ∃ old ∈ zoneTargets pin placing, newViewId source target (some old) = some id := by
  rcases hpin with rfl | ⟨new, hnew⟩
  · obtain ⟨_, hmem, rfl⟩ := List.mem_filterMap.mp h
    obtain ⟨old, hold, hsome⟩ := List.mem_map.mp hmem
    cases old with
    | none => cases hsome
    | some old => exact ⟨old, List.mem_filterMap.mpr ⟨some old, hold, rfl⟩, hsome⟩
  · rw [hnew] at h
    obtain rfl := List.mem_singleton.mp h
    cases pin with
    | none => cases hnew
    | some old => exact ⟨old, List.mem_singleton.mpr rfl, hnew⟩

theorem newTargets_ne_nil
    (hplacing : ∀ id ∈ placing, id = none ∨ ∃ new, newViewId source target id = some new)
    (h : zoneTargets pin placing ≠ []) :
    zoneTargets (newViewId source target pin) (placing.map (newViewId source target)) ≠ [] := by
  rcases hpin with rfl | ⟨new, hnew⟩
  · obtain ⟨old, hold⟩ := List.exists_mem_of_ne_nil _ h
    obtain ⟨_, hmem, rfl⟩ := List.mem_filterMap.mp hold
    rcases hplacing _ hmem with hnone | ⟨new, hnew⟩
    · cases hnone
    · apply List.ne_nil_of_mem (a := new)
      exact List.mem_filterMap.mpr ⟨some new, List.mem_map.mpr ⟨some old, hmem, hnew⟩, rfl⟩
  · rw [hnew]
    exact List.cons_ne_nil _ _

end

theorem narrow_record (h : commitMove s zone req = .ok s')
    (hack : .viewWidening ∉ req.acknowledgements) (htarget : s.viewsOf req.targetGroup ≠ [])
    (hgeo' : geo'.active = false) {z' : Zone} {r : Record}
    (hpin : z'.viewId = newViewId (s.viewsOf zone.groupId) (s.viewsOf req.targetGroup) zone.viewId)
    (hid : z'.id = zone.id) (hgroup : z'.groupId = req.targetGroup) (hr : r ∈ s.records)
    (hzone : r.zoneId = zone.id) (honly : OnlyIn s zone geo r.record name)
    (hnarrowed : Narrowed s zone r.record) (hsteered : NotSteered geo r.record)
    (hsteered' : NotSteered geo' r.record)
    (hd : d ∈ servedViews s' z' geo' (moveRecord (s.viewsOf zone.groupId) (s.viewsOf req.targetGroup) r).record) :
    d.name = name := by
  obtain ⟨hscopePin, hscopes⟩ := scopes_resolve h hack htarget
  obtain ⟨hdesc, hrenders, hserved⟩ := mem_servedViews.mp hd
  obtain ⟨hmoved, -⟩ := commitMove_ok h
  have hviews : s'.viewsOf z'.groupId = s.viewsOf req.targetGroup := by
    rw [hmoved, hgroup]
    rfl
  have hplacing := placing_moved s zone req
  rw [← hmoved, ← hid] at hplacing
  rw [hviews] at hdesc
  have hkind := kind_of_not_active hgeo' hdesc
  obtain ⟨v, hv, hvid, hvname⟩ := operator_descriptor hdesc hkind
  have hsteeredMoved : NotSteered geo'
      (moveRecord (s.viewsOf zone.groupId) (s.viewsOf req.targetGroup) r).record := hsteered'
  obtain ⟨-, hplain⟩ := (servedIn_of_notSteered hsteeredMoved d).mp hserved
  obtain ⟨before, hbefore, -⟩ := honly.1
  obtain ⟨-, -, hservedBefore⟩ := mem_servedViews.mp hbefore
  obtain ⟨hreachable, hplainBefore⟩ := (servedIn_of_notSteered hsteered before).mp hservedBefore
  rw [hvname]
  cases hview : r.record.viewId with
  | some old =>
    -- Its own scope: before and after it is served in the view that names, and nowhere else.
    rcases hscopes r hr hzone with hnone | ⟨new, hnew⟩
    · rw [hview] at hnone
      cases hnone
    · have hmovedView : (moveRecord (s.viewsOf zone.groupId) (s.viewsOf req.targetGroup) r).record.viewId =
          some new := hnew
      obtain ⟨-, hnewId⟩ := servedPlain_scoped hplain hmovedView
      rw [hview, Option.some.inj (hnewId.symm.trans hvid)] at hnew
      obtain ⟨w, hw, hwid, hwname⟩ := name_of_newViewId hv hnew
      obtain ⟨hkindBefore, hidBefore⟩ := servedPlain_scoped hplainBefore hview
      rw [← hwname]
      exact honly.eq_name hbefore hkindBefore hw (hwid ▸ hidBefore)
  | none =>
    -- The zone's scopes: it is rendered in a view only if it was in the namesake.
    have hkept : zoneTargets zone.viewId (s.placing zone.id) ≠ [] := by
      rcases hnarrowed with hpinned | hscoped | hplaced
      · cases hzonePin : zone.viewId with
        | none => exact absurd hzonePin hpinned
        | some pin => exact List.cons_ne_nil _ _
      · exact absurd hview hscoped
      · cases hzonePin : zone.viewId with
        | none => exact hplaced
        | some pin => exact List.cons_ne_nil _ _
    have hscopesPlacing : ∀ id ∈ s.placing zone.id, id = none ∨ ∃ new,
        newViewId (s.viewsOf zone.groupId) (s.viewsOf req.targetGroup) id = some new := by
      intro id hid
      obtain ⟨row, hrow, rfl⟩ := List.mem_map.mp hid
      obtain ⟨hlive, -⟩ := List.mem_filter.mp hrow
      obtain ⟨hmem, hrowZone⟩ := List.mem_filter.mp hlive
      rw [Bool.and_eq_true, beq_iff_eq] at hrowZone
      exact hscopes row hmem hrowZone.1
    rw [hpin, hplacing, hid] at hrenders
    obtain ⟨id, hmem, hdid⟩ := mem_targets_of_renders hrenders hkind
      (newTargets_ne_nil hscopePin hscopesPlacing hkept)
    obtain ⟨old, hold, hnew⟩ := mem_newTargets hscopePin hmem
    rw [← Option.some.inj (hvid.symm.trans hdid)] at hnew
    obtain ⟨w, hw, rfl, hwname⟩ := name_of_newViewId hv hnew
    obtain ⟨d₀, hd₀, hkind₀, hid₀, -⟩ := exists_descriptor geo hw
    have hplain₀ : servedPlain d₀ r.record = true := by simp [servedPlain, hview]
    have hserved₀ : d₀ ∈ servedViews s zone geo r.record := mem_servedViews.mpr
      ⟨hd₀, renders_of_mem_targets hid₀ hold,
        (servedIn_of_notSteered hsteered d₀).mpr ⟨hreachable, hplain₀⟩⟩
    rw [← hwname]
    exact honly.eq_name hserved₀ hkind₀ hw hid₀

theorem narrow_moved (h : commitMove s zone req = .ok s')
    (hack : .viewWidening ∉ req.acknowledgements) (htarget : s.viewsOf req.targetGroup ≠ [])
    (hgeo' : geo'.active = false) : Narrow s s' zone geo geo' := by
  obtain ⟨rfl, -⟩ := commitMove_ok h
  intro z' hz' hid r' hr' client hserved
  rw [live_moved] at hr'
  obtain ⟨r, hr, rfl⟩ := List.mem_map.mp hr'
  refine ⟨r, hr, rfl, fun name honly hnarrowed hsteered hsteered' => ?_⟩
  obtain ⟨hmem, hrowZone⟩ := List.mem_filter.mp hr
  rw [Bool.and_eq_true, beq_iff_eq] at hrowZone
  obtain ⟨old, -, rfl⟩ := List.mem_map.mp hz'
  split at hid
  case isFalse hother => exact absurd (by simpa using hid) hother
  case isTrue hsame =>
    rw [if_pos hsame] at hserved
    obtain ⟨z', hz'⟩ : ∃ z' : Zone, z' = { old with
        groupId := req.targetGroup
        viewId := newViewId (s.viewsOf zone.groupId) (s.viewsOf req.targetGroup) zone.viewId } :=
      ⟨_, rfl⟩
    rw [← hz'] at hserved
    have hid' : z'.id = zone.id := by simpa [hz'] using hsame
    have hgroup : z'.groupId = req.targetGroup := by rw [hz']
    have hpin : z'.viewId = newViewId (s.viewsOf zone.groupId) (s.viewsOf req.targetGroup)
        zone.viewId := by rw [hz']
    have hsome : (s.viewsOf req.targetGroup).isEmpty = false := by simpa using htarget
    have hviews : (moved s zone req (assembleMovePlan s zone req)).viewsOf req.targetGroup =
        s.viewsOf req.targetGroup := rfl
    rw [servedTo, hgroup, hviews, hsome] at hserved
    obtain ⟨d, hd, hclient⟩ := List.any_eq_true.mp hserved
    have hname := narrow_record h hack htarget hgeo' hpin hid' hgroup hmem hrowZone.1 honly hnarrowed
      hsteered hsteered' hd
    exact hname ▸ hclient

def sampleView (id name : String) : DnsView :=
  ⟨id, name, ["10.0.0.0/8"], [], true, none, none⟩

/-- A group with an internal and an external view and a zone pinned to the internal one, and a group
with the given views. -/
def pinned (targetViews : List View) (hids : (targetViews.map (·.view.id)).Nodup)
    (hnew : ∀ v ∈ targetViews, v.view.id ≠ "v1" ∧ v.view.id ≠ "v2") : State where
  views := ⟨"src", sampleView "v1" "internal", by decide⟩ ::
    ⟨"src", sampleView "v2" "external", by decide⟩ :: targetViews
  keys := []
  acls := []
  servers := []
  zones := [⟨"z", "corp.example.", "src", some "v1", [], [], false⟩]
  records := [⟨"r", "z", ⟨"payroll", none, none⟩, false, false⟩]
  grants := []
  pools := []
  zoneStates := []
  ingestSnapshots := []
  ops := []
  view_ids := by
    simp only [List.map_cons, List.nodup_cons, List.mem_cons, List.mem_map, not_or, not_exists,
      not_and]
    exact ⟨⟨by decide, fun v hv => (hnew v hv).1⟩, fun v hv => (hnew v hv).2, hids⟩
  key_ids := List.nodup_nil

def noGeo : GeoSteering := ⟨[], [], [], []⟩

def pinnedZone : Zone := ⟨"z", "corp.example.", "src", some "v1", [], [], false⟩

def plainMove : Request := ⟨"dst", true, true, [], false, false, false⟩

end SpatiumDdi.Dns.ZoneMove
