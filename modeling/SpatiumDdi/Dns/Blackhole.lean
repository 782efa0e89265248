import SpatiumDdi.Dns.PoolGeo

/-!
Whether the view a query lands in serves a name that has a live pool record.

A geo view serves the members of its own scope and the shared records. The members of a
pool that is scoped throughout also answer outside the geo views, and in no geo view but
their own: a client inside one pool's scope finds nothing at a name that only another
pool's scopes serve.
-/

namespace SpatiumDdi.Dns

theorem toList_geoViewName (idx : Nat) :
    (geoViewName idx).toList = "spatium-geo-".toList ++ Nat.toDigits 10 idx := by
  simp [geoViewName]

theorem geoViewName_inj {i j : Nat} (h : geoViewName i = geoViewName j) : i = j := by
  have hlist := congrArg String.toList h
  rw [toList_geoViewName, toList_geoViewName] at hlist
  have hdigits : Nat.toDigits 10 i = Nat.toDigits 10 j := List.append_cancel_left hlist
  rw [← @Nat.ofDigitChars_ten_toDigits i, hdigits, Nat.ofDigitChars_ten_toDigits]

theorem geoViewName_ne_default (i : Nat) : geoViewName i ≠ geoDefaultView := by
  intro h
  have hlist := congrArg String.toList h
  have hsplit : geoDefaultView.toList = "spatium-geo-".toList ++ "default".toList := by decide
  rw [toList_geoViewName, hsplit] at hlist
  have hmem : 'd' ∈ Nat.toDigits 10 i := by
    rw [List.append_cancel_left hlist]
    decide
  exact absurd (Nat.isDigit_of_mem_toDigits (by decide) (by decide) hmem) (by decide)

section Members

variable (normaliseCidr : String → Option String) (t : PoolTable)

def memberOf (memberId : String) : Option DnsPoolMember :=
  t.pools.flatten.find? fun m => m.id == memberId

def scopedThroughout (m : DnsPoolMember) : Bool :=
  t.pools.any fun p => p.contains m && !p.any (isUnscoped normaliseCidr t)

def scopeIdx (scope : List String) : Nat :=
  (scopeKeys normaliseCidr t).idxOf scope + 1

variable {t}

variable {m : DnsPoolMember}

theorem eq_of_id_eq {m' : DnsPoolMember} (hm : m ∈ t.pools.flatten) (hm' : m' ∈ t.pools.flatten)
    (h : m.id = m'.id) : m = m' :=
  List.inj_on_of_nodup_map t.nodup_ids hm hm' h

variable {memberId : String} {scope : List String}

theorem memberOf_eq_some_iff :
    memberOf t memberId = some m ↔ m ∈ t.pools.flatten ∧ m.id = memberId := by
  constructor
  · intro h
    exact ⟨List.mem_of_find?_eq_some h, by simpa using List.find?_some h⟩
  · rintro ⟨hm, rfl⟩
    obtain ⟨m', hfind⟩ := Option.isSome_iff_exists.mp
      (List.find?_isSome.mpr ⟨m, hm, by simp⟩ :
        (t.pools.flatten.find? fun x => x.id == m.id).isSome)
    have hid : m'.id = m.id := by simpa using List.find?_some hfind
    rw [memberOf, hfind, eq_of_id_eq (List.mem_of_find?_eq_some hfind) hm hid]

theorem mem_unreachableMembers :
    memberId ∈ (buildGeoSteering normaliseCidr t).unreachableMembers ↔
      ∃ m, memberOf t memberId = some m ∧ isUnreachable normaliseCidr t m := by
  simp only [buildGeoSteering, List.mem_map, List.mem_filter, memberOf_eq_some_iff]
  constructor
  · rintro ⟨m, ⟨hm, hun⟩, rfl⟩
    exact ⟨m, ⟨hm, rfl⟩, hun⟩
  · rintro ⟨m, ⟨hm, rfl⟩, hun⟩
    exact ⟨m, ⟨hm, hun⟩, rfl⟩

theorem mem_fallbackMembers (hm : memberOf t memberId = some m) :
    memberId ∈ (buildGeoSteering normaliseCidr t).defaultFallbackMembers ↔
      isScoped normaliseCidr t m ∧ scopedThroughout normaliseCidr t m := by
  obtain ⟨hmem, rfl⟩ := memberOf_eq_some_iff.mp hm
  simp only [buildGeoSteering, fallbackMembers, List.mem_flatMap, scopedThroughout,
    List.any_eq_true, Bool.and_eq_true, Bool.not_eq_true', List.contains_iff_mem]
  constructor
  · rintro ⟨p, hp, hin⟩
    split at hin
    · simp at hin
    · rename_i hnone
      obtain ⟨m', hm', hid⟩ := List.mem_map.mp hin
      obtain ⟨hmp, hscoped⟩ := List.mem_filter.mp hm'
      obtain rfl := eq_of_id_eq (List.mem_flatten.mpr ⟨p, hp, hmp⟩) hmem hid
      exact ⟨hscoped, p, hp, hmp, by simpa using hnone⟩
  · rintro ⟨hscoped, p, hp, hmp, hnone⟩
    refine ⟨p, hp, ?_⟩
    rw [if_neg (by simpa using hnone)]
    exact List.mem_map_of_mem (List.mem_filter.mpr ⟨hmp, hscoped⟩)

theorem nodup_scopeKeys : (scopeKeys normaliseCidr t).Nodup :=
  (List.perm_insertionSort _ _).nodup_iff.mpr (List.nodup_dedup _)

theorem mem_scopeKeys : scope ∈ scopeKeys normaliseCidr t ↔
    ∃ m ∈ t.pools.flatten, isScoped normaliseCidr t m ∧ memberScope normaliseCidr t m = scope := by
  simp only [scopeKeys, scopeEntries, List.mem_insertionSort, List.mem_dedup, List.map_map,
    List.mem_map, List.mem_filter, Function.comp_apply]
  constructor
  · rintro ⟨m, ⟨hm, hs⟩, rfl⟩
    exact ⟨m, hm, hs, rfl⟩
  · rintro ⟨m, hm, hs, rfl⟩
    exact ⟨m, ⟨hm, hs⟩, rfl⟩

theorem mem_zipIdx_scopeKeys {idx : Nat} :
    (scope, idx) ∈ (scopeKeys normaliseCidr t).zipIdx 1 ↔
      scope ∈ scopeKeys normaliseCidr t ∧ idx = scopeIdx normaliseCidr t scope := by
  rw [List.mem_zipIdx_iff_le_and_getElem?_sub]
  constructor
  · rintro ⟨hle, hget⟩
    obtain ⟨hlt, hkey⟩ := List.getElem?_eq_some_iff.mp hget
    have hidx := (nodup_scopeKeys normaliseCidr (t := t)).idxOf_getElem (idx - 1) hlt
    simp only at hkey
    rw [hkey] at hidx
    refine ⟨hkey ▸ List.getElem_mem hlt, ?_⟩
    rw [scopeIdx, hidx]
    simp only at hle
    omega
  · rintro ⟨hmem, rfl⟩
    refine ⟨by simp [scopeIdx], ?_⟩
    simp only [scopeIdx, Nat.add_sub_cancel]
    exact List.getElem?_eq_some_iff.mpr ⟨List.idxOf_lt_length_of_mem hmem, by simp⟩

variable {name : String}

theorem mem_memberView :
    (memberId, name) ∈ (buildGeoSteering normaliseCidr t).memberView ↔
      ∃ m, memberOf t memberId = some m ∧ isScoped normaliseCidr t m ∧
        name = geoViewName (scopeIdx normaliseCidr t (memberScope normaliseCidr t m)) := by
  simp only [buildGeoSteering, List.mem_flatMap, List.mem_map, List.mem_filter, Prod.exists,
    mem_zipIdx_scopeKeys, scopeEntries, Prod.mk.injEq, beq_iff_eq, memberOf_eq_some_iff]
  constructor
  · rintro ⟨scope, -, ⟨-, rfl⟩, scope', -, ⟨⟨m, ⟨hm, hs⟩, rfl, rfl⟩, rfl⟩, rfl, rfl⟩
    exact ⟨m, ⟨hm, rfl⟩, hs, rfl⟩
  · rintro ⟨m, ⟨hm, rfl⟩, hs, rfl⟩
    have hkey : memberScope normaliseCidr t m ∈ scopeKeys normaliseCidr t :=
      (mem_scopeKeys normaliseCidr).mpr ⟨m, hm, hs, rfl⟩
    exact ⟨_, _, ⟨hkey, rfl⟩, _, _, ⟨⟨m, ⟨hm, hs⟩, rfl, rfl⟩, rfl⟩, rfl, rfl⟩

theorem viewOf_eq :
    (buildGeoSteering normaliseCidr t).viewOf memberId =
      ((memberOf t memberId).filter (isScoped normaliseCidr t)).map fun m =>
        geoViewName (scopeIdx normaliseCidr t (memberScope normaliseCidr t m)) := by
  ext name
  have hunique {name' : String}
      (h : (memberId, name) ∈ (buildGeoSteering normaliseCidr t).memberView)
      (h' : (memberId, name') ∈ (buildGeoSteering normaliseCidr t).memberView) :
      name = name' := by
    obtain ⟨m, hm, -, rfl⟩ := (mem_memberView normaliseCidr).mp h
    obtain ⟨m', hm', -, rfl⟩ := (mem_memberView normaliseCidr).mp h'
    obtain rfl := Option.some.inj (hm.symm.trans hm')
    rfl
  have hmem : (memberId, name) ∈ (buildGeoSteering normaliseCidr t).memberView ↔
      name ∈ (buildGeoSteering normaliseCidr t).viewOf memberId := by
    simp only [GeoSteering.viewOf, Option.mem_def, Option.map_eq_some_iff]
    constructor
    · intro h
      obtain ⟨item, hitem⟩ := Option.isSome_iff_exists.mp
        (List.find?_isSome.mpr ⟨_, List.mem_reverse.mpr h, by simp⟩ :
          ((buildGeoSteering normaliseCidr t).memberView.reverse.find?
            fun item => item.1 == memberId).isSome)
      have hid : item.1 = memberId := by simpa using List.find?_some hitem
      have hin := List.mem_reverse.mp (List.mem_of_find?_eq_some hitem)
      refine ⟨item, hitem, ?_⟩
      rw [← hid] at h hunique
      exact (hunique h hin).symm
    · rintro ⟨item, hitem, rfl⟩
      have hid : item.1 = memberId := by simpa using List.find?_some hitem
      have hin := List.mem_reverse.mp (List.mem_of_find?_eq_some hitem)
      rwa [← hid]
  rw [← Option.mem_def, ← hmem, mem_memberView]
  simp only [Option.map_eq_some_iff, Option.filter_eq_some_iff]
  constructor
  · rintro ⟨m, hm, hs, rfl⟩
    exact ⟨m, ⟨hm, hs⟩, rfl⟩
  · rintro ⟨m, ⟨hm, hs⟩, rfl⟩
    exact ⟨m, hm, hs, rfl⟩

inductive Placement
  /-- Its member is scoped to a site whose subnets are gone. -/
  | nowhere
  /-- Its member has a scope; `throughout` says whether the whole pool is scoped. -/
  | geo (scope : List String) (throughout : Bool)
  /-- An unscoped record pinned to an operator view. -/
  | pinned (viewId : String)
  | shared

def plainPlacement (r : ZoneRecord) : Placement :=
  match r.viewId with
  | some viewId => .pinned viewId
  | none => .shared

variable (t)

def placement (r : ZoneRecord) : Placement :=
  match r.poolMemberId.bind (memberOf t) with
  | none => plainPlacement r
  | some m =>
    if isUnreachable normaliseCidr t m then .nowhere
    else if isScoped normaliseCidr t m then
      .geo (memberScope normaliseCidr t m) (scopedThroughout normaliseCidr t m)
    else plainPlacement r

def servedAt (view : ViewDescriptor) : Placement → Bool
  | .nowhere => false
  | .geo scope throughout =>
    view.name == geoViewName (scopeIdx normaliseCidr t scope) ||
      (view.kind != .geo && throughout)
  | .pinned viewId => view.kind == .operator && view.id == some viewId
  | .shared => true

theorem servedAt_plain (view : ViewDescriptor) (r : ZoneRecord) :
    servedAt normaliseCidr t view (plainPlacement r) = servedPlain view r := by
  cases h : r.viewId <;> simp [plainPlacement, servedPlain, h, servedAt]

theorem servedIn_eq (view : ViewDescriptor) (r : ZoneRecord) :
    servedIn view (buildGeoSteering normaliseCidr t) r =
      servedAt normaliseCidr t view (placement normaliseCidr t r) := by
  cases hid : r.poolMemberId with
  | none => simp [servedIn, placement, hid, servedAt_plain]
  | some memberId =>
    cases hm : memberOf t memberId with
    | none =>
      have hreach : memberId ∉ (buildGeoSteering normaliseCidr t).unreachableMembers := by
        simp [mem_unreachableMembers, hm]
      have hview : (buildGeoSteering normaliseCidr t).viewOf memberId = none := by
        simp [viewOf_eq, hm]
      simp [servedIn, placement, hid, hm, hreach, hview, servedAt_plain]
    | some m =>
      by_cases hun : isUnreachable normaliseCidr t m
      · have hreach : memberId ∈ (buildGeoSteering normaliseCidr t).unreachableMembers :=
          (mem_unreachableMembers normaliseCidr).mpr ⟨m, hm, hun⟩
        simp [servedIn, placement, hid, hm, hreach, hun, servedAt]
      · have hreach : memberId ∉ (buildGeoSteering normaliseCidr t).unreachableMembers := by
          simp [mem_unreachableMembers, hm, hun]
        by_cases hs : isScoped normaliseCidr t m
        · have hview : (buildGeoSteering normaliseCidr t).viewOf memberId =
              some (geoViewName (scopeIdx normaliseCidr t (memberScope normaliseCidr t m))) := by
            simp [viewOf_eq, hm, hs]
          have hfall : memberId ∈ (buildGeoSteering normaliseCidr t).defaultFallbackMembers ↔
              scopedThroughout normaliseCidr t m := by
            simp [mem_fallbackMembers normaliseCidr hm, hs]
          simp [servedIn, placement, hid, hm, hreach, hun, hs, hview, hfall, servedAt]
        · have hview : (buildGeoSteering normaliseCidr t).viewOf memberId = none := by
            simp [viewOf_eq, hm, hs]
          simp [servedIn, placement, hid, hm, hreach, hun, hs, hview, servedAt_plain]

theorem find?_map_zipIdx {α β : Type} {f : α → Nat → β} {p : β → Bool} {g : α → Bool}
    (hp : ∀ a i, p (f a i) = g a) (l : List α) (k : Nat) :
    (l.find? g = none → ((l.zipIdx k).map fun (a, i) => f a i).find? p = none) ∧
      ∀ a, l.find? g = some a →
        ∃ i, ((l.zipIdx k).map fun (a, i) => f a i).find? p = some (f a i) := by
  induction l generalizing k with
  | nil => simp
  | cons b l ih =>
    by_cases hb : g b
    · simp only [List.find?_cons, hb, List.zipIdx_cons, List.map_cons, hp]
      refine ⟨by simp, fun a ha => ?_⟩
      obtain rfl := Option.some.inj ha
      exact ⟨k, rfl⟩
    · simpa [List.find?_cons, hb, hp] using ih (k + 1)

variable {t}

theorem find?_geo (q : Query) :
    ((scopeKeys normaliseCidr t).find? (fun scope => q.admits scope []) = none →
      (((buildGeoSteering normaliseCidr t).views.zipIdx).map fun (gv, order) =>
        geoDescriptor gv order).find? (fun vd => q.admits vd.matchClients vd.matchDestinations) =
          none) ∧
    ∀ scope, (scopeKeys normaliseCidr t).find? (fun scope => q.admits scope []) = some scope →
      ∃ order, (((buildGeoSteering normaliseCidr t).views.zipIdx).map fun (gv, order) =>
        geoDescriptor gv order).find? (fun vd => q.admits vd.matchClients vd.matchDestinations) =
          some (geoDescriptor ⟨geoViewName (scopeIdx normaliseCidr t scope), scope⟩ order) := by
  have hviews := find?_map_zipIdx (f := fun key idx => GeoView.mk (geoViewName idx) key)
    (p := fun gv => q.admits gv.matchClients []) (g := fun scope => q.admits scope [])
    (fun _ _ => rfl) (scopeKeys normaliseCidr t) 1
  have hdescs := find?_map_zipIdx (f := geoDescriptor)
    (p := fun vd => q.admits vd.matchClients vd.matchDestinations)
    (g := fun gv => q.admits gv.matchClients [])
    (fun _ _ => rfl) (buildGeoSteering normaliseCidr t).views 0
  refine ⟨fun h => hdescs.1 (hviews.1 h), fun scope h => ?_⟩
  obtain ⟨idx, hview⟩ := hviews.2 scope h
  obtain ⟨order, hdesc⟩ := hdescs.2 _ hview
  have hmem := List.mem_of_find?_eq_some hview
  simp only [List.mem_map, Prod.exists, mem_zipIdx_scopeKeys, GeoView.mk.injEq] at hmem
  obtain ⟨scope', idx', ⟨-, hidx⟩, hname, rfl⟩ := hmem
  exact ⟨order, by rw [hdesc, ← hname, hidx]⟩

theorem landing_cases (q : Query) (views : List DnsView) :
    let descriptors := buildViewDescriptors views (buildGeoSteering normaliseCidr t)
    match (scopeKeys normaliseCidr t).find? fun scope => q.admits scope [] with
    | some scope => ∃ order, landing q descriptors =
        some (geoDescriptor ⟨geoViewName (scopeIdx normaliseCidr t scope), scope⟩ order)
    | none =>
      match views.find? fun v => q.admits v.clients v.matchDestinations with
      | some v => ∃ order, landing q descriptors = some (operatorDescriptor v order)
      | none =>
        if scopeKeys normaliseCidr t = [] then landing q descriptors = none
        else ∃ order, landing q descriptors = some (defaultDescriptor order) := by
  intro descriptors
  have hgeo := find?_geo normaliseCidr (t := t) q
  have hoperator := find?_map_zipIdx (f := operatorDescriptor)
    (p := fun vd => q.admits vd.matchClients vd.matchDestinations)
    (g := fun v => q.admits v.clients v.matchDestinations)
    (fun _ _ => rfl) views (buildGeoSteering normaliseCidr t).views.length
  simp only [descriptors, landing, buildViewDescriptors, List.find?_append]
  cases hscope : (scopeKeys normaliseCidr t).find? fun scope => q.admits scope [] with
  | some scope =>
    obtain ⟨order, h⟩ := hgeo.2 scope hscope
    exact ⟨order, by simp [h]⟩
  | none =>
    rw [hgeo.1 hscope]
    cases hview : views.find? fun v => q.admits v.clients v.matchDestinations with
    | some v =>
      obtain ⟨order, h⟩ := hoperator.2 v hview
      exact ⟨order, by simp [h]⟩
    | none =>
      rw [hoperator.1 hview]
      have hactive : (buildGeoSteering normaliseCidr t).active =
          !(scopeKeys normaliseCidr t).isEmpty := by
        cases h : scopeKeys normaliseCidr t <;>
          simp [GeoSteering.active, buildGeoSteering, h]
      by_cases hkeys : scopeKeys normaliseCidr t = []
      · simp [hkeys, hactive]
      · have hadmits : q.admits ["any"] [] = true := q.any_admits
        simp [hkeys, hactive, defaultDescriptor, hadmits]

def LiveRecord (t : PoolTable) (r : ZoneRecord) : Prop :=
  ∃ m, r.poolMemberId.bind (memberOf t) = some m ∧ m.enabled ∧
    ¬ isUnreachable normaliseCidr t m

variable (t)

/-- Some record of the name reaches the view the query lands in: inside a scope a record
of that scope or a shared one, elsewhere a shared record, one of a pool that is scoped
throughout, or one the operator view itself is named for. -/
def Answered (q : Query) (views : List DnsView) (records : List ZoneRecord)
    (name : String) : Prop :=
  match (scopeKeys normaliseCidr t).find? fun scope => q.admits scope [] with
  | some scope => ∃ r ∈ records, r.name = name ∧ (placement normaliseCidr t r = .shared ∨
      ∃ throughout, placement normaliseCidr t r = .geo scope throughout)
  | none =>
    match views.find? fun v => q.admits v.clients v.matchDestinations with
    | some v => ∃ r ∈ records, r.name = name ∧ (placement normaliseCidr t r = .shared ∨
        placement normaliseCidr t r = .pinned v.id ∨
        ∃ scope throughout, placement normaliseCidr t r = .geo scope throughout ∧
          (throughout ∨ v.name = geoViewName (scopeIdx normaliseCidr t scope)))
    | none => scopeKeys normaliseCidr t = [] ∨ ∃ r ∈ records, r.name = name ∧
        (placement normaliseCidr t r = .shared ∨
          ∃ scope, placement normaliseCidr t r = .geo scope true)

variable {t} {records : List ZoneRecord}

theorem exists_recordsForView {view : ViewDescriptor} :
    (∃ r ∈ recordsForView records view (buildGeoSteering normaliseCidr t), r.name = name) ↔
      ∃ r ∈ records, r.name = name ∧
        servedAt normaliseCidr t view (placement normaliseCidr t r) := by
  simp only [recordsForView, List.mem_filter, servedIn_eq]
  constructor
  · rintro ⟨r, ⟨hr, hs⟩, hname⟩
    exact ⟨r, hr, hname, hs⟩
  · rintro ⟨r, hr, hname, hs⟩
    exact ⟨r, ⟨hr, hs⟩, hname⟩

variable {p : Placement} {order : Nat}

theorem servedAt_geo_iff (hscope : scope ∈ scopeKeys normaliseCidr t) :
    servedAt normaliseCidr t
        (geoDescriptor ⟨geoViewName (scopeIdx normaliseCidr t scope), scope⟩ order) p ↔
      p = .shared ∨ ∃ throughout, p = .geo scope throughout := by
  cases p with
  | nowhere => simp [servedAt]
  | pinned viewId => simp [servedAt, geoDescriptor]
  | shared => simp [servedAt]
  | geo scope' throughout =>
    have hsame : geoViewName (scopeIdx normaliseCidr t scope) =
        geoViewName (scopeIdx normaliseCidr t scope') ↔ scope = scope' := by
      constructor
      · intro h
        have hidx := geoViewName_inj h
        simp only [scopeIdx, Nat.add_right_cancel_iff] at hidx
        exact (List.idxOf_inj hscope).mp hidx
      · rintro rfl
        rfl
    simp only [servedAt, geoDescriptor, Bool.or_eq_true, beq_iff_eq, hsame]
    simp [eq_comm (a := scope)]

theorem servedAt_operator_iff {v : DnsView} :
    servedAt normaliseCidr t (operatorDescriptor v order) p ↔
      p = .shared ∨ p = .pinned v.id ∨ ∃ scope throughout, p = .geo scope throughout ∧
        (throughout ∨ v.name = geoViewName (scopeIdx normaliseCidr t scope)) := by
  cases p with
  | nowhere => simp [servedAt]
  | pinned viewId => simp [servedAt, operatorDescriptor, eq_comm (a := v.id)]
  | shared => simp [servedAt]
  | geo scope throughout =>
    have hserved : servedAt normaliseCidr t (operatorDescriptor v order)
        (.geo scope throughout) ↔
          throughout ∨ v.name = geoViewName (scopeIdx normaliseCidr t scope) := by
      simp [servedAt, operatorDescriptor, or_comm]
    rw [hserved]
    constructor
    · intro h
      exact .inr (.inr ⟨scope, throughout, rfl, h⟩)
    · rintro (h | h | ⟨scope', throughout', h, hreach⟩)
      · simp at h
      · simp at h
      · obtain ⟨rfl, rfl⟩ := Placement.geo.inj h
        exact hreach

theorem servedAt_default_iff :
    servedAt normaliseCidr t (defaultDescriptor order) p ↔
      p = .shared ∨ ∃ scope, p = .geo scope true := by
  cases p with
  | nowhere => simp [servedAt]
  | pinned viewId => simp [servedAt, defaultDescriptor]
  | shared => simp [servedAt]
  | geo scope throughout =>
    have hname (i : Nat) : geoDefaultView ≠ geoViewName i := (geoViewName_ne_default i).symm
    simp [servedAt, defaultDescriptor, hname]

theorem landing_serves_iff {q : Query} {views : List DnsView} :
    (∀ view, landing q (buildViewDescriptors views (buildGeoSteering normaliseCidr t)) =
        some view →
      ∃ r ∈ recordsForView records view (buildGeoSteering normaliseCidr t), r.name = name) ↔
      Answered normaliseCidr t q views records name := by
  have hcases := landing_cases normaliseCidr (t := t) q views
  simp only [exists_recordsForView, Answered]
  cases hscope : (scopeKeys normaliseCidr t).find? fun scope => q.admits scope [] with
  | some scope =>
    simp only [hscope] at hcases
    obtain ⟨order, hland⟩ := hcases
    have hmem := List.mem_of_find?_eq_some hscope
    simp only [hland, Option.some.injEq, forall_eq', servedAt_geo_iff normaliseCidr hmem]
  | none =>
    simp only [hscope] at hcases
    cases hview : views.find? fun v => q.admits v.clients v.matchDestinations with
    | some v =>
      simp only [hview] at hcases
      obtain ⟨order, hland⟩ := hcases
      simp only [hland, Option.some.injEq, forall_eq', servedAt_operator_iff]
    | none =>
      simp only [hview] at hcases
      by_cases hkeys : scopeKeys normaliseCidr t = []
      · simp only [hkeys, if_true] at hcases
        simp [hcases, hkeys]
      · simp only [hkeys, if_false] at hcases
        obtain ⟨order, hland⟩ := hcases
        simp only [hland, Option.some.injEq, forall_eq', servedAt_default_iff, hkeys, false_or]

end Members

/-- With geo views every query lands somewhere, and a name with a live pool record is
served there exactly when a record of the name reaches the landing view. -/
theorem never_blackholes_iff (normaliseCidr : String → Option String) (t : PoolTable)
    (views : List DnsView) (records : List ZoneRecord) (name : String) (q : Query) :
    ((buildGeoSteering normaliseCidr t).active →
      (landing q (buildViewDescriptors views (buildGeoSteering normaliseCidr t))).isSome) ∧
    (((∃ r ∈ records, r.name = name ∧ LiveRecord normaliseCidr t r) →
        ∀ view, landing q (buildViewDescriptors views (buildGeoSteering normaliseCidr t)) =
          some view → ∃ r ∈ recordsForView records view (buildGeoSteering normaliseCidr t),
            r.name = name) ↔
      ((∃ r ∈ records, r.name = name ∧ LiveRecord normaliseCidr t r) →
        Answered normaliseCidr t q views records name)) := by
  constructor
  · intro hactive
    apply List.find?_isSome.mpr
    refine ⟨defaultDescriptor
      ((buildGeoSteering normaliseCidr t).views.length + views.length), ?_, q.any_admits⟩
    simp only [buildViewDescriptors, hactive, if_true]
    exact List.mem_append_right _ List.mem_cons_self
  · exact imp_congr_right fun _ => landing_serves_iff normaliseCidr

def twoRegions : PoolTable where
  pools := [[⟨"a", true, ["10.1.0.0/16"], none⟩], [⟨"b", true, ["10.2.0.0/16"], none⟩]]
  siteSubnets := []
  nodup_ids := by decide

def firstRegion : Query where
  admits clients _ := clients.contains "10.1.0.0/16" || clients.contains "any"
  any_admits := by decide

/-- A client of the first region finds nothing at the name the second region's pool
serves. -/
theorem not_never_blackholes_twoRegions :
    ¬ ∀ (t : PoolTable) (views : List DnsView) (records : List ZoneRecord) (name : String)
        (q : Query), (∃ r ∈ records, r.name = name ∧ LiveRecord some t r) →
      ∀ view, landing q (buildViewDescriptors views (buildGeoSteering some t)) = some view →
        ∃ r ∈ recordsForView records view (buildGeoSteering some t), r.name = name := by
  intro h
  have hlive : ∃ r ∈ [ZoneRecord.mk "b" (some "b") none], r.name = "b" ∧
      LiveRecord some twoRegions r := by
    refine ⟨_, List.mem_singleton_self _, rfl, ⟨"b", true, ["10.2.0.0/16"], none⟩, ?_⟩
    decide +kernel
  have hserved := h twoRegions [] _ "b" firstRegion hlive
    (geoDescriptor ⟨"spatium-geo-1", ["10.1.0.0/16"]⟩ 0) (by decide +kernel)
  exact absurd hserved (by decide +kernel)

end SpatiumDdi.Dns
