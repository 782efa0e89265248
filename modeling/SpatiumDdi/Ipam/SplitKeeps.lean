import SpatiumDdi.Ipam.SplitMerge

/-!
What a split keeps. Every row of the parent goes to the one child it lies in, its retired
placeholders apart, every boundary address of a child has one row, a scope that is not empty goes to
the one child it fits, and every child has the parent's zone bindings.
-/

namespace SpatiumDdi.Ipam

open Ipaddress

structure SubnetDomain where
  subnetId : Nat
  dnsZoneId : Nat
  isPrimary : Bool := false
deriving DecidableEq

/-- One binding of the parent is copied to each child and deleted. -/
def splitDomain (ids : List Nat) (domains : Table SubnetDomain) (d : Nat × SubnetDomain) :
    Table SubnetDomain :=
  (domains.insertAll (ids.map fun child => { d.2 with subnetId := child })).keep
    fun i _ => i != d.1

def splitDomains (domains : Table SubnetDomain) (subnetId : Nat) (ids : List Nat) :
    Table SubnetDomain :=
  (domains.select fun _ d => d.subnetId == subnetId).foldl (splitDomain ids) domains

def commitSplitWithDomains (σ : Store) (domains : Table SubnetDomain) (request : SubnetSplit) :
    Except Refusal (List Nat × Store × Table SubnetDomain) := do
  let (ids, σ') ← commitSubnetSplit σ request
  return (ids, σ', splitDomains domains request.subnetId ids)

def zoneBindings (domains : Table SubnetDomain) (subnetId : Nat) : List (Nat × Bool) :=
  (domains.values.filter fun d => d.subnetId == subnetId).map fun d => (d.dnsZoneId, d.isPrimary)

structure SplitKeeps (σ σ' : Store) (domains domains' : Table SubnetDomain) (subnetId : Nat)
    (subnet : Subnet) (children : List (Nat × Net)) : Prop where
  created : ∀ r ∈ children, σ'.subnets.get? r.1 = some (splitChild subnet r.2)
  rows : ∀ k a, σ.addresses.get? k = some a → a.subnetId = subnetId →
    subnet.network.contains a.address →
    ¬ (isDefaultPlaceholder a = true ∧ a.address ∈ boundaryAddresses subnet.network .unicast) →
    ∃ r ∈ children, r.2.contains a.address ∧
      (∀ r' ∈ children, r'.2.contains a.address → r' = r) ∧
      σ'.addresses.get? k = some { a with subnetId := r.1 }
  unique : ∀ r ∈ children, ((subnetRows σ' r.1).map (·.address)).Nodup
  boundary : ∀ r ∈ children, ∀ x ∈ boundaryAddresses r.2 subnet.kind,
    ∃ a ∈ subnetRows σ' r.1, a.address = x
  scopes : ∀ i sc, σ.scopes.get? i = some sc → sc.deletion = none → sc.subnetId = subnetId →
    scopeIsEmpty σ i = false →
    ∃ r ∈ children, scopeFits σ i r.2 = true ∧
      (∀ r' ∈ children, scopeFits σ i r'.2 = true → r' = r) ∧
      σ'.scopes.get? i = some { sc with subnetId := r.1 } ∧
      scopePools σ' i = scopePools σ i ∧ scopeStatics σ' i = scopeStatics σ i
  bindings : ∀ r ∈ children, zoneBindings domains' r.1 = zoneBindings domains subnetId

def keyed (first : Nat) (children : List Net) : List (Nat × Net) :=
  ((List.range children.length).map (first + ·)).zip children

variable {first i id : Nat} {children nets : List Net}

theorem mem_keyed {r : Nat × Net} :
    r ∈ keyed first children ↔ first ≤ r.1 ∧ children[r.1 - first]? = some r.2 := by
  simp only [keyed, List.mem_iff_getElem?, List.getElem?_zip_eq_some]
  constructor
  · rintro ⟨j, hkey, hnet⟩
    have hlt := (List.getElem?_eq_some_iff.mp hnet).1
    rw [List.getElem?_map, List.getElem?_range hlt, Option.map_some, Option.some.injEq] at hkey
    rw [← hkey, Nat.add_sub_cancel_left]
    exact ⟨Nat.le_add_right _ _, hnet⟩
  · rintro ⟨hle, hnet⟩
    have hlt := (List.getElem?_eq_some_iff.mp hnet).1
    refine ⟨r.1 - first, ?_, hnet⟩
    rw [List.getElem?_map, List.getElem?_range hlt, Option.map_some, Nat.add_sub_cancel' hle]

theorem mem_keyed_of_findChild {p : Net → Bool} (h : findChild first children p = some i) :
    ∃ c, (i, c) ∈ keyed first children ∧ p c = true := by
  obtain ⟨hle, c, hc, hp⟩ := findChild_eq_some h
  exact ⟨c, mem_keyed.mpr ⟨hle, hc⟩, hp⟩

section Keyed

variable {parent : Net} {children : List Net} (htiles : Net.Tiles parent children)
include htiles

theorem keyed_eq {first : Nat} {r r' : Nat × Net} (hr : r ∈ keyed first children)
    (hr' : r' ∈ keyed first children) (h : r.2.overlaps r'.2) : r = r' := by
  obtain ⟨hle, hnet⟩ := mem_keyed.mp hr
  obtain ⟨hle', hnet'⟩ := mem_keyed.mp hr'
  obtain ⟨hlt, hget⟩ := List.getElem?_eq_some_iff.mp hnet
  obtain ⟨hlt', hget'⟩ := List.getElem?_eq_some_iff.mp hnet'
  have hidx : r.1 - first = r'.1 - first := by
    by_contra hne
    rcases Nat.lt_or_gt_of_ne hne with hij | hij
    · have happart := List.pairwise_iff_getElem.mp htiles.disjoint _ _ hlt hlt' hij
      rw [hget, hget'] at happart
      exact happart h
    · have happart := List.pairwise_iff_getElem.mp htiles.disjoint _ _ hlt' hlt hij
      rw [hget, hget'] at happart
      exact happart h.symm
  refine Prod.ext (by omega) ?_
  rw [hidx, hnet'] at hnet
  exact (Option.some.inj hnet).symm

theorem exists_keyed_contains (first : Nat) {a : Address} (ha : parent.contains a) :
    ∃ r ∈ keyed first children, r.2.contains a ∧
      (∀ r' ∈ keyed first children, r'.2.contains a → r' = r) ∧
      findChild first children (fun child => child.contains a) = some r.1 := by
  obtain ⟨c, hc, hcv, hcx⟩ := htiles.covered _ ha.2
  have hcontains : c.contains a := ⟨ha.1.trans hcv.symm, hcx⟩
  obtain ⟨i, hi⟩ := exists_findChild first (p := fun c => decide (c.contains a)) hc
    (decide_eq_true hcontains)
  obtain ⟨d, hd, hda⟩ := mem_keyed_of_findChild hi
  have hda : d.contains a := of_decide_eq_true hda
  refine ⟨(i, d), hd, hda, fun r' hr' ha' => ?_, hi⟩
  exact keyed_eq htiles hr' hd (ha'.2.overlaps hda.2 (ha'.1.symm.trans hda.1))

end Keyed

variable {σ : Store}

theorem get?_ensureAllBoundaryRows {kind : SubnetKind} {k : Nat} {a : IPAddress}
    (h : σ.addresses.get? k = some a) :
    (ensureAllBoundaryRows σ kind id nets).addresses.get? k = some a := by
  induction nets generalizing σ id with
  | nil => exact h
  | cons net rest ih => exact ih (Table.get?_insertAll_of_get? _ h)

theorem exists_row_ensureAllBoundaryRows {kind : SubnetKind} {r : Nat × Net}
    (hr : r ∈ keyed id nets) {x : Address} (hx : x ∈ boundaryAddresses r.2 kind) :
    ∃ a ∈ (ensureAllBoundaryRows σ kind id nets).addresses.values,
      a.subnetId = r.1 ∧ a.address = x := by
  induction nets generalizing σ id with
  | nil => simp [keyed] at hr
  | cons net rest ih =>
    obtain ⟨hle, hnet⟩ := mem_keyed.mp hr
    rcases Nat.eq_or_lt_of_le hle with heq | hlt
    · rw [← heq, Nat.sub_self, List.getElem?_cons_zero, Option.some.injEq] at hnet
      subst hnet
      obtain ⟨a, ha, hsub, haddr⟩ := exists_row_ensureBoundaryRows σ id hx
      obtain ⟨added, hvalues, -⟩ :=
        ensureAllBoundaryRows_values (ensureBoundaryRows σ id r.2 kind) kind (id + 1) rest
      refine ⟨a, ?_, hsub.trans heq, haddr⟩
      rw [ensureAllBoundaryRows, hvalues]
      exact List.mem_append_left _ ha
    · refine ih (mem_keyed.mpr ⟨hlt, ?_⟩)
      rw [show r.1 - id = r.1 - (id + 1) + 1 by omega] at hnet
      simpa using hnet

section Domains

variable {domains t : Table SubnetDomain} {ids : List Nat} {c : Nat}

/-- A table whose old keys hold what they held, or nothing. -/
def Extends (t domains : Table SubnetDomain) : Prop :=
  domains.next ≤ t.next ∧
    ∀ k e, k < domains.next → t.get? k = some e → domains.get? k = some e

section

variable (h : Extends t domains)
include h

theorem Extends.splitDomain (ids : List Nat) (d : Nat × SubnetDomain) :
    Extends (splitDomain ids t d) domains := by
  refine ⟨?_, fun k e hk hget => ?_⟩
  · rw [Ipam.splitDomain, Table.next_keep, Table.next_insertAll]
    exact h.1.trans (Nat.le_add_right _ _)
  · rw [Ipam.splitDomain, Table.get?_keep, Option.filter_eq_some_iff] at hget
    rcases Table.get?_insertAll_iff.mp hget.1 with hold | ⟨i, hi, -⟩
    · exact h.2 k e hk hold
    · have := h.1
      omega

theorem zoneBindings_splitDomain (hc : c ∈ ids) (hnodup : ids.Nodup) {d : Nat × SubnetDomain}
    (hd : domains.get? d.1 = some d.2) (hne : d.2.subnetId ≠ c) :
    zoneBindings (splitDomain ids t d) c =
      zoneBindings t c ++ [(d.2.dnsZoneId, d.2.isPrimary)] := by
  have hkept : ∀ k e, (t.insertAll (ids.map fun child => { d.2 with subnetId := child })).get? k =
      some e → (e.subnetId == c) = true → (k != d.1) = true := by
    intro k e hget he
    rw [bne_iff_ne]
    rintro rfl
    rcases Table.get?_insertAll_iff.mp hget with hold | ⟨i, hi, -⟩
    · rw [h.2 _ _ (Table.lt_next hd) hold, Option.some.injEq] at hd
      subst hd
      exact hne (by simpa using he)
    · have hlt := Table.lt_next hd
      have hle := h.1
      omega
  have hcopies : (ids.map fun child => { d.2 with subnetId := child }).filter
      (fun e => e.subnetId == c) = [{ d.2 with subnetId := c }] := by
    have hone : ids.filter (fun child => child == c) = [c] := by
      rw [List.filter_beq, List.count_eq_one_of_mem hnodup hc]
      rfl
    rw [List.filter_map]
    change (ids.filter fun child => child == c).map _ = _
    rw [hone]
    rfl
  rw [zoneBindings, splitDomain, Table.filter_values_keep hkept, Table.values_insertAll,
    List.filter_append, hcopies, List.map_append]
  rfl

theorem zoneBindings_foldl (hc : c ∈ ids) (hnodup : ids.Nodup) {rows : List (Nat × SubnetDomain)}
    (hrows : ∀ d ∈ rows, domains.get? d.1 = some d.2 ∧ d.2.subnetId ≠ c) :
    zoneBindings (rows.foldl (splitDomain ids) t) c =
      zoneBindings t c ++ rows.map fun d => (d.2.dnsZoneId, d.2.isPrimary) := by
  induction rows generalizing t with
  | nil => simp
  | cons d rows ih =>
    obtain ⟨hd, hne⟩ := hrows d (by simp)
    rw [List.foldl_cons, ih (h.splitDomain ids d) fun e he => hrows e (by simp [he]),
      zoneBindings_splitDomain h hc hnodup hd hne, List.append_assoc]
    rfl

end

theorem zoneBindings_splitDomains {subnetId : Nat} (hc : c ∈ ids) (hnodup : ids.Nodup)
    (hfresh : ∀ d ∈ domains.values, d.subnetId ≠ c) :
    zoneBindings (splitDomains domains subnetId ids) c = zoneBindings domains subnetId := by
  have hrows : ∀ d ∈ domains.select fun _ d => d.subnetId == subnetId,
      domains.get? d.1 = some d.2 ∧ d.2.subnetId ≠ c := by
    rintro ⟨k, d⟩ hd
    have hget := (Table.mem_select.mp hd).1
    exact ⟨hget, hfresh d (Table.mem_values.mpr ⟨k, hget⟩)⟩
  have hnone : zoneBindings domains c = [] := by
    rw [zoneBindings, List.filter_eq_nil_iff.mpr fun d hd => by simpa using hfresh d hd]
    rfl
  rw [splitDomains, zoneBindings_foldl ⟨le_rfl, fun _ _ _ hget => hget⟩ hc hnodup hrows, hnone,
    List.nil_append, zoneBindings, ← Table.map_select, List.map_map]
  rfl

end Domains

section Scopes

variable {σ : Store} {parent : Net} {p scope : Nat}

theorem exists_fits_of_scopeConflicts {scopes : List Nat} {children : List Net}
    (hclear : scopeConflicts σ parent scopes children = []) (hscope : scope ∈ scopes)
    (hempty : scopeIsEmpty σ scope = false) : ∃ c ∈ children, scopeFits σ scope c = true := by
  have hshown := List.filter_eq_nil_iff.mp hclear scope hscope
  simp only [hempty, Bool.not_false, Bool.and_true, Bool.or_eq_true, List.isEmpty_iff,
    not_or] at hshown
  obtain ⟨c, hc⟩ := List.exists_mem_of_ne_nil _ hshown.1
  obtain ⟨hmem, hbound⟩ := List.mem_filter.mp hc
  obtain ⟨htakes, -⟩ := boundScope_eq_some.mp (beq_iff_eq.mp hbound)
  exact ⟨c, hmem, by simpa [takes, hempty] using htakes⟩

theorem scopeTarget_of_fits (first : Nat) (hp : parent.prefixlen ≤ p) (hmax : p ≤ parent.version.maxPrefixlen)
    (hempty : scopeIsEmpty σ scope = false)
    (hfits : ∃ c ∈ parent.subnets p, scopeFits σ scope c = true) :
    ∃ r ∈ keyed first (parent.subnets p), scopeFits σ scope r.2 = true ∧
      (∀ r' ∈ keyed first (parent.subnets p), scopeFits σ scope r'.2 = true → r' = r) ∧
      scopeTarget σ first parent (parent.subnets p) scope = some r.1 := by
  obtain ⟨c, hc, hcfits⟩ := hfits
  obtain ⟨i, hi⟩ := exists_findChild first hc hcfits
  obtain ⟨d, hd, hdfits⟩ := mem_keyed_of_findChild hi
  refine ⟨(i, d), hd, hdfits, fun r' hr' hfits' => ?_, ?_⟩
  · have hnet : ∀ r ∈ keyed first (parent.subnets p), r.2 ∈ parent.subnets p := fun r hr =>
      List.mem_of_getElem? (mem_keyed.mp hr).2
    have heq := scopeFits_unique hempty hp hmax (hnet r' hr') (hnet _ hd) hfits' hdfits
    exact keyed_eq (Net.Tiles.subnets hp hmax) hr' hd (heq ▸ Net.overlaps_self r'.2)
  · simp [scopeTarget, hempty, hi]

end Scopes

theorem scopePools_eq (σ : Store) (scope : Nat) :
    scopePools σ scope =
      σ.pools.values.filter fun p => p.deletion.isNone && p.scopeId == scope :=
  Table.map_select _ _

theorem scopeStatics_eq (σ : Store) (scope : Nat) :
    scopeStatics σ scope =
      σ.statics.values.filter fun s => s.deletion.isNone && s.scopeId == scope :=
  Table.map_select _ _

theorem deleteSubnet_keeps_scope {subnetId : Nat} {sc : DHCPScope}
    (hget : σ.scopes.get? i = some sc) (hne : sc.subnetId ≠ subnetId) :
    (deleteSubnet σ subnetId).scopes.get? i = some sc ∧
      scopePools (deleteSubnet σ subnetId) i = scopePools σ i ∧
      scopeStatics (deleteSubnet σ subnetId) i = scopeStatics σ i := by
  have hstays : ((σ.scopes.get? i).any fun sc => sc.subnetId == subnetId) = false := by
    simpa [hget] using hne
  refine ⟨?_, ?_, ?_⟩
  · simp only [deleteSubnet, Table.get?_keep, Option.filter_eq_some_iff]
    exact ⟨hget, by simpa using hne⟩
  · rw [scopePools_eq, scopePools_eq]
    refine Table.filter_values_keep fun k p _ hq => ?_
    rw [Bool.and_eq_true, beq_iff_eq] at hq
    simp only [hq.2, hstays, Bool.not_false]
  · rw [scopeStatics_eq, scopeStatics_eq]
    refine Table.filter_values_keep fun k s _ hq => ?_
    rw [Bool.and_eq_true, beq_iff_eq] at hq
    simp only [hq.2, hstays, Bool.not_false]

/-- The state between the seeding of the boundary rows and the re-binding of the scopes. -/
def seededSplit (σ : Store) (subnetId : Nat) (subnet : Subnet) (children : List Net) : Store :=
  ensureAllBoundaryRows
    { σ with
      subnets := σ.subnets.insertAll (children.map (splitChild subnet))
      addresses := splitAddresses σ subnetId σ.subnets.next subnet.network children }
    subnet.kind σ.subnets.next children

def rebindScopes (σ : Store) (subnetId first : Nat) (parent : Net) (children : List Net) : Store :=
  { σ with scopes := splitScopes σ subnetId first parent children }

theorem commitSubnetSplit_eq {σ' : Store} {request : SubnetSplit} {ids : List Nat}
    (h : commitSubnetSplit σ request = .ok (ids, σ')) :
    ∃ subnet, σ.getSubnet request.subnetId = some subnet ∧
      validateSplit subnet.network request.newPrefixLength = .ok () ∧
      splitIsBlocked σ request.subnetId subnet
        (subnet.network.subnets request.newPrefixLength) = false ∧
      ids = (List.range (subnet.network.subnets request.newPrefixLength).length).map
        (σ.subnets.next + ·) ∧
      σ' = deleteSubnet
        (rebindScopes
          (seededSplit σ request.subnetId subnet
            (subnet.network.subnets request.newPrefixLength))
          request.subnetId σ.subnets.next subnet.network
          (subnet.network.subnets request.newPrefixLength)) request.subnetId := by
  simp only [commitSubnetSplit, bind_eq_ok, require_eq_ok, orRefuse_eq_ok, exists_const,
    pure_eq_ok, Prod.mk.injEq] at h
  obtain ⟨-, subnet, hsubnet, ⟨⟩, hvalid, -, hclear, hids, hσ'⟩ := h
  exact ⟨subnet, hsubnet, hvalid, hclear, hids.symm, hσ'.symm⟩

section Conserve

variable {σ : Store} {subnetId p : Nat} {subnet : Subnet}

theorem seededSplit_eq (σ : Store) (subnetId : Nat) (subnet : Subnet) (children : List Net) :
    ∃ addresses, seededSplit σ subnetId subnet children =
      { σ with
        subnets := σ.subnets.insertAll (children.map (splitChild subnet))
        addresses } := ensureAllBoundaryRows_eq _ _ _ _

theorem seededSplit_row {children : List Net} (htiles : Net.Tiles subnet.network children)
    {k : Nat} {a : IPAddress} (hget : σ.addresses.get? k = some a) (hsub : a.subnetId = subnetId)
    (hin : subnet.network.contains a.address)
    (hkept : ¬ (isDefaultPlaceholder a = true ∧
      a.address ∈ boundaryAddresses subnet.network .unicast)) :
    ∃ r ∈ keyed σ.subnets.next children, r.2.contains a.address ∧
      (∀ r' ∈ keyed σ.subnets.next children, r'.2.contains a.address → r' = r) ∧
      (seededSplit σ subnetId subnet children).addresses.get? k =
        some { a with subnetId := r.1 } := by
  obtain ⟨r, hr, hra, hunique, hfind⟩ := exists_keyed_contains htiles σ.subnets.next hin
  refine ⟨r, hr, hra, hunique, get?_ensureAllBoundaryRows ?_⟩
  have hretired : retiredBySplit subnetId subnet.network a = false := by
    simp only [retiredBySplit, Bool.and_eq_false_iff, decide_eq_false_iff_not]
    by_cases hdefault : isDefaultPlaceholder a = true
    · exact Or.inl (Or.inr fun hmem => hkept ⟨hdefault, hmem⟩)
    · exact Or.inr (by simpa using hdefault)
  simp only [splitAddresses, Table.get?_modify, Table.get?_keep, hget, Option.filter_some, hretired,
    Bool.not_false, if_true, Option.map_some, hsub, hfind]

theorem seededSplit_unique (hσ : RowConstraints σ) (children : List Net) :
    ((seededSplit σ subnetId subnet children).addresses.values.map rowKey).Nodup := by
  obtain ⟨added, -, -, hunique⟩ := ensureAllBoundaryRows_values
    { σ with
      subnets := σ.subnets.insertAll (children.map (splitChild subnet))
      addresses := splitAddresses σ subnetId σ.subnets.next subnet.network children }
    subnet.kind σ.subnets.next children
  exact hunique (splitAddresses_unique hσ)

theorem nodup_addresses_of_rowKey {rows : List IPAddress} (h : (rows.map rowKey).Nodup)
    (subnetId removed : Nat) :
    (((rows.filter fun a => a.subnetId != removed).filter fun a => a.subnetId == subnetId).map
      (·.address)).Nodup := by
  have hsub : List.Sublist (((rows.filter fun a => a.subnetId != removed).filter
      fun a => a.subnetId == subnetId).map rowKey) (rows.map rowKey) :=
    (List.filter_sublist.trans List.filter_sublist).map rowKey
  refine List.Nodup.of_map (Prod.mk subnetId) ?_
  rw [List.map_map]
  refine (List.map_congr_left fun a ha => ?_) ▸ h.sublist hsub
  have hmine : a.subnetId = subnetId := by simpa using (List.mem_filter.mp ha).2
  rw [rowKey, hmine]
  rfl

end Conserve

/-- A split keeps the rows of its parent. -/
theorem commitSplitWithDomains_keeps {σ σ' : Store} {domains domains' : Table SubnetDomain}
    (hσ : RowConstraints σ)
    (hdomains : ∀ d ∈ domains.values, ∃ s, σ.subnets.get? d.subnetId = some s)
    {request : SubnetSplit} {ids : List Nat}
    (h : commitSplitWithDomains σ domains request = .ok (ids, σ', domains')) :
    ∃ subnet, σ.getSubnet request.subnetId = some subnet ∧
      ids.length = (subnet.network.subnets request.newPrefixLength).length ∧
      SplitKeeps σ σ' domains domains' request.subnetId subnet
        (ids.zip (subnet.network.subnets request.newPrefixLength)) := by
  simp only [commitSplitWithDomains, bind_eq_ok, Prod.exists, pure_eq_ok, Prod.mk.injEq] at h
  obtain ⟨_, _, hsplit, rfl, rfl, rfl⟩ := h
  obtain ⟨subnet, hsubnet, hvalid, hclear, rfl, rfl⟩ := commitSubnetSplit_eq hsplit
  refine ⟨subnet, hsubnet, by simp, ?_⟩
  obtain ⟨hlt, hle⟩ := validateSplit_ok hvalid
  have hp : subnet.network.prefixlen ≤ request.newPrefixLength := hlt.le
  have hmax : request.newPrefixLength ≤ subnet.network.version.maxPrefixlen := by omega
  have htiles := Net.Tiles.subnets hp hmax
  have hidlt : request.subnetId < σ.subnets.next :=
    Table.lt_next (Store.getSubnet_eq_some.mp hsubnet).1
  generalize hchildren : subnet.network.subnets request.newPrefixLength = children at *
  have hkeyed : ((List.range children.length).map (σ.subnets.next + ·)).zip children =
      keyed σ.subnets.next children := rfl
  rw [hkeyed]
  have hscopes : scopeConflicts σ subnet.network (subnetScopes σ request.subnetId) children = [] := by
    simp only [splitIsBlocked, Bool.or_eq_false_iff, bne_eq_false_iff_eq] at hclear
    exact hclear.1
  have hfresh : ∀ r ∈ keyed σ.subnets.next children, r.1 ≠ request.subnetId := fun r hr => by
    have := (mem_keyed.mp hr).1
    omega
  have hkept := fun {a : IPAddress} (ha : a.subnetId ≠ request.subnetId) =>
    (by simpa using ha : (a.subnetId != request.subnetId) = true)
  refine ⟨fun r hr => ?_, fun k a hget hsub hin hplain => ?_, fun r hr => ?_,
    fun r hr x hx => ?_, fun i sc hget hlive hsub hempty => ?_, fun r hr => ?_⟩
  · obtain ⟨addresses, hseeded⟩ := seededSplit_eq σ request.subnetId subnet children
    obtain ⟨hle, hnet⟩ := mem_keyed.mp hr
    have hinserted : (σ.subnets.insertAll (children.map (splitChild subnet))).get? r.1 =
        some (splitChild subnet r.2) :=
      Table.get?_insertAll_iff.mpr (Or.inr ⟨r.1 - σ.subnets.next, by omega, by simp [hnet]⟩)
    rw [deleteSubnet_subnets, rebindScopes, hseeded, Table.get?_keep, Option.filter_eq_some_iff]
    exact ⟨hinserted, by simpa using hfresh r hr⟩
  · obtain ⟨r, hr, hra, hunique, hmoved⟩ := seededSplit_row htiles hget hsub hin hplain
    refine ⟨r, hr, hra, hunique, ?_⟩
    rw [deleteSubnet, Table.get?_keep, Option.filter_eq_some_iff]
    exact ⟨hmoved, hkept (hfresh r hr)⟩
  · rw [subnetRows_eq]
    simp only [deleteSubnet, rebindScopes, Table.values_keep]
    exact nodup_addresses_of_rowKey (seededSplit_unique hσ children) r.1 request.subnetId
  · obtain ⟨a, ha, hsub, haddr⟩ := exists_row_ensureAllBoundaryRows hr hx
    refine ⟨a, ?_, haddr⟩
    rw [subnetRows_eq]
    simp only [deleteSubnet, rebindScopes, Table.values_keep]
    refine List.mem_filter.mpr ⟨List.mem_filter.mpr ⟨ha, hkept ?_⟩, by simpa using hsub⟩
    rw [hsub]
    exact hfresh r hr
  · have hscope : i ∈ subnetScopes σ request.subnetId :=
      List.mem_map.mpr ⟨(i, sc), Table.mem_select.mpr ⟨hget, by simp [hlive, hsub]⟩, rfl⟩
    have hfits := exists_fits_of_scopeConflicts hscopes hscope hempty
    rw [← hchildren] at hfits
    obtain ⟨r, hr, hrfits, hunique, htarget⟩ :=
      scopeTarget_of_fits σ.subnets.next hp hmax hempty hfits
    rw [hchildren] at hr hunique htarget
    obtain ⟨addresses, hseeded⟩ := seededSplit_eq σ request.subnetId subnet children
    have hmoved : (rebindScopes (seededSplit σ request.subnetId subnet children) request.subnetId
        σ.subnets.next subnet.network children).scopes.get? i =
          some { sc with subnetId := r.1 } := by
      have hsame : scopeTarget (seededSplit σ request.subnetId subnet children) σ.subnets.next
          subnet.network children i = some r.1 := by
        rw [hseeded]
        exact htarget
      have hget' : (seededSplit σ request.subnetId subnet children).scopes.get? i = some sc := by
        rw [hseeded]
        exact hget
      simp only [rebindScopes, splitScopes, Table.get?_modify, hget', Option.map_some, hlive, hsub,
        Option.isNone_none, BEq.rfl, Bool.and_self, if_true, hsame]
    obtain ⟨hkeptScope, hpools, hstatics⟩ := deleteSubnet_keeps_scope hmoved (hfresh r hr)
    refine ⟨r, hr, hrfits, hunique, hkeptScope, hpools.trans ?_, hstatics.trans ?_⟩
    · rw [rebindScopes, hseeded]
      rfl
    · rw [rebindScopes, hseeded]
      rfl
  · refine zoneBindings_splitDomains ?_ ?_ fun d hd hsame => ?_
    · exact (List.of_mem_zip hr).1
    · exact List.nodup_range.map fun _ _ h => Nat.add_left_cancel h
    · obtain ⟨s, hs⟩ := hdomains d hd
      have := Table.lt_next hs
      have := (mem_keyed.mp hr).1
      omega

/-- 10.0.0.0/24 with a host and a pool in its upper half, and one zone. -/
private def pooledStore : Store :=
  { splitStore [{ groupId := 0, subnetId := 0 }] with
    pools := Table.empty.insert
      { scopeId := 0, startIp := splitSubnet.network.nth 140,
        endIp := splitSubnet.network.nth 150 } }

private def oneZone : Table SubnetDomain :=
  Table.empty.insert { subnetId := 0, dnsZoneId := 7, isPrimary := true }

theorem commitSplitWithDomains_keeps_pooled : ∃ σ' domains',
    commitSplitWithDomains pooledStore oneZone splitRequest = .ok ([1, 2], σ', domains') ∧
      zoneBindings domains' 2 = [(7, true)] ∧
      (∃ r ∈ [1, 2].zip (splitSubnet.network.subnets 25), scopeFits pooledStore 0 r.2 = true ∧
        (σ'.scopes.get? 0).map (·.subnetId) = some r.1) := by
  have hend : ((commitSplitWithDomains pooledStore oneZone splitRequest).toOption.any
      fun r => r.1 == [1, 2]) = true := by decide +kernel
  simp only [Option.any_eq_true, beq_iff_eq, toOption_eq_some] at hend
  obtain ⟨⟨ids, σ', domains'⟩, hsplit, rfl⟩ := hend
  have hdomains : ∀ d ∈ oneZone.values, ∃ s, pooledStore.subnets.get? d.subnetId = some s :=
    fun d hd => ⟨splitSubnet, by rw [List.mem_singleton.mp hd]; rfl⟩
  obtain ⟨subnet, hsubnet, -, hkeeps⟩ :=
    commitSplitWithDomains_keeps (by decide +kernel) hdomains hsplit
  obtain rfl : splitSubnet = subnet := Option.some.inj hsubnet
  refine ⟨σ', domains', hsplit, ?_, ?_⟩
  · have hlast : (2, splitSubnet.network.upper) ∈
        [1, 2].zip (splitSubnet.network.subnets splitRequest.newPrefixLength) := by decide +kernel
    rw [hkeeps.bindings _ hlast]
    decide +kernel
  · obtain ⟨r, hr, hfits, -, hmoved, -⟩ := hkeeps.scopes 0 { groupId := 0, subnetId := 0 }
      (by decide +kernel) rfl rfl (by decide +kernel)
    exact ⟨r, hr, hfits, by rw [hmoved]; rfl⟩

end SpatiumDdi.Ipam
