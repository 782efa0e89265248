import SpatiumDdi.Ipam.Merge

/-!
A split undone by a merge. The children of a split tile the parent, so they
collapse to it; an address row lies in the child it hangs under, so the rows
come back together; and what the split seeds on the children are default
boundary rows, which the merge retires. The unique constraint on a subnet's
addresses is kept all along, which leaves one row on each boundary address of
the merged subnet. Only a second DHCP scope stands in the way.
-/

namespace SpatiumDdi.Ipam

open Ipaddress

/-- `uq_ip_address_subnet_address`. -/
def rowKey (a : IPAddress) : Nat × Address := (a.subnetId, a.address)

structure RowConstraints (σ : Store) : Prop where
  address : ∀ a ∈ σ.addresses.values, ∃ s, σ.subnets.get? a.subnetId = some s
  scope : ∀ sc ∈ σ.scopes.values, ∃ s, σ.subnets.get? sc.subnetId = some s
  unique : (σ.addresses.values.map rowKey).Nodup

instance (σ : Store) : Decidable (RowConstraints σ) :=
  decidable_of_iff ((∀ a ∈ σ.addresses.values, (σ.subnets.get? a.subnetId).isSome) ∧
    (∀ sc ∈ σ.scopes.values, (σ.subnets.get? sc.subnetId).isSome) ∧
    (σ.addresses.values.map rowKey).Nodup) (by
      simp only [Option.isSome_iff_exists]
      exact ⟨fun h => ⟨h.1, h.2.1, h.2.2⟩, fun h => ⟨h.1, h.2, h.3⟩⟩)

/-- What a row says, its subnet apart. -/
def content (a : IPAddress) : Address × AddressStatus × Option String × String × Option Nat :=
  (a.address, a.status, a.hostname, a.description, a.dnsRecordId)

def planRows (σ : Store) (subnetId : Nat) :
    List (Address × AddressStatus × Option String × String × Option Nat) :=
  ((subnetRows σ subnetId).filter fun a => !isDefaultPlaceholder a).map content

theorem subnetRows_eq (σ : Store) (subnetId : Nat) :
    subnetRows σ subnetId = σ.addresses.values.filter fun a => a.subnetId == subnetId :=
  Table.map_select _ _

variable {net : Net} {kind : SubnetKind}

theorem mem_boundaryAddresses {a : Address} :
    a ∈ boundaryAddresses net kind ↔ hasBoundaryRows net kind = true ∧
      (a = net.nth 0 ∨ net.version = .v4 ∧ a = net.nth (net.numAddresses - 1)) := by
  unfold boundaryAddresses boundaryRows
  split
  · rename_i h
    cases hv : net.version <;> simp [h]
  · rename_i h
    simp [h]

theorem contains_of_mem_boundaryAddresses {a : Address} (h : a ∈ boundaryAddresses net kind) :
    net.contains a := by
  have hpos := net.numAddresses_pos
  rcases (mem_boundaryAddresses.mp h).2 with rfl | ⟨-, rfl⟩
  · exact Net.contains_nth hpos
  · exact Net.contains_nth (by omega)

theorem boundaryAddresses_nodup (net : Net) (kind : SubnetKind) :
    (boundaryAddresses net kind).Nodup := by
  unfold boundaryAddresses boundaryRows
  split
  · rename_i h
    cases hv : net.version with
    | v6 => simp
    | v4 =>
      have hlen : net.prefixlen < 31 := by
        have := (Bool.and_eq_true _ _ ▸ h).2
        simpa [hv] using this
      have htwo : 2 ≤ net.numAddresses := by
        rw [Net.numAddresses, hv]
        exact Nat.le_self_pow (by simp only [Version.maxPrefixlen]; omega) 2
      have hne : net.nth 0 ≠ net.nth (net.numAddresses - 1) := by
        intro he
        have hvalue := congrArg Address.value he
        rw [Net.nth_value (by omega), Net.nth_value (by omega)] at hvalue
        omega
      simpa using hne
  · simp

variable {a : IPAddress} {σ σ₁ : Store} {subnetId first : Nat}

theorem mem_missingBoundaryRows (h : a ∈ missingBoundaryRows σ subnetId net kind) :
    a.subnetId = subnetId ∧ a.address ∈ boundaryAddresses net kind ∧
      isDefaultPlaceholder a = true ∧
      ∀ b ∈ σ.addresses.values, b.subnetId = subnetId → b.address ≠ a.address := by
  obtain ⟨r, hr, rfl⟩ := List.mem_map.mp h
  obtain ⟨hr, hfree⟩ := List.mem_filter.mp hr
  refine ⟨rfl, List.mem_map.mpr ⟨r, hr, rfl⟩, ?_, fun b hb hsub he => ?_⟩
  · unfold boundaryRows at hr
    split at hr
    · cases hv : net.version <;> simp only [hv, List.mem_cons, List.not_mem_nil, or_false] at hr
      · rcases hr with rfl | rfl <;> rfl
      · rw [hr]
        rfl
    · simp at hr
  · simp only [Bool.not_eq_true', decide_eq_false_iff_not] at hfree
    refine hfree (List.mem_map.mpr ⟨b, ?_, he⟩)
    rw [subnetRows_eq]
    exact List.mem_filter.mpr ⟨hb, by simpa using hsub⟩

theorem ensureBoundaryRows_values (σ : Store) (subnetId : Nat) (net : Net) (kind : SubnetKind) :
    (ensureBoundaryRows σ subnetId net kind).addresses.values =
      σ.addresses.values ++ missingBoundaryRows σ subnetId net kind :=
  Table.values_insertAll _ _

theorem ensureBoundaryRows_unique (subnetId : Nat) (net : Net) (kind : SubnetKind)
    (h : (σ.addresses.values.map rowKey).Nodup) :
    ((ensureBoundaryRows σ subnetId net kind).addresses.values.map rowKey).Nodup := by
  rw [ensureBoundaryRows_values, List.map_append]
  refine List.Nodup.append h ?_ ?_
  · have haddr : ((missingBoundaryRows σ subnetId net kind).map (·.address)).Nodup := by
      refine (boundaryAddresses_nodup net kind).sublist ?_
      rw [missingBoundaryRows, List.map_map]
      exact List.filter_sublist.map _
    refine List.Nodup.of_map Prod.snd ?_
    rwa [List.map_map]
  · intro key hold hnew
    obtain ⟨a, ha, rfl⟩ := List.mem_map.mp hold
    obtain ⟨b, hb, he⟩ := List.mem_map.mp hnew
    obtain ⟨hsub, -, -, hfree⟩ := mem_missingBoundaryRows hb
    simp only [rowKey, Prod.mk.injEq] at he
    exact hfree a ha (he.1.symm.trans hsub) he.2.symm

variable {x : Address}

theorem exists_row_ensureBoundaryRows (σ : Store) (subnetId : Nat)
    (hx : x ∈ boundaryAddresses net kind) :
    ∃ a ∈ (ensureBoundaryRows σ subnetId net kind).addresses.values,
      a.subnetId = subnetId ∧ a.address = x := by
  rw [ensureBoundaryRows_values]
  by_cases hold : x ∈ (subnetRows σ subnetId).map (·.address)
  · obtain ⟨a, ha, rfl⟩ := List.mem_map.mp hold
    rw [subnetRows_eq, List.mem_filter, beq_iff_eq] at ha
    exact ⟨a, List.mem_append_left _ ha.1, ha.2, rfl⟩
  · obtain ⟨r, hr, rfl⟩ := List.mem_map.mp hx
    refine ⟨_, List.mem_append_right _ (List.mem_map.mpr ⟨r, ?_, rfl⟩), rfl, rfl⟩
    exact List.mem_filter.mpr ⟨hr, by simpa using hold⟩

/-- A row under a new key lies in the child the key stands for. -/
def Placed (first : Nat) (children : List Net) (rows : List IPAddress) : Prop :=
  ∀ a ∈ rows, first ≤ a.subnetId →
    ∃ c, children[a.subnetId - first]? = some c ∧ c.contains a.address

variable {i : Nat} {children : List Net} {p : Net → Bool} {subnet : Subnet} {srcIds : List Nat}

theorem findChild_eq_some (h : findChild first children p = some i) :
    first ≤ i ∧ ∃ c, children[i - first]? = some c ∧ p c = true := by
  simp only [findChild, Option.map_eq_some_iff] at h
  obtain ⟨k, hk, rfl⟩ := h
  obtain ⟨hlt, hp, -⟩ := List.findIdx?_eq_some_iff_getElem.mp hk
  refine ⟨Nat.le_add_right _ _, children[k], ?_, hp⟩
  rw [Nat.add_sub_cancel_left]
  exact List.getElem?_eq_getElem hlt

theorem exists_findChild (first : Nat) {c : Net} (hc : c ∈ children) (hp : p c = true) :
    ∃ i, findChild first children p = some i := by
  have hsome : (children.findIdx? p).isSome := by
    rw [List.findIdx?_isSome, List.any_eq_true]
    exact ⟨c, hc, hp⟩
  obtain ⟨k, hk⟩ := Option.isSome_iff_exists.mp hsome
  exact ⟨first + k, by simp [findChild, hk]⟩

/-- What the split does to the rows of the parent. -/
def toChild (subnetId first : Nat) (children : List Net) (a : IPAddress) : IPAddress :=
  if a.subnetId = subnetId then
    match findChild first children fun child => child.contains a.address with
    | some child => { a with subnetId := child }
    | none => a
  else a

theorem splitAddresses_values (σ : Store) (subnetId first : Nat) (parent : Net)
    (children : List Net) :
    (splitAddresses σ subnetId first parent children).values =
      (σ.addresses.values.filter fun a => !retiredBySplit subnetId parent a).map
        (toChild subnetId first children) := by
  rw [← Table.values_keep, ← Table.values_modify]
  rfl

@[simp] theorem content_toChild (subnetId first : Nat) (children : List Net) (a : IPAddress) :
    content (toChild subnetId first children a) = content a := by
  unfold toChild
  split
  · split <;> rfl
  · rfl

@[simp] theorem isDefaultPlaceholder_toChild (subnetId first : Nat) (children : List Net)
    (a : IPAddress) :
    isDefaultPlaceholder (toChild subnetId first children a) = isDefaultPlaceholder a := by
  unfold toChild
  split
  · split <;> rfl
  · rfl

@[simp] theorem address_toChild (subnetId first : Nat) (children : List Net) (a : IPAddress) :
    (toChild subnetId first children a).address = a.address := congrArg Prod.fst
  (content_toChild subnetId first children a)

theorem toChild_subnetId {parent : Net} (htiles : Net.Tiles parent children)
    (ha : a.subnetId = subnetId) (hin : parent.contains a.address) :
    first ≤ (toChild subnetId first children a).subnetId ∧
      ∃ c, children[(toChild subnetId first children a).subnetId - first]? = some c ∧
        c.contains a.address := by
  obtain ⟨c, hc, hcv, hcx⟩ := htiles.covered _ hin.2
  obtain ⟨i, hi⟩ := exists_findChild first (p := fun c => c.contains a.address) hc
    (by simpa using ⟨hin.1.trans hcv.symm, hcx⟩)
  obtain ⟨hle, d, hd, hp⟩ := findChild_eq_some hi
  have hto : toChild subnetId first children a = { a with subnetId := i } := by
    simp only [toChild, if_pos ha, hi]
  rw [hto]
  exact ⟨hle, d, hd, by simpa using hp⟩

theorem toChild_of_ne (ha : a.subnetId ≠ subnetId) :
    toChild subnetId first children a = a := if_neg ha

/-- `ensureAllBoundaryRows` adds default placeholders, each in its own child,
and keeps the unique constraint. -/
theorem ensureAllBoundaryRows_values (σ : Store) (kind : SubnetKind) (id : Nat) (nets : List Net) :
    ∃ added, (ensureAllBoundaryRows σ kind id nets).addresses.values =
        σ.addresses.values ++ added ∧
      (∀ a ∈ added, isDefaultPlaceholder a = true ∧ id ≤ a.subnetId ∧
        ∃ c, nets[a.subnetId - id]? = some c ∧ c.contains a.address) ∧
      ((σ.addresses.values.map rowKey).Nodup →
        ((ensureAllBoundaryRows σ kind id nets).addresses.values.map rowKey).Nodup) := by
  induction nets generalizing σ id with
  | nil => exact ⟨[], by simp [ensureAllBoundaryRows], by simp, fun h => h⟩
  | cons net rest ih =>
    obtain ⟨added, hvalues, hadded, hunique⟩ := ih (ensureBoundaryRows σ id net kind) (id + 1)
    refine ⟨missingBoundaryRows σ id net kind ++ added, ?_, fun a ha => ?_, fun h => ?_⟩
    · rw [ensureAllBoundaryRows, hvalues, ensureBoundaryRows_values, List.append_assoc]
    · rcases List.mem_append.mp ha with ha | ha
      · obtain ⟨rfl, hmem, hdefault, -⟩ := mem_missingBoundaryRows ha
        exact ⟨hdefault, le_rfl, net, by simp, contains_of_mem_boundaryAddresses hmem⟩
      · obtain ⟨hdefault, hle, c, hc, hin⟩ := hadded a ha
        refine ⟨hdefault, by omega, c, ?_, hin⟩
        rw [show a.subnetId - id = a.subnetId - (id + 1) + 1 by omega]
        exact hc
    · exact hunique (ensureBoundaryRows_unique id net kind h)

structure SplitState (σ σ₁ : Store) (subnetId : Nat) (subnet : Subnet) (children : List Net) :
    Prop where
  subnets : σ₁.subnets = (σ.subnets.insertAll (children.map (splitChild subnet))).keep
    fun i _ => i != subnetId
  placed : Placed σ.subnets.next children σ₁.addresses.values
  unique : (σ₁.addresses.values.map rowKey).Nodup
  rows : ((σ₁.addresses.values.filter fun a => σ.subnets.next ≤ a.subnetId).filter fun a =>
    !isDefaultPlaceholder a).map content = planRows σ subnetId
  scopes : (σ₁.scopes.select fun _ sc => sc.deletion.isNone &&
    decide (σ.subnets.next ≤ sc.subnetId)).map Prod.fst = subnetScopes σ subnetId
  scopeLt : ∀ i sc, σ₁.scopes.get? i = some sc → sc.subnetId < σ.subnets.next + children.length

section Split

variable {σ : Store} {subnetId : Nat} {parent : Net} {children : List Net}

section

variable (hσ : RowConstraints σ)
include hσ

theorem toChild_cases (htiles : Net.Tiles parent children)
    (hin : ∀ a ∈ subnetRows σ subnetId, parent.contains a.address) (ha : a ∈ σ.addresses.values) :
    (a.subnetId = subnetId ∧
      σ.subnets.next ≤ (toChild subnetId σ.subnets.next children a).subnetId ∧
      ∃ c, children[(toChild subnetId σ.subnets.next children a).subnetId - σ.subnets.next]? =
        some c ∧ c.contains a.address) ∨
    (a.subnetId ≠ subnetId ∧ toChild subnetId σ.subnets.next children a = a ∧
      a.subnetId < σ.subnets.next) := by
  by_cases hsub : a.subnetId = subnetId
  · have hmem : a ∈ subnetRows σ subnetId := by
      rw [subnetRows_eq]
      exact List.mem_filter.mpr ⟨ha, by simpa using hsub⟩
    exact Or.inl ⟨hsub, toChild_subnetId htiles hsub (hin a hmem)⟩
  · obtain ⟨s, hs⟩ := hσ.address a ha
    exact Or.inr ⟨hsub, toChild_of_ne hsub, Table.lt_next hs⟩

theorem toChild_moves_or_stays (subnetId : Nat) (children : List Net)
    (ha : a ∈ σ.addresses.values) :
    (a.subnetId = subnetId ∧
      σ.subnets.next ≤ (toChild subnetId σ.subnets.next children a).subnetId) ∨
    (toChild subnetId σ.subnets.next children a = a ∧ a.subnetId < σ.subnets.next) := by
  obtain ⟨s, hs⟩ := hσ.address a ha
  have hlt := Table.lt_next hs
  unfold toChild
  split
  · rename_i hsub
    split
    · rename_i child hchild
      exact Or.inl ⟨hsub, (findChild_eq_some hchild).1⟩
    · exact Or.inr ⟨rfl, hlt⟩
  · exact Or.inr ⟨rfl, hlt⟩

theorem splitAddresses_unique :
    ((splitAddresses σ subnetId σ.subnets.next parent children).values.map rowKey).Nodup := by
  rw [splitAddresses_values, List.map_map]
  have hnodup := (hσ.unique.of_map rowKey).filter fun a => !retiredBySplit subnetId parent a
  refine hnodup.map_on fun a ha b hb he => ?_
  have ha := List.mem_of_mem_filter ha
  have hb := List.mem_of_mem_filter hb
  simp only [Function.comp_apply, rowKey, address_toChild, Prod.mk.injEq] at he
  refine List.inj_on_of_nodup_map hσ.unique ha hb (Prod.ext ?_ he.2)
  rcases toChild_moves_or_stays hσ subnetId children ha with ⟨ha', hlea⟩ | ⟨hea, hlta⟩ <;>
    rcases toChild_moves_or_stays hσ subnetId children hb with ⟨hb', hleb⟩ | ⟨heb, hltb⟩
  · exact ha'.trans hb'.symm
  · rw [heb] at he
    omega
  · rw [hea] at he
    omega
  · rw [hea, heb] at he
    exact he.1

section

variable (htiles : Net.Tiles parent children)
include htiles

theorem splitAddresses_placed (hin : ∀ a ∈ subnetRows σ subnetId, parent.contains a.address) :
    Placed σ.subnets.next children
      (splitAddresses σ subnetId σ.subnets.next parent children).values := by
  intro b hb hle
  rw [splitAddresses_values] at hb
  obtain ⟨a, ha, rfl⟩ := List.mem_map.mp hb
  rcases toChild_cases hσ htiles hin (List.mem_of_mem_filter ha) with ⟨-, -, h⟩ | ⟨-, he, hlt⟩
  · simpa using h
  · rw [he] at hle
    omega

theorem splitAddresses_ne (hlt : subnetId < σ.subnets.next)
    (hin : ∀ a ∈ subnetRows σ subnetId, parent.contains a.address) :
    ∀ b ∈ (splitAddresses σ subnetId σ.subnets.next parent children).values,
      b.subnetId ≠ subnetId := by
  intro b hb
  rw [splitAddresses_values] at hb
  obtain ⟨a, ha, rfl⟩ := List.mem_map.mp hb
  rcases toChild_cases hσ htiles hin (List.mem_of_mem_filter ha) with ⟨-, hle, -⟩ | ⟨hne, he, -⟩
  · omega
  · rwa [he]

theorem splitAddresses_rows (hin : ∀ a ∈ subnetRows σ subnetId, parent.contains a.address) :
    (((splitAddresses σ subnetId σ.subnets.next parent children).values.filter fun a =>
      σ.subnets.next ≤ a.subnetId).filter fun a => !isDefaultPlaceholder a).map content =
      planRows σ subnetId := by
  rw [splitAddresses_values, planRows, subnetRows_eq, List.filter_map, List.filter_map,
    List.map_map, List.filter_filter, List.filter_filter, List.filter_filter]
  have hcontent : content ∘ toChild subnetId σ.subnets.next children = content :=
    funext fun a => content_toChild _ _ _ a
  rw [hcontent]
  congr 1
  refine List.filter_congr fun a ha => ?_
  have hretired : isDefaultPlaceholder a = false → retiredBySplit subnetId parent a = false := by
    intro h
    simp [retiredBySplit, h]
  simp only [Function.comp_apply, isDefaultPlaceholder_toChild]
  cases hdefault : isDefaultPlaceholder a with
  | true => simp
  | false =>
    rw [hretired hdefault]
    rcases toChild_cases hσ htiles hin ha with ⟨ha, hle, -⟩ | ⟨hne, he, hlt⟩
    · simp [ha, hle]
    · simp [he, hne, Nat.not_le.mpr hlt]

end

end

theorem scopeTarget_eq_some (σ : Store) (first : Nat) (htiles : Net.Tiles parent children)
    (scope : Nat) :
    ∃ i, scopeTarget σ first parent children scope = some i ∧ first ≤ i ∧
      i < first + children.length := by
  have hbound : ∀ {p : Net → Bool} {i : Nat}, findChild first children p = some i →
      first ≤ i ∧ i < first + children.length := by
    intro p i h
    obtain ⟨hle, c, hc, -⟩ := findChild_eq_some h
    have hlt := (List.getElem?_eq_some_iff.mp hc).1
    exact ⟨hle, by omega⟩
  obtain ⟨c, hc, hcv, hcx⟩ := htiles.covered _ parent.hasValue_networkAddress
  obtain ⟨i, hi⟩ := exists_findChild first
    (p := fun c => c.contains (parent.nth 0)) hc (by
      have hvalue : (parent.nth 0).value = parent.networkAddress :=
        Net.nth_value parent.numAddresses_pos
      exact decide_eq_true ⟨hcv.symm, hvalue ▸ hcx⟩)
  unfold scopeTarget
  split
  · exact ⟨i, by simp [hi], hbound hi⟩
  · cases hfit : findChild first children fun c => scopeFits σ scope c with
    | none => exact ⟨i, by simp [hi], hbound hi⟩
    | some j => exact ⟨j, by simp, hbound hfit⟩

def toChildScope (σ : Store) (subnetId first : Nat) (parent : Net) (children : List Net) (i : Nat)
    (sc : DHCPScope) : DHCPScope :=
  if sc.deletion.isNone && sc.subnetId == subnetId then
    match scopeTarget σ first parent children i with
    | some child => { sc with subnetId := child }
    | none => sc
  else sc

theorem toChildScope_cases (σ : Store) (subnetId first : Nat) (htiles : Net.Tiles parent children)
    (i : Nat) (sc : DHCPScope) :
    (sc.deletion = none ∧ sc.subnetId = subnetId ∧
      (toChildScope σ subnetId first parent children i sc).deletion = none ∧
      first ≤ (toChildScope σ subnetId first parent children i sc).subnetId ∧
      (toChildScope σ subnetId first parent children i sc).subnetId < first + children.length) ∨
    ((sc.deletion = none → sc.subnetId ≠ subnetId) ∧
      toChildScope σ subnetId first parent children i sc = sc) := by
  obtain ⟨t, ht, hle, hlt⟩ := scopeTarget_eq_some σ first htiles i
  unfold toChildScope
  split
  · rename_i hmine
    simp only [Bool.and_eq_true, Option.isNone_iff_eq_none, beq_iff_eq] at hmine
    rw [ht]
    exact Or.inl ⟨hmine.1, hmine.2, hmine.1, hle, hlt⟩
  · rename_i hmine
    exact Or.inr ⟨by simpa using hmine, rfl⟩

theorem splitScopes_select (hσ : RowConstraints σ) {σ₁ : Store} (hscopes : σ₁.scopes = σ.scopes)
    (htiles : Net.Tiles parent children) :
    (((splitScopes σ₁ subnetId σ.subnets.next parent children).keep
      fun _ sc => sc.subnetId != subnetId).select fun _ sc =>
        sc.deletion.isNone && decide (σ.subnets.next ≤ sc.subnetId)).map Prod.fst =
      subnetScopes σ subnetId := by
  have hrows : (splitScopes σ₁ subnetId σ.subnets.next parent children).rows =
      σ.scopes.rows.map fun r =>
        (r.1, toChildScope σ₁ subnetId σ.subnets.next parent children r.1 r.2) := by
    rw [← hscopes]
    rfl
  simp only [subnetScopes, Table.select, Table.keep, hrows, List.filter_filter, List.filter_map,
    List.map_map]
  have hfst : (Prod.fst ∘ fun r : Nat × DHCPScope =>
      (r.1, toChildScope σ₁ subnetId σ.subnets.next parent children r.1 r.2)) = Prod.fst := rfl
  rw [hfst]
  congr 1
  refine List.filter_congr fun r hr => ?_
  obtain ⟨s, hs⟩ := hσ.scope r.2 (List.mem_map.mpr ⟨r, hr, rfl⟩)
  have hold := Table.lt_next hs
  simp only [Function.comp_apply]
  rcases toChildScope_cases σ₁ subnetId σ.subnets.next htiles r.1 r.2 with
    ⟨hd, hsub, hd', hle, -⟩ | ⟨hne, he⟩
  · have hnot : (toChildScope σ₁ subnetId σ.subnets.next parent children r.1 r.2).subnetId ≠
        subnetId := by omega
    simp [hd, hsub, hd', hle, hnot]
  · rw [he]
    cases hd : r.2.deletion with
    | none => simp [hne hd, Nat.not_le.mpr hold]
    | some _ => simp

end Split

theorem commitSubnetSplit_state (hσ : RowConstraints σ) {request : SubnetSplit} {ids : List Nat}
    (h : commitSubnetSplit σ request = .ok (ids, σ₁))
    (hsubnet : σ.getSubnet request.subnetId = some subnet)
    (hin : ∀ a ∈ subnetRows σ request.subnetId, subnet.network.contains a.address) :
    let children := subnet.network.subnets request.newPrefixLength
    Net.Tiles subnet.network children ∧
      request.newPrefixLength < subnet.network.version.maxPrefixlen - 1 ∧
      subnet.network.prefixlen < request.newPrefixLength ∧
      ids = (List.range children.length).map (σ.subnets.next + ·) ∧
      SplitState σ σ₁ request.subnetId subnet children := by
  intro children
  simp only [commitSubnetSplit, bind_eq_ok, require_eq_ok, orRefuse_eq_ok, exists_const,
    pure_eq_ok, Prod.mk.injEq] at h
  obtain ⟨-, subnet', hsubnet', _, hvalid, -, -, rfl, rfl⟩ := h
  obtain rfl := Option.some.inj (hsubnet'.symm.trans hsubnet)
  obtain ⟨hlt, hle⟩ := validateSplit_ok hvalid
  have htiles : Net.Tiles subnet'.network children := Net.Tiles.subnets hlt.le (by omega)
  have hidlt : request.subnetId < σ.subnets.next :=
    Table.lt_next (Store.getSubnet_eq_some.mp hsubnet).1
  refine ⟨htiles, hle, hlt, rfl, ?_⟩
  let split : Store := { σ with
    subnets := σ.subnets.insertAll (children.map (splitChild subnet'))
    addresses := splitAddresses σ request.subnetId σ.subnets.next subnet'.network children }
  obtain ⟨added, hvalues, hadded, hunique⟩ :=
    ensureAllBoundaryRows_values split subnet'.kind σ.subnets.next children
  obtain ⟨addresses, hσ₂⟩ := ensureAllBoundaryRows_eq split subnet'.kind σ.subnets.next children
  rw [hσ₂] at hvalues hunique ⊢
  -- No row is left for the deletion of the parent to take.
  have hkept : (deleteSubnet { split with
      addresses
      scopes := splitScopes { split with addresses } request.subnetId σ.subnets.next
        subnet'.network children } request.subnetId).addresses.values =
      split.addresses.values ++ added := by
    simp only [deleteSubnet, Table.values_keep]
    rw [hvalues]
    refine List.filter_eq_self.mpr fun a ha => ?_
    rw [bne_iff_ne]
    rcases List.mem_append.mp ha with ha | ha
    · exact splitAddresses_ne hσ htiles hidlt hin a ha
    · have := (hadded a ha).2.1
      omega
  refine ⟨rfl, ?_, ?_, ?_, splitScopes_select hσ rfl htiles, ?_⟩
  · rw [hkept]
    intro a ha hfirst
    rcases List.mem_append.mp ha with ha | ha
    · exact splitAddresses_placed hσ htiles hin a ha hfirst
    · exact (hadded a ha).2.2
  · rw [hkept, ← hvalues]
    exact hunique (splitAddresses_unique hσ)
  · have hnone : (added.filter fun a => σ.subnets.next ≤ a.subnetId).filter
        (fun a => !isDefaultPlaceholder a) = [] := by
      rw [List.filter_eq_nil_iff]
      intro a ha
      simp [(hadded a (List.mem_of_mem_filter ha)).1]
    rw [hkept, List.filter_append, List.filter_append, hnone, List.append_nil]
    exact splitAddresses_rows hσ htiles hin
  · intro i sc hsc
    simp only [deleteSubnet, Table.get?_keep, Option.filter_eq_some_iff] at hsc
    obtain ⟨hsc, -⟩ := hsc
    change (σ.scopes.modify (toChildScope _ _ _ _ _)).get? i = some sc at hsc
    rw [Table.get?_modify, Option.map_eq_some_iff] at hsc
    obtain ⟨sc, hold, rfl⟩ := hsc
    rcases toChildScope_cases _ request.subnetId σ.subnets.next htiles i sc with
      ⟨-, -, -, -, hbound⟩ | ⟨-, he⟩
    · exact hbound
    · rw [he]
      obtain ⟨s, hs⟩ := hσ.scope sc (Table.mem_values.mpr ⟨i, hold⟩)
      have := Table.lt_next hs
      omega

variable (ids : List Nat)

theorem loadSources_total {row : Nat → Subnet} (seen : List Nat)
    (hrow : ∀ i ∈ ids, σ.getSubnet i = some (row i)) :
    ∃ l : List Nat, loadSources σ seen ids = .ok (l.map fun i => (i, row i)) ∧ l.Nodup ∧
      ∀ i, i ∈ l ↔ i ∈ ids ∧ i ∉ seen := by
  induction ids generalizing seen with
  | nil => exact ⟨[], rfl, by simp, by simp⟩
  | cons id rest ih =>
    have hrest : ∀ i ∈ rest, σ.getSubnet i = some (row i) := fun i hi => hrow i (by simp [hi])
    by_cases hseen : id ∈ seen
    · obtain ⟨l, hload, hnodup, hmem⟩ := ih seen hrest
      refine ⟨l, by simpa [loadSources, hseen] using hload, hnodup, fun i => ?_⟩
      rw [hmem]
      constructor
      · rintro ⟨hi, hn⟩
        exact ⟨List.mem_cons_of_mem _ hi, hn⟩
      · rintro ⟨hi, hn⟩
        rcases List.mem_cons.mp hi with rfl | hi
        · exact absurd hseen hn
        · exact ⟨hi, hn⟩
    · obtain ⟨l, hload, hnodup, hmem⟩ := ih (id :: seen) hrest
      refine ⟨id :: l, ?_, ?_, fun i => ?_⟩
      · simp only [loadSources, hseen, if_false, hrow id (by simp), orRefuse, hload]
        rfl
      · refine List.nodup_cons.mpr ⟨fun hl => ?_, hnodup⟩
        exact ((hmem id).mp hl).2 (by simp)
      · rw [List.mem_cons, hmem, List.mem_cons, List.mem_cons, not_or]
        by_cases hi : i = id
        · simp [hi, hseen]
        · simp [hi]

def childRow (first : Nat) (subnet : Subnet) (children : List Net) (i : Nat) : Subnet :=
  splitChild subnet (children[i - first]?.getD subnet.network)

def childSources (first : Nat) (subnet : Subnet) (children : List Net) (srcIds : List Nat) :
    List (Nat × Subnet) := srcIds.map fun i => (i, childRow first subnet children i)

theorem map_fst_childSources (first : Nat) (subnet : Subnet) (children : List Net)
    (srcIds : List Nat) : (childSources first subnet children srcIds).map Prod.fst = srcIds := by
  simp [childSources, List.map_map, Function.comp_def]

/-- The children as sources of a merge: each once, in any order. -/
structure Sources (first : Nat) (children : List Net) (srcIds : List Nat) : Prop where
  perm : srcIds.Perm ((List.range children.length).map (first + ·))

namespace Sources

variable {first : Nat} {children : List Net} {srcIds : List Nat}

section

variable (h : Sources first children srcIds)
include h

theorem mem_iff : i ∈ srcIds ↔ first ≤ i ∧ i < first + children.length := by
  rw [h.perm.mem_iff]
  simp only [List.mem_map, List.mem_range]
  constructor
  · rintro ⟨k, hk, rfl⟩
    omega
  · exact fun hi => ⟨i - first, by omega, by omega⟩

theorem networks (subnet : Subnet) :
    ((childSources first subnet children srcIds).map (·.2.network)).Perm children := by
  rw [childSources, List.map_map]
  have hall : ((List.range children.length).map (first + ·)).map
      (fun i => (childRow first subnet children i).network) = children := by
    refine List.ext_getElem (by simp) fun k hk hk' => ?_
    simp [childRow, splitChild, hk']
  exact (h.perm.map _).trans (List.Perm.of_eq hall)

theorem length_eq : srcIds.length = children.length := by
  simpa using h.perm.length_eq

end

end Sources

section

variable (h : SplitState σ σ₁ subnetId subnet children)
include h

theorem SplitState.getSubnet (hlt : subnetId < σ.subnets.next) (hle : σ.subnets.next ≤ i)
    (hi : i < σ.subnets.next + children.length) :
    σ₁.getSubnet i = some (childRow σ.subnets.next subnet children i) := by
  have hk : i - σ.subnets.next < children.length := by omega
  refine Store.getSubnet_eq_some.mpr ⟨?_, rfl⟩
  rw [h.subnets, Table.get?_keep, Option.filter_eq_some_iff]
  refine ⟨Table.get?_insertAll_iff.mpr (Or.inr ⟨i - σ.subnets.next, by omega, ?_⟩), ?_⟩
  · simp [childRow, List.getElem?_eq_getElem hk]
  · rw [bne_iff_ne]
    omega

theorem SplitState.next : σ₁.subnets.next = σ.subnets.next + children.length := by
  rw [h.subnets, Table.next_keep, Table.next_insertAll, List.length_map]

end

theorem hasBoundaryRows_of_lt (h : net.prefixlen < net.version.maxPrefixlen - 1) :
    hasBoundaryRows net .unicast = true := by
  simp only [hasBoundaryRows]
  cases hv : net.version <;> simp only [hv, Version.maxPrefixlen] at h <;> simp <;> omega

theorem boundary_of_tiles {parent : Net} (htiles : Net.Tiles parent children)
    (hrows : ∀ c ∈ children, hasBoundaryRows c .unicast = true)
    (hx : x ∈ boundaryAddresses parent .unicast) :
    ∃ c ∈ children, x ∈ boundaryAddresses c .unicast := by
  obtain ⟨hv, hval⟩ := contains_of_mem_boundaryAddresses hx
  obtain ⟨c, hc, hcv, hcx⟩ := htiles.covered _ hval
  have hsub := Net.subnetOf_iff.mp (htiles.inside c hc)
  have hpos := parent.numAddresses_pos
  have hcpos := c.numAddresses_pos
  rw [Net.hasValue_iff] at hcx
  have hnth : ∀ k, k < c.numAddresses → x.value = c.networkAddress + k → x = c.nth k := by
    intro k hk he
    refine Address.ext (hv.trans hcv.symm) ?_
    rw [he]
    exact (Net.nth_value hk).symm
  refine ⟨c, hc, mem_boundaryAddresses.mpr ⟨hrows c hc, ?_⟩⟩
  rcases (mem_boundaryAddresses.mp hx).2 with rfl | ⟨hv4, rfl⟩
  · rw [Net.nth_value hpos] at hcx hnth
    exact Or.inl (hnth 0 hcpos (by omega))
  · rw [Net.nth_value (by omega)] at hcx hnth
    exact Or.inr ⟨hcv.trans hv4, hnth _ (by omega) (by omega)⟩

theorem Sources.preview {p : Nat} (hsrc : Sources σ.subnets.next children srcIds)
    (hstate : SplitState σ σ₁ subnetId subnet children) (hkind : subnet.kind = .unicast)
    (hchildren : children = subnet.network.subnets p) (hplen : subnet.network.prefixlen < p)
    (hpmax : p < subnet.network.version.maxPrefixlen - 1) :
    previewSubnetMerge σ₁ (childSources σ.subnets.next subnet children srcIds) =
      { mergedCidr := some subnet.network
        survivingScopeId :=
          if (subnetScopes σ subnetId).length = 1 then (subnetScopes σ subnetId).head? else none
        conflicts :=
          if (subnetScopes σ subnetId).length ≤ 1 then [] else [.multipleDhcpScopes] } := by
  set sources := childSources σ.subnets.next subnet children srcIds with hsources
  have htiles : Net.Tiles subnet.network children :=
    hchildren ▸ Net.Tiles.subnets hplen.le (by omega)
  have hids : sources.map Prod.fst = srcIds := map_fst_childSources ..
  have hperm : (sources.map (·.2.network)).Perm children := hsrc.networks subnet
  have hlen : 2 ≤ srcIds.length := by
    rw [hsrc.length_eq, hchildren, Net.subnets_length]
    exact Nat.le_self_pow (by omega) 2
  have hmerged : summariseOrNone (sources.map (·.2.network)) = some subnet.network := by
    have hsum := (hperm.map Net.numAddresses).sum_eq
    rw [hchildren, Net.sum_numAddresses_subnets hplen.le (by omega)] at hsum
    rw [summariseOrNone, Net.collapseAddresses_of_tiles (htiles.perm hperm.symm)]
    simp only [hsum, if_true]
  have hscopes : sourceScopes σ₁ srcIds = subnetScopes σ subnetId := by
    rw [← hstate.scopes, sourceScopes]
    congr 1
    refine List.filter_congr fun r hr => ?_
    have hbound := hstate.scopeLt r.1 r.2 (Table.mem_rows_iff.mp hr)
    simp only
    congr 1
    rw [decide_eq_decide, hsrc.mem_iff]
    omega
  have hhosts : boundaryHostConflicts (sourceRows σ₁ srcIds) [subnet.network] .unicast
      (sources.flatMap fun r => boundaryAddresses r.2.network r.2.kind) = [] := by
    have hrows : ∀ c ∈ children, hasBoundaryRows c .unicast = true := by
      intro c hc
      rw [hchildren, Net.mem_subnets hplen.le (by omega)] at hc
      exact hasBoundaryRows_of_lt (by rwa [hc.2, hc.1.1])
    rw [boundaryHostConflicts, List.map_eq_nil_iff, List.filter_eq_nil_iff]
    intro a _ hcond
    simp only [List.flatMap_cons, List.flatMap_nil, List.append_nil, Bool.and_eq_true,
      Bool.not_eq_true', decide_eq_false_iff_not, decide_eq_true_eq] at hcond
    obtain ⟨⟨-, hnot⟩, hmem⟩ := hcond
    obtain ⟨c, hc, hx⟩ := boundary_of_tiles htiles hrows hmem
    obtain ⟨r, hr, rfl⟩ := List.mem_map.mp (hperm.mem_iff.mpr hc)
    obtain ⟨i, -, hi⟩ := List.mem_map.mp hr
    have hkindr : r.2.kind = .unicast := hi ▸ hkind
    exact hnot (List.mem_flatMap.mpr ⟨r, hr, hkindr.symm ▸ hx⟩)
  have hmember : ∀ r ∈ sources, ∃ net ∈ children, r.2 = splitChild subnet net := by
    intro r hr
    have hnet := hperm.mem_iff.mp (List.mem_map.mpr ⟨r, hr, rfl⟩)
    obtain ⟨i, -, rfl⟩ := List.mem_map.mp hr
    exact ⟨_, hnet, rfl⟩
  obtain ⟨head, rest, hcons⟩ := List.exists_cons_of_ne_nil (l := sources) fun hnil => by
      rw [hnil] at hids
      simp [← hids] at hlen
  rw [hcons] at hmember
  obtain ⟨headNet, hheadNet, hhead⟩ := hmember head (by simp)
  have hblock : sources.all (fun r =>
      some r.2.blockId == sources.head?.map (·.2.blockId)) = true := by
    rw [hcons, List.all_eq_true]
    intro r hr
    obtain ⟨net, -, hrow⟩ := hmember r hr
    simp [hrow, hhead, splitChild]
  have hfamily : (sources.map (·.2.network)).all (fun n =>
      some n.version == (sources.map (·.2.network)).head?.map (·.version)) = true := by
    rw [List.all_eq_true]
    intro n hn
    have hv := (htiles.inside n (hperm.mem_iff.mp hn)).1
    have hheadv := (htiles.inside headNet hheadNet).1
    simp [hcons, hhead, splitChild, hv, hheadv]
  have hmeta : metadataAgrees (sources.map Prod.snd) = true := by
    rw [hcons, List.map_cons, metadataAgrees, List.all_eq_true]
    intro s hs
    obtain ⟨r, hr, rfl⟩ := List.mem_map.mp (List.map_cons (f := Prod.snd) ▸ hs)
    obtain ⟨net, -, hrow⟩ := hmember r hr
    simp [hrow, hhead, splitChild]
  have hheadKind : (sources.head?.map (·.2.kind)).getD .unicast = .unicast := by
    simp [hcons, hhead, splitChild, hkind]
  unfold previewSubnetMerge
  rw [if_neg (by rw [hsources, childSources, List.length_map]; omega)]
  simp only [hblock, hfamily, hmeta, hids, hscopes, hmerged, hheadKind, hhosts, if_true,
    Bool.true_and, Option.isNone_some, Option.toList_some, List.flatMap_cons, List.flatMap_nil,
    List.append_nil, List.nil_append, Bool.false_eq_true, if_false, List.isEmpty_nil]

theorem gatewaysOf_single {sources : List (Nat × Subnet)} (gw : Address)
    (h : ∀ r ∈ sources, r.2.gateway = none ∨ r.2.gateway = some gw) :
    (gatewaysOf sources = [] ∧ ∀ r ∈ sources, r.2.gateway = none) ∨
      ((∃ src, gatewaysOf sources = [(gw, src)]) ∧ ∃ r ∈ sources, r.2.gateway = some gw) := by
  induction sources using List.reverseRecOn with
  | nil => exact Or.inl ⟨rfl, by simp⟩
  | append_singleton rest r ih =>
    have hrest := ih fun r hr => h r (by simp [hr])
    rcases h r (by simp) with hr | hr
    · have hfold : gatewaysOf (rest ++ [r]) = gatewaysOf rest := by
        rw [gatewaysOf, List.foldl_append, List.foldl_cons, List.foldl_nil, hr]
        rfl
      rw [hfold]
      rcases hrest with ⟨hnil, hnone⟩ | ⟨hone, r', hr', hgw⟩
      · refine Or.inl ⟨hnil, fun r' hr' => ?_⟩
        rcases List.mem_append.mp hr' with hr' | hr'
        · exact hnone r' hr'
        · rw [List.mem_singleton.mp hr', hr]
      · exact Or.inr ⟨hone, r', by simp [hr'], hgw⟩
    · have hfold : gatewaysOf (rest ++ [r]) =
          if gw ∈ (gatewaysOf rest).map Prod.fst then gatewaysOf rest
          else gatewaysOf rest ++ [(gw, r)] := by
        rw [gatewaysOf, List.foldl_append, List.foldl_cons, List.foldl_nil, hr]
        rfl
      rw [hfold]
      refine Or.inr ⟨?_, r, by simp, hr⟩
      rcases hrest with ⟨hnil, -⟩ | ⟨⟨src, hone⟩, -⟩
      · exact ⟨r, by simp [hnil]⟩
      · exact ⟨src, by simp [hone]⟩

theorem Sources.gatewayPlan (hsrc : Sources first children srcIds)
    (htiles : Net.Tiles subnet.network children) (kind : SubnetKind) (rows : List IPAddress) :
    gatewayPlan (childSources first subnet children srcIds) kind subnet.network rows =
      (subnet.gateway.filter fun gw => subnet.network.contains gw, []) := by
  have hperm := hsrc.networks subnet
  have hgateway : ∀ r ∈ childSources first subnet children srcIds,
      r.2.gateway = subnet.gateway.filter fun gw => r.2.network.contains gw := by
    intro r hr
    obtain ⟨i, -, rfl⟩ := List.mem_map.mp hr
    rfl
  unfold Ipam.gatewayPlan
  cases hgw : subnet.gateway with
  | none =>
    have hnone : ∀ r ∈ childSources first subnet children srcIds, r.2.gateway = none := by
      intro r hr
      rw [hgateway r hr, hgw, Option.filter_none]
    rcases gatewaysOf_single (subnet.network.nth 0) fun r hr => Or.inl (hnone r hr) with
      ⟨hnil, -⟩ | ⟨-, r, hr, hsome⟩
    · simp [hnil]
    · simp [hnone r hr] at hsome
  | some gw =>
    have hcases : ∀ r ∈ childSources first subnet children srcIds,
        r.2.gateway = none ∨ r.2.gateway = some gw := by
      intro r hr
      rw [hgateway r hr, hgw, Option.filter_some]
      split
      · exact Or.inr rfl
      · exact Or.inl rfl
    rcases gatewaysOf_single gw hcases with ⟨hnil, hnone⟩ | ⟨⟨src, hone⟩, r, hr, hsome⟩
    · have hout : ¬ subnet.network.contains gw := by
        rintro ⟨hv, hval⟩
        obtain ⟨c, hc, hcv, hcx⟩ := htiles.covered _ hval
        obtain ⟨r, hr, rfl⟩ := List.mem_map.mp (hperm.mem_iff.mpr hc)
        have hin : r.2.network.contains gw := ⟨hv.trans hcv.symm, hcx⟩
        have hsome := hgateway r hr
        rw [hnone r hr, hgw, Option.filter_some, if_pos (decide_eq_true hin)] at hsome
        simp at hsome
      rw [hnil, Option.filter_some, if_neg (by simpa using hout)]
    · have hin : subnet.network.contains gw := by
        have hmem := hgateway r hr
        rw [hsome, hgw, eq_comm, Option.filter_eq_some_iff, decide_eq_true_eq] at hmem
        have hsub := htiles.inside _ (hperm.mem_iff.mp (List.mem_map.mpr ⟨r, hr, rfl⟩))
        exact ⟨hmem.2.1.trans hsub.1, hmem.2.2.mono hsub⟩
      rw [hone, Option.filter_some, if_pos (decide_eq_true hin)]
      simp only [hin, if_true]

theorem deleteSubnets_addresses (σ : Store) (ids : List Nat) :
    (deleteSubnets σ ids).addresses.values =
      σ.addresses.values.filter fun a => !decide (a.subnetId ∈ ids) := by
  induction ids generalizing σ with
  | nil => simp [deleteSubnets]
  | cons id rest ih =>
    rw [deleteSubnets, List.foldl_cons, ← deleteSubnets, ih]
    simp only [deleteSubnet, Table.values_keep, List.filter_filter]
    refine List.filter_congr fun a _ => ?_
    by_cases ha : a.subnetId = id <;> simp [ha]

def toMerged (ids : List Nat) (mergedId : Nat) (a : IPAddress) : IPAddress :=
  if a.subnetId ∈ ids then { a with subnetId := mergedId } else a

variable (mergedId : Nat)

@[simp] theorem content_toMerged (a : IPAddress) :
    content (toMerged ids mergedId a) = content a := by
  unfold toMerged
  split <;> rfl

@[simp] theorem isDefaultPlaceholder_toMerged (a : IPAddress) :
    isDefaultPlaceholder (toMerged ids mergedId a) = isDefaultPlaceholder a := by
  unfold toMerged
  split <;> rfl

@[simp] theorem address_toMerged (a : IPAddress) :
    (toMerged ids mergedId a).address = a.address := by
  unfold toMerged
  split <;> rfl

section Merge

variable {first mergedId : Nat} {subnet : Subnet} {children : List Net} {srcIds : List Nat}
  {rows : List IPAddress}

theorem Placed.lt (h : Placed first children rows) (ha : a ∈ rows) :
    a.subnetId < first + children.length := by
  by_cases hle : first ≤ a.subnetId
  · obtain ⟨c, hc, -⟩ := h a ha hle
    have := (List.getElem?_eq_some_iff.mp hc).1
    omega
  · omega

theorem Placed.subnetId_eq (h : Placed first children rows)
    (htiles : Net.Tiles subnet.network children) {b : IPAddress} (ha : a ∈ rows) (hb : b ∈ rows)
    (hla : first ≤ a.subnetId) (hlb : first ≤ b.subnetId) (he : a.address = b.address) :
    a.subnetId = b.subnetId := by
  obtain ⟨c, hc, hcv, hcx⟩ := h a ha hla
  obtain ⟨d, hd, hdv, hdx⟩ := h b hb hlb
  rw [← he] at hdv hdx
  obtain rfl : c = d := htiles.eq_of_overlaps (List.mem_of_getElem? hc) (List.mem_of_getElem? hd)
    (hcx.overlaps hdx (hcv.symm.trans hdv))
  have hnodup : children.Nodup := htiles.disjoint.imp fun {a b} hno (hab : a = b) =>
    hno (hab ▸ Net.overlaps_self a)
  have hlt := (List.getElem?_eq_some_iff.mp hc).1
  have hindex := (List.getElem?_inj hlt hnodup).mp (hc.trans hd.symm)
  omega

def mergedRows (first : Nat) (subnet : Subnet) (children : List Net) (srcIds : List Nat)
    (rows : List IPAddress) : List IPAddress :=
  (rows.filter fun a => !retiredByMerge (childSources first subnet children srcIds) [] a).map
    (toMerged srcIds (first + children.length))

section

variable (hsrc : Sources first children srcIds)
include hsrc

theorem mergedRows_unique (htiles : Net.Tiles subnet.network children)
    (hplaced : Placed first children rows) (hunique : (rows.map rowKey).Nodup) :
    ((mergedRows first subnet children srcIds rows).map rowKey).Nodup := by
  rw [mergedRows, List.map_map]
  refine ((hunique.of_map rowKey).filter _).map_on fun a ha b hb he => ?_
  have ha := List.mem_of_mem_filter ha
  have hb := List.mem_of_mem_filter hb
  have hlta := hplaced.lt ha
  have hltb := hplaced.lt hb
  simp only [Function.comp_apply, rowKey, address_toMerged, Prod.mk.injEq] at he
  refine List.inj_on_of_nodup_map hunique ha hb (Prod.ext ?_ he.2)
  by_cases hma : a.subnetId ∈ srcIds <;> by_cases hmb : b.subnetId ∈ srcIds <;>
    simp only [toMerged, hma, hmb, if_true, if_false] at he
  · exact hplaced.subnetId_eq htiles ha hb (hsrc.mem_iff.mp hma).1 (hsrc.mem_iff.mp hmb).1 he.2
  · omega
  · omega
  · exact he.1

theorem mergedRows_not_mem :
    ∀ a ∈ mergedRows first subnet children srcIds rows, a.subnetId ∉ srcIds := by
  intro b hb
  obtain ⟨a, -, rfl⟩ := List.mem_map.mp hb
  unfold toMerged
  split
  · intro hmem
    have := (hsrc.mem_iff.mp hmem).2
    simp at this
  · assumption

theorem mergedRows_plan (hplaced : Placed first children rows) :
    (((mergedRows first subnet children srcIds rows).filter fun a =>
      a.subnetId == first + children.length).filter fun a => !isDefaultPlaceholder a).map content =
    ((rows.filter fun a => first ≤ a.subnetId).filter fun a =>
      !isDefaultPlaceholder a).map content := by
  rw [mergedRows, List.filter_map, List.filter_map, List.map_map, List.filter_filter,
    List.filter_filter, List.filter_filter]
  have hcontent : content ∘ toMerged srcIds (first + children.length) = content :=
    funext fun a => content_toMerged _ _ a
  rw [hcontent]
  congr 1
  refine List.filter_congr fun a ha => ?_
  have hlt := hplaced.lt ha
  simp only [Function.comp_apply, isDefaultPlaceholder_toMerged]
  cases hdefault : isDefaultPlaceholder a with
  | true => simp
  | false =>
    have hkept : retiredByMerge (childSources first subnet children srcIds) [] a = false := by
      simp [retiredByMerge, hdefault]
    rw [hkept]
    by_cases hmem : a.subnetId ∈ srcIds
    · simp [toMerged, hmem, (hsrc.mem_iff.mp hmem).1]
    · have hnot : ¬ first ≤ a.subnetId := fun hle => hmem (hsrc.mem_iff.mpr ⟨hle, hlt⟩)
      simp [toMerged, hmem, hnot, hlt.ne]

theorem mergedRows_retired (hplaced : Placed first children rows)
    (ha : a ∈ mergedRows first subnet children srcIds rows)
    (hid : a.subnetId = first + children.length) (hdefault : isDefaultPlaceholder a = true)
    {c : Net} (hc : c ∈ children) : a.address ∉ boundaryAddresses c .unicast := by
  obtain ⟨b, hb, rfl⟩ := List.mem_map.mp ha
  obtain ⟨hb, hkept⟩ := List.mem_filter.mp hb
  rw [isDefaultPlaceholder_toMerged] at hdefault
  rw [address_toMerged]
  intro hx
  have hmem : b.subnetId ∈ srcIds := by
    by_contra hnot
    have hlt := hplaced.lt hb
    simp only [toMerged, hnot, if_false] at hid
    omega
  obtain ⟨r, hr, rfl⟩ := List.mem_map.mp ((hsrc.networks subnet).mem_iff.mpr hc)
  have hretired : retiredByMerge (childSources first subnet children srcIds) [] b = true := by
    have hboundary : b.address ∈ sourceBoundary (childSources first subnet children srcIds) :=
      List.mem_flatMap.mpr ⟨r, hr, List.mem_cons_of_mem _ hx⟩
    simp [retiredByMerge, map_fst_childSources, hmem, hboundary, hdefault]
  simp [hretired] at hkept

end

end Merge

def previewMerge (σ : Store) (targetId : Nat) (siblingSubnetIds : List Nat) :
    Except Refusal MergePreview := do
  let target ← orRefuse (σ.getSubnet targetId) .subnetNotFound
  let siblings ← loadSources σ [targetId] siblingSubnetIds
  return previewSubnetMerge σ ((targetId, target) :: siblings)

structure MergedBack (σ σ₂ : Store) (subnetId mergedId : Nat) (subnet : Subnet)
    (children : List Net) : Prop where
  merged : σ₂.getSubnet mergedId = some (splitChild subnet subnet.network)
  others : ∀ k, k ≠ mergedId →
    σ₂.subnets.get? k = if k = subnetId then none else σ.subnets.get? k
  rows : planRows σ₂ mergedId = planRows σ subnetId
  network : ((subnetRows σ₂ mergedId).filter fun a =>
    a.address = subnet.network.nth 0).length = 1
  broadcast : subnet.network.version = .v4 → ((subnetRows σ₂ mergedId).filter fun a =>
    a.address = subnet.network.nth (subnet.network.numAddresses - 1)).length = 1
  retired : ∀ a ∈ subnetRows σ₂ mergedId, isDefaultPlaceholder a = true → ∀ c ∈ children,
    a.address ∈ boundaryAddresses c .unicast →
    a.address ∈ boundaryAddresses subnet.network .unicast

theorem length_filter_eq_one {rows : List IPAddress} (hunique : (rows.map rowKey).Nodup)
    (h : ∃ a ∈ rows, a.subnetId = subnetId ∧ a.address = x) :
    ((rows.filter fun a => a.subnetId == subnetId).filter fun a => a.address = x).length = 1 := by
  obtain ⟨a, ha, hsub, hx⟩ := h
  rw [List.length_eq_one_iff]
  refine ⟨a, ?_⟩
  have hnodup := ((hunique.of_map rowKey).filter fun a => a.subnetId == subnetId).filter
    fun a => decide (a.address = x)
  refine List.perm_singleton.mp ((List.perm_ext_iff_of_nodup hnodup
    (List.nodup_singleton a)).mpr fun b => ?_)
  simp only [List.mem_filter, beq_iff_eq, decide_eq_true_eq, List.mem_singleton]
  constructor
  · rintro ⟨⟨hb, hbsub⟩, hbx⟩
    exact List.inj_on_of_nodup_map hunique hb ha
      (Prod.ext (hbsub.trans hsub.symm) (hbx.trans hx.symm))
  · rintro rfl
    exact ⟨⟨ha, hsub⟩, hx⟩

section RoundTrip

variable {σ σ₁ : Store} {subnetId : Nat} {subnet : Subnet} {children : List Net}
  {srcIds : List Nat} {p : Nat}

def mergeAll (σ σ₁ : Store) (subnetId : Nat) (subnet : Subnet) (children : List Net)
    (srcIds : List Nat) : Store :=
  let mergedId := σ.subnets.next + children.length
  deleteSubnets (ensureBoundaryRows { σ₁ with
    subnets := σ₁.subnets.insert (splitChild subnet subnet.network)
    addresses := (σ₁.addresses.keep fun _ a => !retiredByMerge
      (childSources σ.subnets.next subnet children srcIds) [] a).modify fun _ a =>
        toMerged srcIds mergedId a
    scopes := σ₁.scopes.modify fun i sc =>
      if (if (subnetScopes σ subnetId).length = 1 then (subnetScopes σ subnetId).head? else none) =
        some i then { sc with subnetId := mergedId } else sc } mergedId subnet.network subnet.kind)
    srcIds

theorem mergeAll_mergedBack (hsrc : Sources σ.subnets.next children srcIds)
    (hstate : SplitState σ σ₁ subnetId subnet children)
    (htiles : Net.Tiles subnet.network children) (hkind : subnet.kind = .unicast)
    (hrows : hasBoundaryRows subnet.network .unicast = true) :
    MergedBack σ (mergeAll σ σ₁ subnetId subnet children srcIds) subnetId
      (σ.subnets.next + children.length) subnet children := by
  have hnext := hstate.next
  have hfresh : σ.subnets.next + children.length ∉ srcIds := fun hmem => by
    have := (hsrc.mem_iff.mp hmem).2
    omega
  have hsubnets : ∀ k, (mergeAll σ σ₁ subnetId subnet children srcIds).subnets.get? k =
      if k ∈ srcIds then none
      else (σ₁.subnets.insert (splitChild subnet subnet.network)).get? k :=
    deleteSubnets_subnets (ensureBoundaryRows _ _ _ _) srcIds
  -- The rows: what was kept, and the boundary rows that were missing.
  obtain ⟨σ₂, hσ₂, hkept⟩ : ∃ σ₂, (mergeAll σ σ₁ subnetId subnet children srcIds) =
      deleteSubnets (ensureBoundaryRows σ₂ (σ.subnets.next + children.length) subnet.network
        subnet.kind) srcIds ∧ σ₂.addresses.values =
        mergedRows σ.subnets.next subnet children srcIds σ₁.addresses.values := by
    refine ⟨_, rfl, ?_⟩
    rw [mergedRows, ← Table.values_keep, ← Table.values_modify]
  have hunique := ensureBoundaryRows_unique (σ.subnets.next + children.length) subnet.network
    subnet.kind (hkept ▸ mergedRows_unique hsrc htiles hstate.placed hstate.unique)
  have hvalues : (mergeAll σ σ₁ subnetId subnet children srcIds).addresses.values =
      (ensureBoundaryRows σ₂ (σ.subnets.next + children.length) subnet.network
        subnet.kind).addresses.values := by
    rw [hσ₂, deleteSubnets_addresses, List.filter_eq_self]
    intro a ha
    rw [ensureBoundaryRows_values, hkept] at ha
    rcases List.mem_append.mp ha with ha | ha
    · simpa using mergedRows_not_mem hsrc a ha
    · rw [(mem_missingBoundaryRows ha).1]
      simpa using hfresh
  have hboundary : ∀ x ∈ boundaryAddresses subnet.network .unicast,
      ((subnetRows (mergeAll σ σ₁ subnetId subnet children srcIds)
        (σ.subnets.next + children.length)).filter fun a => a.address = x).length = 1 := by
    intro x hx
    rw [subnetRows_eq, hvalues]
    exact length_filter_eq_one hunique (exists_row_ensureBoundaryRows _ _ (hkind.symm ▸ hx))
  refine ⟨?_, fun k hk => ?_, ?_, ?_, fun hv => ?_, fun a ha hdefault c hc hx => ?_⟩
  · refine Store.getSubnet_eq_some.mpr ⟨?_, rfl⟩
    rw [hsubnets, if_neg hfresh, ← hnext, Table.get?_insert_next]
  · rw [hsubnets, Table.get?_insert, hnext, if_neg hk, hstate.subnets, Table.get?_keep]
    refine Option.ext fun s => ?_
    by_cases hmem : k ∈ srcIds
    · have hle := (hsrc.mem_iff.mp hmem).1
      have hnew : ∀ s, σ.subnets.get? k ≠ some s := fun s hs => by
        have := Table.lt_next hs
        omega
      simp [hmem, hnew]
    · have hold : ∀ i, k = σ.subnets.next + i → children.length ≤ i := fun i hi => by
        by_contra hlt'
        exact hmem (hsrc.mem_iff.mpr ⟨by omega, by omega⟩)
      have hnew : ¬ ∃ i, k = σ.subnets.next + i ∧
          (children.map (splitChild subnet))[i]? = some s := by
        rintro ⟨i, hi, hs⟩
        have hlt' := (List.getElem?_eq_some_iff.mp hs).1
        rw [List.length_map] at hlt'
        have := hold i hi
        omega
      rw [if_neg hmem, Option.filter_eq_some_iff, Table.get?_insertAll_iff, or_iff_left hnew]
      by_cases hid : k = subnetId <;> simp [hid]
  · rw [planRows, subnetRows_eq, hvalues, ensureBoundaryRows_values, hkept, List.filter_append,
      List.filter_append, ← hstate.rows, ← mergedRows_plan hsrc hstate.placed]
    have hnone : ((missingBoundaryRows σ₂ (σ.subnets.next + children.length) subnet.network
        subnet.kind).filter fun a => a.subnetId == σ.subnets.next + children.length).filter
          (fun a => !isDefaultPlaceholder a) = [] := by
      rw [List.filter_eq_nil_iff]
      intro a ha
      simp [(mem_missingBoundaryRows (List.mem_of_mem_filter ha)).2.2.1]
    rw [hnone, List.append_nil]
  · exact hboundary _ (mem_boundaryAddresses.mpr ⟨hrows, Or.inl rfl⟩)
  · exact hboundary _ (mem_boundaryAddresses.mpr ⟨hrows, Or.inr ⟨hv, rfl⟩⟩)
  · rw [subnetRows_eq, hvalues, ensureBoundaryRows_values, hkept, List.mem_filter,
      beq_iff_eq] at ha
    rcases List.mem_append.mp ha.1 with hmem | hmem
    · exact absurd hx (mergedRows_retired hsrc hstate.placed hmem ha.2 hdefault hc)
    · exact hkind ▸ (mem_missingBoundaryRows hmem).2.1

/-- A split that committed is undone by the merge of its children, unless they
have more than one DHCP scope between them, which is the one reason the merge
gives. -/
theorem commitSubnetMerge_of_commitSubnetSplit {σ σ₁ : Store} (hσ : RowConstraints σ)
    {request : SubnetSplit} {ids : List Nat}
    (hsplit : commitSubnetSplit σ request = .ok (ids, σ₁)) {subnet : Subnet}
    (hsubnet : σ.getSubnet request.subnetId = some subnet) (hkind : subnet.kind = .unicast)
    (hin : ∀ a ∈ subnetRows σ request.subnetId, subnet.network.contains a.address)
    {targetId : Nat} {siblingSubnetIds : List Nat}
    (hall : ∀ i, i ∈ targetId :: siblingSubnetIds ↔ i ∈ ids) :
    (∃ preview, previewMerge σ₁ targetId siblingSubnetIds = .ok preview ∧
      preview.mergedCidr = some subnet.network ∧
      preview.conflicts = if (subnetScopes σ request.subnetId).length ≤ 1 then []
        else [.multipleDhcpScopes]) ∧
    ((subnetScopes σ request.subnetId).length ≤ 1 → ∃ mergedId σ₂,
      commitSubnetMerge σ₁ { targetId, siblingSubnetIds, confirmCidr := subnet.network } =
        .ok (mergedId, σ₂) ∧
      MergedBack σ σ₂ request.subnetId mergedId subnet
        (subnet.network.subnets request.newPrefixLength)) := by
  obtain ⟨htiles, hpmax, hplen, rfl, hstate⟩ := commitSubnetSplit_state hσ hsplit hsubnet hin
  set children := subnet.network.subnets request.newPrefixLength
  have hlt := Table.lt_next (Store.getSubnet_eq_some.mp hsubnet).1
  have hrow : ∀ i ∈ targetId :: siblingSubnetIds, σ₁.getSubnet i =
      some (childRow σ.subnets.next subnet children i) := by
    intro i hi
    obtain ⟨k, hk, rfl⟩ := List.mem_map.mp ((hall i).mp hi)
    exact hstate.getSubnet hlt (by omega) (by simpa using List.mem_range.mp hk)
  obtain ⟨siblings, hload, hnodup, hmem⟩ := loadSources_total siblingSubnetIds [targetId]
    fun i hi => hrow i (List.mem_cons_of_mem _ hi)
  have hsrc : Sources σ.subnets.next children (targetId :: siblings) := by
    refine ⟨(List.perm_ext_iff_of_nodup ?_ ?_).mpr fun i => ?_⟩
    · exact List.nodup_cons.mpr ⟨fun h => ((hmem targetId).mp h).2 (by simp), hnodup⟩
    · exact List.nodup_range.map fun a b he => by simpa using he
    · rw [← hall, List.mem_cons, List.mem_cons, hmem, List.mem_singleton]
      tauto
  have hpreview := hsrc.preview hstate hkind rfl hplen hpmax
  have hload' : loadSources σ₁ [targetId] siblingSubnetIds =
      .ok (childSources σ.subnets.next subnet children siblings) := hload
  have hcons : (targetId, childRow σ.subnets.next subnet children targetId) ::
      childSources σ.subnets.next subnet children siblings =
        childSources σ.subnets.next subnet children (targetId :: siblings) := rfl
  constructor
  · refine ⟨_, ?_, congrArg MergePreview.mergedCidr hpreview,
      congrArg MergePreview.conflicts hpreview⟩
    simp only [previewMerge, hrow targetId (by simp), orRefuse, hload']
    rfl
  · intro hscopes
    rw [if_pos hscopes] at hpreview
    have hrows := hasBoundaryRows_of_lt (hplen.trans hpmax)
    refine ⟨_, _, ?_, mergeAll_mergedBack hsrc hstate htiles hkind hrows⟩
    have hnext := hstate.next
    simp only [commitSubnetMerge, bind_eq_ok, require_eq_ok, orRefuse_eq_ok, exists_const,
      pure_eq_ok, Prod.mk.injEq]
    refine ⟨trivial, _, hrow targetId (by simp), _, hload', ?_, subnet.network, ?_, rfl, hnext, ?_⟩
    · rw [hcons, hpreview]
    · rw [hcons, hpreview]
    · rw [hcons, hpreview, map_fst_childSources, hnext, hsrc.gatewayPlan htiles]
      rfl

end RoundTrip

def splitSubnet : Subnet :=
  let net := Net.ofValue .v4 (10 * 2 ^ 24) 24
  { spaceId := 0, blockId := 0, network := net, gateway := some (net.nth 1) }

/-- The subnet 10.0.0.0/24 with its network row, its gateway, one host and the
given scopes. -/
def splitStore (scopes : List DHCPScope) : Store :=
  let net := splitSubnet.network
  { Store.empty with
    subnets := Table.empty.insert splitSubnet
    addresses := Table.empty.insertAll
      [{ subnetId := 0, address := net.nth 0, status := .network, description := "Network address" },
       { subnetId := 0, address := net.nth 1, status := .reserved, description := "Gateway",
         hostname := some "gateway" },
       { subnetId := 0, address := net.nth 200, status := .allocated, hostname := some "db" }]
    scopes := Table.empty.insertAll scopes }

def splitRequest : SubnetSplit :=
  { subnetId := 0, newPrefixLength := 25, confirmCidr := splitSubnet.network }

theorem commitSubnetMerge_splitStore : ∃ σ₁,
    commitSubnetSplit (splitStore [{ groupId := 0, subnetId := 0 }]) splitRequest =
      .ok ([1, 2], σ₁) ∧
    ∃ mergedId σ₂, commitSubnetMerge σ₁ { targetId := 2, siblingSubnetIds := [1],
                                          confirmCidr := splitSubnet.network } =
        .ok (mergedId, σ₂) ∧
      planRows σ₂ mergedId = planRows (splitStore [{ groupId := 0, subnetId := 0 }]) 0 := by
  have hend : ((commitSubnetSplit (splitStore [{ groupId := 0, subnetId := 0 }])
      splitRequest).toOption.any fun r => r.1 == [1, 2]) = true := by decide +kernel
  simp only [Option.any_eq_true, beq_iff_eq, toOption_eq_some] at hend
  obtain ⟨⟨ids, σ₁⟩, hsplit, rfl⟩ := hend
  have hall : ∀ i, i ∈ [2, 1] ↔ i ∈ [1, 2] := fun i => (List.Perm.swap 1 2 []).mem_iff
  obtain ⟨-, hmerge⟩ := commitSubnetMerge_of_commitSubnetSplit (by decide +kernel) hsplit
    (rfl : (splitStore [{ groupId := 0, subnetId := 0 }]).getSubnet 0 = some splitSubnet) rfl
    (by decide +kernel) hall
  obtain ⟨mergedId, σ₂, hok, hback⟩ := hmerge (by decide +kernel)
  exact ⟨σ₁, hsplit, mergedId, σ₂, hok, hback.rows⟩

/-- Two empty scopes of two server groups follow the first child, and stop the
merge. -/
theorem not_commitSubnetMerge_twoScopes : ∃ σ σ₁, RowConstraints σ ∧
    σ.getSubnet 0 = some splitSubnet ∧ splitSubnet.kind = .unicast ∧
    (∀ a ∈ subnetRows σ 0, splitSubnet.network.contains a.address) ∧
    commitSubnetSplit σ splitRequest = .ok ([1, 2], σ₁) ∧
    ¬ ∃ merged, commitSubnetMerge σ₁ { targetId := 1, siblingSubnetIds := [2],
                                       confirmCidr := splitSubnet.network } = .ok merged := by
  have hend : ((commitSubnetSplit (splitStore [{ groupId := 0, subnetId := 0 },
      { groupId := 1, subnetId := 0 }]) splitRequest).toOption.any fun r =>
        r.1 == [1, 2] && (commitSubnetMerge r.2 { targetId := 1, siblingSubnetIds := [2],
                                                  confirmCidr := splitSubnet.network }).toOption.isNone) =
      true := by decide +kernel
  simp only [Option.any_eq_true, Bool.and_eq_true, beq_iff_eq, Option.isNone_iff_eq_none,
    toOption_eq_some] at hend
  obtain ⟨⟨ids, σ₁⟩, hsplit, rfl, hmerge⟩ := hend
  refine ⟨_, σ₁, by decide +kernel, rfl, rfl, by decide +kernel, hsplit, ?_⟩
  rintro ⟨merged, hok⟩
  simp [toOption_eq_some.mpr hok] at hmerge

end SpatiumDdi.Ipam
