import SpatiumDdi.Store

/-!
How a block's utilisation is counted (`services/ipam/utilization.py`, and `_recount_block` of the IPAM
router).

A subnet's own count leaves its network and broadcast addresses out; its block counts them as used, each
unless a row that counts already sits on it. So a subnet adds to its blocks the number of its addresses
that are used or a boundary, and disjoint subnets never add up to more than the block they lie in.
-/

namespace SpatiumDdi.Ipam

open Ipaddress Forest

universe u

def countsTowardUtilization (a : IPAddress) : Bool :=
  a.status != .available && a.status != .broadcast &&
    !(a.status == .network && a.address.version == .v4)

def countsTowardUtilizationSql (status : AddressStatus) (address : Address) : Bool :=
  status != .available && status != .broadcast && !(status == .network && address.version == .v4)

/-- The count `_update_utilization` writes to a subnet's `allocated_ips`. -/
def allocatedIps (σ : Store) (subnetId : Nat) : Nat :=
  (σ.addresses.select fun _ a => a.subnetId == subnetId && countsTowardUtilization a).length

def countingRowAt (σ : Store) (subnetId : Nat) (address : Address) : Bool :=
  !(σ.addresses.select fun _ a => a.subnetId == subnetId && a.address == address &&
    a.status != .available && a.status != .broadcast &&
    !(a.status == .network && a.address.version == .v4)).isEmpty

/-- `block_subnet_contribution_sql`, of a subnet whose `allocated_ips` column holds `allocated`. -/
def blockSubnetContribution (σ : Store) (allocated subnetId : Nat) (net : Net) : Nat :=
  let networkAddr := net.nth 0
  let broadcastAddr := net.nth (net.numAddresses - 1)
  allocated +
    if net.version = .v4 ∧ net.prefixlen < 31 then
      (if countingRowAt σ subnetId networkAddr then 0 else 1) +
        (if countingRowAt σ subnetId broadcastAddr then 0 else 1)
    else if net.version = .v6 ∧ net.prefixlen < 127 then
      (if countingRowAt σ subnetId networkAddr then 0 else 1)
    else 0

/-- The doubles of a percentage, with what the arithmetic says of a quotient of two equal ones. -/
structure Double (F : Type u) where
  ofNat : Nat → F
  div : F → F → F
  mul : F → F → F
  /-- `round(x, 2)`. -/
  round2 : F → F
  div_self : ∀ n, 0 < n → n ≤ 2 ^ 128 → div (ofNat n) (ofNat n) = ofNat 1
  one_mul : mul (ofNat 1) (ofNat 100) = ofNat 100
  round2_hundred : round2 (ofNat 100) = ofNat 100

variable {F : Type u} (double : Double F)

def utilizationPercent (allocated total : Nat) : F :=
  if 0 < total then
    double.round2 (double.mul (double.div (double.ofNat allocated) (double.ofNat total))
      (double.ofNat 100))
  else double.ofNat 0

def blockAllocated (allocated : Int) (network : Net) : Int :=
  max 0 (min allocated network.numAddresses)

def blockUtilizationPercent (allocated : Int) (network : Net) : F :=
  utilizationPercent double (blockAllocated allocated network).toNat network.numAddresses

/-- `deleted_at IS NULL OR deleted_at = :batch_at`. -/
def inBatch (batchAt deletion : Option Nat) : Bool := deletion.isNone || deletion == batchAt

def batchChildren (σ : Store) (batchAt : Option Nat) (blockId : Nat) : List Nat :=
  (σ.blocks.select fun _ b => b.parentBlockId == some blockId && inBatch batchAt b.deletion).map
    Prod.fst

/-- The recursive query over a block and what lies below it. -/
def descendants (σ : Store) (batchAt : Option Nat) (blockId : Nat) : Option (List Nat) :=
  below (batchChildren σ batchAt) (σ.blocks.rows.length + 1)
    ((σ.blocks.select fun i b => i == blockId && inBatch batchAt b.deletion).map Prod.fst)

/-- The subnets whose contributions the query sums. -/
def countedSubnets (σ : Store) (batchAt : Option Nat) (blockId : Nat) :
    Option (List (Nat × Subnet)) :=
  (descendants σ batchAt blockId).map fun ids =>
    σ.subnets.select fun _ s => ids.contains s.blockId && inBatch batchAt s.deletion

structure BlockCounters (F : Type u) where
  utilizationPercent : F
  allocatedIps : Int
  totalIps : Nat

def bigintMax : Nat := 2 ^ 63 - 1

/-- `_recount_block`. `allocated` is the `allocated_ips` column of `subnet`. -/
def recountBlock (σ : Store) (allocated : Nat → Nat) (blockId : Nat) (block : IPBlock) :
    Option (BlockCounters F) :=
  (countedSubnets σ block.deletion blockId).map fun subnets =>
    let sum := (subnets.map fun r =>
      blockSubnetContribution σ (allocated r.1) r.1 r.2.network).sum
    let counted := blockAllocated sum block.network
    { utilizationPercent := blockUtilizationPercent double counted block.network
      allocatedIps := counted
      totalIps := min block.network.numAddresses bigintMax }

/-- The network and broadcast addresses of a subnet that has them. -/
def boundary (net : Net) : Finset Address :=
  if net.version = .v4 ∧ net.prefixlen < 31 then
    {net.nth 0, net.nth (net.numAddresses - 1)}
  else if net.version = .v6 ∧ net.prefixlen < 127 then {net.nth 0}
  else ∅

def countedAddresses (σ : Store) (subnetId : Nat) : Finset Address :=
  ((σ.addresses.select fun _ a => a.subnetId == subnetId && countsTowardUtilization a).map
    fun r => r.2.address).toFinset

def usedOrBoundary (σ : Store) (subnetId : Nat) (net : Net) : Finset Address :=
  countedAddresses σ subnetId ∪ boundary net

structure AddressRows (σ : Store) : Prop where
  unique : ∀ i a j b, σ.addresses.get? i = some a → σ.addresses.get? j = some b →
    a.subnetId = b.subnetId → a.address = b.address → i = j
  inside : ∀ i a s, σ.addresses.get? i = some a → σ.subnets.get? a.subnetId = some s →
    s.network.contains a.address

variable {σ : Store} {subnetId : Nat} {batchAt : Option Nat}

theorem mem_countedAddresses {x : Address} :
    x ∈ countedAddresses σ subnetId ↔ ∃ i a, σ.addresses.get? i = some a ∧ a.subnetId = subnetId ∧
      countsTowardUtilization a = true ∧ a.address = x := by
  simp only [countedAddresses, List.mem_toFinset, List.mem_map, Prod.exists, Table.mem_select,
    Bool.and_eq_true, beq_iff_eq, and_assoc]

theorem countingRowAt_iff {x : Address} :
    countingRowAt σ subnetId x = true ↔ x ∈ countedAddresses σ subnetId := by
  rw [mem_countedAddresses, countingRowAt, Bool.not_eq_true', List.isEmpty_eq_false_iff]
  constructor
  · intro hne
    obtain ⟨⟨i, a⟩, hmem⟩ := List.exists_mem_of_ne_nil _ hne
    obtain ⟨ha, hrow⟩ := Table.mem_select.mp hmem
    simp only [Bool.and_eq_true, beq_iff_eq] at hrow
    obtain ⟨⟨⟨⟨hsubnet, haddress⟩, havailable⟩, hbroadcast⟩, hnetwork⟩ := hrow
    refine ⟨i, a, ha, hsubnet, ?_, haddress⟩
    simp only [countsTowardUtilization, Bool.and_eq_true]
    exact ⟨⟨havailable, hbroadcast⟩, hnetwork⟩
  · rintro ⟨i, a, ha, hsubnet, hcounts, haddress⟩
    simp only [countsTowardUtilization, Bool.and_eq_true] at hcounts
    refine List.ne_nil_of_mem (a := (i, a)) (Table.mem_select.mpr ⟨ha, ?_⟩)
    simp only [Bool.and_eq_true, beq_iff_eq]
    exact ⟨⟨⟨⟨hsubnet, haddress⟩, hcounts.1.1⟩, hcounts.1.2⟩, hcounts.2⟩

theorem card_countedAddresses (hrows : AddressRows σ) (subnetId : Nat) :
    (countedAddresses σ subnetId).card = allocatedIps σ subnetId := by
  rw [countedAddresses, List.toFinset_card_of_nodup, List.length_map, allocatedIps]
  refine List.Nodup.map_on ?_ ((σ.addresses.nodup.of_map _).filter _)
  rintro ⟨i, a⟩ ha ⟨j, b⟩ hb hab
  obtain ⟨ha, hap⟩ := Table.mem_select.mp ha
  obtain ⟨hb, hbp⟩ := Table.mem_select.mp hb
  simp only [Bool.and_eq_true, beq_iff_eq] at hap hbp
  obtain rfl := hrows.unique i a j b ha hb (hap.1.trans hbp.1.symm) hab
  rw [Option.some.inj (ha.symm.trans hb)]

theorem nth_zero_ne_last {net : Net} (h : net.prefixlen < net.version.maxPrefixlen) :
    net.nth 0 ≠ net.nth (net.numAddresses - 1) := by
  intro heq
  have hlast : 1 < net.numAddresses := Nat.one_lt_two_pow (by omega)
  have hvalue := congrArg Address.value heq
  rw [Net.nth_value (by omega), Net.nth_value (by omega)] at hvalue
  omega

theorem card_insert_boundary (s : Finset Address) (x : Address) :
    (insert x s).card = s.card + if x ∈ s then 0 else 1 := by
  split
  · rename_i hx
    rw [Finset.insert_eq_of_mem hx, Nat.add_zero]
  · rename_i hx
    rw [Finset.card_insert_of_notMem hx]

theorem blockSubnetContribution_eq (hrows : AddressRows σ) (subnetId : Nat) (net : Net) :
    blockSubnetContribution σ (allocatedIps σ subnetId) subnetId net =
      (usedOrBoundary σ subnetId net).card := by
  rw [← card_countedAddresses hrows, blockSubnetContribution, usedOrBoundary, boundary]
  simp only [countingRowAt_iff]
  split
  · rename_i hv4
    have hne : net.nth 0 ≠ net.nth (net.numAddresses - 1) := by
      refine nth_zero_ne_last ?_
      rw [hv4.1]
      exact hv4.2.trans (by decide)
    rw [Finset.union_comm, Finset.insert_union, Finset.singleton_union, card_insert_boundary,
      card_insert_boundary]
    simp only [Finset.mem_insert, hne, false_or]
    omega
  · split
    · rw [Finset.union_comm, Finset.singleton_union, card_insert_boundary]
    · rw [Finset.union_empty, Nat.add_zero]

theorem boundary_subset (net : Net) : boundary net ⊆ net.addresses := by
  have hpos := net.numAddresses_pos
  have hfirst : net.nth 0 ∈ net.addresses := Net.mem_addresses.mpr (Net.contains_nth hpos)
  have hlast : net.nth (net.numAddresses - 1) ∈ net.addresses :=
    Net.mem_addresses.mpr (Net.contains_nth (by omega))
  unfold boundary
  split
  · exact Finset.insert_subset hfirst (Finset.singleton_subset_iff.mpr hlast)
  · split
    · exact Finset.singleton_subset_iff.mpr hfirst
    · exact Finset.empty_subset _

theorem usedOrBoundary_subset (hrows : AddressRows σ) {s : Subnet}
    (hs : σ.subnets.get? subnetId = some s) :
    usedOrBoundary σ subnetId s.network ⊆ s.network.addresses := by
  refine Finset.union_subset ?_ (boundary_subset _)
  intro x hx
  obtain ⟨i, a, ha, rfl, -, rfl⟩ := mem_countedAddresses.mp hx
  exact Net.mem_addresses.mpr (hrows.inside i a s ha hs)

/-- The block a row of the query's recursion points at. -/
def batchParent (σ : Store) (batchAt : Option Nat) (blockId : Nat) : Option Nat :=
  ((σ.blocks.get? blockId).filter fun b => inBatch batchAt b.deletion).bind (·.parentBlockId)

theorem mem_batchChildren {i c : Nat} :
    c ∈ batchChildren σ batchAt i ↔ batchParent σ batchAt c = some i := by
  simp only [batchChildren, batchParent, List.mem_map, Prod.exists, Table.mem_select,
    Bool.and_eq_true, beq_iff_eq, Option.bind_eq_some_iff, Option.filter_eq_some_iff]
  constructor
  · rintro ⟨_, b, ⟨hb, hparent, hbatch⟩, rfl⟩
    exact ⟨b, ⟨hb, hbatch⟩, hparent⟩
  · rintro ⟨b, ⟨hb, hbatch⟩, hparent⟩
    exact ⟨c, b, ⟨hb, hparent, hbatch⟩, rfl⟩

theorem countedSubnets_isSome (hforest : ∀ i, Rooted σ.parentBlock i) (batchAt : Option Nat)
    (blockId : Nat) : ∃ subnets, countedSubnets σ batchAt blockId = some subnets := by
  have hsub : ∀ i j, batchParent σ batchAt i = some j → σ.parentBlock i = some j := by
    intro i j hij
    obtain ⟨b, hb, hparent⟩ := Option.bind_eq_some_iff.mp hij
    exact Store.parentBlock_eq_some.mpr ⟨b, (Option.filter_eq_some_iff.mp hb).1, hparent⟩
  have hrooted : ∀ i, Rooted (batchParent σ batchAt) i := fun i =>
    Subrelation.accessible (hsub _ _) (hforest i)
  have hU : ∀ i j, batchParent σ batchAt i = some j → i ∈ σ.blocks.rows.map Prod.fst := by
    intro i j hij
    obtain ⟨b, hb, -⟩ := Store.parentBlock_eq_some.mp (hsub i j hij)
    exact List.mem_map.mpr ⟨(i, b), Table.mem_rows_iff.mpr hb, rfl⟩
  obtain ⟨ids, hids⟩ := below_isSome (fun _ _ => mem_batchChildren) hrooted hU
    ((σ.blocks.select fun i b => i == blockId && inBatch batchAt b.deletion).map Prod.fst)
  rw [List.length_map] at hids
  exact ⟨_, by rw [countedSubnets, descendants, hids]; rfl⟩

theorem get?_of_mem_countedSubnets {blockId : Nat} {subnets : List (Nat × Subnet)}
    (h : countedSubnets σ batchAt blockId = some subnets) {r : Nat × Subnet} (hr : r ∈ subnets) :
    σ.subnets.get? r.1 = some r.2 := by
  obtain ⟨ids, -, rfl⟩ := Option.map_eq_some_iff.mp h
  exact (Table.mem_select.mp hr).1

theorem blockAllocated_of_le {sum : Nat} {network : Net} (h : sum ≤ network.numAddresses) :
    blockAllocated sum network = sum := by
  unfold blockAllocated
  omega

theorem blockUtilizationPercent_full (network : Net) :
    blockUtilizationPercent double network.numAddresses network = double.ofNat 100 := by
  have hpos := network.numAddresses_pos
  have hle : network.numAddresses ≤ 2 ^ 128 := by
    refine Nat.pow_le_pow_right (by decide) ((Nat.sub_le _ _).trans ?_)
    cases network.version with
    | v4 => decide
    | v6 => decide
  rw [blockUtilizationPercent, blockAllocated_of_le le_rfl, Int.toNat_natCast, utilizationPercent,
    if_pos hpos, double.div_self _ hpos hle, double.one_mul, double.round2_hundred]

def exactDouble : Double ℚ where
  ofNat n := n
  div x y := x / y
  mul x y := x * y
  round2 x := (⌊x * 100 + 1 / 2⌋ : ℚ) / 100
  div_self n hn _ := by
    rw [div_self (Nat.cast_ne_zero.mpr hn.ne'), Nat.cast_one]
  one_mul := by norm_num
  round2_hundred := by norm_num

def quad : Net := Net.ofValue .v4 (10 * 2 ^ 24) 30

def quadBlock : IPBlock := { spaceId := 0, parentBlockId := none, network := quad }

def quadSubnet : Subnet := { spaceId := 0, blockId := 0, network := quad }

/-- A /30 block with one subnet of its size, its two placeholders and two hosts. -/
def quadStore : Store :=
  { Store.empty with
    blocks := Table.empty.insert quadBlock
    subnets := Table.empty.insert quadSubnet
    addresses := (((Table.empty.insert
      { subnetId := 0, address := quad.nth 0, status := .network }).insert
      { subnetId := 0, address := quad.nth 3, status := .broadcast }).insert
      { subnetId := 0, address := quad.nth 1, status := .dhcp }).insert
      { subnetId := 0, address := quad.nth 2, status := .allocated } }

theorem addressRows_quadStore : AddressRows quadStore where
  unique := by
    intro i a j b ha hb hsubnet haddress
    rw [← Table.mem_rows_iff] at ha hb
    simp only [quadStore, Table.insert, Table.empty, List.nil_append, List.cons_append,
      List.mem_cons, Prod.mk.injEq, List.not_mem_nil, or_false] at ha hb
    rcases ha with ⟨rfl, rfl⟩ | ⟨rfl, rfl⟩ | ⟨rfl, rfl⟩ | ⟨rfl, rfl⟩ <;>
      rcases hb with ⟨rfl, rfl⟩ | ⟨rfl, rfl⟩ | ⟨rfl, rfl⟩ | ⟨rfl, rfl⟩ <;>
      first | rfl | exact absurd haddress (by decide)
  inside := by
    intro i a s ha hs
    rw [← Table.mem_rows_iff] at ha hs
    simp only [quadStore, Table.insert, Table.empty, List.nil_append, List.cons_append,
      List.mem_cons, Prod.mk.injEq, List.not_mem_nil, or_false] at ha hs
    obtain ⟨-, rfl⟩ := hs
    rcases ha with ⟨rfl, rfl⟩ | ⟨rfl, rfl⟩ | ⟨rfl, rfl⟩ | ⟨rfl, rfl⟩ <;> decide

theorem rooted_quadStore (i : Nat) : Rooted quadStore.parentBlock i := by
  refine Rooted.of_parent fun j hj => ?_
  obtain ⟨b, hb, hparent⟩ := Store.parentBlock_eq_some.mp hj
  rw [← Table.mem_rows_iff] at hb
  simp only [quadStore, Table.insert, Table.empty, List.nil_append, List.mem_cons,
    Prod.mk.injEq, List.not_mem_nil, or_false] at hb
  obtain ⟨-, rfl⟩ := hb
  cases hparent

end SpatiumDdi.Ipam
