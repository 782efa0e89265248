import SpatiumDdi.Lib.Packing

/-!
The allocation planner: a list of sized requests is packed into what the direct children of a block
leave free, the largest first and each at the lowest address that holds it. The free list and the
allocations together always make up what the children leave of the block, and a request is refused
only if no placement of all of them exists.
-/

namespace SpatiumDdi.Ipam

open Ipaddress

structure PlanRequestItem where
  count : Nat
  prefixLen : Nat
deriving DecidableEq

structure FreeCidrRange where
  network : Net
  first : Nat
  last : Nat
  size : Nat
  sizeExact : Nat
  prefixLen : Nat
deriving DecidableEq

/-- A planned network is returned with the same fields as a free range. -/
abbrev PlannedSubnet := FreeCidrRange

structure UnfulfilledItem where
  prefixLen : Nat
  requested : Nat
  allocated : Nat
deriving DecidableEq

structure PlanAllocationResponse where
  blockNetwork : Net
  blockPrefixLen : Nat
  allocations : List PlannedSubnet
  unfulfilled : List UnfulfilledItem
  remainingFree : List FreeCidrRange

def int64Count (n : Nat) : Nat := min n (2 ^ 63 - 1)

def cidrRange (n : Net) : FreeCidrRange where
  network := n
  first := n.networkAddress
  last := n.broadcastAddress
  size := int64Count n.numAddresses
  sizeExact := n.numAddresses
  prefixLen := n.prefixlen

def familyNumber : Version → Nat
  | .v4 => 4
  | .v6 => 6

def checkPlanItem (block : Net) (item : PlanRequestItem) : Except String Unit :=
  let familyMax := block.version.maxPrefixlen
  let version := familyNumber block.version
  if familyMax < item.prefixLen then
    .error s!"prefix_len {item.prefixLen} exceeds max {familyMax} for IPv{version}"
  else if item.prefixLen ≤ block.prefixlen then
    .error s!"prefix_len {item.prefixLen} must be greater than block prefix length {block.prefixlen}"
  else .ok ()

/-- Shortest prefix first, then by the place of the item in the request. -/
def requestOrder (r r' : Nat × Nat) : Prop := r.2 < r'.2 ∨ r.2 = r'.2 ∧ r.1 ≤ r'.1

instance : DecidableRel requestOrder := fun _ _ => inferInstanceAs (Decidable (_ ∨ _))

/-- One entry for each network of an item, with the item's index. -/
def itemRequests (item : PlanRequestItem × Nat) : List (Nat × Nat) :=
  List.replicate item.1.count (item.2, item.1.prefixLen)

def flatRequests (items : List PlanRequestItem) : List (Nat × Nat) :=
  (items.zipIdx.flatMap itemRequests).insertionSort requestOrder

structure Packing where
  working : List Net
  allocated : List (Nat × Net) := []
  fulfilledCounts : Nat → Nat := fun _ => 0

/-- The free networks that are big enough, lowest address first. -/
def candidates (working : List Net) (prefixLen : Nat) : List Net :=
  (working.filter fun n => n.prefixlen ≤ prefixLen).insertionSort
    fun a b => a.networkAddress ≤ b.networkAddress

/-- `next(chosen.subnets(new_prefix=prefix_len))`. -/
def firstSubnet (chosen : Net) (prefixLen : Nat) : Net :=
  Net.ofValue chosen.version chosen.networkAddress prefixLen

def placeRequest (s : Packing) (request : Nat × Nat) : Packing :=
  match candidates s.working request.2 with
  | [] => s
  | chosen :: _ =>
    let carved := firstSubnet chosen request.2
    { working := s.working.erase chosen ++
        if chosen ≠ carved then chosen.addressExclude carved else []
      allocated := s.allocated ++ [(request.1, carved)]
      fulfilledCounts := Function.update s.fulfilledCounts request.1
        (s.fulfilledCounts request.1 + 1) }

/-- The state the packing loop ends in. -/
def packItems (block : Net) (occupied : List Net) (items : List PlanRequestItem) : Packing :=
  (flatRequests items).foldl placeRequest { working := block.excludeAll occupied }

/-- `plan_block_allocation`, for the networks of the block's direct children. -/
def planBlockAllocation (block : Net) (occupied : List Net) (items : List PlanRequestItem) :
    Except String PlanAllocationResponse := do
  items.forM (checkPlanItem block)
  let packed := packItems block occupied items
  let allocated := packed.allocated.insertionSort
    fun a b => a.1 < b.1 ∨ a.1 = b.1 ∧ a.2.prefixlen ≤ b.2.prefixlen
  return {
    blockNetwork := block
    blockPrefixLen := block.prefixlen
    allocations := allocated.map fun a => cidrRange a.2
    unfulfilled := items.zipIdx.filterMap fun item =>
      if packed.fulfilledCounts item.2 < item.1.count then
        some ⟨item.1.prefixLen, item.1.count, packed.fulfilledCounts item.2⟩
      else none
    remainingFree := (packed.working.insertionSort
      fun a b => a.networkAddress ≤ b.networkAddress).map cidrRange }

theorem checkPlanItem_ok {block : Net} {item : PlanRequestItem}
    (hlonger : block.prefixlen < item.prefixLen)
    (hmax : item.prefixLen ≤ block.version.maxPrefixlen) : checkPlanItem block item = .ok () := by
  simp only [checkPlanItem]
  rw [if_neg (by omega), if_neg (by omega)]

theorem head?_subnets (chosen : Net) (prefixLen : Nat) :
    (chosen.subnets prefixLen).head? = some (firstSubnet chosen prefixLen) := by
  obtain ⟨rest, hrest⟩ := Net.subnets_head (n := chosen) (p := prefixLen)
  rw [hrest]
  rfl

section Carving

variable {chosen : Net} {prefixLen : Nat} (hle : chosen.prefixlen ≤ prefixLen)
  (hmax : prefixLen ≤ chosen.version.maxPrefixlen)
include hle hmax

theorem firstSubnet_spec : (firstSubnet chosen prefixLen).subnetOf chosen ∧
    (firstSubnet chosen prefixLen).prefixlen = prefixLen :=
  (Net.mem_subnets hle hmax).mp (List.mem_of_mem_head? (head?_subnets chosen prefixLen))

end Carving

theorem candidates_cons {working rest : List Net} {prefixLen : Nat} {chosen : Net}
    (h : candidates working prefixLen = chosen :: rest) :
    chosen ∈ working ∧ chosen.prefixlen ≤ prefixLen := by
  have hmem : chosen ∈ candidates working prefixLen := by simp [h]
  simpa [candidates] using hmem

theorem candidates_nil {working : List Net} {prefixLen : Nat} :
    candidates working prefixLen = [] ↔ ∀ n ∈ working, prefixLen < n.prefixlen := by
  rw [candidates, ← List.length_eq_zero_iff, List.length_insertionSort, List.length_eq_zero_iff]
  simp

/-- The state after a request has been carved out of a free network. -/
def Packing.place (s : Packing) (idx : Nat) (chosen carved : Net) : Packing where
  working := s.working.erase chosen ++ chosen.addressExclude carved
  allocated := s.allocated ++ [(idx, carved)]
  fulfilledCounts := Function.update s.fulfilledCounts idx (s.fulfilledCounts idx + 1)

theorem placeRequest_cases (s : Packing) (request : Nat × Nat) :
    (placeRequest s request = s ∧ ∀ n ∈ s.working, request.2 < n.prefixlen) ∨
      ∃ chosen ∈ s.working, chosen.prefixlen ≤ request.2 ∧
        placeRequest s request = s.place request.1 chosen (firstSubnet chosen request.2) := by
  unfold placeRequest
  split
  case h_1 heq => exact Or.inl ⟨rfl, candidates_nil.mp heq⟩
  case h_2 chosen rest heq =>
    obtain ⟨hmem, hle⟩ := candidates_cons heq
    refine Or.inr ⟨chosen, hmem, hle, ?_⟩
    have hleft : (if chosen ≠ firstSubnet chosen request.2 then
        chosen.addressExclude (firstSubnet chosen request.2) else []) =
        chosen.addressExclude (firstSubnet chosen request.2) := by
      split
      case isTrue => rfl
      case isFalse heq =>
        rw [not_not] at heq
        rw [← heq, Net.addressExclude, if_pos rfl]
    simp only [hleft, Packing.place]

variable {block : Net} {occupied : List Net} {s : Packing} {request : Nat × Nat}
  {requests : List (Nat × Nat)} {item : PlanRequestItem × Nat} {items : List PlanRequestItem}

/-- The allocations and the free list make up what the children leave of the block. -/
def Packed (block : Net) (occupied : List Net) (s : Packing) : Prop :=
  Net.Parcels block occupied (s.allocated.map Prod.snd ++ s.working)

theorem Packed.placeRequest (h : Packed block occupied s)
    (hmax : request.2 ≤ block.version.maxPrefixlen) :
    Packed block occupied (placeRequest s request) := by
  rcases placeRequest_cases s request with ⟨heq, -⟩ | ⟨chosen, hmem, hle, heq⟩
  · rw [heq]
    exact h
  · have hperm := List.perm_cons_erase hmem
    have hchosen := (h.free chosen (List.mem_append_right _ hmem)).1
    obtain ⟨hsub, -⟩ := firstSubnet_spec hle (hchosen.1 ▸ hmax)
    have hfront : (s.allocated.map Prod.snd ++ s.working).Perm
        (chosen :: (s.allocated.map Prod.snd ++ s.working.erase chosen)) :=
      (hperm.append_left _).trans List.perm_middle
    rw [heq]
    refine ((h.perm hfront).replace (Net.tiles_addressExclude hsub)).perm ?_
    simp only [Packing.place, List.map_append, List.map_cons, List.map_nil, List.append_assoc,
      List.cons_append, List.nil_append]
    refine List.Perm.trans ?_ List.perm_middle.symm
    refine List.Perm.cons _ ?_
    exact List.perm_append_comm.trans (by simp)

theorem Packed.run (h : Packed block occupied s)
    (hmax : ∀ r ∈ requests, r.2 ≤ block.version.maxPrefixlen) :
    Packed block occupied (requests.foldl Ipam.placeRequest s) := by
  induction requests generalizing s with
  | nil => exact h
  | cons r requests ih =>
    exact ih (h.placeRequest (hmax r (by simp))) fun r' hr' => hmax r' (by simp [hr'])

theorem fits_placeRequest {v : Version} (hv : ∀ n ∈ s.working, n.version = v) {ps : List Nat}
    (hmax : request.2 ≤ v.maxPrefixlen) (hps : ∀ q ∈ ps, request.2 ≤ q)
    (h : Net.Fits v s.working (request.2 :: ps)) :
    Net.Fits v (placeRequest s request).working ps ∧
      (∀ n ∈ (placeRequest s request).working, n.version = v) ∧
      (placeRequest s request).fulfilledCounts =
        Function.update s.fulfilledCounts request.1 (s.fulfilledCounts request.1 + 1) := by
  rcases placeRequest_cases s request with ⟨-, hnone⟩ | ⟨chosen, hmem, hle, heq⟩
  · obtain ⟨n, hn, hle⟩ := h.exists_le
    have := hnone n hn
    omega
  · have hchosen := hv chosen hmem
    obtain ⟨hsub, hlen⟩ := firstSubnet_spec hle (hchosen ▸ hmax)
    have hfits : Net.Fits v (chosen :: s.working.erase chosen) (request.2 :: ps) := fun l =>
      Net.room_perm (List.perm_cons_erase hmem) l ▸ h l
    have hnext := hfits.carve hps hsub (hsub.1.trans hchosen) hlen
    rw [heq]
    refine ⟨fun l => ?_, fun n hn => ?_, rfl⟩
    · exact Net.room_perm List.perm_append_comm l ▸ hnext l
    · rcases List.mem_append.mp hn with hn | hn
      · exact hv n (List.mem_of_mem_erase hn)
      · exact ((Net.mem_addressExclude hsub).mp hn).1.1.1.trans hchosen

theorem fulfilledCounts_run {v : Version} (hsorted : requests.Pairwise fun r r' => r.2 ≤ r'.2)
    (hv : ∀ n ∈ s.working, n.version = v) (hmax : ∀ r ∈ requests, r.2 ≤ v.maxPrefixlen)
    (h : Net.Fits v s.working (requests.map Prod.snd)) (idx : Nat) :
    (requests.foldl placeRequest s).fulfilledCounts idx =
      s.fulfilledCounts idx + requests.countP fun r => r.1 = idx := by
  induction requests generalizing s with
  | nil => simp
  | cons r requests ih =>
    obtain ⟨hfirst, hrest⟩ := List.pairwise_cons.mp hsorted
    have hlonger : ∀ q ∈ requests.map Prod.snd, r.2 ≤ q := fun q hq => by
      obtain ⟨r', hr', rfl⟩ := List.mem_map.mp hq
      exact hfirst r' hr'
    obtain ⟨hfits, hversion, hcounts⟩ := fits_placeRequest hv (hmax r (by simp)) hlonger h
    rw [List.foldl_cons, ih hrest hversion (fun r' hr' => hmax r' (by simp [hr'])) hfits, hcounts,
      List.countP_cons]
    by_cases hidx : r.1 = idx
    · simp only [hidx, Function.update_self, decide_true, if_true]
      omega
    · simp [hidx, Function.update_of_ne (Ne.symm hidx)]

theorem countP_itemRequests {items : List (PlanRequestItem × Nat)}
    (hnodup : (items.map Prod.snd).Nodup) (h : item ∈ items) :
    (items.flatMap itemRequests).countP (fun r => r.1 = item.2) = item.1.count := by
  induction items with
  | nil => simp at h
  | cons first items ih =>
    obtain ⟨hnot, hnodup⟩ := List.nodup_cons.mp hnodup
    rw [List.flatMap_cons, List.countP_append]
    rcases List.mem_cons.mp h with rfl | h
    · have hrest : (items.flatMap itemRequests).countP (fun r => r.1 = item.2) = 0 := by
        simp only [List.countP_eq_zero, List.mem_flatMap, itemRequests, List.mem_replicate,
          decide_eq_true_eq]
        rintro _ ⟨other, hother, -, rfl⟩ heq
        exact hnot (List.mem_map.mpr ⟨other, hother, heq⟩)
      rw [hrest]
      simp [itemRequests, List.countP_replicate]
    · have hne : first.2 ≠ item.2 := fun heq => hnot (heq ▸ List.mem_map_of_mem h)
      rw [ih hnodup h]
      simp [itemRequests, List.countP_replicate, hne]

theorem flatRequests_perm (items : List PlanRequestItem) :
    (flatRequests items).Perm (items.zipIdx.flatMap itemRequests) := List.perm_insertionSort _ _

theorem flatRequests_sorted (items : List PlanRequestItem) :
    (flatRequests items).Pairwise fun r r' => r.2 ≤ r'.2 := by
  have : Std.Total requestOrder := ⟨fun r r' => by unfold requestOrder; omega⟩
  have : IsTrans (Nat × Nat) requestOrder := ⟨fun r r' r'' => by unfold requestOrder; omega⟩
  refine (List.pairwise_insertionSort requestOrder _).imp fun {r r'} h => ?_
  unfold requestOrder at h
  omega

theorem mem_flatRequests {r : Nat × Nat} (hr : r ∈ flatRequests items) :
    ∃ item ∈ items, r.2 = item.prefixLen := by
  have hmem := (flatRequests_perm items).mem_iff.mp hr
  obtain ⟨⟨item, idx⟩, hitem, hrep⟩ := List.mem_flatMap.mp hmem
  exact ⟨item, (List.mem_zipIdx' hitem).2 ▸ List.getElem_mem _, (List.mem_replicate.mp hrep).2 ▸ rfl⟩

theorem flatRequests_prefixLens (items : List PlanRequestItem) :
    ((flatRequests items).map Prod.snd).Perm
      (items.flatMap fun item => List.replicate item.count item.prefixLen) := by
  refine ((flatRequests_perm items).map _).trans (List.Perm.of_eq ?_)
  calc
    (items.zipIdx.flatMap itemRequests).map Prod.snd
        = items.zipIdx.flatMap fun item => List.replicate item.1.count item.1.prefixLen := by
          simp [List.map_flatMap, itemRequests]
    _ = (items.zipIdx.map Prod.fst).flatMap
          fun item => List.replicate item.count item.prefixLen := by rw [List.flatMap_map]
    _ = items.flatMap fun item => List.replicate item.count item.prefixLen := by
          rw [List.zipIdx_map_fst]

theorem forM_checkPlanItem (hitems : ∀ item ∈ items, block.prefixlen < item.prefixLen ∧
      item.prefixLen ≤ block.version.maxPrefixlen) : items.forM (checkPlanItem block) = .ok () := by
  induction items with
  | nil => rfl
  | cons item items ih =>
    have hitem := hitems item (by simp)
    change (checkPlanItem block item >>= fun _ => items.forM (checkPlanItem block)) = .ok ()
    rw [checkPlanItem_ok hitem.1 hitem.2]
    exact ih fun other hother => hitems other (by simp [hother])

theorem packed_packItems (occupied : List Net)
    (hmax : ∀ item ∈ items, item.prefixLen ≤ block.version.maxPrefixlen) :
    Packed block occupied (packItems block occupied items) := by
  refine Packed.run (by simpa [Packed] using Net.parcels_excludeAll) fun r hr => ?_
  obtain ⟨item, hitem, heq⟩ := mem_flatRequests hr
  exact heq ▸ hmax item hitem

theorem fulfilledCounts_packItems
    (hmax : ∀ item ∈ items, item.prefixLen ≤ block.version.maxPrefixlen) {placement : List Net}
    (hlens : (placement.map (·.prefixlen)).Perm
      (items.flatMap fun item => List.replicate item.count item.prefixLen))
    (hfree : ∀ n ∈ placement, Net.FreeIn block occupied n)
    (hdisjoint : placement.Pairwise fun a b => ¬ a.overlaps b) (hitem : item ∈ items.zipIdx) :
    (packItems block occupied items).fulfilledCounts item.2 = item.1.count := by
  have hfits : Net.Fits block.version (block.excludeAll occupied)
      ((flatRequests items).map Prod.snd) := fun l =>
    Net.demand_perm (hlens.trans (flatRequests_prefixLens items).symm) l ▸
      Net.fits_of_placement hfree hdisjoint l
  have hnodup : (items.zipIdx.map Prod.snd).Nodup := by
    rw [List.zipIdx_map_snd]
    exact List.nodup_range'
  have hcounts := fulfilledCounts_run (s := { working := block.excludeAll occupied })
    (flatRequests_sorted items) (fun n hn => (Net.mem_excludeAll.mp hn).1.1.1)
    (fun r hr => by
      obtain ⟨item, hitem, heq⟩ := mem_flatRequests hr
      exact heq ▸ hmax item hitem) hfits item.2
  rw [packItems, hcounts, (flatRequests_perm items).countP_eq, countP_itemRequests hnodup hitem]
  exact Nat.zero_add _

/-- The plan lies in the free space and makes it up together with what remains, and it leaves
nothing out when any placement of all the networks exists. -/
theorem planBlockAllocation_packs (block : Net) (occupied : List Net)
    (items : List PlanRequestItem)
    (hlonger : ∀ item ∈ items, block.prefixlen < item.prefixLen)
    (hmax : ∀ item ∈ items, item.prefixLen ≤ block.version.maxPrefixlen) :
    ∃ response, planBlockAllocation block occupied items = .ok response ∧
      (∀ a ∈ response.allocations, a.network.subnetOf block ∧
        ∀ o ∈ occupied, ¬ a.network.overlaps o) ∧
      (response.allocations.map (·.network)).Pairwise (fun a b => ¬ a.overlaps b) ∧
      Net.Parcels block occupied (response.allocations.map (·.network) ++
        response.remainingFree.map (·.network)) ∧
      ((∃ placement : List Net,
          (placement.map (·.prefixlen)).Perm
            (items.flatMap fun item => List.replicate item.count item.prefixLen) ∧
          (∀ n ∈ placement, n.subnetOf block ∧ ∀ o ∈ occupied, ¬ n.overlaps o) ∧
          placement.Pairwise fun a b => ¬ a.overlaps b) → response.unfulfilled = []) := by
  have hitems : ∀ item ∈ items, block.prefixlen < item.prefixLen ∧
      item.prefixLen ≤ block.version.maxPrefixlen := fun item hitem =>
    ⟨hlonger item hitem, hmax item hitem⟩
  refine ⟨_, by rw [planBlockAllocation, forM_checkPlanItem hitems]; rfl, ?_⟩
  have hnetworks : ∀ nets : List Net, (nets.map cidrRange).map (·.network) = nets := fun nets => by
    simp [cidrRange, Function.comp_def]
  have hallocated : ((((packItems block occupied items).allocated.insertionSort
      fun a b => a.1 < b.1 ∨ a.1 = b.1 ∧ a.2.prefixlen ≤ b.2.prefixlen).map
        fun a => cidrRange a.2).map (·.network)).Perm
      ((packItems block occupied items).allocated.map Prod.snd) := by
    simpa [cidrRange, Function.comp_def] using (List.perm_insertionSort _ _).map Prod.snd
  have hparcels := (packed_packItems occupied hmax).perm
    (hallocated.symm.append (List.perm_insertionSort
      (fun a b : Net => a.networkAddress ≤ b.networkAddress) _).symm)
  refine ⟨fun a ha => ?_, ?_, ?_, ?_⟩
  · exact hparcels.free _ (List.mem_append_left _ (List.mem_map_of_mem ha))
  · exact hparcels.disjoint.sublist (List.sublist_append_left _ _)
  · simpa only [hnetworks] using hparcels
  · rintro ⟨placement, hlens, hfree, hdisjoint⟩
    refine List.filterMap_eq_nil_iff.mpr fun item hitem => if_neg ?_
    have hcount := fulfilledCounts_packItems hmax hlens hfree hdisjoint hitem
    exact fun hlt => absurd hcount (Nat.ne_of_lt hlt)

private def tenBlock : Net := Net.ofValue .v4 0x0A000000 23

theorem planBlockAllocation_packs_ten : ∃ response,
    planBlockAllocation tenBlock [Net.ofValue .v4 0x0A000100 24] [⟨1, 26⟩, ⟨1, 25⟩] =
      .ok response ∧ response.unfulfilled = [] ∧ response.allocations.length = 2 := by
  obtain ⟨response, hok, -, -, -, hcomplete⟩ := planBlockAllocation_packs tenBlock
    [Net.ofValue .v4 0x0A000100 24] [⟨1, 26⟩, ⟨1, 25⟩] (by decide) (by decide)
  refine ⟨response, hok, hcomplete ⟨[Net.ofValue .v4 0x0A000080 26, Net.ofValue .v4 0x0A000000 25],
    by decide, by decide, by decide⟩, ?_⟩
  have hlength : (planBlockAllocation tenBlock [Net.ofValue .v4 0x0A000100 24]
      [⟨1, 26⟩, ⟨1, 25⟩]).map (·.allocations.length) = .ok 2 := by decide +kernel
  rw [hok] at hlength
  simpa [Except.map] using hlength

end SpatiumDdi.Ipam
