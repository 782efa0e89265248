import SpatiumDdi.Lib.Guards
import SpatiumDdi.Store
import SpatiumDdi.Lib.Exclude

/-!
The refusals of the IPAM handlers and the rules that several of them share: the
two overlap checks, the gateway rule, and the placeholder rows a new subnet
holds.
-/

namespace SpatiumDdi.Ipam

open Ipaddress

inductive GatewayProblem where
  | notWithin
  | isNetwork
  | isBroadcast
deriving DecidableEq

/-- Why a request is refused, with the rows its message names. -/
inductive Refusal where
  /-- A check on tables outside the model failed: permissions, token scope,
  templates, VLANs, DNS bindings, required custom fields, the advisory lock. -/
  | refusedElsewhere
  | spaceNotFound
  | blockNotFound
  | subnetNotFound
  | parentNotFound
  | notInParent (network parent : Net)
  | notInBlock (network block : Net)
  | overlapsSubnet (network existing : Net)
  | blockExists (network : Net)
  | blockContained (network sibling : Net)
  | blockOverlap (network sibling : Net)
  | gateway (problem : GatewayProblem)
  | layoutEmpty
  | layoutPrefix (parentPrefix : Nat)
  | layoutOverflow (network : Net)
  | layoutOverlap (network existing : Net)
  | prefixTooLong (prefixLen : Nat)
  | prefixTooShort (prefixLen : Nat)
  | pickedOutside (picked block : Net)
  | pickedWrongSize (picked : Net)
  | pickedTaken (picked : Net)
  | noFreeSubnet (block : Net)
  | ownParent
  | parentCycle
  | planApplied
  | planConflicts
  | confirmation
  | familyChange
  | notAGrowth
  | notContainedInNew (network new : Net)
  | blockInTheWay (network block : Net)
  | parentTooSmall (network parent : Net)
  | hostOnBoundary (address : Address)
  | gatewayHasNoHost
  | gatewayTaken (address : Address)
  | splitConflict
  | mergeConflict
  | alreadyThere
  | targetParentOtherSpace
  | sameCidrAsParent
  | integrationBlockers
  /-- The recursive query over a cyclic parent chain does not return. -/
  | diverges
deriving DecidableEq

def Refusal.statusCode : Refusal → Nat
  | .refusedElsewhere => 403
  | .spaceNotFound | .blockNotFound | .subnetNotFound | .parentNotFound => 404
  | .overlapsSubnet .. | .blockExists .. | .blockContained .. | .blockOverlap .. | .pickedTaken ..
  | .noFreeSubnet .. | .planApplied | .planConflicts | .blockInTheWay .. | .hostOnBoundary ..
  | .gatewayTaken .. | .splitConflict | .mergeConflict | .integrationBlockers => 409
  | .diverges => 500
  | _ => 422

def assertNoOverlap (σ : Store) (spaceId : Nat) (network : Net) (excludeId : Option Nat := none) :
    Except Refusal Unit :=
  match σ.liveSubnets fun i s =>
      s.spaceId == spaceId && s.network.overlaps network && excludeId != some i with
  | [] => .ok ()
  | (_, s) :: _ => .error (.overlapsSubnet network s.network)

/-- The loop over the overlapping siblings: a strict subset of the new network
becomes a reparent candidate, anything else refuses. -/
def reparentCandidates (newNet : Net) : List (Nat × IPBlock) → Except Refusal (List Nat)
  | [] => .ok []
  | (i, sibling) :: rest =>
    if sibling.network = newNet then .error (.blockExists newNet)
    else if sibling.network.subnetOf newNet then
      (reparentCandidates newNet rest).map (i :: ·)
    else if newNet.subnetOf sibling.network then
      .error (.blockContained newNet sibling.network)
    else .error (.blockOverlap newNet sibling.network)

def overlappingSiblings (σ : Store) (spaceId : Nat) (network : Net) (parentBlockId : Option Nat)
    (excludeId : Option Nat) : List (Nat × IPBlock) :=
  σ.liveBlocks fun i b =>
    b.spaceId == spaceId && b.network.overlaps network && b.parentBlockId == parentBlockId &&
      excludeId != some i

/-- Validates a block against its siblings and returns those it would cover. -/
def assertNoBlockOverlap (σ : Store) (spaceId : Nat) (network : Net) (parentBlockId : Option Nat)
    (excludeId : Option Nat := none) : Except Refusal (List Nat) :=
  reparentCandidates network (overlappingSiblings σ spaceId network parentBlockId excludeId)

variable {σ : Store} {spaceId i subnetId : Nat} {network : Net}
  {excludeId parentBlockId : Option Nat} {u : Unit} {ids layout : List Nat} {b c : IPBlock}

theorem assertNoOverlap_eq_ok : assertNoOverlap σ spaceId network excludeId = .ok u ↔
      ∀ i s, σ.getSubnet i = some s → s.spaceId = spaceId → excludeId ≠ some i →
        ¬ s.network.overlaps network := by
  have hmem : ∀ i s, (i, s) ∈ (σ.liveSubnets fun i s =>
      s.spaceId == spaceId && s.network.overlaps network && excludeId != some i) ↔
      σ.getSubnet i = some s ∧ (s.spaceId = spaceId ∧ s.network.overlaps network) ∧
        excludeId ≠ some i := by
    intro i s
    simp [Store.mem_liveSubnets]
  unfold assertNoOverlap
  split
  · rename_i heq
    rw [heq] at hmem
    simp only [List.not_mem_nil, false_iff] at hmem
    exact iff_of_true rfl fun i s hs hsp hex ho => hmem i s ⟨hs, ⟨hsp, ho⟩, hex⟩
  · rename_i i s rest heq
    rw [heq] at hmem
    obtain ⟨hs, ⟨hsp, ho⟩, hex⟩ := (hmem i s).mp (by simp)
    refine iff_of_false (by simp) fun h => h i s hs hsp hex ho

theorem reparentCandidates_eq_ok {newNet : Net} {rows : List (Nat × IPBlock)} :
    reparentCandidates newNet rows = .ok ids ↔
      ids = rows.map Prod.fst ∧
        ∀ r ∈ rows, r.2.network ≠ newNet ∧ r.2.network.subnetOf newNet := by
  induction rows generalizing ids with
  | nil => simp [reparentCandidates, eq_comm]
  | cons r rest ih =>
    obtain ⟨i, b⟩ := r
    unfold reparentCandidates
    by_cases hne : b.network = newNet
    · simp [hne]
    by_cases hsub : b.network.subnetOf newNet
    · simp only [hne, hsub, if_true, if_false, map_eq_ok, ih]
      constructor
      · rintro ⟨ids', ⟨rfl, hrest⟩, rfl⟩
        refine ⟨rfl, fun r hr => ?_⟩
        rcases List.mem_cons.mp hr with rfl | hr
        · exact ⟨hne, hsub⟩
        · exact hrest r hr
      · rintro ⟨rfl, hall⟩
        exact ⟨rest.map Prod.fst, ⟨rfl, fun r hr => hall r (by simp [hr])⟩, rfl⟩
    · simp only [hne, hsub, if_false]
      refine iff_of_false (by split <;> simp) ?_
      rintro ⟨-, hall⟩
      exact hsub (hall (i, b) (by simp)).2

theorem mem_overlappingSiblings :
    (i, b) ∈ overlappingSiblings σ spaceId network parentBlockId excludeId ↔
      σ.getBlock i = some b ∧ b.spaceId = spaceId ∧ b.parentBlockId = parentBlockId ∧
        excludeId ≠ some i ∧ b.network.overlaps network := by
  simp only [overlappingSiblings, Store.mem_liveBlocks, Bool.and_eq_true, beq_iff_eq,
    decide_eq_true_eq, bne_iff_ne, ne_eq]
  tauto

/-- What a passed sibling check says: exactly the returned blocks meet the
network at this level, and each lies strictly inside it. -/
theorem assertNoBlockOverlap_eq_ok
    (h : assertNoBlockOverlap σ spaceId network parentBlockId excludeId = .ok ids) :
    (∀ i b, σ.getBlock i = some b → b.spaceId = spaceId → b.parentBlockId = parentBlockId →
      excludeId ≠ some i → b.network.overlaps network → i ∈ ids) ∧
    (∀ i ∈ ids, ∃ b, σ.getBlock i = some b ∧ b.spaceId = spaceId ∧
      b.parentBlockId = parentBlockId ∧ excludeId ≠ some i ∧ b.network ≠ network ∧
      b.network.subnetOf network) := by
  obtain ⟨rfl, hall⟩ := reparentCandidates_eq_ok.mp h
  constructor
  · intro i b hb hsp hpar hex ho
    exact List.mem_map.mpr ⟨(i, b), mem_overlappingSiblings.mpr ⟨hb, hsp, hpar, hex, ho⟩, rfl⟩
  · intro i hi
    obtain ⟨⟨i', b⟩, hr, rfl⟩ := List.mem_map.mp hi
    obtain ⟨hb, hsp, hpar, hex, -⟩ := mem_overlappingSiblings.mp hr
    exact ⟨b, hb, hsp, hpar, hex, hall _ hr⟩

/-- `multicast` for a subnet inside the IANA multicast ranges. -/
def subnetKindFor (net : Net) : SubnetKind :=
  let multicast := match net.version with
    | .v4 => Net.ofValue .v4 (224 * 2 ^ 24) 4
    | .v6 => Net.ofValue .v6 (255 * 2 ^ 120) 8
  if net.subnetOf multicast then .multicast else .unicast

/-- Whether a subnet of this size and kind gets network and broadcast rows. -/
def hasBoundaryRows (net : Net) (kind : SubnetKind) : Bool :=
  kind != .multicast && net.prefixlen < (match net.version with | .v6 => 127 | .v4 => 31)

/-- Address, status and description of the boundary rows a new subnet gets. -/
def boundaryRows (net : Net) (kind : SubnetKind) : List (Address × AddressStatus × String) :=
  if hasBoundaryRows net kind then
    (net.nth 0, .network, "Network address") ::
      match net.version with
      | .v4 => [(net.nth (net.numAddresses - 1), .broadcast, "Broadcast address")]
      | .v6 => []
  else []

def boundaryAddresses (net : Net) (kind : SubnetKind) : List Address :=
  (boundaryRows net kind).map Prod.fst

/-- The rule a subnet's gateway has to meet. -/
def gatewayProblem (gateway : Option Address) (net : Net) (rejectReserved : Bool) :
    Option GatewayProblem :=
  match gateway with
  | none => none
  | some gw =>
    if ¬ net.contains gw then some .notWithin
    else if rejectReserved && gw == net.nth 0 then some .isNetwork
    else if rejectReserved && net.version == .v4 && gw == net.nth (net.numAddresses - 1) then
      some .isBroadcast
    else none

def checkGateway (gateway : Option Address) (net : Net) (rejectReserved : Bool) :
    Except Refusal Unit :=
  match gatewayProblem gateway net rejectReserved with
  | none => .ok ()
  | some problem => .error (.gateway problem)

/-- The network, broadcast and gateway rows of a new subnet. -/
def placeholderRows (subnetId : Nat) (net : Net) (gateway : Address) : List IPAddress :=
  (boundaryRows net .unicast).map (fun r =>
    { subnetId, address := r.1, status := r.2.1, description := r.2.2 }) ++
  [{ subnetId, address := gateway, status := .reserved, description := "Gateway",
     hostname := some "gateway" }]

def insertBlock (σ : Store) (block : IPBlock) : Store :=
  { σ with blocks := σ.blocks.insert block }

/-- `db.add(subnet)` and the placeholder rows `create_placeholder_rows` adds
when the subnet takes them; the gateway defaults to the first host. -/
def insertSubnet (σ : Store) (subnet : Subnet) (placeholders : Bool) : Store :=
  if placeholders then
    let gateway := subnet.gateway.getD (subnet.network.nth 1)
    { σ with
      subnets := σ.subnets.insert { subnet with gateway := some gateway }
      addresses := σ.addresses.insertAll
        (placeholderRows σ.subnets.next subnet.network gateway) }
  else { σ with subnets := σ.subnets.insert subnet }

theorem getBlock_insertBlock_next (σ : Store) (hb : b.deletion = none) :
    (insertBlock σ b).getBlock σ.blocks.next = some b :=
  Store.getBlock_eq_some.mpr ⟨Table.get?_insert_next _ _, hb⟩

theorem getBlock_insertBlock (b : IPBlock) (hc : σ.getBlock i = some c) :
    (insertBlock σ b).getBlock i = some c := by
  obtain ⟨hc, hlive⟩ := Store.getBlock_eq_some.mp hc
  exact Store.getBlock_eq_some.mpr ⟨Table.get?_insert_of_get? _ hc, hlive⟩

@[simp] theorem insertSubnet_blocks (σ : Store) (subnet : Subnet) (placeholders : Bool) :
    (insertSubnet σ subnet placeholders).blocks = σ.blocks := by
  unfold insertSubnet
  split <;> rfl

@[simp] theorem insertSubnet_spaces (σ : Store) (subnet : Subnet) (placeholders : Bool) :
    (insertSubnet σ subnet placeholders).spaces = σ.spaces := by
  unfold insertSubnet
  split <;> rfl

@[simp] theorem insertSubnet_nextBatch (σ : Store) (subnet : Subnet) (placeholders : Bool) :
    (insertSubnet σ subnet placeholders).nextBatch = σ.nextBatch := by
  unfold insertSubnet
  split <;> rfl

theorem getBlock_insertSubnet (σ : Store) (subnet : Subnet) (placeholders : Bool) (i : Nat) :
    (insertSubnet σ subnet placeholders).getBlock i = σ.getBlock i := by
  rw [Store.getBlock, insertSubnet_blocks, ← Store.getBlock]

theorem insertSubnet_subnets (σ : Store) (subnet : Subnet) (placeholders : Bool) :
    ∃ gateway, (insertSubnet σ subnet placeholders).subnets =
      σ.subnets.insert { subnet with gateway } := by
  unfold insertSubnet
  split
  · exact ⟨_, rfl⟩
  · exact ⟨subnet.gateway, rfl⟩

open Ipaddress

structure BlockCreate where
  spaceId : Nat
  network : Net
  parentBlockId : Option Nat := none
  /-- The prefixes of the named template's `child_layout`, if it has one. -/
  childLayout : Option (List Nat) := none
  otherChecks : Bool := true

/-- What `POST /subnets` and `allocate-subnet` both accept. -/
structure SubnetOptions where
  gateway : Option Address := none
  skipAutoAddresses : Bool := false
  settings : SubnetSettings := {}
  otherChecks : Bool := true

structure SubnetCreate where
  spaceId : Nat
  blockId : Nat
  network : Net
  options : SubnetOptions := {}

structure SubnetAllocate where
  prefixLen : Nat
  network : Option Net := none
  options : SubnetOptions := {}

def createSpace (σ : Store) (name : String) : Except Refusal (Nat × Store) := do
  require (σ.spaces.select (fun _ s => s.deletion.isNone && s.name == name) = []) .refusedElsewhere
  return (σ.spaces.next, { σ with spaces := σ.spaces.insert { name } })

def checkParent (σ : Store) (spaceId : Nat) (network : Net) : Option Nat → Except Refusal Unit
  | none => .ok ()
  | some parentBlockId => do
    let parent ← orRefuse (σ.getBlock parentBlockId) .parentNotFound
    require (parent.spaceId = spaceId) .parentNotFound
    require (network.subnetOf parent.network) (.notInParent network parent.network)

/-- The loop of `carve_children`: each entry takes the next aligned slot of its
size. A slot that is already a subnet of the block is skipped. -/
def carveLoop (blockId : Nat) (block : IPBlock) (existing : List Net) :
    List Net → Nat → List Nat → Except Refusal (List Subnet)
  | _, _, [] => .ok []
  | existingNets, cursor, prefixlen :: rest => do
    require (prefixlen ≤ block.network.version.maxPrefixlen)
      (.layoutPrefix block.network.prefixlen)
    let size := 2 ^ (block.network.version.maxPrefixlen - prefixlen)
    let aligned := (cursor + size - 1) / size * size
    require (aligned + size - 1 ≤ block.network.broadcastAddress) (.layoutOverflow block.network)
    let child := Net.ofValue block.network.version aligned prefixlen
    if child ∈ existing then carveLoop blockId block existing existingNets (aligned + size) rest
    else
      match existingNets.find? fun n => n.overlaps child with
      | some clash => .error (.layoutOverlap child clash)
      | none =>
        (carveLoop blockId block existing (existingNets ++ [child]) (aligned + size) rest).map
          ({ spaceId := block.spaceId, blockId, network := child,
             kind := subnetKindFor child } :: ·)

/-- Carves sub-subnets per the template's layout. Only the subnets already
under the block are looked at. -/
def carveChildren (σ : Store) (blockId : Nat) (block : IPBlock) :
    Option (List Nat) → Except Refusal (List Subnet)
  | none => .ok []
  | some layout => do
    require (layout ≠ []) .layoutEmpty
    require (∀ prefixlen ∈ layout, block.network.prefixlen < prefixlen)
      (.layoutPrefix block.network.prefixlen)
    let existing := (σ.liveSubnets fun _ s => s.blockId == blockId).map (·.2.network)
    carveLoop blockId block existing existing block.network.networkAddress layout

/-- The live subnets directly under the new block's parent that lie inside the
new block. -/
def adoptsSubnet (body : BlockCreate) (s : Subnet) : Bool :=
  s.deletion.isNone && s.spaceId == body.spaceId && body.parentBlockId == some s.blockId &&
    s.network.subnetOf body.network

/-- Points the covered siblings and the parent's covered subnets at the new
block. -/
def adopt (σ : Store) (blockId : Nat) (body : BlockCreate) (reparentIds : List Nat) : Store :=
  { σ with
    blocks := σ.blocks.modify fun i b =>
      if i ∈ reparentIds then { b with parentBlockId := some blockId } else b
    subnets := σ.subnets.modify fun _ s =>
      if adoptsSubnet body s then { s with blockId := blockId } else s }

def createBlock (σ : Store) (body : BlockCreate) : Except Refusal (Nat × Store) := do
  require (body.otherChecks = true) .refusedElsewhere
  let _ ← orRefuse (σ.getSpace body.spaceId) .spaceNotFound
  checkParent σ body.spaceId body.network body.parentBlockId
  let reparentIds ← assertNoBlockOverlap σ body.spaceId body.network body.parentBlockId
  let blockId := σ.blocks.next
  let block : IPBlock :=
    { spaceId := body.spaceId, parentBlockId := body.parentBlockId, network := body.network }
  let σ₁ := insertBlock σ block
  let carved ← carveChildren σ₁ blockId block body.childLayout
  let σ₂ := { σ₁ with subnets := σ₁.subnets.insertAll carved }
  return (blockId, adopt σ₂ blockId body reparentIds)

/-- The walk up from the new parent that looks for the block itself. The fuel
bounds it where a cyclic chain would not end. -/
def checkNoCycle (σ : Store) (blockId : Nat) : Nat → Nat → Except Refusal Unit
  | 0, _ => .error .diverges
  | fuel + 1, cursor =>
    match σ.getBlock cursor with
    | none => .ok ()
    | some b =>
      if cursor = blockId then .error .parentCycle
      else
        match b.parentBlockId with
        | none => .ok ()
        | some parent => checkNoCycle σ blockId fuel parent

def checkNewParent (σ : Store) (blockId : Nat) (block : IPBlock) :
    Option Nat → Except Refusal Unit
  | none => .ok ()
  | some newParentId => do
    require (newParentId ≠ blockId) .ownParent
    let newParent ← orRefuse (σ.getBlock newParentId) .parentNotFound
    require (newParent.spaceId = block.spaceId) .parentNotFound
    require (block.network.subnetOf newParent.network)
      (.notInParent block.network newParent.network)
    checkNoCycle σ blockId (σ.blocks.rows.length + 1) newParentId

/-- `update_block`. The outer `Option` is whether the request sets
`parent_block_id`; the covered siblings the overlap check returns are dropped. -/
def updateBlock (σ : Store) (blockId : Nat) (parentBlockId : Option (Option Nat))
    (otherChecks : Bool := true) : Except Refusal Store := do
  require (otherChecks = true) .refusedElsewhere
  let block ← orRefuse (σ.getBlock blockId) .blockNotFound
  match parentBlockId with
  | none => return σ
  | some newParentId => do
    checkNewParent σ blockId block newParentId
    let _ ← assertNoBlockOverlap σ block.spaceId block.network newParentId (some blockId)
    return { σ with
      blocks := σ.blocks.modify fun i b =>
        if i = blockId then { b with parentBlockId := newParentId } else b }

def createSubnet (σ : Store) (body : SubnetCreate) : Except Refusal (Nat × Store) := do
  require (body.options.otherChecks = true) .refusedElsewhere
  let _ ← orRefuse (σ.getSpace body.spaceId) .spaceNotFound
  let block ← orRefuse (σ.getBlock body.blockId) .blockNotFound
  require (block.spaceId = body.spaceId) .blockNotFound
  require (body.network.subnetOf block.network) (.notInBlock body.network block.network)
  let kind := subnetKindFor body.network
  assertNoOverlap σ body.spaceId body.network
  let placeholders := hasBoundaryRows body.network kind && !body.options.skipAutoAddresses
  checkGateway body.options.gateway body.network placeholders
  let subnet : Subnet :=
    { spaceId := body.spaceId, blockId := body.blockId, network := body.network,
      kind, gateway := body.options.gateway, settings := body.options.settings }
  return (σ.subnets.next, insertSubnet σ subnet placeholders)

/-- The free ranges of a block, sorted by address and cut to `maxResults`. -/
def computeFreeCidrs (blockNetwork : Net) (childNetworks : List Net) (maxResults : Nat := 200) :
    List Net :=
  ((blockNetwork.excludeAll childNetworks).insertionSort
    fun a b => a.networkAddress ≤ b.networkAddress).take maxResults

def directChildren (σ : Store) (blockId : Nat) : List Net :=
  (σ.liveBlocks fun _ b => b.parentBlockId == some blockId).map (·.2.network) ++
    (σ.liveSubnets fun _ s => s.blockId == blockId).map (·.2.network)

def checkPrefixLen (block : Net) (prefixLen : Nat) : Except Refusal Unit := do
  require (prefixLen ≤ block.version.maxPrefixlen) (.prefixTooLong prefixLen)
  require (block.prefixlen < prefixLen) (.prefixTooShort prefixLen)

/-- The network `allocate_subnet` settles on: the caller's pick if it is a free
slot of the block, else the lowest free one. -/
def chooseSubnet (block : Net) (occupied : List Net) (prefixLen : Nat) :
    Option Net → Except Refusal Net
  | some picked => do
    require (picked.subnetOf block) (.pickedOutside picked block)
    require (picked.prefixlen = prefixLen) (.pickedWrongSize picked)
    require (∀ o ∈ occupied, ¬ picked.overlaps o) (.pickedTaken picked)
    return picked
  | none =>
    match (computeFreeCidrs block occupied 100000).find? fun free => free.prefixlen ≤ prefixLen with
    | some free => .ok (Net.ofValue free.version free.networkAddress prefixLen)
    | none => .error (.noFreeSubnet block)

def allocateSubnet (σ : Store) (blockId : Nat) (body : SubnetAllocate) :
    Except Refusal (Nat × Store) := do
  let block ← orRefuse (σ.getBlock blockId) .blockNotFound
  checkPrefixLen block.network body.prefixLen
  let chosen ← chooseSubnet block.network (directChildren σ blockId) body.prefixLen body.network
  createSubnet σ { spaceId := block.spaceId, blockId, network := chosen, options := body.options }

/-- What the preview counts as taken: every live subnet of the space that meets
the block, and the block's direct child blocks. -/
def previewOccupants (σ : Store) (blockId : Nat) (block : IPBlock) : List Net :=
  (σ.liveSubnets fun _ s =>
    s.spaceId == block.spaceId && s.network.overlaps block.network).map (·.2.network) ++
  (σ.liveBlocks fun _ b => b.parentBlockId == some blockId).map (·.2.network)

/-- Every free slot of the block, lowest first. -/
def availableSubnets (σ : Store) (blockId : Nat) (block : IPBlock) (prefixLen : Nat) : List Net :=
  (block.network.subnets prefixLen).filter fun candidate =>
    !(previewOccupants σ blockId block).any fun existing => candidate.overlaps existing

/-- `GET available-subnets`; `limit = none` is the answer without the limit and
the scan cap that goes with it. -/
def getAvailableSubnets (σ : Store) (blockId prefixLen : Nat) (limit : Option Nat := some 20) :
    Except Refusal (List Net) := do
  let block ← orRefuse (σ.getBlock blockId) .blockNotFound
  checkPrefixLen block.network prefixLen
  match limit with
  | none => return availableSubnets σ blockId block prefixLen
  | some limit =>
    return (((block.network.subnets prefixLen).take (limit * 200)).filter fun candidate =>
      !(previewOccupants σ blockId block).any fun existing => candidate.overlaps existing).take
        limit

variable {σ : Store}

theorem checkParent_ok {network : Net} (h : checkParent σ spaceId network parentBlockId = .ok u) :
    ∀ p, parentBlockId = some p → ∃ parent, σ.getBlock p = some parent ∧
      parent.spaceId = spaceId ∧ network.subnetOf parent.network := by
  rintro p rfl
  simpa only [checkParent, bind_eq_ok, require_eq_ok, orRefuse_eq_ok, exists_const,
    exists_and_left] using h

variable {blockId cursor : Nat} {block : IPBlock} {carved : List Subnet}
  {existing existingNets : List Net} {body : BlockCreate}

/-- A live row below the block. -/
def CarvedFrom (blockId : Nat) (block : IPBlock) (s : Subnet) : Prop :=
  s.spaceId = block.spaceId ∧ s.blockId = blockId ∧ s.deletion = none ∧
    s.network.subnetOf block.network

/-- The slots a layout carves lie in the block, do not meet, and start at or
after the cursor. -/
theorem carveLoop_ok (h : carveLoop blockId block existing existingNets cursor layout = .ok carved)
    (hcursor : block.network.networkAddress ≤ cursor) :
    (∀ s ∈ carved, CarvedFrom blockId block s ∧ cursor ≤ s.network.networkAddress) ∧
    carved.Pairwise fun s t => ¬ s.network.overlaps t.network := by
  induction layout generalizing existingNets cursor carved with
  | nil =>
    simp only [carveLoop, Except.ok.injEq] at h
    subst h
    simp
  | cons prefixlen rest ih =>
    simp only [carveLoop, bind_eq_ok, require_eq_ok, exists_const] at h
    obtain ⟨hp, hend, h⟩ := h
    generalize hsize : 2 ^ (block.network.version.maxPrefixlen - prefixlen) = size at h hend
    have hpos : 0 < size := hsize ▸ Nat.two_pow_pos _
    generalize halign : (cursor + size - 1) / size * size = aligned at h hend
    have hle : cursor ≤ aligned := by
      have := Nat.lt_div_mul_add (a := cursor + size - 1) hpos
      rw [halign] at this
      omega
    have hbroad : aligned + size ≤ block.network.networkAddress + block.network.numAddresses := by
      have := block.network.numAddresses_pos
      unfold Net.broadcastAddress at hend
      omega
    have hrange := block.network.end_le
    generalize hchild : Net.ofValue block.network.version aligned prefixlen = child at h
    have hversion : child.version = block.network.version := hchild ▸ rfl
    have haddr : child.networkAddress = aligned := by
      rw [← hchild]
      refine Net.ofValue_networkAddress hp (by omega) ?_
      rw [hsize, ← halign]
      exact Nat.dvd_mul_left _ _
    have hnum : child.numAddresses = size := by
      rw [← hchild, Net.ofValue_numAddresses _ hp, hsize]
    have hsub : child.subnetOf block.network :=
      Net.subnetOf_iff.mpr ⟨hversion, by omega, by omega⟩
    have later : ∀ {subs : List Subnet},
        (∀ s ∈ subs, CarvedFrom blockId block s ∧ aligned + size ≤ s.network.networkAddress) →
        ∀ s ∈ subs, CarvedFrom blockId block s ∧ cursor ≤ s.network.networkAddress :=
      fun hsubs s hs => (hsubs s hs).imp_right fun _ => by omega
    split at h
    · obtain ⟨hall, hpair⟩ := ih h (by omega)
      exact ⟨later hall, hpair⟩
    · split at h
      · simp at h
      · obtain ⟨subs, hsubs, rfl⟩ := map_eq_ok.mp h
        obtain ⟨hall, hpair⟩ := ih hsubs (by omega)
        refine ⟨?_, List.pairwise_cons.mpr ⟨?_, hpair⟩⟩
        · intro s hs
          rcases List.mem_cons.mp hs with rfl | hs
          · exact ⟨⟨rfl, rfl, rfl, hsub⟩, hle.trans_eq haddr.symm⟩
          · exact later hall s hs
        · intro s hs ho
          obtain ⟨-, h₁, h₂⟩ := Net.overlaps_iff.mp ho
          have := (hall s hs).2
          simp only [haddr, hnum] at h₁ h₂
          omega

theorem carveChildren_ok {layout : Option (List Nat)}
    (h : carveChildren σ blockId block layout = .ok carved) :
    (∀ s ∈ carved, CarvedFrom blockId block s) ∧
    carved.Pairwise fun s t => ¬ s.network.overlaps t.network := by
  cases layout with
  | none =>
    simp only [carveChildren, Except.ok.injEq] at h
    subst h
    simp
  | some layout =>
    simp only [carveChildren, bind_eq_ok, require_eq_ok, exists_const] at h
    obtain ⟨-, -, h⟩ := h
    obtain ⟨hall, hpair⟩ := carveLoop_ok h le_rfl
    exact ⟨fun s hs => (hall s hs).1, hpair⟩

def layoutSlots (version : Version) : Nat → List Nat → List Net
  | _, [] => []
  | cursor, prefixlen :: rest =>
    let size := 2 ^ (version.maxPrefixlen - prefixlen)
    let aligned := (cursor + size - 1) / size * size
    Net.ofValue version aligned prefixlen :: layoutSlots version (aligned + size) rest

theorem mem_layoutSlots_of_carveLoop
    (h : carveLoop blockId block existing existingNets cursor layout = .ok carved) :
    ∀ s ∈ carved, s.network ∈ layoutSlots block.network.version cursor layout := by
  induction layout generalizing existingNets cursor carved with
  | nil =>
    simp only [carveLoop, Except.ok.injEq] at h
    simp [← h]
  | cons prefixlen rest ih =>
    simp only [carveLoop, bind_eq_ok, require_eq_ok, exists_const] at h
    obtain ⟨-, -, h⟩ := h
    intro s hs
    rw [layoutSlots, List.mem_cons]
    split at h
    · exact Or.inr (ih h s hs)
    · split at h
      · simp at h
      · obtain ⟨subs, hsubs, rfl⟩ := map_eq_ok.mp h
        rcases List.mem_cons.mp hs with rfl | hs
        · exact Or.inl rfl
        · exact Or.inr (ih hsubs s hs)

/-- The slots that the template of a request carves out of the new block. -/
def BlockCreate.slots (body : BlockCreate) : List Net :=
  layoutSlots body.network.version body.network.networkAddress (body.childLayout.getD [])

/-- The row `createBlock` inserts. -/
def BlockCreate.row (body : BlockCreate) : IPBlock :=
  { spaceId := body.spaceId, parentBlockId := body.parentBlockId, network := body.network }

theorem mem_slots_of_carveChildren
    (h : carveChildren σ blockId body.row body.childLayout = .ok carved) :
    ∀ s ∈ carved, s.network ∈ body.slots := by
  unfold BlockCreate.slots
  cases hlayout : body.childLayout with
  | none =>
    simp only [hlayout, carveChildren, Except.ok.injEq] at h
    simp [← h]
  | some layout =>
    simp only [hlayout, carveChildren, bind_eq_ok, require_eq_ok, exists_const] at h
    exact mem_layoutSlots_of_carveLoop h.2.2

variable {σ' : Store} {otherChecks : Bool}

theorem createSpace_ok {name : String} (h : createSpace σ name = .ok (spaceId, σ')) :
    spaceId = σ.spaces.next ∧ σ' = { σ with spaces := σ.spaces.insert { name } } := by
  simp only [createSpace, bind_eq_ok, require_eq_ok, exists_const, pure_eq_ok, Prod.mk.injEq] at h
  obtain ⟨-, rfl, rfl⟩ := h
  exact ⟨rfl, rfl⟩

theorem createBlock_ok (h : createBlock σ body = .ok (blockId, σ')) :
    ∃ reparentIds carved, blockId = σ.blocks.next ∧
      (∀ p, body.parentBlockId = some p → ∃ parent, σ.getBlock p = some parent ∧
        parent.spaceId = body.spaceId ∧ body.network.subnetOf parent.network) ∧
      assertNoBlockOverlap σ body.spaceId body.network body.parentBlockId = .ok reparentIds ∧
      carveChildren (insertBlock σ body.row) σ.blocks.next body.row body.childLayout =
        .ok carved ∧
      σ' = adopt { insertBlock σ body.row with subnets := σ.subnets.insertAll carved }
        σ.blocks.next body reparentIds := by
  simp only [createBlock, bind_eq_ok, require_eq_ok, orRefuse_eq_ok, exists_const,
    pure_eq_ok, Prod.mk.injEq] at h
  obtain ⟨-, _, -, _, hparent, ids, hids, carved, hcarved, rfl, rfl⟩ := h
  exact ⟨ids, carved, rfl, checkParent_ok hparent, hids, hcarved, rfl⟩

theorem createSubnet_ok {body : SubnetCreate} (h : createSubnet σ body = .ok (subnetId, σ')) :
    ∃ block subnet placeholders, subnetId = σ.subnets.next ∧
      σ.getBlock body.blockId = some block ∧
      block.spaceId = body.spaceId ∧ body.network.subnetOf block.network ∧
      (∀ i s, σ.getSubnet i = some s → s.spaceId = body.spaceId →
        ¬ s.network.overlaps body.network) ∧
      subnet.spaceId = body.spaceId ∧ subnet.blockId = body.blockId ∧
      subnet.network = body.network ∧ subnet.deletion = none ∧
      σ' = insertSubnet σ subnet placeholders := by
  simp only [createSubnet, bind_eq_ok, require_eq_ok, orRefuse_eq_ok, exists_const,
    pure_eq_ok, Prod.mk.injEq, assertNoOverlap_eq_ok] at h
  obtain ⟨-, _, -, block, hblock, hspace, hsub, hfree, _, -, rfl, rfl⟩ := h
  exact ⟨block, _, _, rfl, hblock, hspace, hsub, fun i s hs hsp => hfree i s hs hsp (by simp),
    rfl, rfl, rfl, rfl, rfl⟩

theorem allocateSubnet_ok {body : SubnetAllocate}
    (h : allocateSubnet σ blockId body = .ok (subnetId, σ')) :
    ∃ block chosen, σ.getBlock blockId = some block ∧
      chooseSubnet block.network (directChildren σ blockId) body.prefixLen body.network =
        .ok chosen ∧
      createSubnet σ (.mk block.spaceId blockId chosen body.options) = .ok (subnetId, σ') := by
  simp only [allocateSubnet, bind_eq_ok, orRefuse_eq_ok] at h
  obtain ⟨block, hblock, _, -, chosen, hchosen, h⟩ := h
  exact ⟨block, chosen, hblock, hchosen, h⟩

theorem checkNoCycle_ok {fuel : Nat} (h : checkNoCycle σ blockId fuel cursor = .ok u)
    (hup : ∀ i b p, σ.getBlock i = some b → b.parentBlockId = some p → ∃ q, σ.getBlock p = some q)
    (hc : σ.getBlock cursor = some c) : ¬ Forest.Above σ.parentBlock cursor blockId := by
  induction fuel generalizing cursor c with
  | zero => simp [checkNoCycle] at h
  | succ fuel ih =>
    simp only [checkNoCycle, hc] at h
    split at h
    · simp at h
    · rename_i hne
      intro habove
      rcases habove.cases with he | ⟨j, hj, hjb⟩
      · exact hne he
      · obtain ⟨c', hc', hpar⟩ := Store.parentBlock_eq_some.mp hj
        obtain rfl : c = c' :=
          Option.some.inj ((Store.getBlock_eq_some.mp hc).1.symm.trans hc')
        obtain ⟨q, hq⟩ := hup cursor c j hc hpar
        rw [hpar] at h
        exact ih h hq hjb

theorem updateBlock_ok {newParentId : Option Nat}
    (h : updateBlock σ blockId (some newParentId) otherChecks = .ok σ') :
    ∃ block reparentIds, σ.getBlock blockId = some block ∧
      (∀ p, newParentId = some p → p ≠ blockId ∧
        (∃ parent, σ.getBlock p = some parent ∧ parent.spaceId = block.spaceId ∧
          block.network.subnetOf parent.network) ∧
        checkNoCycle σ blockId (σ.blocks.rows.length + 1) p = .ok ()) ∧
      assertNoBlockOverlap σ block.spaceId block.network newParentId (some blockId) =
        .ok reparentIds ∧
      σ' = { σ with
        blocks := σ.blocks.modify fun i b =>
          if i = blockId then { b with parentBlockId := newParentId } else b } := by
  simp only [updateBlock, bind_eq_ok, require_eq_ok, orRefuse_eq_ok, exists_const,
    pure_eq_ok] at h
  obtain ⟨-, block, hblock, u, hparent, ids, hids, rfl⟩ := h
  refine ⟨block, ids, hblock, ?_, hids, rfl⟩
  rintro p rfl
  simp only [checkNewParent, bind_eq_ok, require_eq_ok, orRefuse_eq_ok, exists_const] at hparent
  obtain ⟨hne, parent, hp, hsp, hsub, hcycle⟩ := hparent
  exact ⟨hne, ⟨parent, hp, hsp, hsub⟩, hcycle⟩

theorem updateBlock_subnets {parentBlockId : Option (Option Nat)}
    (h : updateBlock σ blockId parentBlockId otherChecks = .ok σ') : σ'.subnets = σ.subnets := by
  cases parentBlockId with
  | none =>
    simp only [updateBlock, bind_eq_ok, require_eq_ok, orRefuse_eq_ok, exists_const,
      pure_eq_ok] at h
    obtain ⟨-, _, -, rfl⟩ := h
    rfl
  | some newParentId =>
    obtain ⟨_, _, -, -, -, rfl⟩ := updateBlock_ok h
    rfl

end SpatiumDdi.Ipam
