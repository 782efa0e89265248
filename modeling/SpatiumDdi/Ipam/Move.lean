import SpatiumDdi.Ipam.Checks

/-!
Moving a block and everything under it to another place of the same or another
space. The whole subtree follows, rows in the Trash included; live blocks at
the destination that the moved block covers are hung under it.
-/

namespace SpatiumDdi.Ipam

open Ipaddress Forest

structure MoveRequest where
  blockId : Nat
  targetSpaceId : Nat
  targetParentId : Option Nat := none
  confirmationCidr : Net
  otherChecks : Bool := true

/-- The blocks with the given parent, the Trash included: the step of the
recursive queries over `ip_block`. -/
def childBlocks (σ : Store) (i : Nat) : List Nat :=
  (σ.blocks.select fun _ b => b.parentBlockId == some i).map Prod.fst

variable {σ : Store}

variable {i j p fuel : Nat}

theorem mem_childBlocks : j ∈ childBlocks σ i ↔ σ.parentBlock j = some i := by
  rw [Store.parentBlock_eq_some]
  simp [childBlocks, Table.mem_select]

/-- The blocks under `root`, itself not among them. -/
def collectDescendants (σ : Store) (root : Nat) : Except Refusal (List Nat) :=
  orRefuse (below (childBlocks σ) (σ.blocks.rows.length + 1) (childBlocks σ root)) .diverges

theorem mem_collectDescendants {root : Nat} {ids : List Nat}
    (h : collectDescendants σ root = .ok ids) :
    i ∈ ids ↔ ∃ c, σ.parentBlock c = some root ∧ Above σ.parentBlock i c := by
  rw [collectDescendants, orRefuse_eq_ok] at h
  rw [mem_below (fun _ _ => mem_childBlocks) h]
  simp only [mem_childBlocks]

/-- Some integration owns a block, a live subnet or an address that would
move. -/
def hasIntegrationBlockers (σ : Store) (blockIds : List Nat) : Bool :=
  let subnets := σ.liveSubnets fun _ s => s.blockId ∈ blockIds
  (σ.blocks.select fun i b => i ∈ blockIds && b.integrationOwned) != [] ||
    subnets.any (fun r => r.2.integrationOwned) ||
    (σ.addresses.select fun _ a =>
      a.subnetId ∈ subnets.map Prod.fst && a.integrationOwned) != []

def validateTargetParent (σ : Store) (moved : IPBlock) (request : MoveRequest) :
    Option Nat → Except Refusal Unit
  | none => .ok ()
  | some targetParentId => do
    let parent ← orRefuse (σ.getBlock targetParentId) .parentNotFound
    require (parent.spaceId = request.targetSpaceId) .targetParentOtherSpace
    require (targetParentId ≠ request.blockId) .ownParent
    require (moved.network.subnetOf parent.network) (.notInParent moved.network parent.network)
    require (moved.network ≠ parent.network) .sameCidrAsParent

structure MovePlan where
  descendantBlockIds : List Nat
  reparentChainBlockIds : List Nat

/-- Everything the commit needs to know, and the checks of both preview and
commit. -/
def assembleMovePlan (σ : Store) (moved : IPBlock) (request : MoveRequest) :
    Except Refusal MovePlan := do
  let _ ← orRefuse (σ.getSpace request.targetSpaceId) .spaceNotFound
  require (¬ (request.targetSpaceId = moved.spaceId ∧ request.targetParentId = none)) .alreadyThere
  validateTargetParent σ moved request request.targetParentId
  let descendantBlockIds ← collectDescendants σ request.blockId
  require (hasIntegrationBlockers σ (request.blockId :: descendantBlockIds) = false)
    .integrationBlockers
  let reparentChainBlockIds ← assertNoBlockOverlap σ request.targetSpaceId moved.network
    request.targetParentId (some request.blockId)
  return { descendantBlockIds, reparentChainBlockIds }

def moveBlockRow (request : MoveRequest) (plan : MovePlan) (i : Nat) (b : IPBlock) : IPBlock :=
  let b :=
    if i = request.blockId then
      { b with spaceId := request.targetSpaceId, parentBlockId := request.targetParentId }
    else b
  let b := if i ∈ plan.descendantBlockIds then { b with spaceId := request.targetSpaceId } else b
  if i ∈ plan.reparentChainBlockIds then { b with parentBlockId := some request.blockId } else b

def moveSubnetRow (request : MoveRequest) (plan : MovePlan) (s : Subnet) : Subnet :=
  if s.blockId ∈ request.blockId :: plan.descendantBlockIds then
    { s with spaceId := request.targetSpaceId }
  else s

def commitMove (σ : Store) (request : MoveRequest) : Except Refusal Store := do
  require (request.otherChecks = true) .refusedElsewhere
  let moved ← orRefuse (σ.getBlock request.blockId) .blockNotFound
  require (request.confirmationCidr = moved.network) .confirmation
  let plan ← assembleMovePlan σ moved request
  return { σ with
    blocks := σ.blocks.modify (moveBlockRow request plan)
    subnets := σ.subnets.modify fun _ s => moveSubnetRow request plan s }

variable {σ' : Store}

theorem commitMove_ok {request : MoveRequest} (h : commitMove σ request = .ok σ') :
    ∃ moved plan, σ.getBlock request.blockId = some moved ∧
      ¬ (request.targetSpaceId = moved.spaceId ∧ request.targetParentId = none) ∧
      (∀ t, request.targetParentId = some t → t ≠ request.blockId ∧ ∃ parent,
        σ.getBlock t = some parent ∧ parent.spaceId = request.targetSpaceId ∧
        moved.network.subnetOf parent.network ∧ moved.network ≠ parent.network) ∧
      collectDescendants σ request.blockId = .ok plan.descendantBlockIds ∧
      assertNoBlockOverlap σ request.targetSpaceId moved.network request.targetParentId
        (some request.blockId) = .ok plan.reparentChainBlockIds ∧
      σ' = { σ with
        blocks := σ.blocks.modify (moveBlockRow request plan)
        subnets := σ.subnets.modify fun _ s => moveSubnetRow request plan s } := by
  simp only [commitMove, assembleMovePlan, bind_eq_ok, require_eq_ok, orRefuse_eq_ok,
    exists_const, pure_eq_ok] at h
  obtain ⟨-, moved, hmoved, -, plan, ⟨_, -, hthere, _, hparent, ids, hids, -, chain, hchain, rfl⟩,
    rfl⟩ := h
  refine ⟨moved, ⟨ids, chain⟩, hmoved, hthere, ?_, hids, hchain, rfl⟩
  intro t ht
  rw [ht] at hparent
  simp only [validateTargetParent, bind_eq_ok, require_eq_ok, orRefuse_eq_ok, exists_const]
    at hparent
  obtain ⟨parent, hp, hsp, hne, hsub, hcidr⟩ := hparent
  exact ⟨hne, parent, hp, hsp, hsub, hcidr⟩

section MovedRows

variable (request : MoveRequest) (plan : MovePlan) (i : Nat) (b : IPBlock) (s : Subnet)

@[simp] theorem moveBlockRow_network : (moveBlockRow request plan i b).network = b.network := by
  unfold moveBlockRow
  split <;> split <;> split <;> rfl

@[simp] theorem moveBlockRow_deletion : (moveBlockRow request plan i b).deletion = b.deletion := by
  unfold moveBlockRow
  split <;> split <;> split <;> rfl

theorem moveBlockRow_spaceId : (moveBlockRow request plan i b).spaceId =
    if i = request.blockId ∨ i ∈ plan.descendantBlockIds then request.targetSpaceId
    else b.spaceId := by
  unfold moveBlockRow
  split <;> split <;> split <;> simp_all

theorem moveBlockRow_parentBlockId : (moveBlockRow request plan i b).parentBlockId =
    if i ∈ plan.reparentChainBlockIds then some request.blockId
    else if i = request.blockId then request.targetParentId else b.parentBlockId := by
  unfold moveBlockRow
  split <;> split <;> split <;> simp_all

@[simp] theorem moveSubnetRow_network : (moveSubnetRow request plan s).network = s.network := by
  unfold moveSubnetRow
  split <;> rfl

@[simp] theorem moveSubnetRow_blockId : (moveSubnetRow request plan s).blockId = s.blockId := by
  unfold moveSubnetRow
  split <;> rfl

@[simp] theorem moveSubnetRow_deletion : (moveSubnetRow request plan s).deletion = s.deletion := by
  unfold moveSubnetRow
  split <;> rfl

theorem moveSubnetRow_spaceId : (moveSubnetRow request plan s).spaceId =
    if s.blockId = request.blockId ∨ s.blockId ∈ plan.descendantBlockIds then
      request.targetSpaceId
    else s.spaceId := by
  unfold moveSubnetRow
  simp only [List.mem_cons]
  split <;> rfl

end MovedRows

def validateGrow (oldNet newNet : Net) : Except Refusal Unit := do
  require (oldNet.version = newNet.version) .familyChange
  require (newNet.prefixlen < oldNet.prefixlen) .notAGrowth
  require (oldNet.subnetOf newNet) (.notContainedInNew oldNet newNet)

/-- An untouched network or broadcast row, safe to delete and recreate. -/
def isDefaultPlaceholder (row : IPAddress) : Bool :=
  (row.status == .network || row.status == .broadcast) &&
    (row.hostname == none || row.hostname == some "" || row.hostname == some "network" ||
      row.hostname == some "broadcast") &&
    (row.description == "" || row.description == "Network address" ||
      row.description == "Broadcast address") &&
    row.dnsRecordId == none

/-- The gateway row a new subnet is seeded with, untouched. -/
def isDefaultGatewayRow (row : IPAddress) : Bool :=
  row.status == .reserved && row.hostname == some "gateway" && row.description == "Gateway" &&
    row.dnsRecordId == none

/-- The addresses of the host rows that one of the networks would have as its
network or broadcast address, those that had that role before set aside. -/
def boundaryHostConflicts (rows : List IPAddress) (nets : List Net) (kind : SubnetKind)
    (already : List Address) : List Address :=
  (rows.filter fun row =>
    row.status != .network && row.status != .broadcast && !(row.address ∈ already) &&
      row.address ∈ nets.flatMap fun net => boundaryAddresses net kind).map (·.address)

def subnetRows (σ : Store) (subnetId : Nat) : List IPAddress :=
  (σ.addresses.select fun _ a => a.subnetId == subnetId).map Prod.snd

def missingBoundaryRows (σ : Store) (subnetId : Nat) (net : Net) (kind : SubnetKind) :
    List IPAddress :=
  ((boundaryRows net kind).filter fun r =>
    !(r.1 ∈ (subnetRows σ subnetId).map (·.address))).map fun r =>
      { subnetId, address := r.1, status := r.2.1, description := r.2.2 }

def ensureBoundaryRows (σ : Store) (subnetId : Nat) (net : Net) (kind : SubnetKind) : Store :=
  { σ with addresses := σ.addresses.insertAll (missingBoundaryRows σ subnetId net kind) }

structure SubnetResize where
  subnetId : Nat
  newCidr : Net
  moveGatewayToFirstUsable : Bool := false
  replaceDefaultPlaceholders : Bool := true
  otherChecks : Bool := true

def firstUsable (net : Net) : Option Address :=
  if net.prefixlen < (match net.version with | .v4 => 31 | .v6 => 127) then some (net.nth 1)
  else none

/-- The boundary addresses whose untouched rows a resize replaces. -/
def oldBoundary (net : Net) : List Address :=
  net.nth 0 ::
    if net.version = .v4 ∧ net.prefixlen ≤ 30 then [net.nth (net.numAddresses - 1)] else []

/-- The block of a subnet and the blocks above it, 64 levels at most. -/
def ancestorBlockIds (σ : Store) : Nat → Option Nat → List Nat → List Nat
  | 0, _, ancestors => ancestors
  | _ + 1, none, ancestors => ancestors
  | fuel + 1, some current, ancestors =>
    if current ∈ ancestors then ancestors
    else ancestorBlockIds σ fuel (σ.parentBlock current) (ancestors ++ [current])

def overlapConflictsSpaceSubnets (σ : Store) (spaceId : Nat) (newCidr : Net) (excludeId : Nat)
    (oldCidr : Net) : List (Nat × Subnet) :=
  σ.liveSubnets fun i s =>
    s.spaceId == spaceId && s.network.overlaps newCidr && i != excludeId && s.network != oldCidr

def overlapConflictsSpaceBlocksForSubnet (σ : Store) (spaceId : Nat) (newCidr : Net)
    (excludeBlockIds : List Nat) : List (Nat × IPBlock) :=
  σ.liveBlocks fun i b =>
    b.spaceId == spaceId && b.network.overlaps newCidr && !(i ∈ excludeBlockIds)

def refuseSubnets (newCidr : Net) : List (Nat × Subnet) → Except Refusal Unit
  | [] => .ok ()
  | (_, s) :: _ => .error (.overlapsSubnet newCidr s.network)

def refuseBlocks (newCidr : Net) : List (Nat × IPBlock) → Except Refusal Unit
  | [] => .ok ()
  | (_, b) :: _ => .error (.blockInTheWay newCidr b.network)

def refuseHosts : List Address → Except Refusal Unit
  | [] => .ok ()
  | a :: _ => .error (.hostOnBoundary a)

/-- The parent has to contain the new CIDR; a parent that is gone does not
refuse. -/
def parentContainment (σ : Store) (newNet : Net) (parentId : Option Nat) : Except Refusal Unit :=
  match parentId.bind σ.getBlock with
  | none => .ok ()
  | some parent => require (newNet.subnetOf parent.network) (.parentTooSmall newNet parent.network)

/-- Moving the gateway needs a usable host at which no other row sits. -/
def checkGatewayMove (σ : Store) (request : SubnetResize) (subnet : Subnet) :
    Except Refusal Unit :=
  if request.moveGatewayToFirstUsable then do
    let target ← orRefuse (firstUsable request.newCidr) .gatewayHasNoHost
    require (subnet.gateway = some target ∨
      ∀ row ∈ subnetRows σ request.subnetId, row.address ≠ target) (.gatewayTaken target)
  else .ok ()

def resizedGateway (request : SubnetResize) (subnet : Subnet) : Option Address :=
  if request.moveGatewayToFirstUsable then firstUsable request.newCidr else subnet.gateway

/-- The address rows after the resize: old default boundary rows replaced by
new ones, and the gateway's row moved with it. -/
def resizeAddresses (σ : Store) (request : SubnetResize) (subnet : Subnet) : Table IPAddress :=
  let σ₁ :=
    if request.replaceDefaultPlaceholders then
      ensureBoundaryRows { σ with
        addresses := σ.addresses.keep fun _ a =>
          !(a.subnetId == request.subnetId && a.address ∈ oldBoundary subnet.network &&
            isDefaultPlaceholder a) } request.subnetId request.newCidr subnet.kind
    else σ
  match resizedGateway request subnet with
  | none => σ₁.addresses
  | some gateway =>
    if request.moveGatewayToFirstUsable && subnet.gateway != some gateway then
      (σ₁.addresses.keep fun _ a =>
        !(request.replaceDefaultPlaceholders && a.subnetId == request.subnetId &&
          some a.address == subnet.gateway && isDefaultGatewayRow a)).insert
        { subnetId := request.subnetId, address := gateway, status := .reserved,
          description := "Gateway", hostname := some "gateway" }
    else σ₁.addresses

def commitSubnetResize (σ : Store) (request : SubnetResize) : Except Refusal Store := do
  require (request.otherChecks = true) .refusedElsewhere
  let subnet ← orRefuse (σ.getSubnet request.subnetId) .subnetNotFound
  validateGrow subnet.network request.newCidr
  checkGatewayMove σ request subnet
  refuseSubnets request.newCidr
    (overlapConflictsSpaceSubnets σ subnet.spaceId request.newCidr request.subnetId subnet.network)
  refuseBlocks request.newCidr
    (overlapConflictsSpaceBlocksForSubnet σ subnet.spaceId request.newCidr
      (ancestorBlockIds σ 64 (some subnet.blockId) []))
  parentContainment σ request.newCidr (some subnet.blockId)
  refuseHosts (boundaryHostConflicts (subnetRows σ request.subnetId) [request.newCidr]
    subnet.kind (boundaryAddresses subnet.network subnet.kind))
  return { σ with
    subnets := σ.subnets.modify fun i s =>
      if i = request.subnetId then
        { s with network := request.newCidr, gateway := resizedGateway request subnet }
      else s
    addresses := resizeAddresses σ request subnet }

structure BlockResize where
  blockId : Nat
  newCidr : Net
  otherChecks : Bool := true

/-- The blocks above `i`, as many as the fuel allows. -/
def ancestorIds (σ : Store) : Nat → Nat → List Nat
  | 0, _ => []
  | fuel + 1, i =>
    match σ.parentBlock i with
    | none => []
    | some p => p :: ancestorIds σ fuel p

def liveChildBlocks (σ : Store) (i : Nat) : List Nat :=
  (σ.liveBlocks fun _ b => b.parentBlockId == some i).map Prod.fst

def commitBlockResize (σ : Store) (request : BlockResize) : Except Refusal Store := do
  require (request.otherChecks = true) .refusedElsewhere
  let block ← orRefuse (σ.getBlock request.blockId) .blockNotFound
  validateGrow block.network request.newCidr
  parentContainment σ request.newCidr block.parentBlockId
  let descendants ← collectDescendants σ request.blockId
  let subtree := request.blockId :: descendants
  let ancestors := ancestorIds σ (σ.blocks.rows.length + 1) request.blockId
  refuseBlocks request.newCidr (σ.liveBlocks fun i b =>
    b.spaceId == block.spaceId && b.network.overlaps request.newCidr && !(i ∈ subtree) &&
      !(i ∈ ancestors))
  refuseSubnets request.newCidr (σ.liveSubnets fun _ s =>
    s.spaceId == block.spaceId && s.network.overlaps request.newCidr && !(s.blockId ∈ subtree))
  -- Every live descendant has to fit in the new CIDR.
  let live ← orRefuse
    (below (liveChildBlocks σ) (σ.blocks.rows.length + 1) [request.blockId]) .diverges
  require (∀ r ∈ σ.liveBlocks fun i _ => i ∈ live && i != request.blockId,
    r.2.network.subnetOf request.newCidr) (.notContainedInNew block.network request.newCidr)
  require (∀ r ∈ σ.liveSubnets fun _ s => s.blockId ∈ live,
    r.2.network.subnetOf request.newCidr) (.notContainedInNew block.network request.newCidr)
  return { σ with
    blocks := σ.blocks.modify fun i b =>
      if i = request.blockId then { b with network := request.newCidr } else b }

variable {u : Unit}

variable {newNet newCidr : Net}

theorem validateGrow_ok {oldNet : Net} (h : validateGrow oldNet newNet = .ok u) :
    oldNet.subnetOf newNet := by
  simp only [validateGrow, bind_eq_ok, require_eq_ok, exists_const] at h
  exact h.2.2

theorem refuseSubnets_ok {rows : List (Nat × Subnet)} (h : refuseSubnets newCidr rows = .ok u) :
    rows = [] := by
  cases rows with
  | nil => rfl
  | cons r rest => simp [refuseSubnets] at h

theorem refuseBlocks_ok {rows : List (Nat × IPBlock)} (h : refuseBlocks newCidr rows = .ok u) :
    rows = [] := by
  cases rows with
  | nil => rfl
  | cons r rest => simp [refuseBlocks] at h

variable {σ : Store}

theorem parentContainment_ok {q : IPBlock} (h : parentContainment σ newNet (some p) = .ok u)
    (hq : σ.getBlock p = some q) : newNet.subnetOf q.network := by
  simpa only [parentContainment, Option.bind_some, hq, require_eq_ok] using h

theorem mem_ancestorBlockIds {current : Option Nat} {ancestors : List Nat}
    (hcurrent : ∀ c, current = some c → Above σ.parentBlock p c)
    (hancestors : ∀ a ∈ ancestors, Above σ.parentBlock p a)
    (hi : i ∈ ancestorBlockIds σ fuel current ancestors) : Above σ.parentBlock p i := by
  induction fuel generalizing current ancestors with
  | zero => cases current <;> exact hancestors i hi
  | succ fuel ih =>
    cases current with
    | none => exact hancestors i hi
    | some c =>
      have hc := hcurrent c rfl
      unfold ancestorBlockIds at hi
      split at hi
      · exact hancestors i hi
      · refine ih (fun d hd => hc.tail hd) (fun a ha => ?_) hi
        rcases List.mem_append.mp ha with ha | ha
        · exact hancestors a ha
        · rw [List.mem_singleton.mp ha]
          exact hc

theorem mem_ancestorIds (h : j ∈ ancestorIds σ fuel i) :
    ∃ p, σ.parentBlock i = some p ∧ Above σ.parentBlock p j := by
  induction fuel generalizing i with
  | zero => simp [ancestorIds] at h
  | succ fuel ih =>
    unfold ancestorIds at h
    split at h
    · simp at h
    · rename_i p hp
      rcases List.mem_cons.mp h with rfl | h
      · exact ⟨j, hp, Above.refl _ _⟩
      · obtain ⟨q, hq, hqj⟩ := ih h
        exact ⟨p, hp, hqj.head hq⟩

theorem commitSubnetResize_ok {request : SubnetResize} (h : commitSubnetResize σ request = .ok σ') :
    ∃ subnet gateway addresses, σ.getSubnet request.subnetId = some subnet ∧
      subnet.network.subnetOf request.newCidr ∧
      (∀ i s, σ.getSubnet i = some s → s.spaceId = subnet.spaceId → i ≠ request.subnetId →
        s.network ≠ subnet.network → ¬ s.network.overlaps request.newCidr) ∧
      (∀ i b, σ.getBlock i = some b → b.spaceId = subnet.spaceId →
        b.network.overlaps request.newCidr → Above σ.parentBlock subnet.blockId i) ∧
      (∀ q, σ.getBlock subnet.blockId = some q → request.newCidr.subnetOf q.network) ∧
      σ' = { σ with
        subnets := σ.subnets.modify fun i s =>
          if i = request.subnetId then { s with network := request.newCidr, gateway } else s
        addresses } := by
  simp only [commitSubnetResize, bind_eq_ok, require_eq_ok, orRefuse_eq_ok, exists_const,
    pure_eq_ok] at h
  obtain ⟨-, subnet, hsubnet, _, hgrow, _, -, _, hsubnets, _, hblocks, _, hparent, _, -, rfl⟩ := h
  refine ⟨subnet, _, _, hsubnet, validateGrow_ok hgrow, ?_, ?_,
    fun q hq => parentContainment_ok hparent hq, rfl⟩
  · intro i s hs hsp hi hne ho
    have := Store.liveSubnets_eq_nil (refuseSubnets_ok hsubnets) hs
    simp [hsp, ho, hi, hne] at this
  · intro i b hb hsp ho
    have hi := Store.liveBlocks_eq_nil (refuseBlocks_ok hblocks) hb
    simp only [hsp, ho, beq_self_eq_true, decide_true, Bool.true_and, Bool.not_eq_false',
      decide_eq_true_eq] at hi
    exact mem_ancestorBlockIds (fun c hc => Option.some.inj hc ▸ Above.refl _ _) (by simp) hi

theorem commitBlockResize_ok {request : BlockResize} (h : commitBlockResize σ request = .ok σ') :
    ∃ block, σ.getBlock request.blockId = some block ∧
      block.network.subnetOf request.newCidr ∧
      (∀ p q, block.parentBlockId = some p → σ.getBlock p = some q →
        request.newCidr.subnetOf q.network) ∧
      (∀ i b, σ.getBlock i = some b → b.spaceId = block.spaceId →
        b.network.overlaps request.newCidr → Above σ.parentBlock i request.blockId ∨
          ∃ p, block.parentBlockId = some p ∧ Above σ.parentBlock p i) ∧
      (∀ i s, σ.getSubnet i = some s → s.spaceId = block.spaceId →
        s.network.overlaps request.newCidr → Above σ.parentBlock s.blockId request.blockId) ∧
      σ' = { σ with
        blocks := σ.blocks.modify fun i b =>
          if i = request.blockId then { b with network := request.newCidr } else b } := by
  simp only [commitBlockResize, bind_eq_ok, require_eq_ok, orRefuse_eq_ok, exists_const,
    pure_eq_ok] at h
  obtain ⟨-, block, hblock, _, hgrow, _, hparent, ids, hids, _, hblocks, _, hsubnets, _, -, -, -,
    rfl⟩ := h
  have hbelow : ∀ i, i ∈ request.blockId :: ids → Above σ.parentBlock i request.blockId := by
    intro i hi
    rcases List.mem_cons.mp hi with rfl | hi
    · exact Above.refl _ _
    · obtain ⟨c, hc, hic⟩ := (mem_collectDescendants hids).mp hi
      exact hic.tail hc
  refine ⟨block, hblock, validateGrow_ok hgrow, ?_, ?_, ?_, rfl⟩
  · intro p q hp hq
    rw [hp] at hparent
    exact parentContainment_ok hparent hq
  · intro i b hb hsp ho
    have hi := Store.liveBlocks_eq_nil (refuseBlocks_ok hblocks) hb
    simp only [hsp, ho, beq_self_eq_true, decide_true, Bool.true_and, Bool.and_eq_false_imp,
      Bool.not_eq_true', decide_eq_false_iff_not, Bool.not_eq_false', decide_eq_true_eq] at hi
    by_cases hsubtree : i ∈ request.blockId :: ids
    · exact Or.inl (hbelow i hsubtree)
    · obtain ⟨p, hp, hpi⟩ := mem_ancestorIds (hi hsubtree)
      obtain ⟨b', hb', hpar⟩ := Store.parentBlock_eq_some.mp hp
      obtain rfl : block = b' :=
        Option.some.inj ((Store.getBlock_eq_some.mp hblock).1.symm.trans hb')
      exact Or.inr ⟨p, hpar, hpi⟩
  · intro i s hs hsp ho
    have hi := Store.liveSubnets_eq_nil (refuseSubnets_ok hsubnets) hs
    simp only [hsp, ho, beq_self_eq_true, decide_true, Bool.true_and, Bool.not_eq_false',
      decide_eq_true_eq] at hi
    exact hbelow _ hi

end SpatiumDdi.Ipam
