import SpatiumDdi.Ipam.Merge

/-!
Applying a saved subnet plan: a tree of planned blocks and subnets, optionally
anchored on an existing block, is checked against itself and against the
space and then written in one pass.
-/

namespace SpatiumDdi.Ipam

open Ipaddress

inductive PlanKind where
  | block
  | subnet
deriving DecidableEq

structure PlanNode where
  id : String
  kind : PlanKind
  network : Net
  gateway : Option Address := none
deriving DecidableEq

/-- The children of a node, in order: the first, its own children, and its
siblings after it. -/
inductive PlanForest where
  | nil
  | cons (node : PlanNode) (children siblings : PlanForest)
deriving DecidableEq

structure SubnetPlan where
  spaceId : Nat
  root : PlanNode
  children : PlanForest
  existingBlockId : Option Nat := none
  applied : Bool := false
  otherChecks : Bool := true

def PlanForest.walk : PlanForest → List PlanNode
  | .nil => []
  | .cons node children siblings => node :: (children.walk ++ siblings.walk)

inductive PlanConflictKind where
  | duplicateId
  | invalidKind
  | missingBlock
  | outOfParent
  | siblingOverlap
  | overlapExisting
  | invalidGateway (problem : GatewayProblem)
deriving DecidableEq

structure PlanConflict where
  nodeId : String
  kind : PlanConflictKind
deriving DecidableEq

def duplicateIds : List String → List PlanNode → List PlanConflict
  | _, [] => []
  | seen, n :: rest =>
    (if n.id ∈ seen then [⟨n.id, .duplicateId⟩] else []) ++ duplicateIds (n.id :: seen) rest

def kindConflicts : PlanForest → List PlanConflict
  | .nil => []
  | .cons node children siblings =>
    (if node.kind = .subnet ∧ children ≠ .nil then [⟨node.id, .invalidKind⟩] else []) ++
      kindConflicts children ++ kindConflicts siblings

/-- `check_subtree`: every node fits inside its parent and meets no sibling
before it. -/
def subtreeConflicts (parent : Net) : List Net → PlanForest → List PlanConflict
  | _, .nil => []
  | seen, .cons node children siblings =>
    if node.network.version ≠ parent.version then
      ⟨node.id, .outOfParent⟩ :: subtreeConflicts parent seen siblings
    else
      (if node.network.subnetOf parent then [] else [⟨node.id, .outOfParent⟩]) ++
      (seen.filter fun previous => node.network.overlaps previous).map
        (fun _ => ⟨node.id, .siblingOverlap⟩) ++
      subtreeConflicts node.network [] children ++
      subtreeConflicts parent (seen ++ [node.network]) siblings

/-- The anchor and the blocks that contain it, which a plan does not conflict
with. -/
def anchorChain (σ : Store) : Nat → List Nat → Nat → List Nat
  | 0, skip, _ => skip
  | fuel + 1, skip, current =>
    match (σ.getBlock current).bind (·.parentBlockId) with
    | none => skip
    | some parent => if parent ∈ skip then skip else anchorChain σ fuel (parent :: skip) parent

/-- The existing live networks of the space that a plan may not meet. -/
def existingNetworks (σ : Store) (spaceId : Nat) (skip : List Nat) : List Net :=
  (σ.liveBlocks fun i b => b.spaceId == spaceId && !(i ∈ skip)).map (·.2.network) ++
    (σ.liveSubnets fun _ s => s.spaceId == spaceId).map (·.2.network)

def overlapConflicts (existing : List Net) (n : PlanNode) : List PlanConflict :=
  (existing.filter fun e => n.network.overlaps e).map fun _ => ⟨n.id, .overlapExisting⟩

def gatewayConflicts (n : PlanNode) : List PlanConflict :=
  match n.kind with
  | .block => []
  | .subnet =>
    match gatewayProblem n.gateway n.network
        (hasBoundaryRows n.network (subnetKindFor n.network)) with
    | none => []
    | some problem => [⟨n.id, .invalidGateway problem⟩]

def anchorIsValid (σ : Store) (plan : SubnetPlan) : Bool :=
  match plan.existingBlockId with
  | none => true
  | some anchor =>
    (σ.getBlock anchor).any fun b => b.spaceId == plan.spaceId && b.network == plan.root.network

def skippedBlocks (σ : Store) (plan : SubnetPlan) : List Nat :=
  match plan.existingBlockId with
  | none => []
  | some anchor => anchorChain σ (σ.blocks.rows.length + 1) [anchor] anchor

/-- The nodes that will become rows. -/
def newNodes (plan : SubnetPlan) : List PlanNode :=
  match plan.existingBlockId with
  | none => plan.root :: plan.children.walk
  | some _ => plan.children.walk

def validateTree (σ : Store) (plan : SubnetPlan) : List PlanConflict :=
  let nodes := plan.root :: plan.children.walk
  let local₁ := duplicateIds [] nodes ++
    (if plan.root.kind ≠ .block then [⟨plan.root.id, .invalidKind⟩] else []) ++
    kindConflicts plan.children
  if !anchorIsValid σ plan then local₁ ++ [⟨plan.root.id, .missingBlock⟩]
  else
    local₁ ++ subtreeConflicts plan.root.network [] plan.children ++
    (newNodes plan).flatMap
      (overlapConflicts (existingNetworks σ plan.spaceId (skippedBlocks σ plan))) ++
    (newNodes plan).flatMap gatewayConflicts

def materialise (spaceId : Nat) : Nat → PlanForest → Store → Except Refusal Store
  | _, .nil, σ => .ok σ
  | parentBlockId, .cons node children siblings, σ =>
    match node.kind with
    | .block => do
      let σ₁ := insertBlock σ
        { spaceId, parentBlockId := some parentBlockId, network := node.network }
      let σ₂ ← materialise spaceId σ.blocks.next children σ₁
      materialise spaceId parentBlockId siblings σ₂
    | .subnet => do
      let kind := subnetKindFor node.network
      checkGateway node.gateway node.network (hasBoundaryRows node.network kind)
      let σ₁ := insertSubnet σ
        { spaceId, blockId := parentBlockId, network := node.network, kind,
          gateway := node.gateway } (hasBoundaryRows node.network kind)
      materialise spaceId parentBlockId siblings σ₁

def applyPlan (σ : Store) (plan : SubnetPlan) : Except Refusal Store := do
  require (plan.otherChecks = true) .refusedElsewhere
  require (plan.applied = false) .planApplied
  require (validateTree σ plan = []) .planConflicts
  match plan.existingBlockId with
  | some anchor => materialise plan.spaceId anchor plan.children σ
  | none =>
    materialise plan.spaceId σ.blocks.next plan.children
      (insertBlock σ
        { spaceId := plan.spaceId, parentBlockId := none, network := plan.root.network })

variable {node : PlanNode} {children siblings forest : PlanForest}

theorem subtreeConflicts_cons {parent : Net} {seen : List Net}
    (h : subtreeConflicts parent seen (.cons node children siblings) = []) :
    node.network.subnetOf parent ∧ (∀ previous ∈ seen, ¬ node.network.overlaps previous) ∧
      subtreeConflicts node.network [] children = [] ∧
      subtreeConflicts parent (seen ++ [node.network]) siblings = [] := by
  unfold subtreeConflicts at h
  split at h
  · simp at h
  · simp only [List.append_eq_nil_iff, ite_eq_left_iff, List.map_eq_nil_iff,
      List.filter_eq_nil_iff, decide_eq_true_eq] at h
    obtain ⟨⟨⟨hsub, hseen⟩, hchildren⟩, hsiblings⟩ := h
    refine ⟨by_contra fun hn => ?_, hseen, hchildren, hsiblings⟩
    simpa using hsub hn

theorem mem_walk_of_subtreeConflicts {parent : Net} {seen : List Net}
    (h : subtreeConflicts parent seen forest = []) {n : PlanNode} (hn : n ∈ forest.walk) :
    n.network.subnetOf parent ∧ ∀ previous ∈ seen, ¬ n.network.overlaps previous := by
  induction forest generalizing parent seen with
  | nil => simp [PlanForest.walk] at hn
  | cons node children siblings ihc ihs =>
    obtain ⟨hsub, hseen, hchildren, hsiblings⟩ := subtreeConflicts_cons h
    simp only [PlanForest.walk, List.mem_cons, List.mem_append] at hn
    rcases hn with rfl | hn | hn
    · exact ⟨hsub, hseen⟩
    · have hin := (ihc hchildren hn).1
      exact ⟨hin.trans hsub, fun previous hp ho => hseen previous hp (ho.mono_left hin)⟩
    · obtain ⟨hin, hoff⟩ := ihs hsiblings hn
      exact ⟨hin, fun previous hp => hoff previous (by simp [hp])⟩

variable {σ σ' : Store}

theorem validateTree_ok {plan : SubnetPlan} (h : validateTree σ plan = []) :
    anchorIsValid σ plan = true ∧ subtreeConflicts plan.root.network [] plan.children = [] ∧
      ∀ n ∈ newNodes plan,
        ∀ e ∈ existingNetworks σ plan.spaceId (skippedBlocks σ plan), ¬ n.network.overlaps e := by
  unfold validateTree at h
  simp only at h
  split at h
  · simp at h
  · rename_i hanchor
    simp only [List.append_eq_nil_iff, List.flatMap_eq_nil_iff, overlapConflicts,
      List.map_eq_nil_iff, List.filter_eq_nil_iff, decide_eq_true_eq] at h
    exact ⟨by simpa using hanchor, h.1.1.2, h.1.2⟩

variable {i spaceId parentBlockId : Nat}

theorem mem_anchorChain {fuel current : Nat} {skip : List Nat} (anchor : Nat)
    (hskip : ∀ a ∈ skip, Forest.Above σ.parentBlock anchor a)
    (hcurrent : Forest.Above σ.parentBlock anchor current)
    (hi : i ∈ anchorChain σ fuel skip current) : Forest.Above σ.parentBlock anchor i := by
  induction fuel generalizing skip current with
  | zero => exact hskip i hi
  | succ fuel ih =>
    unfold anchorChain at hi
    split at hi
    · exact hskip i hi
    · rename_i parent heq
      obtain ⟨b, hb, hp⟩ := Option.bind_eq_some_iff.mp heq
      have habove : Forest.Above σ.parentBlock anchor parent := hcurrent.tail
        (Store.parentBlock_eq_some.mpr ⟨b, (Store.getBlock_eq_some.mp hb).1, hp⟩)
      split at hi
      · exact hskip i hi
      · refine ih (fun a ha => ?_) habove hi
        rcases List.mem_cons.mp ha with rfl | ha
        · exact habove
        · exact hskip a ha

theorem applyPlan_ok {plan : SubnetPlan} (h : applyPlan σ plan = .ok σ') :
    validateTree σ plan = [] ∧
      match plan.existingBlockId with
      | some anchor => materialise plan.spaceId anchor plan.children σ = .ok σ'
      | none => materialise plan.spaceId σ.blocks.next plan.children
          (insertBlock σ (.mk plan.spaceId none plan.root.network false none)) = .ok σ' := by
  simp only [applyPlan, bind_eq_ok, require_eq_ok, exists_const] at h
  obtain ⟨-, -, hvalid, h⟩ := h
  refine ⟨hvalid, ?_⟩
  cases hanchor : plan.existingBlockId <;> simpa only [hanchor] using h

theorem materialise_cons
    (h : materialise spaceId parentBlockId (.cons node children siblings) σ = .ok σ') :
    (∃ σ₂, materialise spaceId σ.blocks.next children
        (insertBlock σ (.mk spaceId (some parentBlockId) node.network false none)) = .ok σ₂ ∧
      materialise spaceId parentBlockId siblings σ₂ = .ok σ') ∨
    ∃ subnet placeholders, subnet.spaceId = spaceId ∧ subnet.blockId = parentBlockId ∧
      subnet.network = node.network ∧ subnet.deletion = none ∧
      materialise spaceId parentBlockId siblings (insertSubnet σ subnet placeholders) =
        .ok σ' := by
  unfold materialise at h
  split at h
  · simp only [bind_eq_ok] at h
    exact Or.inl h
  · simp only [bind_eq_ok] at h
    obtain ⟨_, -, h⟩ := h
    exact Or.inr ⟨_, _, rfl, rfl, rfl, rfl, h⟩

theorem materialise_getBlock (h : materialise spaceId parentBlockId forest σ = .ok σ') {b : IPBlock}
    (hb : σ.getBlock i = some b) : σ'.getBlock i = some b := by
  induction forest generalizing parentBlockId σ σ' with
  | nil =>
    simp only [materialise, Except.ok.injEq] at h
    exact h ▸ hb
  | cons node children siblings ihc ihs =>
    rcases materialise_cons h with ⟨σ₂, hchildren, hsiblings⟩ | ⟨subnet, _, -, -, -, -, h⟩
    · exact ihs hsiblings (ihc hchildren (getBlock_insertBlock _ hb))
    · exact ihs h (by rwa [getBlock_insertSubnet])

end SpatiumDdi.Ipam
