import SpatiumDdi.Ipam.Carve
import SpatiumDdi.Ipam.FreeSpace

/-!
When the free-space finder's answers are free. The finder looks at a block's
direct children only, so it relies on a block's direct subnets and child blocks
being apart (`ChildrenApart`). Allocating, growing, splitting and merging keep
that. Creating does not: `createSubnet` compares the new subnet with subnets
only, and `createBlock` compares the new block with blocks only. `FreeSafe`
says when they do no harm.
-/

namespace SpatiumDdi.Ipam

open Ipaddress Forest Trash

/-- The candidate meets no live subnet of the space, and no live block of the
space but its block and the blocks above that. -/
structure TrulyFree (σ : Store) (spaceId : Nat) (c : FreeSpaceCandidate) : Prop where
  subnets : ∀ i s, σ.getSubnet i = some s → s.spaceId = spaceId → ¬ c.cidr.overlaps s.network
  blocks : ∀ i b, σ.getBlock i = some b → b.spaceId = spaceId →
    ¬ Above σ.parentBlock c.parentBlockId i → ¬ c.cidr.overlaps b.network

/-- A live subnet meets no live child block of its block. -/
def ChildrenApart (σ : Store) : Prop :=
  ∀ i j s b, σ.getSubnet i = some s → σ.getBlock j = some b →
    b.parentBlockId = some s.blockId → ¬ s.network.overlaps b.network

variable {σ : Store}

theorem SlotOf.trulyFree (htree : TreeInv σ) (hsiblings : SiblingsApart σ)
    (hchildren : ChildrenApart σ) {spaceId : Nat} {blocks : List (Nat × IPBlock)}
    (hblocks : ∀ i b, (i, b) ∈ blocks → σ.getBlock i = some b ∧ b.spaceId = spaceId)
    {c : FreeSpaceCandidate} (hc : SlotOf σ blocks c) : TrulyFree σ spaceId c := by
  obtain ⟨b, hb, -, hsub, hoff⟩ := hc
  obtain ⟨hb, hsp⟩ := hblocks _ _ hb
  obtain ⟨hrow, -⟩ := Store.getBlock_eq_some.mp hb
  have hnested := hsiblings.nested htree spaceId
  have hbmem : c.parentBlockId ∈ liveIn σ spaceId := ⟨b, hb, hsp⟩
  -- A block that is not above ours and meets the slot lies below a child of ours.
  have hnone : ∀ i d, σ.getBlock i = some d → d.spaceId = spaceId →
      ¬ Above σ.parentBlock c.parentBlockId i → ¬ c.cidr.overlaps d.network := by
    intro i d hd hdsp hnot ho
    obtain ⟨hdrow, -⟩ := Store.getBlock_eq_some.mp hd
    have hmeet : ¬ Disjoint (region σ i) (region σ c.parentBlockId) :=
      (region_meet hdrow hrow).mpr (ho.mono_left hsub).symm
    obtain ⟨k, ⟨kb, hk, -⟩, hik, hkp⟩ := hnested.exists_child ⟨d, hd, hdsp⟩ hbmem hmeet hnot
    obtain ⟨hkrow, -⟩ := Store.getBlock_eq_some.mp hk
    obtain ⟨kb', hk', -, hdk⟩ := htree.above hdrow hik
    obtain rfl : kb' = kb := Option.some.inj (hk'.symm.trans hkrow)
    have hkpar : kb'.parentBlockId = some c.parentBlockId := by
      simpa [Store.parentBlock, hkrow] using hkp
    exact hoff _ (mem_directChildren.mpr (Or.inl ⟨k, kb', hk, hkpar, rfl⟩)) (ho.mono_right hdk)
  refine ⟨fun i s hs hssp ho => ?_, hnone⟩
  obtain ⟨q, hq, hqsp, hsq⟩ := htree.block_live hs
  obtain ⟨hqrow, -⟩ := Store.getBlock_eq_some.mp hq
  by_cases habove : Above σ.parentBlock c.parentBlockId s.blockId
  · rcases habove.cases_child with he | ⟨k, hck, hks⟩
    · exact hoff _ (mem_directChildren.mpr (Or.inr ⟨i, s, hs, he.symm, rfl⟩)) ho
    · obtain ⟨kb, hk, -, hbk⟩ := htree.above hrow hck
      obtain ⟨kb', hk', -⟩ := hnested.closed_above hbmem hck
      obtain rfl : kb = kb' := Option.some.inj (hk.symm.trans (Store.getBlock_eq_some.mp hk').1)
      have hkpar : kb.parentBlockId = some s.blockId := by
        simpa [Store.parentBlock, hk] using hks
      exact hchildren i k s kb hs hk' hkpar ((ho.mono_left (hsub.trans hbk)).symm)
  · exact hnone s.blockId q hq (hqsp.trans hssp) habove (ho.mono_right hsq)

/-- No live subnet directly under the new block's parent strictly contains it,
and no slot of its template meets a block it takes over. -/
def CreateBlockClear (σ : Store) (body : BlockCreate) : Prop :=
  (∀ i s, σ.getSubnet i = some s → body.parentBlockId = some s.blockId →
    s.network ≠ body.network → ¬ body.network.subnetOf s.network) ∧
  ∀ slot ∈ body.slots, ∀ i b, σ.getBlock i = some b → b.spaceId = body.spaceId →
    b.parentBlockId = body.parentBlockId → ¬ slot.overlaps b.network

/-- The new subnet meets no live child block of its block. -/
def CreateSubnetClear (σ : Store) (body : SubnetCreate) : Prop :=
  ∀ i b, σ.getBlock i = some b → b.parentBlockId = some body.blockId →
    ¬ body.network.overlaps b.network

/-- The operations of a run, and when they keep the finder's answers free. -/
def FreeSafe (σ : Store) : Op → Prop
  | .createBlock body => CreateBlockClear σ body
  | .createSubnet body => CreateSubnetClear σ body
  | .applyPlan _ | .commitMove _ | .restoreBatch _ => False
  | _ => True

namespace ChildrenApart

variable {σ σ' : Store}

theorem empty : ChildrenApart .empty := by
  intro i j s b hs
  simp [Store.empty, Store.getSubnet] at hs

section

variable (h : ChildrenApart σ) {subnetId blockId : Nat}
include h

theorem rewrite
    (hsubnets : ∀ i s', σ'.getSubnet i = some s' → ∃ s, σ.getSubnet i = some s ∧ s'.network = s.network ∧ s'.blockId = s.blockId)
    (hblocks : ∀ j b', σ'.getBlock j = some b' → ∃ b, σ.getBlock j = some b ∧ b'.network = b.network ∧ b'.parentBlockId = b.parentBlockId) :
    ChildrenApart σ' := by
  intro i j s' b' hs' hb' hp
  obtain ⟨s, hs, hsn, hsb⟩ := hsubnets i s' hs'
  obtain ⟨b, hb, hbn, hbp⟩ := hblocks j b' hb'
  rw [hsn, hbn]
  exact h i j s b hs hb (hbp.symm.trans (hp.trans (congrArg some hsb)))

theorem subnets (hblocks : σ'.blocks = σ.blocks)
    (hsubnets : ∀ i s, σ'.getSubnet i = some s → σ.getSubnet i = some s ∨ ∀ j b, σ.getBlock j = some b → b.parentBlockId = some s.blockId → ¬ s.network.overlaps b.network) :
    ChildrenApart σ' := by
  intro i j s b hs hb hp
  rw [Store.getBlock, hblocks] at hb
  rcases hsubnets i s hs with hs | hs
  · exact h i j s b hs hb hp
  · exact hs j b hb hp

theorem createSubnet {body : SubnetCreate} (hop : createSubnet σ body = .ok (subnetId, σ'))
    (hclear : CreateSubnetClear σ body) : ChildrenApart σ' := by
  obtain ⟨block, subnet, placeholders, -, -, -, -, -, -, hb, hnet, hlive, rfl⟩ :=
    createSubnet_ok hop
  obtain ⟨gateway, hrow⟩ := insertSubnet_subnets σ subnet placeholders
  refine h.subnets (by simp) fun i s hs => ?_
  obtain ⟨hs, hd⟩ := Store.getSubnet_eq_some.mp hs
  rw [hrow] at hs
  rcases Table.get?_insert_cases hs with ⟨-, rfl⟩ | hs
  · refine Or.inr fun j b hbj hp => ?_
    rw [show ({ subnet with gateway } : Subnet).network = body.network from hnet]
    exact hclear j b hbj (hp.trans (congrArg some hb))
  · exact Or.inl (Store.getSubnet_eq_some.mpr ⟨hs, hd⟩)

theorem allocateSubnet {body : SubnetAllocate}
    (hop : allocateSubnet σ blockId body = .ok (subnetId, σ')) : ChildrenApart σ' := by
  have hop' := hop
  simp only [Ipam.allocateSubnet, bind_eq_ok, orRefuse_eq_ok] at hop'
  obtain ⟨block, hblock, _, hprefix, chosen, hchosen, hcreate⟩ := hop'
  simp only [checkPrefixLen, bind_eq_ok, require_eq_ok, exists_const] at hprefix
  obtain ⟨-, hfree⟩ := chooseSubnet_ok hprefix.1 hprefix.2.le hchosen
  refine h.createSubnet hcreate fun i b hb hp => ?_
  exact hfree _ (mem_directChildren.mpr (Or.inl ⟨i, b, hb, hp, rfl⟩))

theorem commitBlockResize (htree : TreeInv σ) {request : BlockResize}
    (hop : commitBlockResize σ request = .ok σ') : ChildrenApart σ' := by
  obtain ⟨block, hblock, -, -, -, hfree, rfl⟩ := commitBlockResize_ok hop
  obtain ⟨hrow, -⟩ := Store.getBlock_eq_some.mp hblock
  intro i j s b' hs hb' hp
  have hs : σ.getSubnet i = some s := hs
  obtain ⟨hb', hd⟩ := Store.getBlock_eq_some.mp hb'
  simp only [Table.get?_modify, Option.map_eq_some_iff] at hb'
  obtain ⟨b, hb, rfl⟩ := hb'
  by_cases hj : j = request.blockId
  · subst hj
    obtain rfl : b = block := Option.some.inj (hb.symm.trans hrow)
    simp only [if_true] at hp ⊢
    intro ho
    obtain ⟨q, hq, hqsp, -⟩ := htree.block_live hs
    obtain ⟨q', hq', hqsp', -⟩ := htree.parent_live hblock hp
    obtain rfl := Option.some.inj (hq.symm.trans hq')
    have hbelow := hfree i s hs (hqsp.symm.trans hqsp') ho
    exact (htree.rooted _).not_above (Store.parentBlock_eq_some.mpr ⟨b, hb, hp⟩) hbelow
  · simp only [hj, if_false] at hp hd ⊢
    exact h i j s b hs (Store.getBlock_eq_some.mpr ⟨hb, hd⟩) hp

theorem commitSubnetResize (htree : TreeInv σ) {request : SubnetResize}
    (hop : commitSubnetResize σ request = .ok σ') : ChildrenApart σ' := by
  obtain ⟨subnet, gateway, addresses, hsubnet, -, -, hfree, -, rfl⟩ := commitSubnetResize_ok hop
  refine h.subnets rfl fun i s' hs' => ?_
  obtain ⟨hs', hd⟩ := Store.getSubnet_eq_some.mp hs'
  simp only [Table.get?_modify, Option.map_eq_some_iff] at hs'
  obtain ⟨s, hs, rfl⟩ := hs'
  by_cases hi : i = request.subnetId
  · subst hi
    obtain rfl : s = subnet :=
      Option.some.inj (hs.symm.trans (Store.getSubnet_eq_some.mp hsubnet).1)
    simp only [if_true] at hd ⊢
    refine Or.inr fun j b hb hp ho => ?_
    obtain ⟨q, hq, hqsp, -⟩ := htree.block_live hsubnet
    obtain ⟨q', hq', hqsp', -⟩ := htree.parent_live hb hp
    obtain rfl := Option.some.inj (hq.symm.trans hq')
    have habove := hfree j b hb (hqsp'.symm.trans hqsp) ho.symm
    exact (htree.rooted j).not_above
      (Store.parentBlock_eq_some.mpr ⟨b, (Store.getBlock_eq_some.mp hb).1, hp⟩) habove
  · simp only [hi, if_false] at hd ⊢
    exact Or.inl (Store.getSubnet_eq_some.mpr ⟨hs, hd⟩)

theorem commitSubnetSplit {request : SubnetSplit} {ids : List Nat}
    (hop : commitSubnetSplit σ request = .ok (ids, σ')) : ChildrenApart σ' := by
  obtain ⟨subnet, hsubnet, hlt, hle, hblocks, -, -, hsubnets⟩ := commitSubnetSplit_ok hop
  refine h.subnets hblocks fun i s hs => ?_
  obtain ⟨hs, hd⟩ := Store.getSubnet_eq_some.mp hs
  rw [hsubnets, Table.get?_keep, Option.filter_eq_some_iff, Table.get?_insertAll_iff] at hs
  rcases hs.1 with hs | ⟨k, -, hk⟩
  · exact Or.inl (Store.getSubnet_eq_some.mpr ⟨hs, hd⟩)
  · obtain ⟨net, hnet, rfl⟩ := List.mem_map.mp (List.mem_of_getElem? hk)
    have hsub : net.subnetOf subnet.network := ((Net.mem_subnets hlt.le (by omega)).mp hnet).1
    exact Or.inr fun j b hb hp ho =>
      h request.subnetId j subnet b hsubnet hb hp (Net.overlaps.mono_left ho hsub)

theorem commitSubnetMerge {request : SubnetMerge} {mergedId : Nat}
    (hop : commitSubnetMerge σ request = .ok (mergedId, σ')) : ChildrenApart σ' := by
  obtain ⟨target, sources, merged, gateway, -, -, hsources, hsame, hcovered, hblocks, -, -,
    hsubnets⟩ := commitSubnetMerge_ok hop
  refine h.subnets hblocks fun i s hs => ?_
  obtain ⟨hs, hd⟩ := Store.getSubnet_eq_some.mp hs
  rw [hsubnets] at hs
  split at hs
  · simp at hs
  rcases Table.get?_insert_cases hs with ⟨-, rfl⟩ | hs
  · refine Or.inr fun j b hb hp ho => ?_
    obtain ⟨m, hm, hover⟩ := hcovered.exists_overlaps (Net.overlaps.symm ho)
    obtain ⟨source, hsource, rfl⟩ := List.mem_map.mp hm
    refine h source.1 j source.2 b (hsources source hsource) hb ?_ hover.symm
    rw [hsame source hsource]
    exact hp
  · exact Or.inl (Store.getSubnet_eq_some.mpr ⟨hs, hd⟩)

theorem createBlock (htree : TreeInv σ) {body : BlockCreate}
    (hop : createBlock σ body = .ok (blockId, σ')) (hclear : CreateBlockClear σ body) :
    ChildrenApart σ' := by
  obtain ⟨ids, carved, -, hparent, hids, hcarved, rfl⟩ := createBlock_ok hop
  obtain ⟨hall, hcovered⟩ := assertNoBlockOverlap_eq_ok hids
  obtain ⟨haround, hslots⟩ := hclear
  -- No old row hangs under the new block, which is not its own parent.
  have hfreshBlock : ∀ j b, σ.blocks.get? j = some b → b.parentBlockId ≠ some σ.blocks.next := by
    intro j b hb hp
    obtain ⟨q, hq, -⟩ := htree.parent hb hp
    simp at hq
  have hfreshSubnet : ∀ i s, σ.subnets.get? i = some s → s.blockId ≠ σ.blocks.next := by
    intro i s hs hp
    obtain ⟨q, hq, -⟩ := htree.block hs
    simp [hp] at hq
  have hnotself : body.parentBlockId ≠ some σ.blocks.next := by
    intro hp
    obtain ⟨q, hq, -⟩ := hparent _ hp
    simp [Store.getBlock] at hq
  have hsubnet : ∀ i s', (adopt { Ipam.insertBlock σ body.row with
      subnets := σ.subnets.insertAll carved } σ.blocks.next body ids).getSubnet i = some s' →
      (s'.blockId = σ.blocks.next ∧ s'.network ∈ body.slots) ∨
      ∃ s, σ.getSubnet i = some s ∧ s'.network = s.network ∧
        (s'.blockId = σ.blocks.next ∧ body.parentBlockId = some s.blockId ∨
          s' = s ∧ adoptsSubnet body s = false) := by
    intro i s' hs'
    obtain ⟨hs', hd⟩ := Store.getSubnet_eq_some.mp hs'
    simp only [adopt, Table.get?_modify, Option.map_eq_some_iff] at hs'
    obtain ⟨s, hs, rfl⟩ := hs'
    rcases Table.get?_insertAll_iff.mp hs with hs | ⟨k, -, hk⟩
    · right
      split at hd <;> rename_i had
      · refine ⟨s, Store.getSubnet_eq_some.mpr ⟨hs, hd⟩, by simp [had], Or.inl ⟨by simp [had], ?_⟩⟩
        simp only [adoptsSubnet, Bool.and_eq_true, beq_iff_eq] at had
        exact had.1.2
      · have had' : adoptsSubnet body s = false := by simpa using had
        exact ⟨s, Store.getSubnet_eq_some.mpr ⟨hs, hd⟩, by simp [had'], Or.inr ⟨by simp [had'], had'⟩⟩
    · left
      have hmem := List.mem_of_getElem? hk
      have hb := ((carveChildren_ok hcarved).1 s hmem).2.1
      have hslot := mem_slots_of_carveChildren hcarved s hmem
      split
      · exact ⟨rfl, hslot⟩
      · exact ⟨hb, hslot⟩
  intro i j s' b' hs' hb' hp ho
  obtain ⟨hb', hbd⟩ := Store.getBlock_eq_some.mp hb'
  simp only [adopt, Table.get?_modify, Option.map_eq_some_iff] at hb'
  obtain ⟨b, hb, rfl⟩ := hb'
  by_cases hj : j ∈ ids
  · -- A block taken over, against what hangs beside it now.
    obtain ⟨b₁, hb₁, hbsp, hbp, -⟩ := hcovered j hj
    obtain rfl : b = b₁ := Option.some.inj (hb.symm.trans
      (Table.get?_insert_of_get? _ (Store.getBlock_eq_some.mp hb₁).1))
    simp only [hj, if_true, Option.some.injEq] at hp ho
    rcases hsubnet i s' hs' with ⟨-, hslot⟩ | ⟨s, hs, hnet, ⟨-, hsp⟩ | ⟨rfl, -⟩⟩
    · exact hslots _ hslot j b hb₁ hbsp hbp ho
    · exact h i j s b hs hb₁ (hbp.trans hsp) (hnet ▸ ho)
    · exact hfreshSubnet i s' (Store.getSubnet_eq_some.mp hs).1 hp.symm
  simp only [hj, if_false] at hp hbd ho
  rcases Table.get?_insert_cases hb with ⟨rfl, rfl⟩ | hb
  · -- The new block, against what stays under its parent.
    rcases hsubnet i s' hs' with ⟨hm, -⟩ | ⟨s, hs, hnet, ⟨hm, -⟩ | ⟨rfl, had⟩⟩
    · exact hnotself (hp.trans (congrArg some hm))
    · exact hnotself (hp.trans (congrArg some hm))
    · have hpar : body.parentBlockId = some s'.blockId := hp
      obtain ⟨q, hq, hqsp, -⟩ := htree.block_live hs
      obtain ⟨q', hq', hqsp', -⟩ := hparent _ hpar
      obtain rfl := Option.some.inj (hq.symm.trans hq')
      have hnot : ¬ s'.network.subnetOf body.network := fun hsub => by
        simp [adoptsSubnet, (Store.getSubnet_eq_some.mp hs).2, hqsp.symm.trans hqsp', hpar,
          hsub] at had
      rcases ho.nested with hsub | hsub
      · exact hnot hsub
      · exact haround i s' hs hpar (fun he => hnot (he ▸ Net.subnetOf.refl _)) hsub
  · have hlive := Store.getBlock_eq_some.mpr ⟨hb, hbd⟩
    rcases hsubnet i s' hs' with ⟨hm, -⟩ | ⟨s, hs, hnet, ⟨hm, -⟩ | ⟨rfl, -⟩⟩
    · exact hfreshBlock j b hb (hp.trans (congrArg some hm))
    · exact hfreshBlock j b hb (hp.trans (congrArg some hm))
    · exact h i j s' b hs hlive hp ho

theorem updateBlock (htree : TreeInv σ) (hsiblings : SiblingsApart σ)
    {parentBlockId : Option (Option Nat)} {otherChecks : Bool}
    (hop : updateBlock σ blockId parentBlockId otherChecks = .ok σ') : ChildrenApart σ' := by
  refine h.rewrite (fun i s hs => ⟨s, ?_, rfl, rfl⟩) fun j b hb => ⟨b, ?_, rfl, rfl⟩
  · rwa [Store.getSubnet, updateBlock_subnets hop, ← Store.getSubnet] at hs
  · rwa [Store.getBlock, hsiblings.updateBlock_blocks htree hop, ← Store.getBlock] at hb

theorem softDelete {request : SoftDelete} {batch : Nat}
    (hop : softDelete σ request = .ok (batch, σ')) : ChildrenApart σ' := by
  simp only [Trash.softDelete, bind_eq_ok, pure_eq_ok, Prod.mk.injEq] at hop
  obtain ⟨keys, -, -, rfl⟩ := hop
  refine h.rewrite (fun i s' hs' => ?_) fun j b' hb' => ?_
  · obtain ⟨hs', hd⟩ := Store.getSubnet_eq_some.mp hs'
    simp only [applySoftDelete, Table.get?_modify, Option.map_eq_some_iff] at hs'
    obtain ⟨s, hs, rfl⟩ := hs'
    exact ⟨s, Store.getSubnet_eq_some.mpr ⟨hs, (stamp_eq_none.mp hd).2⟩, rfl, rfl⟩
  · obtain ⟨hb', hd⟩ := Store.getBlock_eq_some.mp hb'
    simp only [applySoftDelete, Table.get?_modify, Option.map_eq_some_iff] at hb'
    obtain ⟨b, hb, rfl⟩ := hb'
    exact ⟨b, Store.getBlock_eq_some.mpr ⟨hb, (stamp_eq_none.mp hd).2⟩, rfl, rfl⟩

end

end ChildrenApart

theorem ChildrenApart.step {σ' : Store} (h : ChildrenApart σ) (htree : TreeInv σ)
    (hsiblings : SiblingsApart σ) {op : Op} (hsafe : FreeSafe σ op) (hop : step σ op = .ok σ') :
    ChildrenApart σ' := by
  cases op <;> simp only [Ipam.step, map_snd_eq_ok] at hop
  case createSpace =>
    obtain ⟨_, hop⟩ := hop
    obtain ⟨-, rfl⟩ := createSpace_ok hop
    exact h.subnets rfl fun i s hs => Or.inl hs
  case createBlock => exact hop.elim fun _ hop => h.createBlock htree hop hsafe
  case updateBlock => exact h.updateBlock htree hsiblings hop
  case createSubnet => exact hop.elim fun _ hop => h.createSubnet hop hsafe
  case allocateSubnet => exact hop.elim fun _ => h.allocateSubnet
  case applyPlan => exact hsafe.elim
  case commitSubnetResize => exact h.commitSubnetResize htree hop
  case commitBlockResize => exact h.commitBlockResize htree hop
  case commitSubnetSplit => exact hop.elim fun _ => h.commitSubnetSplit
  case commitSubnetMerge => exact hop.elim fun _ => h.commitSubnetMerge
  case commitMove => exact hsafe.elim
  case softDelete => exact hop.elim fun _ => h.softDelete
  case restoreBatch => exact hsafe.elim

theorem FreeSafe.blockSafe {op : Op} (h : FreeSafe σ op) : BlockSafe σ op := by
  cases op <;> trivial

theorem Reachable.childrenApart (h : Reachable FreeSafe σ) : ChildrenApart σ := by
  induction h with
  | empty => exact ChildrenApart.empty
  | step op hreach hsafe hop ih =>
    exact ih.step hreach.treeInv (hreach.mono fun _ _ => FreeSafe.blockSafe).siblingsApart hsafe hop

/-- In a run whose creations are clear, what the finder returns is free. -/
theorem trulyFree_of_reachable {σ : Store} (h : Reachable FreeSafe σ) {request : FreeSpaceRequest}
    (hparent : ∀ p b, request.parentBlockId = some p → σ.getBlock p = some b →
      b.spaceId = request.spaceId)
    {c : FreeSpaceCandidate} (hc : c ∈ (findFreeSpace σ request).candidates) :
    TrulyFree σ request.spaceId c :=
  (mem_findFreeSpace hc).trulyFree h.treeInv
    (h.mono fun _ _ => FreeSafe.blockSafe).siblingsApart h.childrenApart
    fun _ _ hb => mem_loadBlocks h.treeInv hparent hb

def carvedSubnet : List Op :=
  [.createSpace "left",
    .createBlock { spaceId := 0, network := Net.ofValue .v4 (10 * 2 ^ 24) 22 },
    .allocateSubnet 0 { prefixLen := 24 }]

theorem trulyFree_carvedSubnet : ∃ σ c, (run .empty carvedSubnet).toOption = some σ ∧
    (findFreeSpace σ { spaceId := 0, prefixLength := 24, parentBlockId := some 0 }).candidates[0]? =
      some c ∧ TrulyFree σ 0 c := by
  have hend : ((run .empty carvedSubnet).toOption.any fun σ =>
      ((findFreeSpace σ { spaceId := 0, prefixLength := 24,
                          parentBlockId := some 0 }).candidates[0]?.any fun _ => true) &&
        (σ.getBlock 0).all fun b => b.spaceId == 0) = true := by decide +kernel
  simp only [Option.any_eq_true, Bool.and_eq_true, and_true, Option.all_eq_true,
    beq_iff_eq] at hend
  obtain ⟨σ, hrun, ⟨c, hc⟩, hspace⟩ := hend
  refine ⟨σ, c, hrun, hc, trulyFree_of_reachable (.of_run hrun ?_) ?_ (List.mem_of_getElem? hc)⟩
  · intro σ op hop
    simp only [carvedSubnet, List.mem_cons, List.not_mem_nil, or_false] at hop
    rcases hop with rfl | rfl | rfl <;>
      simp [FreeSafe, CreateBlockClear, BlockCreate.slots, layoutSlots]
  · intro p b hp hb
    obtain rfl := Option.some.inj hp
    exact hspace b hb

/-- The subnet directly under 10.0.0.0/8 lies over the child block, whose slot
10.0.0.0/24 the finder offers. -/
theorem not_trulyFree_subnetOverChildBlock :
    ∃ σ, Reachable (fun _ op => op.isCreation = true) σ ∧
      ∃ c ∈ (findFreeSpace σ { spaceId := 0, prefixLength := 24 }).candidates,
        ¬ TrulyFree σ 0 c := by
  have hend : ((run .empty subnetOverChildBlock).toOption.any fun σ =>
      (findFreeSpace σ { spaceId := 0, prefixLength := 24 }).candidates[0]?.any fun c =>
        (σ.getSubnet 0).any fun s => s.spaceId == 0 && c.cidr.overlaps s.network) = true := by
    decide +kernel
  simp only [Option.any_eq_true, Bool.and_eq_true, beq_iff_eq, decide_eq_true_eq] at hend
  obtain ⟨σ, hrun, c, hc, s, hs, hsp, ho⟩ := hend
  exact ⟨σ, .of_run hrun fun _ => by decide, c, List.mem_of_getElem? hc,
    fun h => h.subnets 0 s hs hsp ho⟩

end SpatiumDdi.Ipam
