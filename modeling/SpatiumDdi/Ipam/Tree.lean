import SpatiumDdi.Ipam.Plan
import SpatiumDdi.Trash

/-!
The block tree. `TreeInv` says that parent pointers end, that every block and
subnet lies in the network and the space of the block above it, and that what
is above a live row is live. Every operation keeps it. Sections follow the
operations; each says what the operation leaves in the tables and then that the
invariant survives.
-/

namespace SpatiumDdi.Ipam

open Ipaddress Forest

/-- A row with these columns may hang under block `p`. -/
def UnderBlock (σ : Store) (p spaceId : Nat) (network : Net) (deletion : Option Nat) : Prop :=
  ∃ q, σ.blocks.get? p = some q ∧ q.spaceId = spaceId ∧ network.subnetOf q.network ∧
    (deletion = none → q.deletion = none)

structure TreeInv (σ : Store) : Prop where
  parent : ∀ {i b p}, σ.blocks.get? i = some b → b.parentBlockId = some p →
    UnderBlock σ p b.spaceId b.network b.deletion
  block : ∀ {i s}, σ.subnets.get? i = some s →
    UnderBlock σ s.blockId s.spaceId s.network s.deletion
  rooted : ∀ i, Rooted σ.parentBlock i
  blockStamp : ∀ {i b n}, σ.blocks.get? i = some b → b.deletion = some n → n < σ.nextBatch
  subnetStamp : ∀ {i s n}, σ.subnets.get? i = some s → s.deletion = some n → n < σ.nextBatch

theorem treeInv_empty : TreeInv .empty where
  parent := by simp [Store.empty]
  block := by simp [Store.empty]
  rooted i := Rooted.of_parent fun j hj => by simp [Store.empty, Store.parentBlock] at hj
  blockStamp := by simp [Store.empty]
  subnetStamp := by simp [Store.empty]

variable {σ' σ : Store} {p spaceId : Nat} {network : Net} {deletion : Option Nat}
  {request : MoveRequest}

section

variable (h : UnderBlock σ p spaceId network deletion)
include h

theorem UnderBlock.mono
    (hb : ∀ q, σ.blocks.get? p = some q → ∃ q', σ'.blocks.get? p = some q' ∧ q'.spaceId = q.spaceId ∧ q.network.subnetOf q'.network ∧ (q.deletion = none → q'.deletion = none)) :
    UnderBlock σ' p spaceId network deletion := by
  obtain ⟨q, hq, hsp, hsub, hlive⟩ := h
  obtain ⟨q', hq', hsp', hsub', hlive'⟩ := hb q hq
  exact ⟨q', hq', hsp'.trans hsp, hsub.trans hsub', fun hd => hlive' (hlive hd)⟩

theorem UnderBlock.congr (hb : σ'.blocks = σ.blocks) :
    UnderBlock σ' p spaceId network deletion := by
  unfold UnderBlock
  rwa [hb]

end

theorem UnderBlock.of_getBlock {q : IPBlock} (hq : σ.getBlock p = some q)
    (hsub : network.subnetOf q.network) (deletion : Option Nat) :
    UnderBlock σ p q.spaceId network deletion := by
  obtain ⟨hq, hlive⟩ := Store.getBlock_eq_some.mp hq
  exact ⟨q, hq, rfl, hsub, fun _ => hlive⟩

namespace TreeInv

variable {σ : Store}

theorem congr (h : TreeInv σ) (hb : σ'.blocks = σ.blocks) (hs : σ'.subnets = σ.subnets)
    (hn : σ.nextBatch ≤ σ'.nextBatch) : TreeInv σ' where
  parent hi hp := by
    rw [hb] at hi
    exact (h.parent hi hp).congr hb
  block hi := by
    rw [hs] at hi
    exact (h.block hi).congr hb
  rooted i := (h.rooted i).congr fun j => by rw [Store.parentBlock, hb]; rfl
  blockStamp hi hd := (h.blockStamp (hb ▸ hi) hd).trans_le hn
  subnetStamp hi hd := (h.subnetStamp (hs ▸ hi) hd).trans_le hn

variable {i : Nat} {b : IPBlock} {ids : List Nat}

theorem parent_live (h : TreeInv σ) (hb : σ.getBlock i = some b) (hp : b.parentBlockId = some p) :
    ∃ q, σ.getBlock p = some q ∧ q.spaceId = b.spaceId ∧
      b.network.subnetOf q.network := by
  obtain ⟨hb, hlive⟩ := Store.getBlock_eq_some.mp hb
  obtain ⟨q, hq, hsp, hsub, hd⟩ := h.parent hb hp
  exact ⟨q, Store.getBlock_eq_some.mpr ⟨hq, hd hlive⟩, hsp, hsub⟩

theorem block_live (h : TreeInv σ) {s : Subnet} (hs : σ.getSubnet i = some s) :
    ∃ q, σ.getBlock s.blockId = some q ∧ q.spaceId = s.spaceId ∧
      s.network.subnetOf q.network := by
  obtain ⟨hs, hlive⟩ := Store.getSubnet_eq_some.mp hs
  obtain ⟨q, hq, hsp, hsub, hd⟩ := h.block hs
  exact ⟨q, Store.getBlock_eq_some.mpr ⟨hq, hd hlive⟩, hsp, hsub⟩

theorem above (h : TreeInv σ) {j : Nat} (hb : σ.blocks.get? i = some b)
    (hij : Above σ.parentBlock i j) : ∃ c, σ.blocks.get? j = some c ∧ c.spaceId = b.spaceId ∧
      b.network.subnetOf c.network := by
  induction hij with
  | refl => exact ⟨b, hb, rfl, Net.subnetOf.refl _⟩
  | tail _ hjk ih =>
    obtain ⟨c, hc, hsp, hsub⟩ := ih
    obtain ⟨c', hc', hpar⟩ := Store.parentBlock_eq_some.mp hjk
    obtain rfl : c = c' := Option.some.inj (hc.symm.trans hc')
    obtain ⟨q, hq, hqsp, hqsub, -⟩ := h.parent hc hpar
    exact ⟨q, hq, hqsp.trans hsp, hsub.trans hqsub⟩

theorem parentBlock_insert (b : IPBlock) (i : Nat) :
    (insertBlock σ b).parentBlock i =
      if i = σ.blocks.next then b.parentBlockId else σ.parentBlock i := by
  simp only [Store.parentBlock, insertBlock, Table.get?_insert]
  split <;> simp

section

variable (h : TreeInv σ)
include h

theorem insertBlock (hlive : b.deletion = none)
    (hb : ∀ p, b.parentBlockId = some p → UnderBlock σ p b.spaceId b.network b.deletion) :
    TreeInv (insertBlock σ b) where
  parent hi hp := by
    rcases Table.get?_insert_cases hi with ⟨-, rfl⟩ | hi
    · exact (hb _ hp).mono fun q hq =>
        ⟨q, Table.get?_insert_of_get? _ hq, rfl, Net.subnetOf.refl _, fun hd => hd⟩
    · exact (h.parent hi hp).mono fun q hq =>
        ⟨q, Table.get?_insert_of_get? _ hq, rfl, Net.subnetOf.refl _, fun hd => hd⟩
  block hi := (h.block hi).mono fun q hq =>
    ⟨q, Table.get?_insert_of_get? _ hq, rfl, Net.subnetOf.refl _, fun hd => hd⟩
  rooted := by
    refine Rooted.repoint (m := σ.blocks.next) h.rooted (fun i hi => Or.inl ?_) ?_
    · rw [parentBlock_insert, if_neg hi]
    · intro t ht habove
      rw [parentBlock_insert, if_pos rfl] at ht
      obtain ⟨q, hq, -⟩ := hb t ht
      rcases habove.cases_child with rfl | ⟨c, -, hc⟩
      · simp at hq
      · obtain ⟨c', hc', hpar⟩ := Store.parentBlock_eq_some.mp hc
        obtain ⟨q', hq', -⟩ := h.parent hc' hpar
        simp at hq'
  blockStamp hi hd := by
    rcases Table.get?_insert_cases hi with ⟨-, rfl⟩ | hi
    · simp [hlive] at hd
    · exact h.blockStamp hi hd
  subnetStamp := h.subnetStamp

theorem replaceSubnets (hblocks : σ'.blocks = σ.blocks) (hbatch : σ'.nextBatch = σ.nextBatch)
    (hrows : ∀ i s, σ'.subnets.get? i = some s → UnderBlock σ s.blockId s.spaceId s.network s.deletion ∧ ∀ n, s.deletion = some n → n < σ.nextBatch) :
    TreeInv σ' where
  parent hi hp := by
    rw [hblocks] at hi
    exact (h.parent hi hp).congr hblocks
  block hi := (hrows _ _ hi).1.congr hblocks
  rooted i := (h.rooted i).congr fun j => by rw [Store.parentBlock, hblocks]; rfl
  blockStamp hi hd := by
    rw [hblocks] at hi
    rw [hbatch]
    exact h.blockStamp hi hd
  subnetStamp hi hd := by
    rw [hbatch]
    exact (hrows _ _ hi).2 _ hd

theorem insertSubnets (rows : List Subnet) (hblocks : σ'.blocks = σ.blocks)
    (hbatch : σ'.nextBatch = σ.nextBatch) (hsubnets : σ'.subnets = σ.subnets.insertAll rows)
    (hrows : ∀ s ∈ rows, s.deletion = none ∧ UnderBlock σ s.blockId s.spaceId s.network s.deletion) :
    TreeInv σ' := by
  refine h.replaceSubnets hblocks hbatch fun i s hs => ?_
  rw [hsubnets, Table.get?_insertAll_iff] at hs
  rcases hs with hs | ⟨k, -, hk⟩
  · exact ⟨h.block hs, fun n => h.subnetStamp hs⟩
  · obtain ⟨hlive, hunder⟩ := hrows s (List.mem_of_getElem? hk)
    exact ⟨hunder, fun n hn => by simp [hlive] at hn⟩

theorem insertSubnet {s : Subnet} (placeholders : Bool) (hlive : s.deletion = none)
    (hs : UnderBlock σ s.blockId s.spaceId s.network s.deletion) :
    TreeInv (insertSubnet σ s placeholders) := by
  obtain ⟨gateway, hrow⟩ := insertSubnet_subnets σ s placeholders
  refine h.insertSubnets [{ s with gateway }] (by simp) (by simp) hrow ?_
  simpa using ⟨hlive, hs⟩

theorem adopt {m : Nat} {row : IPBlock} {body : BlockCreate} (hm : σ.getBlock m = some row)
    (hspace : row.spaceId = body.spaceId) (hparent : row.parentBlockId = body.parentBlockId)
    (hnetwork : row.network = body.network)
    (hids : ∀ i ∈ ids, i ≠ m ∧ ∃ b, σ.getBlock i = some b ∧ b.spaceId = body.spaceId ∧
      b.parentBlockId = body.parentBlockId ∧ b.network.subnetOf body.network) :
    TreeInv (adopt σ m body ids) := by
  obtain ⟨hm, hlive⟩ := Store.getBlock_eq_some.mp hm
  have hkeep : ∀ {p spaceId network deletion}, UnderBlock σ p spaceId network deletion →
      UnderBlock (Ipam.adopt σ m body ids) p spaceId network deletion := by
    intro p spaceId network deletion hu
    refine hu.mono fun q hq => ⟨_, by rw [Ipam.adopt, Table.get?_modify, hq]; rfl, ?_⟩
    split <;> exact ⟨rfl, Net.subnetOf.refl _, fun hd => hd⟩
  have hunder : ∀ (network : Net) deletion, network.subnetOf body.network →
      UnderBlock (Ipam.adopt σ m body ids) m body.spaceId network deletion := by
    intro network deletion hsub
    exact hkeep ⟨row, hm, hspace, hnetwork ▸ hsub, fun _ => hlive⟩
  have hpointer : ∀ i, (Ipam.adopt σ m body ids).parentBlock i =
      if i ∈ ids then some m else σ.parentBlock i := by
    intro i
    simp only [Store.parentBlock, Ipam.adopt, Table.get?_modify]
    by_cases hi : i ∈ ids
    · obtain ⟨-, b, hb, -⟩ := hids i hi
      simp [hi, (Store.getBlock_eq_some.mp hb).1]
    · cases σ.blocks.get? i <;> simp [hi]
  constructor
  · intro i b' p hi hp
    simp only [Ipam.adopt, Table.get?_modify, Option.map_eq_some_iff] at hi
    obtain ⟨b, hb, rfl⟩ := hi
    split at hp
    · rename_i hmem
      obtain ⟨-, b₁, hb₁, hsp, -, hsub⟩ := hids i hmem
      obtain rfl : b₁ = b := Option.some.inj ((Store.getBlock_eq_some.mp hb₁).1.symm.trans hb)
      obtain rfl : m = p := Option.some.inj hp
      simp only [hmem, if_true]
      exact hsp ▸ hunder _ _ hsub
    · rename_i hmem
      simp only [hmem, if_false]
      exact hkeep (h.parent hb hp)
  · intro i s' hi
    simp only [Ipam.adopt, Table.get?_modify, Option.map_eq_some_iff] at hi
    obtain ⟨s, hs, rfl⟩ := hi
    split
    · rename_i had
      simp only [adoptsSubnet, Bool.and_eq_true, beq_iff_eq, decide_eq_true_eq] at had
      obtain ⟨⟨⟨-, hsp⟩, -⟩, hsub⟩ := had
      exact hsp ▸ hunder _ _ hsub
    · exact hkeep (h.block hs)
  · refine Rooted.repoint (m := m) h.rooted (fun i hi => ?_) ?_
    · rw [hpointer i, hpointer m]
      have hmm : m ∉ ids := fun hmem => (hids m hmem).1 rfl
      by_cases hmem : i ∈ ids
      · obtain ⟨-, b, hb, -, hpar, -⟩ := hids i hmem
        refine Or.inr ⟨by simp [hmem], ?_⟩
        simp [Store.parentBlock, (Store.getBlock_eq_some.mp hb).1, hpar, hmm, hm, hparent]
      · exact Or.inl (by simp [hmem])
    · intro t ht
      have hmm : m ∉ ids := fun hmem => (hids m hmem).1 rfl
      rw [hpointer m, if_neg hmm] at ht
      exact (h.rooted m).not_above ht
  · intro i b' n hi hd
    simp only [Ipam.adopt, Table.get?_modify, Option.map_eq_some_iff] at hi
    obtain ⟨b, hb, rfl⟩ := hi
    refine h.blockStamp hb (n := n) ?_
    split at hd <;> exact hd
  · intro i s' n hi hd
    simp only [Ipam.adopt, Table.get?_modify, Option.map_eq_some_iff] at hi
    obtain ⟨s, hs, rfl⟩ := hi
    refine h.subnetStamp hs (n := n) ?_
    split at hd <;> exact hd

end

variable {blockId : Nat}

section

variable (h : TreeInv σ) {subnetId : Nat}
include h

theorem createBlock {body : BlockCreate} (hop : createBlock σ body = .ok (blockId, σ')) :
    TreeInv σ' := by
  obtain ⟨ids, carved, -, hparent, hids, hcarved, rfl⟩ := createBlock_ok hop
  obtain ⟨-, hcovered⟩ := assertNoBlockOverlap_eq_ok hids
  have hblock : TreeInv (Ipam.insertBlock σ body.row) := by
    refine h.insertBlock rfl fun p hp => ?_
    obtain ⟨q, hq, hsp, hsub⟩ := hparent p hp
    have hunder := UnderBlock.of_getBlock hq hsub none
    rwa [hsp] at hunder
  have hrow : (Ipam.insertBlock σ body.row).getBlock σ.blocks.next = some body.row :=
    getBlock_insertBlock_next σ rfl
  have hsubnets : TreeInv { Ipam.insertBlock σ body.row with
      subnets := σ.subnets.insertAll carved } := by
    refine hblock.insertSubnets carved rfl rfl rfl fun s hs => ?_
    obtain ⟨hsp, hb, hlive, hsub⟩ := (carveChildren_ok hcarved).1 s hs
    rw [hsp, hb]
    exact ⟨hlive, UnderBlock.of_getBlock hrow hsub _⟩
  refine hsubnets.adopt hrow rfl rfl rfl fun i hi => ?_
  obtain ⟨b, hb, hsp, hpar, -, -, hsub⟩ := hcovered i hi
  exact ⟨Table.ne_next (Store.getBlock_eq_some.mp hb).1, b, getBlock_insertBlock _ hb, hsp, hpar,
    hsub⟩

theorem updateBlock {parentBlockId : Option (Option Nat)} {otherChecks : Bool}
    (hop : updateBlock σ blockId parentBlockId otherChecks = .ok σ') : TreeInv σ' := by
  cases parentBlockId with
  | none =>
    simp only [Ipam.updateBlock, bind_eq_ok, require_eq_ok, orRefuse_eq_ok, exists_const,
      pure_eq_ok] at hop
    obtain ⟨-, _, -, rfl⟩ := hop
    exact h
  | some newParentId =>
    obtain ⟨block, -, hblock, hparent, -, rfl⟩ := updateBlock_ok hop
    obtain ⟨hrow, -⟩ := Store.getBlock_eq_some.mp hblock
    have hkeep : ∀ {p spaceId network deletion}, UnderBlock σ p spaceId network deletion →
        UnderBlock { σ with
          blocks := σ.blocks.modify fun i b =>
            if i = blockId then { b with parentBlockId := newParentId } else b }
          p spaceId network deletion := by
      intro p spaceId network deletion hu
      refine hu.mono fun q hq => ⟨_, by rw [Table.get?_modify, hq]; rfl, ?_⟩
      split <;> exact ⟨rfl, Net.subnetOf.refl _, fun hd => hd⟩
    constructor
    · intro i b' p hi hp
      simp only [Table.get?_modify, Option.map_eq_some_iff] at hi
      obtain ⟨b, hb, rfl⟩ := hi
      by_cases hi : i = blockId
      · subst hi
        obtain rfl : b = block := Option.some.inj (hb.symm.trans hrow)
        simp only [if_true] at hp ⊢
        obtain ⟨-, ⟨q, hq, hsp, hsub⟩, -⟩ := hparent p hp
        exact hkeep (hsp ▸ UnderBlock.of_getBlock hq hsub _)
      · simp only [hi, if_false] at hp ⊢
        exact hkeep (h.parent hb hp)
    · exact fun hs => hkeep (h.block hs)
    · refine Rooted.repoint (m := blockId) h.rooted (fun i hi => Or.inl ?_) ?_
      · simp only [Store.parentBlock, Table.get?_modify]
        cases σ.blocks.get? i <;> simp [hi]
      · intro t ht
        have hnew : newParentId = some t := by
          simpa [Store.parentBlock, hrow] using ht
        obtain ⟨-, ⟨q, hq, -⟩, hcycle⟩ := hparent t hnew
        refine checkNoCycle_ok hcycle (fun i b p hb hp => ?_) hq
        obtain ⟨q', hq', -⟩ := h.parent_live hb hp
        exact ⟨q', hq'⟩
    · intro i b' n hi hd
      simp only [Table.get?_modify, Option.map_eq_some_iff] at hi
      obtain ⟨b, hb, rfl⟩ := hi
      refine h.blockStamp hb (n := n) ?_
      split at hd <;> exact hd
    · exact h.subnetStamp

theorem createSubnet {body : SubnetCreate} (hop : createSubnet σ body = .ok (subnetId, σ')) :
    TreeInv σ' := by
  obtain ⟨block, subnet, placeholders, -, hblock, hsp, hsub, -, hspace, hblockId, hnetwork, hlive,
    rfl⟩ := createSubnet_ok hop
  refine h.insertSubnet _ hlive ?_
  rw [hblockId, hspace, hnetwork, ← hsp]
  exact UnderBlock.of_getBlock hblock hsub _

theorem allocateSubnet {body : SubnetAllocate}
    (hop : allocateSubnet σ blockId body = .ok (subnetId, σ')) : TreeInv σ' := by
  obtain ⟨block, chosen, -, -, hcreate⟩ := allocateSubnet_ok hop
  exact h.createSubnet hcreate

theorem commitSubnetResize {request : SubnetResize} (hop : commitSubnetResize σ request = .ok σ') :
    TreeInv σ' := by
  obtain ⟨subnet, gateway, addresses, hsubnet, -, -, -, hparent, rfl⟩ := commitSubnetResize_ok hop
  refine h.replaceSubnets rfl rfl fun i s' hs' => ?_
  simp only [Table.get?_modify, Option.map_eq_some_iff] at hs'
  obtain ⟨s, hs, rfl⟩ := hs'
  split
  · rename_i hi
    subst hi
    obtain rfl : s = subnet :=
      Option.some.inj (hs.symm.trans (Store.getSubnet_eq_some.mp hsubnet).1)
    obtain ⟨q, hq, hsp, -⟩ := h.block_live hsubnet
    exact ⟨hsp ▸ UnderBlock.of_getBlock hq (hparent q hq) _, fun n hn => h.subnetStamp hs hn⟩
  · exact ⟨h.block hs, fun n => h.subnetStamp hs⟩

theorem commitSubnetSplit {request : SubnetSplit} {ids : List Nat}
    (hop : commitSubnetSplit σ request = .ok (ids, σ')) : TreeInv σ' := by
  obtain ⟨subnet, hsubnet, hlt, hle, hblocks, -, hbatch, hsubnets⟩ := commitSubnetSplit_ok hop
  refine h.replaceSubnets hblocks hbatch fun i s hs => ?_
  rw [hsubnets, Table.get?_keep, Option.filter_eq_some_iff, Table.get?_insertAll_iff] at hs
  rcases hs.1 with hs | ⟨k, -, hk⟩
  · exact ⟨h.block hs, fun n => h.subnetStamp hs⟩
  · obtain ⟨net, hnet, rfl⟩ := List.mem_map.mp (List.mem_of_getElem? hk)
    obtain ⟨q, hq, hsp, hsub⟩ := h.block_live hsubnet
    have hin : net.subnetOf subnet.network := ((Net.mem_subnets hlt.le (by omega)).mp hnet).1
    exact ⟨hsp ▸ UnderBlock.of_getBlock hq (hin.trans hsub) _,
      fun n hn => by simp [splitChild] at hn⟩

theorem commitSubnetMerge {request : SubnetMerge} {mergedId : Nat}
    (hop : commitSubnetMerge σ request = .ok (mergedId, σ')) : TreeInv σ' := by
  obtain ⟨target, sources, merged, gateway, htarget, -, hsources, hsame, hcovered, hblocks, -,
    hbatch, hsubnets⟩ := commitSubnetMerge_ok hop
  refine h.replaceSubnets hblocks hbatch fun i s hs => ?_
  rw [hsubnets] at hs
  split at hs
  · simp at hs
  rcases Table.get?_insert_cases hs with ⟨-, rfl⟩ | hs
  · obtain ⟨q, hq, hsp, -⟩ := h.block_live htarget
    refine ⟨hsp ▸ UnderBlock.of_getBlock hq (hcovered.subnetOf fun m hm => ?_) _,
      fun n hn => by simp [mergedSubnet] at hn⟩
    obtain ⟨r, hr, rfl⟩ := List.mem_map.mp hm
    obtain ⟨q', hq', -, hsub⟩ := h.block_live (hsources r hr)
    rw [hsame r hr, hq] at hq'
    exact Option.some.inj hq' ▸ hsub
  · exact ⟨h.block hs, fun n => h.subnetStamp hs⟩

theorem commitBlockResize {request : BlockResize} (hop : commitBlockResize σ request = .ok σ') :
    TreeInv σ' := by
  obtain ⟨block, hblock, hgrow, hparent, -, -, rfl⟩ := commitBlockResize_ok hop
  obtain ⟨hrow, hlive⟩ := Store.getBlock_eq_some.mp hblock
  have hkeep : ∀ {p spaceId network deletion}, UnderBlock σ p spaceId network deletion →
      UnderBlock { σ with
        blocks := σ.blocks.modify fun i b =>
          if i = request.blockId then { b with network := request.newCidr } else b }
        p spaceId network deletion := by
    intro p spaceId network deletion hu
    refine hu.mono fun q hq => ⟨_, by rw [Table.get?_modify, hq]; rfl, ?_⟩
    split
    · rename_i hp
      subst hp
      obtain rfl : q = block := Option.some.inj (hq.symm.trans hrow)
      exact ⟨rfl, hgrow, fun hd => hd⟩
    · exact ⟨rfl, Net.subnetOf.refl _, fun hd => hd⟩
  constructor
  · intro i b' p hi hp
    simp only [Table.get?_modify, Option.map_eq_some_iff] at hi
    obtain ⟨b, hb, rfl⟩ := hi
    split
    · rename_i hi
      subst hi
      obtain rfl : b = block := Option.some.inj (hb.symm.trans hrow)
      have hp : b.parentBlockId = some p := by simpa using hp
      obtain ⟨q, hq, hsp, -⟩ := h.parent_live hblock hp
      exact hkeep (hsp ▸ UnderBlock.of_getBlock hq (hparent p q hp hq) _)
    · rename_i hi
      exact hkeep (h.parent hb (by simpa [hi] using hp))
  · exact fun hs => hkeep (h.block hs)
  · refine fun i => (h.rooted i).congr fun j => ?_
    simp only [Store.parentBlock, Table.get?_modify]
    cases σ.blocks.get? j with
    | none => rfl
    | some b =>
      simp only [Option.map_some, Option.bind_some]
      split <;> rfl
  · intro i b' n hi hd
    simp only [Table.get?_modify, Option.map_eq_some_iff] at hi
    obtain ⟨b, hb, rfl⟩ := hi
    refine h.blockStamp hb (n := n) ?_
    split at hd <;> exact hd
  · exact h.subnetStamp

theorem materialise {parentBlockId : Nat} {forest : PlanForest} {seen : List Net} {parent : IPBlock}
    (hparent : σ.getBlock parentBlockId = some parent) (hspace : parent.spaceId = spaceId)
    (hvalid : subtreeConflicts parent.network seen forest = [])
    (hop : materialise spaceId parentBlockId forest σ = .ok σ') : TreeInv σ' := by
  induction forest generalizing parentBlockId parent seen σ σ' with
  | nil =>
    simp only [Ipam.materialise, Except.ok.injEq] at hop
    exact hop ▸ h
  | cons node children siblings ihc ihs =>
    obtain ⟨hsub, -, hchildren, hsiblings⟩ := subtreeConflicts_cons hvalid
    have hunder : UnderBlock σ parentBlockId spaceId node.network none :=
      hspace ▸ UnderBlock.of_getBlock hparent hsub none
    rcases materialise_cons hop with
      ⟨σ₂, hopc, hops⟩ | ⟨subnet, placeholders, hsp, hb, hnet, hlive, hops⟩
    · have hblock : TreeInv
          (Ipam.insertBlock σ (.mk spaceId (some parentBlockId) node.network false none)) :=
        h.insertBlock rfl fun p hp => Option.some.inj hp ▸ hunder
      have hp := materialise_getBlock hopc (getBlock_insertBlock _ hparent)
      exact ihs (ihc hblock (getBlock_insertBlock_next σ rfl) rfl hchildren hopc) hp hspace
        hsiblings hops
    · have hsubnet : TreeInv (Ipam.insertSubnet σ subnet placeholders) := by
        refine h.insertSubnet _ hlive ?_
        rwa [hb, hsp, hnet, hlive]
      exact ihs hsubnet (by rwa [getBlock_insertSubnet]) hspace hsiblings hops

theorem applyPlan {plan : SubnetPlan} (hop : applyPlan σ plan = .ok σ') : TreeInv σ' := by
  obtain ⟨hvalid, hop⟩ := applyPlan_ok hop
  obtain ⟨hanchor, htree, -⟩ := validateTree_ok hvalid
  unfold anchorIsValid at hanchor
  split at hop
  · rename_i anchor heq
    simp only [heq, Option.any_eq_true, Bool.and_eq_true, beq_iff_eq] at hanchor
    obtain ⟨b, hb, hsp, hnet⟩ := hanchor
    exact h.materialise hb hsp (hnet ▸ htree) hop
  · have hblock : TreeInv
        (Ipam.insertBlock σ (.mk plan.spaceId none plan.root.network false none)) :=
      h.insertBlock rfl (by simp)
    exact hblock.materialise (getBlock_insertBlock_next σ rfl) rfl htree hop

end

theorem mem_moved {root : Nat} (hids : collectDescendants σ root = .ok ids) :
    (i = root ∨ i ∈ ids) ↔ Above σ.parentBlock i root := by
  rw [mem_collectDescendants hids]
  constructor
  · rintro (rfl | ⟨c, hc, hic⟩)
    · exact Above.refl _ _
    · exact hic.tail hc
  · intro hi
    rcases hi.cases_child with rfl | ⟨c, hic, hc⟩
    · exact Or.inl rfl
    · exact Or.inr ⟨c, hc, hic⟩

theorem not_above_target (h : TreeInv σ) {m t : Nat} {moved parent : IPBlock}
    (hm : σ.getBlock m = some moved) (ht : σ.getBlock t = some parent)
    (hsub : moved.network.subnetOf parent.network) (hne : moved.network ≠ parent.network) :
    ¬ Above σ.parentBlock t m := by
  intro habove
  obtain ⟨c, hc, -, hin⟩ := h.above (Store.getBlock_eq_some.mp ht).1 habove
  obtain rfl : moved = c := Option.some.inj ((Store.getBlock_eq_some.mp hm).1.symm.trans hc)
  exact hne (hsub.antisymm hin)

end TreeInv

structure MovedBlock (σ : Store) (request : MoveRequest) (chain : List Nat) (i : Nat)
    (b b' : IPBlock) : Prop where
  network : b'.network = b.network
  deletion : b'.deletion = b.deletion
  inside : Above σ.parentBlock i request.blockId → b'.spaceId = request.targetSpaceId
  outside : ¬ Above σ.parentBlock i request.blockId → b'.spaceId = b.spaceId
  root : i = request.blockId → b'.parentBlockId = request.targetParentId
  covered : i ∈ chain → b'.parentBlockId = some request.blockId
  other : i ≠ request.blockId → i ∉ chain → b'.parentBlockId = b.parentBlockId

structure MovedSubnet (σ : Store) (request : MoveRequest) (s s' : Subnet) : Prop where
  network : s'.network = s.network
  blockId : s'.blockId = s.blockId
  deletion : s'.deletion = s.deletion
  inside : Above σ.parentBlock s.blockId request.blockId → s'.spaceId = request.targetSpaceId
  outside : ¬ Above σ.parentBlock s.blockId request.blockId → s'.spaceId = s.spaceId

/-- A committed move: the rows it rewrites, and what it has checked of the
target parent and of the blocks it hangs under the moved one. -/
structure MoveStep (σ : Store) (request : MoveRequest) (moved : IPBlock) (chain : List Nat)
    (σ' : Store) : Prop where
  root : σ.getBlock request.blockId = some moved
  target : ∀ t, request.targetParentId = some t → ¬ Above σ.parentBlock t request.blockId ∧
    ∃ parent, σ.getBlock t = some parent ∧ parent.spaceId = request.targetSpaceId ∧
      moved.network.subnetOf parent.network
  covered : ∀ i ∈ chain, ¬ Above σ.parentBlock i request.blockId ∧ ∃ b, σ.getBlock i = some b ∧
    b.spaceId = request.targetSpaceId ∧ b.parentBlockId = request.targetParentId ∧
    b.network.subnetOf moved.network
  siblings : ∀ i b, σ.getBlock i = some b → b.spaceId = request.targetSpaceId →
    b.parentBlockId = request.targetParentId → i ≠ request.blockId →
    b.network.overlaps moved.network → i ∈ chain
  blocks : ∀ {i b'}, σ'.blocks.get? i = some b' →
    ∃ b, σ.blocks.get? i = some b ∧ MovedBlock σ request chain i b b'
  kept : ∀ {i b}, σ.blocks.get? i = some b →
    ∃ b', σ'.blocks.get? i = some b' ∧ MovedBlock σ request chain i b b'
  subnets : ∀ {i s'}, σ'.subnets.get? i = some s' →
    ∃ s, σ.subnets.get? i = some s ∧ MovedSubnet σ request s s'
  nextBatch : σ'.nextBatch = σ.nextBatch

theorem commitMove_step (h : TreeInv σ) (hop : commitMove σ request = .ok σ') :
    ∃ moved chain, MoveStep σ request moved chain σ' := by
  obtain ⟨moved, plan, hmoved, -, htarget, hids, hchain, rfl⟩ := commitMove_ok hop
  obtain ⟨hall, hcovered⟩ := assertNoBlockOverlap_eq_ok hchain
  have htop : ∀ t, request.targetParentId = some t → ¬ Above σ.parentBlock t request.blockId := by
    intro t ht
    obtain ⟨-, parent, hp, -, hsub, hcidr⟩ := htarget t ht
    exact h.not_above_target hmoved hp hsub hcidr
  have hblock : ∀ i b, MovedBlock σ request plan.reparentChainBlockIds i b
      (moveBlockRow request plan i b) := by
    intro i b
    have hsp := moveBlockRow_spaceId request plan i b
    have hpar := moveBlockRow_parentBlockId request plan i b
    refine ⟨by simp, by simp, fun hi => by rw [hsp, if_pos ((TreeInv.mem_moved hids).mpr hi)],
      fun hi => by rw [hsp, if_neg (mt (TreeInv.mem_moved hids).mp hi)], fun hi => ?_, fun hi => by rw [hpar, if_pos hi],
      fun hi hc => by rw [hpar, if_neg hc, if_neg hi]⟩
    have hc : i ∉ plan.reparentChainBlockIds := by
      intro hc
      obtain ⟨b, -, -, -, hne, -⟩ := hcovered i hc
      exact hne (congrArg some hi.symm)
    rw [hpar, if_neg hc, if_pos hi]
  refine ⟨moved, plan.reparentChainBlockIds, hmoved, ?_, ?_, ?_, ?_, ?_, ?_, rfl⟩
  · intro t ht
    obtain ⟨-, parent, hp, hsp, hsub, -⟩ := htarget t ht
    exact ⟨htop t ht, parent, hp, hsp, hsub⟩
  · intro i hi
    obtain ⟨b, hb, hsp, hpar, hne, -, hsub⟩ := hcovered i hi
    refine ⟨fun habove => ?_, b, hb, hsp, hpar, hsub⟩
    rcases habove.cases with rfl | ⟨j, hj, hjm⟩
    · exact hne rfl
    · obtain ⟨b', hb', hbpar⟩ := Store.parentBlock_eq_some.mp hj
      obtain rfl : b = b' := Option.some.inj ((Store.getBlock_eq_some.mp hb).1.symm.trans hb')
      exact htop j (hpar.symm.trans hbpar) hjm
  · intro i b hb hsp hpar hne ho
    exact hall i b hb hsp hpar (fun he => hne (Option.some.inj he).symm) ho
  · intro i b' hb'
    simp only [Table.get?_modify, Option.map_eq_some_iff] at hb'
    obtain ⟨b, hb, rfl⟩ := hb'
    exact ⟨b, hb, hblock i b⟩
  · intro i b hb
    exact ⟨moveBlockRow request plan i b, by simp [hb], hblock i b⟩
  · intro i s' hs'
    simp only [Table.get?_modify, Option.map_eq_some_iff] at hs'
    obtain ⟨s, hs, rfl⟩ := hs'
    have hsp := moveSubnetRow_spaceId request plan s
    exact ⟨s, hs, by simp, by simp, by simp, fun hi => by rw [hsp, if_pos ((TreeInv.mem_moved hids).mpr hi)],
      fun hi => by rw [hsp, if_neg (mt (TreeInv.mem_moved hids).mp hi)]⟩

theorem TreeInv.commitMove (h : TreeInv σ) (hop : commitMove σ request = .ok σ') : TreeInv σ' := by
  obtain ⟨moved, chain, hstep⟩ := commitMove_step h hop
  obtain ⟨hroot, hlive⟩ := Store.getBlock_eq_some.mp hstep.root
  -- A parent keeps its child: either both are in the subtree or neither is.
  have hkeep : ∀ {p spaceId spaceId' network deletion}, UnderBlock σ p spaceId network deletion →
      (Above σ.parentBlock p request.blockId → spaceId' = request.targetSpaceId) →
      (¬ Above σ.parentBlock p request.blockId → spaceId' = spaceId) →
      UnderBlock σ' p spaceId' network deletion := by
    rintro p spaceId spaceId' network deletion ⟨q, hq, hsp, hsub, hd⟩ hin hout
    obtain ⟨q', hq', hmoved⟩ := hstep.kept hq
    refine ⟨q', hq', ?_, hmoved.network ▸ hsub, fun he => hmoved.deletion.trans (hd he)⟩
    by_cases hp : Above σ.parentBlock p request.blockId
    · rw [hmoved.inside hp, hin hp]
    · rw [hmoved.outside hp, hout hp, hsp]
  constructor
  · intro i b' p hi hp
    obtain ⟨b, hb, hmoved⟩ := hstep.blocks hi
    rw [hmoved.network, hmoved.deletion]
    by_cases hchain : i ∈ chain
    · obtain ⟨habove, c, hc, hsp, -, hsub⟩ := hstep.covered i hchain
      obtain rfl : b = c := Option.some.inj (hb.symm.trans (Store.getBlock_eq_some.mp hc).1)
      obtain rfl : request.blockId = p := Option.some.inj ((hmoved.covered hchain).symm.trans hp)
      obtain ⟨m', hm', hmm⟩ := hstep.kept hroot
      refine ⟨m', hm', ?_, hmm.network ▸ hsub, fun _ => hmm.deletion.trans hlive⟩
      rw [hmm.inside (Above.refl _ _), hmoved.outside habove, hsp]
    by_cases hm : i = request.blockId
    · subst hm
      obtain rfl : b = moved := Option.some.inj (hb.symm.trans hroot)
      obtain ⟨hout, parent, ht, hsp, hsub⟩ := hstep.target p ((hmoved.root rfl).symm.trans hp)
      obtain ⟨q', hq', hqm⟩ := hstep.kept (Store.getBlock_eq_some.mp ht).1
      refine ⟨q', hq', ?_, hqm.network ▸ hsub,
        fun _ => hqm.deletion.trans (Store.getBlock_eq_some.mp ht).2⟩
      rw [hqm.outside hout, hsp, hmoved.inside (Above.refl _ _)]
    · rw [hmoved.other hm hchain] at hp
      have hparent : σ.parentBlock i = some p := Store.parentBlock_eq_some.mpr ⟨b, hb, hp⟩
      refine hkeep (h.parent hb hp) (fun hin => hmoved.inside (hin.head hparent)) fun hout => ?_
      refine hmoved.outside fun hin => ?_
      rcases hin.cases with he | ⟨q, hq, hqm⟩
      · exact hm he
      · exact hout (Option.some.inj (hparent.symm.trans hq) ▸ hqm)
  · intro i s' hi
    obtain ⟨s, hs, hmoved⟩ := hstep.subnets hi
    rw [hmoved.network, hmoved.deletion, hmoved.blockId]
    exact hkeep (h.block hs) hmoved.inside hmoved.outside
  · have hptr : ∀ {i b}, σ.blocks.get? i = some b → ∃ b', σ'.parentBlock i = b'.parentBlockId ∧
        MovedBlock σ request chain i b b' := by
      intro i b hb
      obtain ⟨b', hb', hmoved⟩ := hstep.kept hb
      exact ⟨b', by simp [Store.parentBlock, hb'], hmoved⟩
    obtain ⟨m', hm', hmm⟩ := hptr hroot
    rw [hmm.root rfl] at hm'
    refine Rooted.repoint (m := request.blockId) h.rooted (fun i hi => ?_) ?_
    · cases hb : σ.blocks.get? i with
      | none =>
        have hb' : σ'.blocks.get? i = none := by
          cases hb' : σ'.blocks.get? i with
          | none => rfl
          | some b' =>
            obtain ⟨b, hb₂, -⟩ := hstep.blocks hb'
            simp [hb] at hb₂
        exact Or.inl (by simp [Store.parentBlock, hb, hb'])
      | some b =>
        obtain ⟨b', hb', hmoved⟩ := hptr hb
        by_cases hchain : i ∈ chain
        · obtain ⟨-, c, hc, -, hpar, -⟩ := hstep.covered i hchain
          refine Or.inr ⟨hb'.trans (hmoved.covered hchain), ?_⟩
          rw [hm', Store.parentBlock, (Store.getBlock_eq_some.mp hc).1]
          exact hpar
        · refine Or.inl ?_
          rw [hb', hmoved.other hi hchain, Store.parentBlock, hb]
          rfl
    · intro t ht
      exact (hstep.target t (hm'.symm.trans ht)).1
  · intro i b' n hi hd
    obtain ⟨b, hb, hmoved⟩ := hstep.blocks hi
    rw [hstep.nextBatch]
    exact h.blockStamp hb (hmoved.deletion ▸ hd)
  · intro i s' n hi hd
    obtain ⟨s, hs, hmoved⟩ := hstep.subnets hi
    rw [hstep.nextBatch]
    exact h.subnetStamp hs (hmoved.deletion ▸ hd)

end SpatiumDdi.Ipam
