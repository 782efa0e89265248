import SpatiumDdi.Ipam.Run

/-!
Which operations keep sibling blocks apart. With `TreeInv` this makes the live
blocks of a space a nested forest of address ranges, in which a block can only
be reparented to the parent it has. A move is the one operation that does not
keep it: the blocks of the target level it hangs under the moved block are not
compared with the children that block has already (`ChainClear`).
-/

namespace SpatiumDdi.Ipam

open Ipaddress Forest Trash

/-- What the block table promises of the live blocks: siblings apart, children
inside their parent and in its space, and no cycle. -/
structure BlockTree (σ : Store) : Prop where
  siblings : ∀ i j b c, σ.getBlock i = some b → σ.getBlock j = some c → i ≠ j →
    b.spaceId = c.spaceId → b.parentBlockId = c.parentBlockId → ¬ b.network.overlaps c.network
  parent : ∀ i b p, σ.getBlock i = some b → b.parentBlockId = some p →
    ∃ q, σ.blocks.get? p = some q ∧ b.network.subnetOf q.network ∧ b.spaceId = q.spaceId
  ends : ∀ i, ∃ n, climb σ.parentBlock n i = none

/-- Distinct blocks of one level of one space do not overlap if they are live or
in the Trash under one batch. -/
def SiblingsApart (σ : Store) : Prop :=
  ∀ i j b c, σ.blocks.get? i = some b → σ.blocks.get? j = some c → i ≠ j →
    b.deletion = c.deletion → b.spaceId = c.spaceId → b.parentBlockId = c.parentBlockId →
    ¬ b.network.overlaps c.network

/-- No live child of the moved block meets a live block of the target level. -/
def ChainClear (σ : Store) (request : MoveRequest) : Prop :=
  ∀ i j b c, σ.getBlock i = some b → b.parentBlockId = some request.blockId →
    σ.getBlock j = some c → j ≠ request.blockId → c.spaceId = request.targetSpaceId →
    c.parentBlockId = request.targetParentId → ¬ b.network.overlaps c.network

def liveIn (σ : Store) (spaceId : Nat) : Set Nat :=
  {i | ∃ b, σ.getBlock i = some b ∧ b.spaceId = spaceId}

def region (σ : Store) (i : Nat) : Set (Version × Nat) :=
  {x | ∃ b, σ.blocks.get? i = some b ∧ b.network.version = x.1 ∧ b.network.hasValue x.2}

theorem region_meet {σ : Store} {i j : Nat} {b c : IPBlock} (hb : σ.blocks.get? i = some b)
    (hc : σ.blocks.get? j = some c) :
    ¬ Disjoint (region σ i) (region σ j) ↔ b.network.overlaps c.network := by
  rw [Set.not_disjoint_iff]
  constructor
  · rintro ⟨x, ⟨b', hb', hbv, hbx⟩, c', hc', hcv, hcx⟩
    obtain rfl : b' = b := Option.some.inj (hb'.symm.trans hb)
    obtain rfl : c' = c := Option.some.inj (hc'.symm.trans hc)
    exact hbx.overlaps hcx (hbv.trans hcv.symm)
  · intro ho
    obtain ⟨x, hbx, hcx⟩ := ho.exists_hasValue
    exact ⟨(b.network.version, x), ⟨b, hb, rfl, hbx⟩, c, hc, ho.1.symm, hcx⟩

namespace SiblingsApart

variable {σ σ' : Store}

theorem nested (h : SiblingsApart σ) (htree : TreeInv σ) (spaceId : Nat) :
    Nested (liveIn σ spaceId) σ.parentBlock (region σ) where
  rooted i _ := htree.rooted i
  closed := by
    rintro i ⟨b, hb, hsp⟩ j hj
    obtain ⟨b', hb', hp⟩ := Store.parentBlock_eq_some.mp hj
    obtain rfl : b = b' := Option.some.inj ((Store.getBlock_eq_some.mp hb).1.symm.trans hb')
    obtain ⟨q, hq, hqsp, -⟩ := htree.parent_live hb hp
    exact ⟨q, hq, hqsp.trans hsp⟩
  inside := by
    rintro i - j hj x ⟨b, hb, hv, hx⟩
    obtain ⟨b', hb', hp⟩ := Store.parentBlock_eq_some.mp hj
    obtain rfl : b = b' := Option.some.inj (hb.symm.trans hb')
    obtain ⟨q, hq, -, hsub, -⟩ := htree.parent hb hp
    exact ⟨q, hq, hsub.1.symm.trans hv, hx.mono hsub⟩
  apart := by
    rintro i ⟨b, hb, hbsp⟩ j ⟨c, hc, hcsp⟩ hne hp
    obtain ⟨hb, hbd⟩ := Store.getBlock_eq_some.mp hb
    obtain ⟨hc, hcd⟩ := Store.getBlock_eq_some.mp hc
    by_contra hmeet
    refine h i j b c hb hc hne (hbd.trans hcd.symm) (hbsp.trans hcsp.symm) ?_
      ((region_meet hb hc).mp hmeet)
    simpa [Store.parentBlock, hb, hc] using hp

theorem blockTree (h : SiblingsApart σ) (htree : TreeInv σ) : BlockTree σ where
  siblings i j b c hb hc hne hsp hp := by
    obtain ⟨hb, hbd⟩ := Store.getBlock_eq_some.mp hb
    obtain ⟨hc, hcd⟩ := Store.getBlock_eq_some.mp hc
    exact h i j b c hb hc hne (hbd.trans hcd.symm) hsp hp
  parent i b p hb hp := by
    obtain ⟨q, hq, hsp, hsub⟩ := htree.parent_live hb hp
    exact ⟨q, (Store.getBlock_eq_some.mp hq).1, hsub, hsp.symm⟩
  ends i := (htree.rooted i).exists_climb_eq_none

theorem empty : SiblingsApart .empty := by
  intro i j b c hb
  simp [Store.empty] at hb

theorem congr (h : SiblingsApart σ) (hblocks : σ'.blocks = σ.blocks) : SiblingsApart σ' := by
  unfold SiblingsApart
  rwa [hblocks]

theorem insertBlock (h : SiblingsApart σ) {b : IPBlock} (hlive : b.deletion = none)
    (hfree : ∀ i c, σ.getBlock i = some c → c.spaceId = b.spaceId →
      c.parentBlockId = b.parentBlockId → ¬ c.network.overlaps b.network) :
    SiblingsApart (insertBlock σ b) := by
  intro i j c d hc hd hne hdel hsp hp
  rcases Table.get?_insert_cases hc with ⟨rfl, rfl⟩ | hc' <;>
    rcases Table.get?_insert_cases hd with ⟨rfl, rfl⟩ | hd'
  · exact absurd rfl hne
  · exact fun ho => hfree j d (Store.getBlock_eq_some.mpr ⟨hd', hdel.symm.trans hlive⟩) hsp.symm
      hp.symm ho.symm
  · exact hfree i c (Store.getBlock_eq_some.mpr ⟨hc', hdel.trans hlive⟩) hsp hp
  · exact h i j c d hc' hd' hne hdel hsp hp

variable {blockId : Nat}

theorem createBlock (h : SiblingsApart σ) (htree : TreeInv σ) {body : BlockCreate}
    (hop : createBlock σ body = .ok (blockId, σ')) : SiblingsApart σ' := by
  obtain ⟨ids, carved, -, hparent, hids, -, rfl⟩ := createBlock_ok hop
  obtain ⟨hall, hcovered⟩ := assertNoBlockOverlap_eq_ok hids
  -- No row of the old table points at the new key.
  have hfresh : ∀ i b, σ.blocks.get? i = some b → b.parentBlockId ≠ some σ.blocks.next := by
    intro i b hb hp
    obtain ⟨q, hq, -⟩ := htree.parent hb hp
    simp at hq
  have hnotself : body.parentBlockId ≠ some σ.blocks.next := by
    intro hp
    obtain ⟨q, hq, -⟩ := hparent _ hp
    simp [Store.getBlock] at hq
  have hnew : ∀ j c, σ.blocks.get? j = some c → c.deletion = none → c.spaceId = body.spaceId →
      (if j ∈ ids then some σ.blocks.next else c.parentBlockId) = body.parentBlockId →
      ¬ body.network.overlaps c.network := by
    intro j c hc hd hsp hp ho
    split at hp
    · exact hnotself hp.symm
    · rename_i hj
      exact hj (hall j c (Store.getBlock_eq_some.mpr ⟨hc, hd⟩) hsp hp (by simp) ho.symm)
  have hrow : ∀ i b', (adopt { Ipam.insertBlock σ body.row with
      subnets := σ.subnets.insertAll carved } σ.blocks.next body ids).blocks.get? i = some b' →
      (i = σ.blocks.next ∧ b' = body.row) ∨ ∃ b, σ.blocks.get? i = some b ∧
        b' = { b with parentBlockId := if i ∈ ids then some σ.blocks.next else b.parentBlockId } := by
    intro i b' hi
    simp only [adopt, Table.get?_modify, Option.map_eq_some_iff] at hi
    obtain ⟨b, hb, rfl⟩ := hi
    rcases Table.get?_insert_cases hb with ⟨rfl, rfl⟩ | hb
    · refine Or.inl ⟨rfl, if_neg fun hmem => ?_⟩
      obtain ⟨c, hc, -⟩ := hcovered _ hmem
      simp [Store.getBlock] at hc
    · exact Or.inr ⟨b, hb, by split <;> rfl⟩
  intro i j b' c' hb' hc' hne hd hsp hp
  rcases hrow i b' hb' with ⟨rfl, rfl⟩ | ⟨b, hb, rfl⟩ <;>
    rcases hrow j c' hc' with ⟨rfl, rfl⟩ | ⟨c, hc, rfl⟩
  · exact absurd rfl hne
  · exact hnew j c hc hd.symm hsp.symm hp.symm
  · exact fun ho => hnew i b hb hd hsp hp ho.symm
  · simp only at hd hsp hp ⊢
    by_cases hi : i ∈ ids <;> by_cases hj : j ∈ ids
    · obtain ⟨b₁, hb₁, -, hbp, -⟩ := hcovered i hi
      obtain ⟨c₁, hc₁, -, hcp, -⟩ := hcovered j hj
      obtain rfl : b₁ = b := Option.some.inj ((Store.getBlock_eq_some.mp hb₁).1.symm.trans hb)
      obtain rfl : c₁ = c := Option.some.inj ((Store.getBlock_eq_some.mp hc₁).1.symm.trans hc)
      exact h i j b₁ c₁ hb hc hne hd hsp (hbp.trans hcp.symm)
    · simp only [hi, hj, if_true, if_false] at hp
      exact absurd hp.symm (hfresh j c hc)
    · simp only [hi, hj, if_true, if_false] at hp
      exact absurd hp (hfresh i b hb)
    · simp only [hi, hj, if_false] at hp
      exact h i j b c hb hc hne hd hsp hp

variable {otherChecks : Bool}

section

variable (h : SiblingsApart σ)
include h

section

variable (htree : TreeInv σ) {parentBlockId : Option (Option Nat)}
include htree

theorem updateBlock_parent {newParentId : Option Nat}
    (hop : updateBlock σ blockId (some newParentId) otherChecks = .ok σ') :
    σ.parentBlock blockId = newParentId := by
  obtain ⟨block, ids, hblock, hparent, hids, -⟩ := updateBlock_ok hop
  obtain ⟨hall, hcovered⟩ := assertNoBlockOverlap_eq_ok hids
  obtain ⟨hrow, hlive⟩ := Store.getBlock_eq_some.mp hblock
  have hmem : blockId ∈ liveIn σ block.spaceId := ⟨block, hblock, rfl⟩
  have hnested := h.nested htree block.spaceId
  -- A block of the target level that is above this one is this one.
  have htop : ∀ c, Above σ.parentBlock blockId c → σ.parentBlock c = newParentId →
      c = blockId := by
    intro c habove hp
    by_contra hne
    obtain ⟨cb, hcb, hcsp⟩ := hnested.closed_above hmem habove
    obtain ⟨hcrow, -⟩ := Store.getBlock_eq_some.mp hcb
    obtain ⟨cb', hcb', -, hsub⟩ := htree.above hrow habove
    obtain rfl : cb' = cb := Option.some.inj (hcb'.symm.trans hcrow)
    have hcp : cb'.parentBlockId = newParentId := by simpa [Store.parentBlock, hcrow] using hp
    have hin := hall c cb' hcb hcsp hcp (fun e => hne (Option.some.inj e).symm) hsub.overlaps.symm
    obtain ⟨d, hd, -, -, -, hdne, hdsub⟩ := hcovered c hin
    obtain rfl : d = cb' := Option.some.inj ((Store.getBlock_eq_some.mp hd).1.symm.trans hcrow)
    exact hdne (hdsub.antisymm hsub)
  cases newParentId with
  | none =>
    obtain ⟨r, hr, hroot⟩ := (htree.rooted blockId).exists_root
    exact htop r hr hroot ▸ hroot
  | some p =>
    obtain ⟨-, ⟨parent, hp, hsp, hsub⟩, hcycle⟩ := hparent p rfl
    have hnot : ¬ Above σ.parentBlock p blockId :=
      checkNoCycle_ok hcycle (fun i b q hb hq => by
        obtain ⟨q', hq', -⟩ := htree.parent_live hb hq
        exact ⟨q', hq'⟩) hp
    have hmeet : ¬ Disjoint (region σ blockId) (region σ p) :=
      (region_meet hrow (Store.getBlock_eq_some.mp hp).1).mpr hsub.overlaps
    obtain ⟨c, -, habove, hc⟩ := hnested.exists_child hmem ⟨parent, hp, hsp⟩ hmeet hnot
    exact htop c habove hc ▸ hc

section

variable (hop : updateBlock σ blockId parentBlockId otherChecks = .ok σ')
include hop

theorem updateBlock_blocks (i : Nat) : σ'.blocks.get? i = σ.blocks.get? i := by
  cases parentBlockId with
  | none =>
    simp only [Ipam.updateBlock, bind_eq_ok, require_eq_ok, orRefuse_eq_ok, exists_const,
      pure_eq_ok] at hop
    obtain ⟨-, _, -, rfl⟩ := hop
    rfl
  | some newParentId =>
    have hp := h.updateBlock_parent htree hop
    obtain ⟨block, -, hblock, -, -, rfl⟩ := updateBlock_ok hop
    simp only [Table.get?_modify]
    by_cases hi : i = blockId
    · subst hi
      rw [Store.parentBlock, (Store.getBlock_eq_some.mp hblock).1] at hp
      rw [(Store.getBlock_eq_some.mp hblock).1]
      simp [← show block.parentBlockId = newParentId from hp]
    · cases σ.blocks.get? i <;> simp [hi]

theorem updateBlock : SiblingsApart σ' := by
  intro i j b c hb hc
  rw [h.updateBlock_blocks htree hop] at hb hc
  exact h i j b c hb hc

end

theorem commitBlockResize {request : BlockResize} (hop : commitBlockResize σ request = .ok σ') :
    SiblingsApart σ' := by
  obtain ⟨block, hblock, -, -, hfree, -, rfl⟩ := commitBlockResize_ok hop
  obtain ⟨hrow, hlive⟩ := Store.getBlock_eq_some.mp hblock
  have hpar : σ.parentBlock request.blockId = block.parentBlockId := by
    simp [Store.parentBlock, hrow]
  have hgrown : ∀ j c, σ.blocks.get? j = some c → j ≠ request.blockId → c.deletion = none →
      c.spaceId = block.spaceId → c.parentBlockId = block.parentBlockId →
      ¬ c.network.overlaps request.newCidr := by
    intro j c hc hne hd hsp hp ho
    have hcp : σ.parentBlock j = block.parentBlockId := by simp [Store.parentBlock, hc, hp]
    rcases hfree j c (Store.getBlock_eq_some.mpr ⟨hc, hd⟩) hsp ho with hbelow | ⟨p, hbp, habove⟩
    · rcases hbelow.cases with rfl | ⟨q, hq, hqb⟩
      · exact hne rfl
      · exact (htree.rooted _).not_above (hpar.trans (hcp.symm.trans hq)) hqb
    · exact (htree.rooted _).not_above (hcp.trans hbp) habove
  intro i j b' c' hb' hc' hne hd hsp hp
  simp only [Table.get?_modify, Option.map_eq_some_iff] at hb' hc'
  obtain ⟨b, hb, rfl⟩ := hb'
  obtain ⟨c, hc, rfl⟩ := hc'
  by_cases hi : i = request.blockId
  · have hj : j ≠ request.blockId := fun hj => hne (hi.trans hj.symm)
    subst hi
    obtain rfl : b = block := Option.some.inj (hb.symm.trans hrow)
    simp only [if_true, hj, if_false] at hd hsp hp ⊢
    exact fun ho => hgrown j c hc hj (hd.symm.trans hlive) hsp.symm hp.symm ho.symm
  by_cases hj : j = request.blockId
  · subst hj
    obtain rfl : c = block := Option.some.inj (hc.symm.trans hrow)
    simp only [if_true, hi, if_false] at hd hsp hp ⊢
    exact hgrown i b hb hi (hd.trans hlive) hsp hp
  · simp only [hi, hj, if_false] at hd hsp hp ⊢
    exact h i j b c hb hc hne hd hsp hp

theorem materialise {spaceId parentBlockId : Nat} {forest : PlanForest} {parent : IPBlock}
    {seen : List Net} (hparent : σ.getBlock parentBlockId = some parent)
    (hspace : parent.spaceId = spaceId) (hvalid : subtreeConflicts parent.network seen forest = [])
    (hfree : ∀ n ∈ forest.walk, ∀ i c, σ.getBlock i = some c → c.parentBlockId = some parentBlockId → ¬ n.network.overlaps c.network)
    (hop : materialise spaceId parentBlockId forest σ = .ok σ') :
    SiblingsApart σ' ∧ σ.blocks.next ≤ σ'.blocks.next ∧
      ∀ i c, σ'.getBlock i = some c → σ.getBlock i = some c ∨ ∃ p, c.parentBlockId = some p ∧
        (σ.blocks.next ≤ p ∨ p = parentBlockId ∧ ∃ n ∈ forest.walk, c.network = n.network) := by
  induction forest generalizing parentBlockId parent seen σ σ' with
  | nil =>
    simp only [Ipam.materialise, Except.ok.injEq] at hop
    exact hop ▸ ⟨h, le_rfl, fun i c hc => Or.inl hc⟩
  | cons node children siblings ihc ihs =>
    obtain ⟨hsub, -, hchildren, hsiblings⟩ := subtreeConflicts_cons hvalid
    have hoff : ∀ n ∈ siblings.walk, ¬ n.network.overlaps node.network := fun n hn =>
      (mem_walk_of_subtreeConflicts hsiblings hn).2 _ (by simp)
    have hlt : parentBlockId < σ.blocks.next :=
      Table.lt_next (Store.getBlock_eq_some.mp hparent).1
    simp only [PlanForest.walk, List.mem_cons, List.mem_append] at hfree ⊢
    rcases materialise_cons hop with
      ⟨σ₂, hopc, hops⟩ | ⟨subnet, placeholders, hsp, hb, hnet, hlive, hops⟩
    · let row : IPBlock := .mk spaceId (some parentBlockId) node.network false none
      have hrow : SiblingsApart (Ipam.insertBlock σ row) :=
        h.insertBlock rfl fun i c hc _ hp ho => hfree node (Or.inl rfl) i c hc hp ho.symm
      have htree₁ : TreeInv (Ipam.insertBlock σ row) := htree.insertBlock rfl fun p hp => by
        obtain rfl : parentBlockId = p := Option.some.inj hp
        have hunder := UnderBlock.of_getBlock hparent hsub none
        rwa [hspace] at hunder
      have hcases : ∀ i c, (Ipam.insertBlock σ row).getBlock i = some c →
          σ.getBlock i = some c ∨ c = row := by
        intro i c hc
        obtain ⟨hc, hd⟩ := Store.getBlock_eq_some.mp hc
        rcases Table.get?_insert_cases hc with ⟨-, rfl⟩ | hc
        · exact Or.inr rfl
        · exact Or.inl (Store.getBlock_eq_some.mpr ⟨hc, hd⟩)
      have hnochild : ∀ i c, (Ipam.insertBlock σ row).getBlock i = some c →
          c.parentBlockId ≠ some σ.blocks.next := by
        intro i c hc hp
        rcases hcases i c hc with hc | rfl
        · obtain ⟨q, hq, -⟩ := htree.parent (Store.getBlock_eq_some.mp hc).1 hp
          simp at hq
        · exact hlt.ne (Option.some.inj hp)
      have hnew := getBlock_insertBlock_next σ (b := row) rfl
      obtain ⟨h₂, hle₂, hrows₂⟩ := ihc hrow htree₁ hnew rfl hchildren
        (fun n _ i c hc hp => absurd hp (hnochild i c hc)) hopc
      have htree₂ : TreeInv σ₂ := htree₁.materialise hnew rfl hchildren hopc
      have hle : σ.blocks.next ≤ σ₂.blocks.next := (Nat.le_succ _).trans hle₂
      have hafter : ∀ i c, σ₂.getBlock i = some c → σ.getBlock i = some c ∨ ∃ p,
          c.parentBlockId = some p ∧ (σ.blocks.next ≤ p ∨
            p = parentBlockId ∧ c.network = node.network) := by
        intro i c hc
        rcases hrows₂ i c hc with hc | ⟨p, hp, hnext | ⟨rfl, -⟩⟩
        · rcases hcases i c hc with hc | rfl
          · exact Or.inl hc
          · exact Or.inr ⟨parentBlockId, rfl, Or.inr ⟨rfl, rfl⟩⟩
        · exact Or.inr ⟨p, hp, Or.inl ((Nat.le_succ _).trans hnext)⟩
        · exact Or.inr ⟨_, hp, Or.inl le_rfl⟩
      have hp₂ := materialise_getBlock hopc (getBlock_insertBlock row hparent)
      obtain ⟨h', hle', hrows'⟩ := ihs h₂ htree₂ hp₂ hspace hsiblings (fun n hn i c hc hp ho => by
        rcases hafter i c hc with hc | ⟨p, hp', hnext | ⟨-, hcn⟩⟩
        · exact hfree n (Or.inr (Or.inr hn)) i c hc hp ho
        · have := Option.some.inj (hp.symm.trans hp')
          omega
        · exact hoff n hn (hcn ▸ ho)) hops
      refine ⟨h', hle.trans hle', fun i c hc => ?_⟩
      rcases hrows' i c hc with hc | ⟨p, hp, hnext | ⟨rfl, n, hn, hcn⟩⟩
      · rcases hafter i c hc with hc | ⟨p, hp, hnext | ⟨hpp, hcn⟩⟩
        · exact Or.inl hc
        · exact Or.inr ⟨p, hp, Or.inl hnext⟩
        · exact Or.inr ⟨p, hp, Or.inr ⟨hpp, node, Or.inl rfl, hcn⟩⟩
      · exact Or.inr ⟨p, hp, Or.inl (hle.trans hnext)⟩
      · exact Or.inr ⟨p, hp, Or.inr ⟨rfl, n, Or.inr (Or.inr hn), hcn⟩⟩
    · have hrow : SiblingsApart (Ipam.insertSubnet σ subnet placeholders) := h.congr (by simp)
      have htree₁ : TreeInv (Ipam.insertSubnet σ subnet placeholders) := by
        refine htree.insertSubnet _ hlive ?_
        have hunder := UnderBlock.of_getBlock hparent hsub none
        rwa [hb, hsp, hnet, hlive, ← hspace]
      have hp₁ : (Ipam.insertSubnet σ subnet placeholders).getBlock parentBlockId = some parent := by
        rwa [getBlock_insertSubnet]
      obtain ⟨h', hle', hrows'⟩ := ihs hrow htree₁ hp₁ hspace hsiblings (fun n hn i c hc =>
        hfree n (Or.inr (Or.inr hn)) i c (by rwa [getBlock_insertSubnet] at hc)) hops
      rw [insertSubnet_blocks] at hle' hrows'
      refine ⟨h', hle', fun i c hc => ?_⟩
      rcases hrows' i c hc with hc | ⟨p, hp, hnext | ⟨rfl, n, hn, hcn⟩⟩
      · exact Or.inl (by rwa [getBlock_insertSubnet] at hc)
      · exact Or.inr ⟨p, hp, Or.inl hnext⟩
      · exact Or.inr ⟨p, hp, Or.inr ⟨rfl, n, Or.inr (Or.inr hn), hcn⟩⟩

theorem applyPlan {plan : SubnetPlan} (hop : applyPlan σ plan = .ok σ') : SiblingsApart σ' := by
  obtain ⟨hvalid, hop⟩ := applyPlan_ok hop
  obtain ⟨hanchor, hconflicts, hexisting⟩ := validateTree_ok hvalid
  have hfree : ∀ n ∈ newNodes plan, ∀ i c, σ.getBlock i = some c → c.spaceId = plan.spaceId →
      i ∉ skippedBlocks σ plan → ¬ n.network.overlaps c.network := by
    intro n hn i c hc hsp hi
    exact hexisting n hn c.network (List.mem_append_left _ (List.mem_map.mpr
      ⟨(i, c), Store.mem_liveBlocks.mpr ⟨hc, by simp [hsp, hi]⟩, rfl⟩))
  unfold anchorIsValid at hanchor
  split at hop
  · rename_i anchor heq
    simp only [heq, Option.any_eq_true, Bool.and_eq_true, beq_iff_eq] at hanchor
    obtain ⟨b, hb, hsp, hnet⟩ := hanchor
    refine (h.materialise htree hb hsp (hnet ▸ hconflicts) (fun n hn i c hc hp => ?_) hop).1
    have hcsp : c.spaceId = plan.spaceId := by
      obtain ⟨q, hq, hqsp, -⟩ := htree.parent_live hc hp
      obtain rfl := Option.some.inj (hq.symm.trans hb)
      exact hqsp.symm.trans hsp
    refine hfree n (by simpa [newNodes, heq] using hn) i c hc hcsp fun hi => ?_
    simp only [skippedBlocks, heq] at hi
    have habove := mem_anchorChain anchor (by simpa using Above.refl _ _)
      (Above.refl _ _) hi
    have hpar : σ.parentBlock i = some anchor :=
      Store.parentBlock_eq_some.mpr ⟨c, (Store.getBlock_eq_some.mp hc).1, hp⟩
    exact (htree.rooted i).not_above hpar habove
  · rename_i heq
    let row : IPBlock := .mk plan.spaceId none plan.root.network false none
    have hrow : SiblingsApart (Ipam.insertBlock σ row) := by
      refine h.insertBlock rfl fun i c hc hsp _ ho => ?_
      exact hfree plan.root (by simp [newNodes, heq]) i c hc hsp (by simp [skippedBlocks, heq])
        ho.symm
    have htree₁ : TreeInv (Ipam.insertBlock σ row) := htree.insertBlock rfl (by simp [row])
    refine (hrow.materialise htree₁ (getBlock_insertBlock_next σ rfl) rfl hconflicts
      (fun n _ i c hc hp => ?_) hop).1
    obtain ⟨hc, -⟩ := Store.getBlock_eq_some.mp hc
    rcases Table.get?_insert_cases hc with ⟨-, rfl⟩ | hc
    · simp [row] at hp
    · obtain ⟨q, hq, -⟩ := htree.parent hc hp
      simp at hq

theorem commitMove {request : MoveRequest} (hop : commitMove σ request = .ok σ')
    (hclear : ChainClear σ request) : SiblingsApart σ' := by
  obtain ⟨moved, chain, hstep⟩ := commitMove_step htree hop
  obtain ⟨hroot, hlive⟩ := Store.getBlock_eq_some.mp hstep.root
  -- The level the moved block arrives at has no block of its subtree.
  have houtside : ∀ j c, σ.blocks.get? j = some c → j ≠ request.blockId →
      c.parentBlockId = request.targetParentId →
      ¬ Above σ.parentBlock j request.blockId := by
    intro j c hc hne hp habove
    rcases habove.cases with he | ⟨t, ht, htm⟩
    · exact hne he
    · obtain ⟨c', hc', hp'⟩ := Store.parentBlock_eq_some.mp ht
      obtain rfl : c = c' := Option.some.inj (hc.symm.trans hc')
      exact (hstep.target t (hp.symm.trans hp')).1 htm
  have hchainRow : ∀ j ∈ chain, ∀ c, σ.blocks.get? j = some c → c.deletion = none ∧
      j ≠ request.blockId ∧ c.spaceId = request.targetSpaceId ∧
      c.parentBlockId = request.targetParentId := by
    intro j hj c hc
    obtain ⟨hout, d, hd, hsp, hp, -⟩ := hstep.covered j hj
    obtain ⟨hd, hdl⟩ := Store.getBlock_eq_some.mp hd
    obtain rfl : c = d := Option.some.inj (hc.symm.trans hd)
    exact ⟨hdl, fun he => hout (he ▸ Above.refl _ _), hsp, hp⟩
  -- The moved block against the rest of its new level.
  have harrive : ∀ j c c', σ.blocks.get? j = some c → MovedBlock σ request chain j c c' →
      j ≠ request.blockId → c.deletion = none → c'.spaceId = request.targetSpaceId →
      c'.parentBlockId = request.targetParentId → ¬ c.network.overlaps moved.network := by
    intro j c c' hc hm hne hd hsp hp ho
    by_cases hj : j ∈ chain
    · exact (hstep.target request.blockId (hp.symm.trans (hm.covered hj))).1 (Above.refl _ _)
    · have hp' := (hm.other hne hj).symm.trans hp
      have hout := houtside j c hc hne hp'
      exact hj (hstep.siblings j c (Store.getBlock_eq_some.mpr ⟨hc, hd⟩)
        ((hm.outside hout).symm.trans hsp) hp' hne ho)
  -- A chain block against the children the moved block had.
  have hchain : ∀ i j b c c', σ.blocks.get? i = some b → σ.blocks.get? j = some c →
      MovedBlock σ request chain j c c' → i ∈ chain → j ∉ chain → c.deletion = none →
      c'.parentBlockId = some request.blockId → ¬ b.network.overlaps c.network := by
    intro i j b c c' hb hc hm hi hj hd hp ho
    obtain ⟨hbd, hne, hbsp, hbp⟩ := hchainRow i hi b hb
    have hjm : j ≠ request.blockId := by
      rintro rfl
      exact (hstep.target _ ((hm.root rfl).symm.trans hp)).1 (Above.refl _ _)
    exact hclear j i c b (Store.getBlock_eq_some.mpr ⟨hc, hd⟩) ((hm.other hjm hj).symm.trans hp)
      (Store.getBlock_eq_some.mpr ⟨hb, hbd⟩) hne hbsp hbp ho.symm
  intro i j b' c' hb' hc' hne hd hsp hp
  obtain ⟨b, hb, hbm⟩ := hstep.blocks hb'
  obtain ⟨c, hc, hcm⟩ := hstep.blocks hc'
  rw [hbm.deletion, hcm.deletion] at hd
  rw [hbm.network, hcm.network]
  by_cases hi : i = request.blockId
  · subst hi
    obtain rfl : b = moved := Option.some.inj (hb.symm.trans hroot)
    exact fun ho => harrive j c c' hc hcm (Ne.symm hne) (hd.symm.trans hlive)
      (hsp.symm.trans (hbm.inside (Above.refl _ _))) (hp.symm.trans (hbm.root rfl)) ho.symm
  by_cases hj : j = request.blockId
  · subst hj
    obtain rfl : c = moved := Option.some.inj (hc.symm.trans hroot)
    exact harrive i b b' hb hbm hi (hd.trans hlive) (hsp.trans (hcm.inside (Above.refl _ _)))
      (hp.trans (hcm.root rfl))
  by_cases hic : i ∈ chain <;> by_cases hjc : j ∈ chain
  · obtain ⟨-, -, hbsp, hbp⟩ := hchainRow i hic b hb
    obtain ⟨-, -, hcsp, hcp⟩ := hchainRow j hjc c hc
    exact h i j b c hb hc hne hd (hbsp.trans hcsp.symm) (hbp.trans hcp.symm)
  · exact hchain i j b c c' hb hc hcm hic hjc (hd.symm.trans (hchainRow i hic b hb).1)
      (hp.symm.trans (hbm.covered hic))
  · exact fun ho => hchain j i c b b' hc hb hbm hjc hic (hd.trans (hchainRow j hjc c hc).1)
      (hp.trans (hcm.covered hjc)) ho.symm
  · rw [hbm.other hi hic, hcm.other hj hjc] at hp
    have hparent : σ.parentBlock i = σ.parentBlock j := by simp [Store.parentBlock, hb, hc, hp]
    have hsame : Above σ.parentBlock i request.blockId ↔
        Above σ.parentBlock j request.blockId := by
      have haux : ∀ {k l}, k ≠ request.blockId → σ.parentBlock k = σ.parentBlock l →
          Above σ.parentBlock k request.blockId → Above σ.parentBlock l request.blockId := by
        intro k l hk hkl habove
        rcases habove.cases with he | ⟨p, hkp, hpm⟩
        · exact absurd he hk
        · exact hpm.head (hkl.symm.trans hkp)
      exact ⟨haux hi hparent, haux hj hparent.symm⟩
    refine h i j b c hb hc hne hd ?_ hp
    by_cases hin : Above σ.parentBlock i request.blockId
    · obtain ⟨m₁, hm₁, h₁, -⟩ := htree.above hb hin
      obtain ⟨m₂, hm₂, h₂, -⟩ := htree.above hc (hsame.mp hin)
      obtain rfl := Option.some.inj (hm₁.symm.trans hm₂)
      exact h₁.symm.trans h₂
    · rwa [hbm.outside hin, hcm.outside (mt hsame.mpr hin)] at hsp

theorem softDelete {request : SoftDelete} {batch : Nat}
    (hop : softDelete σ request = .ok (batch, σ')) : SiblingsApart σ' := by
  simp only [Trash.softDelete, bind_eq_ok, pure_eq_ok, Prod.mk.injEq] at hop
  obtain ⟨keys, hkeys, -, rfl⟩ := hop
  obtain ⟨⟨sp, hbatch, -⟩, -, -⟩ := htree.batch_tree hkeys
  have hin : ∀ i b, σ.blocks.get? i = some b → .block i ∈ keys → b.deletion = none := by
    intro i b hb hi
    obtain ⟨b', hb', -⟩ := hbatch i hi
    obtain ⟨hb', hd⟩ := Store.getBlock_eq_some.mp hb'
    exact Option.some.inj (hb.symm.trans hb') ▸ hd
  intro i j b' c' hb' hc' hne hd hsp hp
  simp only [applySoftDelete, Table.get?_modify, Option.map_eq_some_iff] at hb' hc'
  obtain ⟨b, hb, rfl⟩ := hb'
  obtain ⟨c, hc, rfl⟩ := hc'
  simp only [stamp] at hd hsp hp ⊢
  by_cases hi : .block i ∈ keys <;> by_cases hj : .block j ∈ keys
  · exact h i j b c hb hc hne ((hin i b hb hi).trans (hin j c hc hj).symm) hsp hp
  · simp only [hi, hj, if_true, if_false] at hd
    exact absurd (htree.blockStamp hc hd.symm) (lt_irrefl _)
  · simp only [hi, hj, if_true, if_false] at hd
    exact absurd (htree.blockStamp hb hd) (lt_irrefl _)
  · simp only [hi, hj, if_false] at hd
    exact h i j b c hb hc hne hd hsp hp

end

theorem restoreBatch {batch : Nat} (hop : restoreBatch σ batch = .ok σ') : SiblingsApart σ' := by
  obtain ⟨hcheck, -, hblocks, -, -⟩ := restoreBatch_ok hop
  have hrestored : ∀ i j b c, σ.blocks.get? i = some b → σ.blocks.get? j = some c → i ≠ j →
      b.deletion = some batch → c.deletion = none → c.spaceId = b.spaceId →
      c.parentBlockId = b.parentBlockId → ¬ c.network.overlaps b.network := by
    intro i j b c hb hc hne hd hlive hsp hp ho
    have hover := (blockConflict_ok (hcheck i b hb hd)).2
    have hmem := (assertNoBlockOverlap_eq_ok hover).1 j c
      (Store.getBlock_eq_some.mpr ⟨hc, hlive⟩) hsp hp (fun he => hne (Option.some.inj he)) ho
    simp at hmem
  intro i j b' c' hb' hc' hne hd hsp hp
  simp only [hblocks, Table.get?_modify, Option.map_eq_some_iff] at hb' hc'
  obtain ⟨b, hb, rfl⟩ := hb'
  obtain ⟨c, hc, rfl⟩ := hc'
  simp only at hd hsp hp ⊢
  cases hbn : unstamp batch b.deletion with
  | some n =>
    obtain ⟨hbn', -⟩ := unstamp_eq_some.mp hbn
    obtain ⟨hcn', -⟩ := unstamp_eq_some.mp (hd.symm.trans hbn)
    exact h i j b c hb hc hne (hbn'.trans hcn'.symm) hsp hp
  | none =>
    rcases unstamp_eq_none.mp hbn with hbd | hbd <;>
      rcases unstamp_eq_none.mp (hd.symm.trans hbn) with hcd | hcd
    · exact h i j b c hb hc hne (hbd.trans hcd.symm) hsp hp
    · exact hrestored j i c b hc hb (Ne.symm hne) hcd hbd hsp hp
    · exact fun ho => hrestored i j b c hb hc hne hbd hcd hsp.symm hp.symm ho.symm
    · exact h i j b c hb hc hne (hbd.trans hcd.symm) hsp hp

end

end SiblingsApart

def BlockSafe (σ : Store) : Op → Prop
  | .commitMove request => ChainClear σ request
  | _ => True

theorem SiblingsApart.step {σ σ' : Store} (h : SiblingsApart σ) (htree : TreeInv σ) {op : Op}
    (hsafe : BlockSafe σ op) (hop : step σ op = .ok σ') : SiblingsApart σ' := by
  cases op <;> simp only [Ipam.step, map_snd_eq_ok] at hop
  case createSpace =>
    obtain ⟨_, hop⟩ := hop
    obtain ⟨-, rfl⟩ := createSpace_ok hop
    exact h.congr rfl
  case createBlock => exact hop.elim fun _ => h.createBlock htree
  case updateBlock => exact h.updateBlock htree hop
  case createSubnet =>
    obtain ⟨_, hop⟩ := hop
    obtain ⟨_, _, _, -, -, -, -, -, -, -, -, -, rfl⟩ := createSubnet_ok hop
    exact h.congr (by simp)
  case allocateSubnet =>
    obtain ⟨_, hop⟩ := hop
    obtain ⟨_, _, -, -, hcreate⟩ := allocateSubnet_ok hop
    obtain ⟨_, _, _, -, -, -, -, -, -, -, -, -, rfl⟩ := createSubnet_ok hcreate
    exact h.congr (by simp)
  case applyPlan => exact h.applyPlan htree hop
  case commitSubnetResize =>
    obtain ⟨_, _, _, -, -, -, -, -, rfl⟩ := commitSubnetResize_ok hop
    exact h.congr rfl
  case commitBlockResize => exact h.commitBlockResize htree hop
  case commitSubnetSplit =>
    obtain ⟨_, hop⟩ := hop
    obtain ⟨_, -, -, -, hblocks, -⟩ := commitSubnetSplit_ok hop
    exact h.congr hblocks
  case commitSubnetMerge =>
    obtain ⟨_, hop⟩ := hop
    obtain ⟨_, _, _, _, -, -, -, -, -, hblocks, -⟩ := commitSubnetMerge_ok hop
    exact h.congr hblocks
  case commitMove => exact h.commitMove htree hop hsafe
  case softDelete => exact hop.elim fun _ => h.softDelete htree
  case restoreBatch => exact h.restoreBatch hop

theorem Reachable.siblingsApart {σ : Store} (h : Reachable BlockSafe σ) : SiblingsApart σ := by
  induction h with
  | empty => exact SiblingsApart.empty
  | step op hreach hsafe hop ih => exact ih.step hreach.treeInv hsafe hop

/-- In a run whose moves are clear the block table is always a tree of disjoint
siblings. -/
theorem blockTree_of_reachable {σ : Store} (h : Reachable BlockSafe σ) : BlockTree σ :=
  h.siblingsApart.blockTree h.treeInv

/-- Two nested blocks, the inner one reparented where it is and then grown. -/
def nestedBlocks : List Op :=
  let net := fun prefixlen => Net.ofValue .v4 (10 * 2 ^ 24) prefixlen
  [.createSpace "left", .createBlock { spaceId := 0, network := net 8 },
    .createBlock { spaceId := 0, network := net 16, parentBlockId := some 0 },
    .updateBlock 1 (some (some 0)) true, .commitBlockResize { blockId := 1, newCidr := net 12 }]

theorem blockTree_nestedBlocks : ∃ σ, (run .empty nestedBlocks).toOption = some σ ∧
    σ.parentBlock 1 = some 0 ∧ BlockTree σ := by
  have hend : ((run .empty nestedBlocks).toOption.any fun σ => σ.parentBlock 1 == some 0) =
      true := by
    decide +kernel
  simp only [Option.any_eq_true, beq_iff_eq] at hend
  obtain ⟨σ, hrun, hparent⟩ := hend
  refine ⟨σ, hrun, hparent, blockTree_of_reachable (.of_run hrun ?_)⟩
  intro σ op hop
  simp only [nestedBlocks, List.mem_cons, List.not_mem_nil, or_false] at hop
  rcases hop with rfl | rfl | rfl | rfl | rfl <;> trivial

def moveOverSibling : List Op :=
  let net := fun prefixlen => Net.ofValue .v4 (10 * 2 ^ 24) prefixlen
  [.createSpace "left", .createSpace "right",
    .createBlock { spaceId := 0, network := net 8 },
    .createBlock { spaceId := 0, network := net 24, parentBlockId := some 0 },
    .createBlock { spaceId := 1, network := net 16 },
    .commitMove { blockId := 0, targetSpaceId := 1, confirmationCidr := net 8 }]

/-- The move hangs the /16 under the /8 beside the /24 it contains. -/
theorem not_blockTree_of_move :
    ∃ σ, Reachable (fun _ op => op.isBlockOp = true) σ ∧ ¬ BlockTree σ := by
  have hend : ((run .empty moveOverSibling).toOption.any fun σ =>
      (σ.getBlock 1).any fun b => (σ.getBlock 2).any fun c => b.spaceId == c.spaceId &&
        b.parentBlockId == c.parentBlockId && b.network.overlaps c.network) = true := by
    decide +kernel
  simp only [Option.any_eq_true, Bool.and_eq_true, beq_iff_eq, decide_eq_true_eq] at hend
  obtain ⟨σ, hrun, b, hb, c, hc, ⟨hsp, hp⟩, ho⟩ := hend
  exact ⟨σ, .of_run hrun fun _ => by decide,
    fun h => h.siblings 1 2 b c hb hc (by decide) hsp hp ho⟩

end SpatiumDdi.Ipam
