import SpatiumDdi.Ipam.Run

/-!
Which operations keep the live subnets of a space apart. The invariant also
covers the subnets of one Trash batch, which come back together. Two operations
do not keep it by themselves: a block move looks at the blocks of the target
level but at no subnet, and a template's slots are compared only with what
already hangs under the new block. Their conditions are `MoveClear` and
`SlotsClear`.
-/

namespace SpatiumDdi.Ipam

open Ipaddress Forest Trash

def LiveSubnetsApart (σ : Store) : Prop :=
  ∀ i j s t, σ.getSubnet i = some s → σ.getSubnet j = some t → i ≠ j → s.spaceId = t.spaceId →
    ¬ s.network.overlaps t.network

/-- Distinct subnets do not overlap if they are live in one space or in the Trash
under one batch. -/
def SubnetsApart (σ : Store) : Prop :=
  ∀ i j s t, σ.subnets.get? i = some s → σ.subnets.get? j = some t → i ≠ j →
    s.deletion = t.deletion → (s.deletion = none → s.spaceId = t.spaceId) →
    ¬ s.network.overlaps t.network

/-- No live subnet of the moved subtree meets a live subnet of the target space
outside it. -/
def MoveClear (σ : Store) (request : MoveRequest) : Prop :=
  ∀ i j s t, σ.getSubnet i = some s → σ.getSubnet j = some t →
    Above σ.parentBlock s.blockId request.blockId →
    ¬ Above σ.parentBlock t.blockId request.blockId → t.spaceId = request.targetSpaceId →
    ¬ s.network.overlaps t.network

/-- No slot of the template's layout meets a live subnet of the space. -/
def SlotsClear (σ : Store) (body : BlockCreate) : Prop :=
  ∀ slot ∈ body.slots, ∀ i s, σ.getSubnet i = some s → s.spaceId = body.spaceId →
    ¬ slot.overlaps s.network

namespace SubnetsApart

variable {σ σ' : Store}

theorem live (h : SubnetsApart σ) : LiveSubnetsApart σ := by
  intro i j s t hs ht hne hsp
  obtain ⟨hs, hsd⟩ := Store.getSubnet_eq_some.mp hs
  obtain ⟨ht, htd⟩ := Store.getSubnet_eq_some.mp ht
  exact h i j s t hs ht hne (hsd.trans htd.symm) fun _ => hsp

theorem empty : SubnetsApart .empty := by
  intro i j s t hs
  simp [Store.empty] at hs

section

variable (h : SubnetsApart σ) {blockId subnetId batch : Nat}
include h

theorem rewrite
    (hrows : ∀ i s', σ'.subnets.get? i = some s' → ∃ s, σ.subnets.get? i = some s ∧ s'.network = s.network ∧ s'.deletion = s.deletion ∧ s'.spaceId = s.spaceId) :
    SubnetsApart σ' := by
  intro i j s' t' hs' ht' hne hd hsp
  obtain ⟨s, hs, hsn, hsd, hss⟩ := hrows i s' hs'
  obtain ⟨t, ht, htn, htd, hts⟩ := hrows j t' ht'
  rw [hsn, htn]
  exact h i j s t hs ht hne (by rw [← hsd, ← htd, hd]) fun hlive => by
    rw [← hss, ← hts]
    exact hsp (hsd.trans hlive)

theorem congr (hsubnets : σ'.subnets = σ.subnets) : SubnetsApart σ' :=
  h.rewrite fun _ s hs => ⟨s, hsubnets ▸ hs, rfl, rfl, rfl⟩

/-- Deleted rows go, and new live rows meet neither each other nor a live one of
their space that stays. -/
theorem replace (gone : Nat → Prop) (rows : List Subnet)
    (hsubnets : ∀ i s, σ'.subnets.get? i = some s → ¬ gone i ∧ σ.subnets.get? i = some s ∨ ∃ k, i = σ.subnets.next + k ∧ rows[k]? = some s)
    (hlive : ∀ r ∈ rows, r.deletion = none)
    (hpair : rows.Pairwise fun r r' => ¬ r.network.overlaps r'.network)
    (hfree : ∀ r ∈ rows, ∀ i s, ¬ gone i → σ.getSubnet i = some s → s.spaceId = r.spaceId → ¬ r.network.overlaps s.network) :
    SubnetsApart σ' := by
  have hnew : ∀ (i : Nat) (s t : Subnet) (k : Nat), ¬ gone i → σ.subnets.get? i = some s →
      rows[k]? = some t → s.deletion = t.deletion → (s.deletion = none → s.spaceId = t.spaceId) →
      ¬ s.network.overlaps t.network := by
    intro i s t k hi hs ht hd hsp ho
    have hmem := List.mem_of_getElem? ht
    have hsd := hd.trans (hlive t hmem)
    exact hfree t hmem i s hi (Store.getSubnet_eq_some.mpr ⟨hs, hsd⟩) (hsp hsd) ho.symm
  intro i j s t hs ht hne hd hsp
  rcases hsubnets i s hs with ⟨hi, hs⟩ | ⟨a, rfl, ha⟩ <;>
    rcases hsubnets j t ht with ⟨hj, ht⟩ | ⟨b, rfl, hb⟩
  · exact h i j s t hs ht hne hd hsp
  · exact hnew i s t b hi hs hb hd hsp
  · intro ho
    have hsd := hlive s (List.mem_of_getElem? ha)
    exact hnew j t s a hj ht ha hd.symm (fun _ => (hsp hsd).symm) ho.symm
  · obtain ⟨ha', rfl⟩ := List.getElem?_eq_some_iff.mp ha
    obtain ⟨hb', rfl⟩ := List.getElem?_eq_some_iff.mp hb
    rcases Nat.lt_or_gt_of_ne (fun e => hne (by rw [e]) : a ≠ b) with hab | hab
    · exact List.pairwise_iff_getElem.mp hpair a b ha' hb' hab
    · exact fun ho => List.pairwise_iff_getElem.mp hpair b a hb' ha' hab ho.symm

theorem insertAll (rows : List Subnet) (hsubnets : σ'.subnets = σ.subnets.insertAll rows)
    (hlive : ∀ r ∈ rows, r.deletion = none)
    (hpair : rows.Pairwise fun r r' => ¬ r.network.overlaps r'.network)
    (hfree : ∀ r ∈ rows, ∀ i s, σ.getSubnet i = some s → s.spaceId = r.spaceId → ¬ r.network.overlaps s.network) :
    SubnetsApart σ' := by
  refine h.replace (fun _ => False) rows (fun i s hs => ?_) hlive hpair
    fun r hr i s _ => hfree r hr i s
  rw [hsubnets, Table.get?_insertAll_iff] at hs
  exact hs.imp_left fun hs => ⟨id, hs⟩

theorem insertSubnet {s : Subnet} (placeholders : Bool) (hlive : s.deletion = none)
    (hfree : ∀ i t, σ.getSubnet i = some t → t.spaceId = s.spaceId → ¬ t.network.overlaps s.network) :
    SubnetsApart (insertSubnet σ s placeholders) := by
  obtain ⟨gateway, hrow⟩ := insertSubnet_subnets σ s placeholders
  refine h.insertAll [{ s with gateway }] hrow (by simpa using hlive) (by simp) ?_
  intro r hr i t ht hsp ho
  obtain rfl := List.mem_singleton.mp hr
  exact hfree i t ht hsp ho.symm

theorem createBlock {body : BlockCreate} (hop : createBlock σ body = .ok (blockId, σ'))
    (hclear : SlotsClear σ body) : SubnetsApart σ' := by
  obtain ⟨ids, carved, -, -, -, hcarved, rfl⟩ := createBlock_ok hop
  obtain ⟨hall, hpair⟩ := carveChildren_ok hcarved
  have hinsert : SubnetsApart { Ipam.insertBlock σ body.row with
      subnets := σ.subnets.insertAll carved } := by
    refine h.insertAll carved rfl (fun r hr => (hall r hr).2.2.1) hpair fun r hr i s hs hsp => ?_
    exact hclear _ (mem_slots_of_carveChildren hcarved r hr) i s hs (hsp.trans (hall r hr).1)
  refine hinsert.rewrite fun i s' hs' => ?_
  simp only [adopt, Table.get?_modify, Option.map_eq_some_iff] at hs'
  obtain ⟨s, hs, rfl⟩ := hs'
  refine ⟨s, hs, ?_⟩
  split <;> exact ⟨rfl, rfl, rfl⟩

theorem createSubnet {body : SubnetCreate} (hop : createSubnet σ body = .ok (subnetId, σ')) :
    SubnetsApart σ' := by
  obtain ⟨block, subnet, placeholders, -, -, -, -, hfree, hspace, -, hnetwork, hlive, rfl⟩ :=
    createSubnet_ok hop
  refine h.insertSubnet _ hlive fun i t ht hsp => ?_
  rw [hnetwork]
  exact hfree i t ht (hsp.trans hspace)

theorem allocateSubnet {body : SubnetAllocate}
    (hop : allocateSubnet σ blockId body = .ok (subnetId, σ')) : SubnetsApart σ' := by
  obtain ⟨block, chosen, -, -, hcreate⟩ := allocateSubnet_ok hop
  exact h.createSubnet hcreate

theorem commitSubnetResize {request : SubnetResize} (hop : commitSubnetResize σ request = .ok σ') :
    SubnetsApart σ' := by
  obtain ⟨subnet, gateway, addresses, hsubnet, -, hfree, -, -, rfl⟩ := commitSubnetResize_ok hop
  obtain ⟨hrow, hlive⟩ := Store.getSubnet_eq_some.mp hsubnet
  have hgrown : ∀ j t, σ.subnets.get? j = some t → j ≠ request.subnetId → t.deletion = none →
      t.spaceId = subnet.spaceId → ¬ t.network.overlaps request.newCidr := by
    intro j t ht hne hd hsp
    refine hfree j t (Store.getSubnet_eq_some.mpr ⟨ht, hd⟩) hsp hne fun he => ?_
    exact h j request.subnetId t subnet ht hrow hne (hd.trans hlive.symm) (fun _ => hsp)
      (he ▸ Net.overlaps_self _)
  intro i j s' t' hs' ht' hne hd hsp
  simp only [Table.get?_modify, Option.map_eq_some_iff] at hs' ht'
  obtain ⟨s, hs, rfl⟩ := hs'
  obtain ⟨t, ht, rfl⟩ := ht'
  by_cases hi : i = request.subnetId
  · have hj : j ≠ request.subnetId := fun hj => hne (hi.trans hj.symm)
    subst hi
    obtain rfl : s = subnet := Option.some.inj (hs.symm.trans hrow)
    simp only [if_true, hj, if_false] at hd hsp ⊢
    exact fun ho => hgrown j t ht hj (hd.symm.trans hlive) (hsp hlive).symm ho.symm
  by_cases hj : j = request.subnetId
  · subst hj
    obtain rfl : t = subnet := Option.some.inj (ht.symm.trans hrow)
    simp only [if_true, hi, if_false] at hd hsp ⊢
    have hsd := hd.trans hlive
    exact hgrown i s hs hi hsd (hsp hsd)
  · simp only [hi, hj, if_false] at hd hsp ⊢
    exact h i j s t hs ht hne hd hsp

theorem commitSubnetSplit {request : SubnetSplit} {ids : List Nat}
    (hop : commitSubnetSplit σ request = .ok (ids, σ')) : SubnetsApart σ' := by
  obtain ⟨subnet, hsubnet, hlt, hle, -, -, -, hsubnets⟩ := commitSubnetSplit_ok hop
  obtain ⟨hrow, hlive⟩ := Store.getSubnet_eq_some.mp hsubnet
  refine h.replace (· = request.subnetId)
    ((subnet.network.subnets request.newPrefixLength).map (splitChild subnet))
    (fun i s hs => ?_) ?_ ?_ ?_
  · rw [hsubnets, Table.get?_keep, Option.filter_eq_some_iff, Table.get?_insertAll_iff] at hs
    obtain ⟨hs | hs, hi⟩ := hs
    · exact Or.inl ⟨by simpa using hi, hs⟩
    · exact Or.inr hs
  · intro r hr
    obtain ⟨net, -, rfl⟩ := List.mem_map.mp hr
    rfl
  · refine List.pairwise_map.mpr ?_
    refine (Net.subnets_sorted hlt.le (by omega)).imp_of_mem fun {a b} ha hb hab ho => ?_
    have hsize : a.prefixlen = b.prefixlen :=
      ((Net.mem_subnets hlt.le (by omega)).mp ha).2.trans
        ((Net.mem_subnets hlt.le (by omega)).mp hb).2.symm
    rw [Net.eq_of_overlaps_of_prefixlen (a := a) (b := b) ho hsize] at hab
    exact lt_irrefl _ hab
  · intro r hr i s hi hs hsp ho
    obtain ⟨net, hnet, rfl⟩ := List.mem_map.mp hr
    have hsub : net.subnetOf subnet.network :=
      ((Net.mem_subnets hlt.le (by omega)).mp hnet).1
    exact h.live i request.subnetId s subnet hs hsubnet hi hsp (Net.overlaps.symm ho |>.mono_right hsub)

theorem commitSubnetMerge (htree : TreeInv σ) {request : SubnetMerge} {mergedId : Nat}
    (hop : commitSubnetMerge σ request = .ok (mergedId, σ')) : SubnetsApart σ' := by
  obtain ⟨target, sources, merged, gateway, htarget, -, hsources, hsame, hcovered, -, -, -,
    hsubnets⟩ := commitSubnetMerge_ok hop
  refine h.replace (· ∈ sources.map Prod.fst) [mergedSubnet target merged gateway]
    (fun i s hs => ?_) (by simp [mergedSubnet]) (by simp) ?_
  · rw [hsubnets] at hs
    obtain ⟨hi, hs⟩ := Option.ite_none_left_eq_some.mp hs
    rcases Table.get?_insert_cases hs with ⟨rfl, rfl⟩ | hs
    · exact Or.inr ⟨0, rfl, rfl⟩
    · exact Or.inl ⟨hi, hs⟩
  · intro r hr i s hi hs hsp ho
    obtain rfl := List.mem_singleton.mp hr
    obtain ⟨m, hm, hover⟩ := hcovered.exists_overlaps ho.symm
    obtain ⟨source, hsource, rfl⟩ := List.mem_map.mp hm
    have hlive := hsources source hsource
    obtain ⟨q, hq, hqsp, -⟩ := htree.block_live hlive
    obtain ⟨q', hq', hqsp', -⟩ := htree.block_live htarget
    rw [hsame source hsource, hq'] at hq
    obtain rfl := Option.some.inj hq
    have hspace : source.2.spaceId = target.spaceId := hqsp.symm.trans hqsp'
    refine h.live i source.1 s source.2 hs hlive (fun e => hi ?_) (hsp.trans hspace.symm) hover
    exact e ▸ List.mem_map_of_mem hsource

theorem materialise {spaceId parentBlockId : Nat} {forest : PlanForest} {parent : Net}
    {seen : List Net} (hvalid : subtreeConflicts parent seen forest = [])
    (hfree : ∀ n ∈ forest.walk, ∀ i s, σ.getSubnet i = some s → s.spaceId = spaceId → ¬ n.network.overlaps s.network)
    (hop : materialise spaceId parentBlockId forest σ = .ok σ') :
    SubnetsApart σ' ∧ ∀ i s, σ'.getSubnet i = some s → σ.getSubnet i = some s ∨
      ∃ n ∈ forest.walk, s.network = n.network := by
  induction forest generalizing parentBlockId parent seen σ σ' with
  | nil =>
    simp only [Ipam.materialise, Except.ok.injEq] at hop
    exact hop ▸ ⟨h, fun i s hs => Or.inl hs⟩
  | cons node children siblings ihc ihs =>
    obtain ⟨hsub, -, hchildren, hsiblings⟩ := subtreeConflicts_cons hvalid
    have hoff : ∀ n ∈ siblings.walk, ¬ n.network.overlaps node.network := fun n hn =>
      (mem_walk_of_subtreeConflicts hsiblings hn).2 _ (by simp)
    simp only [PlanForest.walk, List.mem_cons, List.mem_append] at hfree ⊢
    rcases materialise_cons hop with
      ⟨σ₂, hopc, hops⟩ | ⟨subnet, placeholders, hsp, -, hnet, hlive, hops⟩
    · have hblock : SubnetsApart
          (Ipam.insertBlock σ (.mk spaceId (some parentBlockId) node.network false none)) :=
        h.congr rfl
      obtain ⟨h₂, hrows₂⟩ := ihc hblock hchildren
        (fun n hn => hfree n (Or.inr (Or.inl hn))) hopc
      obtain ⟨h', hrows'⟩ := ihs h₂ hsiblings (fun n hn i s hs hsp ho => by
        rcases hrows₂ i s hs with hs | ⟨m, hm, hsm⟩
        · exact hfree n (Or.inr (Or.inr hn)) i s hs hsp ho
        · rw [hsm] at ho
          exact hoff n hn (ho.mono_right (mem_walk_of_subtreeConflicts hchildren hm).1)) hops
      refine ⟨h', fun i s hs => ?_⟩
      rcases hrows' i s hs with hs | ⟨n, hn, hsn⟩
      · rcases hrows₂ i s hs with hs | ⟨n, hn, hsn⟩
        · exact Or.inl hs
        · exact Or.inr ⟨n, Or.inr (Or.inl hn), hsn⟩
      · exact Or.inr ⟨n, Or.inr (Or.inr hn), hsn⟩
    · have hinsert : SubnetsApart (Ipam.insertSubnet σ subnet placeholders) :=
        h.insertSubnet _ hlive fun i t ht htsp ho =>
          hfree node (Or.inl rfl) i t ht (htsp.trans hsp) (hnet ▸ ho.symm)
      have hrows₁ : ∀ i s, (Ipam.insertSubnet σ subnet placeholders).getSubnet i = some s →
          σ.getSubnet i = some s ∨ s.network = node.network := by
        intro i s hs
        obtain ⟨gateway, hrow⟩ := insertSubnet_subnets σ subnet placeholders
        obtain ⟨hs, hsd⟩ := Store.getSubnet_eq_some.mp hs
        rw [hrow] at hs
        rcases Table.get?_insert_cases hs with ⟨-, rfl⟩ | hs
        · exact Or.inr hnet
        · exact Or.inl (Store.getSubnet_eq_some.mpr ⟨hs, hsd⟩)
      obtain ⟨h', hrows'⟩ := ihs hinsert hsiblings (fun n hn i s hs hsp ho => by
        rcases hrows₁ i s hs with hs | hs
        · exact hfree n (Or.inr (Or.inr hn)) i s hs hsp ho
        · exact hoff n hn (hs ▸ ho)) hops
      refine ⟨h', fun i s hs => ?_⟩
      rcases hrows' i s hs with hs | ⟨n, hn, hsn⟩
      · exact (hrows₁ i s hs).imp_right fun hs => ⟨node, Or.inl rfl, hs⟩
      · exact Or.inr ⟨n, Or.inr (Or.inr hn), hsn⟩

theorem applyPlan {plan : SubnetPlan} (hop : applyPlan σ plan = .ok σ') : SubnetsApart σ' := by
  obtain ⟨hvalid, hop⟩ := applyPlan_ok hop
  obtain ⟨-, htree, hexisting⟩ := validateTree_ok hvalid
  have hfree : ∀ n ∈ plan.children.walk, ∀ i s, σ.getSubnet i = some s →
      s.spaceId = plan.spaceId → ¬ n.network.overlaps s.network := by
    intro n hn i s hs hsp
    refine hexisting n ?_ s.network (List.mem_append_right _ (List.mem_map.mpr
      ⟨(i, s), Store.mem_liveSubnets.mpr ⟨hs, by simpa using hsp⟩, rfl⟩))
    unfold newNodes
    split
    · exact List.mem_cons_of_mem _ hn
    · exact hn
  split at hop
  · exact (h.materialise htree hfree hop).1
  · exact ((h.congr rfl : SubnetsApart (Ipam.insertBlock σ _)).materialise htree hfree hop).1

theorem commitMove (htree : TreeInv σ) {request : MoveRequest} (hop : commitMove σ request = .ok σ')
    (hclear : MoveClear σ request) : SubnetsApart σ' := by
  obtain ⟨moved, chain, hstep⟩ := commitMove_step htree hop
  have hroot := (Store.getBlock_eq_some.mp hstep.root).1
  have hspace : ∀ i s, σ.subnets.get? i = some s →
      Above σ.parentBlock s.blockId request.blockId → s.spaceId = moved.spaceId := by
    intro i s hs hin
    obtain ⟨q, hq, hsp, -⟩ := htree.block hs
    obtain ⟨c, hc, hcsp, -⟩ := htree.above hq hin
    obtain rfl : c = moved := Option.some.inj (hc.symm.trans hroot)
    exact hsp.symm.trans hcsp.symm
  intro i j s' t' hs' ht' hne hd hsp
  obtain ⟨s, hs, hsm⟩ := hstep.subnets hs'
  obtain ⟨t, ht, htm⟩ := hstep.subnets ht'
  rw [hsm.deletion, htm.deletion] at hd
  rw [hsm.deletion] at hsp
  rw [hsm.network, htm.network]
  by_cases hsin : Above σ.parentBlock s.blockId request.blockId <;>
    by_cases htin : Above σ.parentBlock t.blockId request.blockId
  · exact h i j s t hs ht hne hd fun _ => (hspace i s hs hsin).trans (hspace j t ht htin).symm
  · cases hlive : s.deletion with
    | some n => exact h i j s t hs ht hne hd fun hn => by simp [hn] at hlive
    | none =>
      have hsp := hsp hlive
      rw [hsm.inside hsin, htm.outside htin] at hsp
      exact hclear i j s t (Store.getSubnet_eq_some.mpr ⟨hs, hlive⟩)
        (Store.getSubnet_eq_some.mpr ⟨ht, hd.symm.trans hlive⟩) hsin htin hsp.symm
  · cases hlive : s.deletion with
    | some n => exact h i j s t hs ht hne hd fun hn => by simp [hn] at hlive
    | none =>
      have hsp := hsp hlive
      rw [htm.inside htin, hsm.outside hsin] at hsp
      exact fun ho => hclear j i t s (Store.getSubnet_eq_some.mpr ⟨ht, hd.symm.trans hlive⟩)
        (Store.getSubnet_eq_some.mpr ⟨hs, hlive⟩) htin hsin hsp ho.symm
  · exact h i j s t hs ht hne hd fun hlive => by
      have hsp := hsp hlive
      rwa [hsm.outside hsin, htm.outside htin] at hsp

theorem softDelete (htree : TreeInv σ) {request : SoftDelete}
    (hop : softDelete σ request = .ok (batch, σ')) : SubnetsApart σ' := by
  simp only [Trash.softDelete, bind_eq_ok, pure_eq_ok, Prod.mk.injEq] at hop
  obtain ⟨keys, hkeys, -, rfl⟩ := hop
  obtain ⟨⟨sp, -, hbatch⟩, -, -⟩ := htree.batch_tree hkeys
  have hin : ∀ i s, σ.subnets.get? i = some s → .subnet i ∈ keys →
      s.deletion = none ∧ s.spaceId = sp := by
    intro i s hs hi
    obtain ⟨s', hs', hsp⟩ := hbatch i hi
    obtain ⟨hs', hd⟩ := Store.getSubnet_eq_some.mp hs'
    obtain rfl : s = s' := Option.some.inj (hs.symm.trans hs')
    exact ⟨hd, hsp⟩
  intro i j s' t' hs' ht' hne hd hsp
  simp only [applySoftDelete, Table.get?_modify, Option.map_eq_some_iff] at hs' ht'
  obtain ⟨s, hs, rfl⟩ := hs'
  obtain ⟨t, ht, rfl⟩ := ht'
  simp only [stamp] at hd hsp ⊢
  by_cases hi : .subnet i ∈ keys <;> by_cases hj : .subnet j ∈ keys
  · obtain ⟨hsd, hss⟩ := hin i s hs hi
    obtain ⟨htd, hts⟩ := hin j t ht hj
    exact h i j s t hs ht hne (hsd.trans htd.symm) fun _ => hss.trans hts.symm
  · simp only [hi, hj, if_true, if_false] at hd
    exact absurd (htree.subnetStamp ht hd.symm) (lt_irrefl _)
  · simp only [hi, hj, if_true, if_false] at hd
    exact absurd (htree.subnetStamp hs hd) (lt_irrefl _)
  · simp only [hi, hj, if_false] at hd hsp
    exact h i j s t hs ht hne hd hsp

theorem restoreBatch (hop : restoreBatch σ batch = .ok σ') : SubnetsApart σ' := by
  obtain ⟨-, hcheck, -, hsubnets, -⟩ := restoreBatch_ok hop
  have hrestored : ∀ i j s t, σ.subnets.get? i = some s → σ.subnets.get? j = some t → i ≠ j →
      s.deletion = some batch → t.deletion = none → t.spaceId = s.spaceId →
      ¬ t.network.overlaps s.network := by
    intro i j s t hs ht hne hd hlive hsp
    have hover := (subnetConflict_ok (hcheck i s hs hd)).2
    exact assertNoOverlap_eq_ok.mp hover j t (Store.getSubnet_eq_some.mpr ⟨ht, hlive⟩) hsp
      fun he => hne (Option.some.inj he)
  intro i j s' t' hs' ht' hne hd hsp
  simp only [hsubnets, Table.get?_modify, Option.map_eq_some_iff] at hs' ht'
  obtain ⟨s, hs, rfl⟩ := hs'
  obtain ⟨t, ht, rfl⟩ := ht'
  simp only at hd hsp ⊢
  cases hsn : unstamp batch s.deletion with
  | some n =>
    obtain ⟨hsn', -⟩ := unstamp_eq_some.mp hsn
    obtain ⟨htn', -⟩ := unstamp_eq_some.mp (hd.symm.trans hsn)
    exact h i j s t hs ht hne (hsn'.trans htn'.symm) fun hn => by simp [hn] at hsn'
  | none =>
    have hsp := hsp hsn
    rcases unstamp_eq_none.mp hsn with hsd | hsd <;>
      rcases unstamp_eq_none.mp (hd.symm.trans hsn) with htd | htd
    · exact h i j s t hs ht hne (hsd.trans htd.symm) fun _ => hsp
    · exact hrestored j i t s ht hs (Ne.symm hne) htd hsd hsp
    · exact fun ho => hrestored i j s t hs ht hne hsd htd hsp.symm ho.symm
    · exact h i j s t hs ht hne (hsd.trans htd.symm) fun hn => by simp [hn] at hsd

end

end SubnetsApart

def SubnetSafe (σ : Store) : Op → Prop
  | .createBlock body => SlotsClear σ body
  | .commitMove request => MoveClear σ request
  | _ => True

theorem SubnetsApart.step {σ σ' : Store} (h : SubnetsApart σ) (htree : TreeInv σ) {op : Op}
    (hsafe : SubnetSafe σ op) (hop : step σ op = .ok σ') : SubnetsApart σ' := by
  cases op <;> simp only [Ipam.step, map_snd_eq_ok] at hop
  case createSpace =>
    obtain ⟨_, hop⟩ := hop
    obtain ⟨-, rfl⟩ := createSpace_ok hop
    exact h.congr rfl
  case createBlock => exact hop.elim fun _ hop => h.createBlock hop hsafe
  case updateBlock =>
    exact h.congr (updateBlock_subnets hop)
  case createSubnet => exact hop.elim fun _ => h.createSubnet
  case allocateSubnet => exact hop.elim fun _ => h.allocateSubnet
  case applyPlan => exact h.applyPlan hop
  case commitSubnetResize => exact h.commitSubnetResize hop
  case commitBlockResize =>
    obtain ⟨_, -, -, -, -, -, rfl⟩ := commitBlockResize_ok hop
    exact h.congr rfl
  case commitSubnetSplit => exact hop.elim fun _ => h.commitSubnetSplit
  case commitSubnetMerge => exact hop.elim fun _ => h.commitSubnetMerge htree
  case commitMove => exact h.commitMove htree hop hsafe
  case softDelete => exact hop.elim fun _ => h.softDelete htree
  case restoreBatch => exact h.restoreBatch hop

theorem Reachable.subnetsApart {σ : Store} (h : Reachable SubnetSafe σ) : SubnetsApart σ := by
  induction h with
  | empty => exact SubnetsApart.empty
  | step op hreach hsafe hop ih => exact ih.step hreach.treeInv hsafe hop

/-- In a run whose moves and template carvings are clear, the live subnets of a
space are always apart. -/
theorem liveSubnetsApart_of_reachable {σ : Store} (h : Reachable SubnetSafe σ) :
    LiveSubnetsApart σ := h.subnetsApart.live

/-- Two subnets under one block, the second put where the first leaves room. -/
def twoSubnets : List Op :=
  let net := fun prefixlen => Net.ofValue .v4 (10 * 2 ^ 24) prefixlen
  [.createSpace "left", .createBlock { spaceId := 0, network := net 16 },
    .createSubnet { spaceId := 0, blockId := 0, network := net 24 },
    .allocateSubnet 0 { prefixLen := 24 }]

theorem liveSubnetsApart_twoSubnets : ∃ σ, (run .empty twoSubnets).toOption = some σ ∧
    (σ.subnets.rows.length = 2) ∧ LiveSubnetsApart σ := by
  have hend : ((run .empty twoSubnets).toOption.any fun σ => σ.subnets.rows.length == 2) = true := by
    decide +kernel
  simp only [Option.any_eq_true, beq_iff_eq] at hend
  obtain ⟨σ, hrun, hlength⟩ := hend
  refine ⟨σ, hrun, hlength, liveSubnetsApart_of_reachable (.of_run hrun ?_)⟩
  intro σ op hop
  simp only [twoSubnets, List.mem_cons, List.not_mem_nil, or_false] at hop
  rcases hop with rfl | rfl | rfl | rfl <;>
    simp [SubnetSafe, SlotsClear, BlockCreate.slots, layoutSlots]

def moveOntoSubnet : List Op :=
  let net := fun prefixlen => Net.ofValue .v4 (10 * 2 ^ 24) prefixlen
  [.createSpace "left", .createSpace "right",
    .createBlock { spaceId := 0, network := net 16 },
    .createSubnet { spaceId := 0, blockId := 0, network := net 24 },
    .createBlock { spaceId := 1, network := net 8 },
    .createSubnet { spaceId := 1, blockId := 1, network := net 24 },
    .commitMove { blockId := 0, targetSpaceId := 1, targetParentId := some 1,
                  confirmationCidr := net 16 }]

/-- Moves break the rule: a run of the listed operations ends with one network
twice in a space. -/
theorem not_liveSubnetsApart_of_move :
    ∃ σ, Reachable (fun _ op => op.isUpdateBlock = false) σ ∧ ¬ LiveSubnetsApart σ := by
  have hend : ((run .empty moveOntoSubnet).toOption.any fun σ =>
      (σ.getSubnet 0).any fun s => (σ.getSubnet 1).any fun t =>
        s.spaceId == t.spaceId && s.network.overlaps t.network) = true := by decide +kernel
  simp only [Option.any_eq_true, Bool.and_eq_true, beq_iff_eq, decide_eq_true_eq] at hend
  obtain ⟨σ, hrun, s, hs, t, ht, hsp, ho⟩ := hend
  exact ⟨σ, .of_run hrun fun _ => by decide, fun h => h 0 1 s t hs ht (by decide) hsp ho⟩

end SpatiumDdi.Ipam
