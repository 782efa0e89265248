import SpatiumDdi.Ipam.Run

/-!
Preview and carve. `availableSubnets` subtracts every subnet of the space and
the block's child blocks; `allocateSubnet` subtracts the block's direct children
alone, takes the lowest slot and leaves the rest to the overlap check of
`createSubnet`. `CarveClear` is what the two need to agree.
-/

namespace SpatiumDdi.Ipam

open Ipaddress Forest

structure LowestFree (block : Net) (occupied : List Net) (prefixLen : Nat) (slot : Net) :
    Prop where
  mem : slot ∈ block.subnets prefixLen
  free : ∀ o ∈ occupied, ¬ slot.overlaps o
  lowest : ∀ c ∈ block.subnets prefixLen, (∀ o ∈ occupied, ¬ c.overlaps o) →
    slot.networkAddress ≤ c.networkAddress

variable {α : Type}

theorem find_take_insertionSort (key : α → Nat) (l : List α) (limit : Nat) (q : α → Bool) {r : α}
    (h : ((l.insertionSort fun a b => key a ≤ key b).take limit).find? q = some r) :
    r ∈ l ∧ q r = true ∧ (∀ d ∈ l, q d = true → key r ≤ key d) ∧
      l.countP (fun d => key d < key r) < limit := by
  have hsorted : (l.insertionSort fun a b => key a ≤ key b).Pairwise fun a b => key a ≤ key b :=
    List.pairwise_insertionSort _ l
  have hperm := List.perm_insertionSort (fun a b => key a ≤ key b) l
  generalize l.insertionSort (fun a b => key a ≤ key b) = s at h hsorted hperm
  obtain ⟨hq, before, after, htake, hbefore⟩ := List.find?_eq_some_iff_append.mp h
  have hs : s = before ++ r :: (after ++ s.drop limit) := by
    rw [← List.cons_append, ← List.append_assoc, ← htake, List.take_append_drop]
  have hlength : before.length < limit := by
    have := congrArg List.length htake
    simp only [List.length_append, List.length_cons, List.length_take] at this
    omega
  rw [hs, List.pairwise_append, List.pairwise_cons] at hsorted
  obtain ⟨-, ⟨hafter, -⟩, -⟩ := hsorted
  refine ⟨hperm.mem_iff.mp (hs ▸ by simp), hq, fun d hd hqd => ?_, ?_⟩
  · rw [← hperm.mem_iff, hs, List.mem_append, List.mem_cons] at hd
    rcases hd with hd | rfl | hd
    · simpa [hqd] using hbefore d hd
    · exact le_rfl
    · exact hafter d hd
  · rw [← hperm.countP_eq, hs, List.countP_append, List.countP_cons_of_neg (by simp)]
    have hzero : (after ++ s.drop limit).countP (fun d => key d < key r) = 0 :=
      List.countP_eq_zero.mpr fun d hd => by simpa using hafter d hd
    have := List.countP_le_length (p := fun d => decide (key d < key r)) (l := before)
    omega

theorem find_take_insertionSort_eq_none (key : α → Nat) (l : List α) (limit : Nat) (q : α → Bool)
    (hkey : ∀ a ∈ l, ∀ b ∈ l, key a = key b → a = b)
    (h : ((l.insertionSort fun a b => key a ≤ key b).take limit).find? q = none) :
    ∀ d ∈ l, q d = true → limit ≤ l.countP fun e => key e < key d := by
  have hsorted : (l.insertionSort fun a b => key a ≤ key b).Pairwise fun a b => key a ≤ key b :=
    List.pairwise_insertionSort _ l
  have hperm := List.perm_insertionSort (fun a b => key a ≤ key b) l
  generalize l.insertionSort (fun a b => key a ≤ key b) = s at h hsorted hperm
  intro d hd hqd
  have hnot : d ∉ s.take limit := fun hmem => by
    simpa [hqd] using List.find?_eq_none.mp h d hmem
  have hdrop : d ∈ s.drop limit := by
    have hmem := hperm.mem_iff.mpr hd
    rw [← List.take_append_drop limit s, List.mem_append] at hmem
    exact hmem.resolve_left hnot
  have hlength : (s.take limit).length = limit := by
    have := List.length_pos_of_mem hdrop
    simp only [List.length_drop] at this
    simp only [List.length_take]
    omega
  rw [← List.take_append_drop limit s, List.pairwise_append] at hsorted
  have hall : ∀ e ∈ s.take limit, key e < key d := by
    intro e he
    refine lt_of_le_of_ne (hsorted.2.2 e he d hdrop) fun hk => hnot ?_
    have hel := hperm.mem_iff.mp (List.mem_of_mem_take he)
    exact hkey e hel d hd hk ▸ he
  rw [← hperm.countP_eq, ← List.take_append_drop limit s, List.countP_append,
    List.countP_eq_length.mpr (by simpa using hall), hlength]
  exact Nat.le_add_right _ _

section ChooseSubnet

variable {block chosen : Net} {occupied : List Net} {prefixLen : Nat}
  (hp : prefixLen ≤ block.version.maxPrefixlen)
include hp

omit hp in
theorem excludeAll_networkAddress_inj {a b : Net} (ha : a ∈ block.excludeAll occupied)
    (hb : b ∈ block.excludeAll occupied) (h : a.networkAddress = b.networkAddress) : a = b := by
  rw [Net.mem_excludeAll] at ha hb
  refine ha.eq_of_overlaps hb ?_
  refine (a.hasValue_networkAddress).overlaps (h ▸ b.hasValue_networkAddress) ?_
  exact ha.1.1.1.trans hb.1.1.1.symm

/-- The first slot of the lowest range that is large enough is the lowest free
slot. -/
theorem lowestFree_of_range {r : Net} (hr : r ∈ block.excludeAll occupied)
    (hlen : r.prefixlen ≤ prefixLen)
    (hlow : ∀ d ∈ block.excludeAll occupied, d.prefixlen ≤ prefixLen →
      r.networkAddress ≤ d.networkAddress) :
    LowestFree block occupied prefixLen (Net.ofValue r.version r.networkAddress prefixLen) ∧
      (Net.ofValue r.version r.networkAddress prefixLen).networkAddress = r.networkAddress := by
  have hmax := Net.mem_excludeAll.mp hr
  have hversion : r.version = block.version := hmax.1.1.1
  have hpr : prefixLen ≤ r.version.maxPrefixlen := hversion ▸ hp
  obtain ⟨rest, hhead⟩ := Net.subnets_head (n := r) (p := prefixLen)
  have hslot : Net.ofValue r.version r.networkAddress prefixLen ∈ r.subnets prefixLen := by
    rw [hhead]
    exact List.mem_cons_self
  obtain ⟨hsub, hplen⟩ := (Net.mem_subnets hlen hpr).mp hslot
  have haddr : (Net.ofValue r.version r.networkAddress prefixLen).networkAddress =
      r.networkAddress := by
    refine Net.ofValue_networkAddress hpr r.inRange ?_
    exact (Nat.pow_dvd_pow 2 (by omega)).trans r.numAddresses_dvd
  have hfree := hmax.1.mono hsub
  have hbp : block.prefixlen ≤ prefixLen := hmax.1.1.prefixlen_le.trans hlen
  refine ⟨⟨(Net.mem_subnets hbp hp).mpr ⟨hfree.1, hplen⟩, hfree.2, ?_⟩, haddr⟩
  intro c hc hcfree
  obtain ⟨hcsub, hcp⟩ := (Net.mem_subnets hbp hp).mp hc
  obtain ⟨d, hd, hcd⟩ := Net.FreeIn.exists_maximalFree ⟨hcsub, hcfree⟩
  rw [haddr]
  refine (hlow d (Net.mem_excludeAll.mpr hd) (hcp ▸ hcd.prefixlen_le)).trans ?_
  exact (Net.subnetOf_iff.mp hcd).2.1

theorem chooseSubnet_none_ok (hbp : block.prefixlen ≤ prefixLen) :
    chooseSubnet block occupied prefixLen none = .ok chosen ↔
      LowestFree block occupied prefixLen chosen ∧
        (block.excludeAll occupied).countP
          (fun d => d.networkAddress < chosen.networkAddress) < 100000 := by
  simp only [chooseSubnet, computeFreeCidrs]
  constructor
  · intro h
    split at h
    · rename_i r heq
      obtain rfl := Except.ok.inj h
      obtain ⟨hr, hlen, hlow, hcount⟩ := find_take_insertionSort Net.networkAddress _ _ _ heq
      obtain ⟨hlowest, haddr⟩ := lowestFree_of_range hp hr (by simpa using hlen)
        fun d hd hd' => hlow d hd (by simpa using hd')
      refine ⟨hlowest, ?_⟩
      rw [haddr]
      exact hcount
    · simp at h
  · rintro ⟨hlowest, hcount⟩
    obtain ⟨hsub, hplen⟩ := (Net.mem_subnets hbp hp).mp hlowest.mem
    obtain ⟨d, hd, hcd⟩ := Net.FreeIn.exists_maximalFree ⟨hsub, hlowest.free⟩
    have hdmem := Net.mem_excludeAll.mpr hd
    have hdlen : d.prefixlen ≤ prefixLen := hplen ▸ hcd.prefixlen_le
    have hdle : d.networkAddress ≤ chosen.networkAddress := (Net.subnetOf_iff.mp hcd).2.1
    split
    · rename_i r heq
      obtain ⟨hr, hlen, hlow, -⟩ := find_take_insertionSort Net.networkAddress _ _ _ heq
      obtain ⟨hlowest', -⟩ := lowestFree_of_range hp hr (by simpa using hlen)
        fun d hd hd' => hlow d hd (by simpa using hd')
      congr 1
      obtain ⟨hsub', hplen'⟩ := (Net.mem_subnets hbp hp).mp hlowest'.mem
      refine Net.ext_of_bounds (hsub'.1.trans hsub.1.symm) ?_ (hplen'.trans hplen.symm)
      exact le_antisymm (hlowest'.lowest _ hlowest.mem hlowest.free)
        (hlowest.lowest _ hlowest'.mem hlowest'.free)
    · rename_i heq
      exfalso
      have hmany := find_take_insertionSort_eq_none Net.networkAddress _ _ _
        (fun a ha b hb => excludeAll_networkAddress_inj ha hb) heq d hdmem (by simpa using hdlen)
      have hmono : (block.excludeAll occupied).countP
            (fun e => e.networkAddress < d.networkAddress) ≤
          (block.excludeAll occupied).countP
            (fun e => e.networkAddress < chosen.networkAddress) :=
        List.countP_mono_left fun e _ he => by
          simp only [decide_eq_true_eq] at he ⊢
          omega
      omega

theorem chooseSubnet_ok {network : Option Net} (hbp : block.prefixlen ≤ prefixLen)
    (h : chooseSubnet block occupied prefixLen network = .ok chosen) :
    chosen.subnetOf block ∧ ∀ o ∈ occupied, ¬ chosen.overlaps o := by
  cases network with
  | none =>
    obtain ⟨hlowest, -⟩ := (chooseSubnet_none_ok hp hbp).mp h
    exact ⟨((Net.mem_subnets hbp hp).mp hlowest.mem).1, hlowest.free⟩
  | some picked =>
    simp only [chooseSubnet, bind_eq_ok, require_eq_ok, exists_const, pure_eq_ok] at h
    obtain ⟨hsub, -, hfree, rfl⟩ := h
    exact ⟨hsub, hfree⟩

end ChooseSubnet

theorem filter_head_lowest {key : α → Nat} {l rest : List α} {q : α → Bool} {a : α}
    (hsorted : l.Pairwise fun a b => key a < key b) (h : l.filter q = a :: rest) :
    a ∈ l ∧ q a = true ∧ ∀ c ∈ l, q c = true → key a ≤ key c := by
  have hmem := List.mem_filter.mp (h ▸ List.mem_cons_self : a ∈ l.filter q)
  refine ⟨hmem.1, hmem.2, fun c hc hqc => ?_⟩
  have hpair := (h ▸ hsorted.filter q : (a :: rest).Pairwise fun a b => key a < key b)
  have hc' : c ∈ a :: rest := h ▸ List.mem_filter.mpr ⟨hc, hqc⟩
  rcases List.mem_cons.mp hc' with rfl | hc'
  · exact le_rfl
  · exact (List.rel_of_pairwise_cons hpair hc').le

section Preview

variable {σ : Store} {blockId prefixLen : Nat} {block : IPBlock} {n : Net}

theorem mem_availableSubnets {c : Net} : c ∈ availableSubnets σ blockId block prefixLen ↔
    c ∈ block.network.subnets prefixLen ∧ ∀ o ∈ previewOccupants σ blockId block,
      ¬ c.overlaps o := by
  simp [availableSubnets, List.mem_filter]

theorem mem_previewOccupants : n ∈ previewOccupants σ blockId block ↔
    (∃ i s, σ.getSubnet i = some s ∧ (s.spaceId = block.spaceId ∧
      s.network.overlaps block.network) ∧ s.network = n) ∨
    ∃ i b, σ.getBlock i = some b ∧ b.parentBlockId = some blockId ∧ b.network = n := by
  simp [previewOccupants, Store.mem_liveBlocks, Store.mem_liveSubnets, and_assoc]

theorem mem_directChildren : n ∈ directChildren σ blockId ↔
    (∃ i b, σ.getBlock i = some b ∧ b.parentBlockId = some blockId ∧ b.network = n) ∨
      ∃ i s, σ.getSubnet i = some s ∧ s.blockId = blockId ∧ s.network = n := by
  simp [directChildren, Store.mem_liveBlocks, Store.mem_liveSubnets, and_assoc]

theorem mem_previewOccupants_of_directChildren (htree : TreeInv σ)
    (hb : σ.getBlock blockId = some block) (hn : n ∈ directChildren σ blockId) :
    n ∈ previewOccupants σ blockId block := by
  rw [mem_previewOccupants]
  rcases mem_directChildren.mp hn with hn | ⟨i, s, hs, rfl, rfl⟩
  · exact Or.inr hn
  · obtain ⟨q, hq, hsp, hsub⟩ := htree.block_live hs
    obtain rfl := Option.some.inj (hq.symm.trans hb)
    exact Or.inl ⟨i, s, hs, ⟨hsp.symm, hsub.overlaps⟩, rfl⟩

theorem mem_availableSubnets_of_free {slot : Net}
    (hslot : slot ∈ block.network.subnets prefixLen)
    (hfree : ∀ o ∈ directChildren σ blockId, ¬ slot.overlaps o)
    (hspace : ∀ i s, σ.getSubnet i = some s → s.spaceId = block.spaceId →
      ¬ slot.overlaps s.network) : slot ∈ availableSubnets σ blockId block prefixLen := by
  refine mem_availableSubnets.mpr ⟨hslot, fun o ho => ?_⟩
  rcases mem_previewOccupants.mp ho with ⟨i, s, hs, ⟨hsp, -⟩, rfl⟩ | hchild
  · exact hspace i s hs hsp
  · exact hfree o (mem_directChildren.mpr (Or.inl hchild))

end Preview

variable {occupied : List Net}

theorem LowestFree.unique {block a b : Net} {prefixLen : Nat} (hp : block.prefixlen ≤ prefixLen)
    (hmax : prefixLen ≤ block.version.maxPrefixlen) (ha : LowestFree block occupied prefixLen a)
    (hb : LowestFree block occupied prefixLen b) : a = b := by
  obtain ⟨hasub, halen⟩ := (Net.mem_subnets hp hmax).mp ha.mem
  obtain ⟨hbsub, hblen⟩ := (Net.mem_subnets hp hmax).mp hb.mem
  exact Net.ext_of_bounds (hasub.1.trans hbsub.1.symm)
    (le_antisymm (ha.lowest b hb.mem hb.free) (hb.lowest a ha.mem ha.free))
    (halen.trans hblen.symm)

theorem exists_lowestFree {block c : Net} {prefixLen : Nat} (hp : block.prefixlen ≤ prefixLen)
    (hmax : prefixLen ≤ block.version.maxPrefixlen) (hc : c ∈ block.subnets prefixLen)
    (hfree : ∀ o ∈ occupied, ¬ c.overlaps o) :
    ∃ slot, LowestFree block occupied prefixLen slot := by
  cases hlist : (block.subnets prefixLen).filter fun n => ∀ o ∈ occupied, ¬ n.overlaps o with
  | nil =>
    have hmem : c ∈ (block.subnets prefixLen).filter fun n => ∀ o ∈ occupied, ¬ n.overlaps o :=
      List.mem_filter.mpr ⟨hc, by simpa using hfree⟩
    simp [hlist] at hmem
  | cons slot rest =>
    obtain ⟨hmem, hslot, hlow⟩ := filter_head_lowest (Net.subnets_sorted hp hmax) hlist
    exact ⟨slot, hmem, by simpa using hslot, fun d hd hdf => hlow d hd (by simpa using hdf)⟩

variable {σ σ' : Store}

theorem assertNoOverlap_error {spaceId : Nat} {network : Net} {r : Refusal}
    (h : assertNoOverlap σ spaceId network = .error r) : r.statusCode = 409 := by
  unfold assertNoOverlap at h
  split at h
  · simp at h
  · rw [← Except.error.inj h]
    rfl

/-- The lowest slot off the block's children meets no other live subnet of the
space, and fewer than 100,000 free ranges of the block start below it. -/
def CarveClear (σ : Store) (blockId : Nat) (block : IPBlock) (prefixLen : Nat) : Prop :=
  ∀ slot, LowestFree block.network (directChildren σ blockId) prefixLen slot →
    (∀ i s, σ.getSubnet i = some s → s.spaceId = block.spaceId → ¬ slot.overlaps s.network) ∧
    (block.network.excludeAll (directChildren σ blockId)).countP
      (fun d => d.networkAddress < slot.networkAddress) < 100000

/-- The carve creates the first subnet of the uncapped preview, or answers 409
when the preview is empty. -/
def PreviewAgrees (σ : Store) (blockId prefixLen : Nat) (options : SubnetOptions) : Prop :=
  match getAvailableSubnets σ blockId prefixLen none with
  | .error _ => False
  | .ok [] => ∃ r, allocateSubnet σ blockId { prefixLen, options } = .error r ∧ r.statusCode = 409
  | .ok (cidr :: _) => ∃ s σ', s.network = cidr ∧ s.blockId = blockId ∧ s.deletion = none ∧
      σ'.subnets = σ.subnets.insert s ∧
      allocateSubnet σ blockId { prefixLen, options } = .ok (σ.subnets.next, σ')

section Allocate

variable {σ : Store} {blockId prefixLen : Nat} {block : IPBlock} {options : SubnetOptions}
  (hb : σ.getBlock blockId = some block) (hspace : ∃ s, σ.getSpace block.spaceId = some s)
  (hp : block.network.prefixlen < prefixLen)
  (hmax : prefixLen ≤ block.network.version.maxPrefixlen)
  (hchecks : options.otherChecks = true) (hgateway : options.gateway = none)
include hb hspace hp hmax hchecks hgateway

theorem allocateSubnet_eq : allocateSubnet σ blockId { prefixLen, options } =
    match chooseSubnet block.network (directChildren σ blockId) prefixLen none with
    | .error r => .error r
    | .ok chosen => match assertNoOverlap σ block.spaceId chosen with
      | .error r => .error r
      | .ok _ => .ok (σ.subnets.next, insertSubnet σ
          { spaceId := block.spaceId, blockId, network := chosen, kind := subnetKindFor chosen,
            gateway := none, settings := options.settings }
          (hasBoundaryRows chosen (subnetKindFor chosen) && !options.skipAutoAddresses)) := by
  obtain ⟨space, hspace⟩ := hspace
  have hprefix : checkPrefixLen block.network prefixLen = .ok () := by
    simp only [checkPrefixLen, bind_eq_ok, require_eq_ok, exists_const]
    exact ⟨hmax, hp⟩
  rw [allocateSubnet, orRefuse_bind hb, ok_bind hprefix]
  cases hchosen : chooseSubnet block.network (directChildren σ blockId) prefixLen none with
  | error r => rfl
  | ok chosen =>
    have hsub := (chooseSubnet_ok hmax hp.le hchosen).1
    rw [ok_bind rfl, createSubnet, require_bind hchecks, orRefuse_bind hspace, orRefuse_bind hb,
      require_bind rfl, require_bind hsub]
    cases hover : assertNoOverlap σ block.spaceId chosen with
    | error r => simp [hover, bind, Except.bind]
    | ok u => simp [hover, hgateway, checkGateway, gatewayProblem, bind, Except.bind, pure,
        Except.pure]

theorem previewAgrees_iff (htree : TreeInv σ) : PreviewAgrees σ blockId prefixLen options ↔
    availableSubnets σ blockId block prefixLen = [] ∨ CarveClear σ blockId block prefixLen := by
  have hprefix : checkPrefixLen block.network prefixLen = .ok () := by
    simp only [checkPrefixLen, bind_eq_ok, require_eq_ok, exists_const]
    exact ⟨hmax, hp⟩
  have hpreview : getAvailableSubnets σ blockId prefixLen none =
      .ok (availableSubnets σ blockId block prefixLen) := by
    rw [getAvailableSubnets, orRefuse_bind hb, ok_bind hprefix]
    rfl
  have hcarve := allocateSubnet_eq hb hspace hp hmax hchecks hgateway
  have hlisted : ∀ slot, LowestFree block.network (directChildren σ blockId) prefixLen slot →
      assertNoOverlap σ block.spaceId slot = .ok () →
      slot ∈ availableSubnets σ blockId block prefixLen := by
    intro slot hslot hover
    refine mem_availableSubnets_of_free hslot.mem hslot.free fun i s hs hsp ho => ?_
    exact assertNoOverlap_eq_ok.mp hover i s hs hsp (by simp) ho.symm
  unfold PreviewAgrees
  rw [hpreview, hcarve]
  cases hlist : availableSubnets σ blockId block prefixLen with
  | nil =>
    refine iff_of_true ?_ (Or.inl rfl)
    cases hchosen : chooseSubnet block.network (directChildren σ blockId) prefixLen none with
    | error r =>
      refine ⟨r, rfl, ?_⟩
      simp only [chooseSubnet] at hchosen
      split at hchosen
      · simp at hchosen
      · rw [← Except.error.inj hchosen]
        rfl
    | ok chosen =>
      cases hover : assertNoOverlap σ block.spaceId chosen with
      | error r => exact ⟨r, by simp [hover], assertNoOverlap_error hover⟩
      | ok u =>
        have hmem := hlisted chosen ((chooseSubnet_none_ok hmax hp.le).mp hchosen).1 hover
        simp [hlist] at hmem
  | cons cidr rest =>
    have hsorted := Net.subnets_sorted (n := block.network) hp.le hmax
    obtain ⟨hmem, hfree, hlow⟩ := filter_head_lowest hsorted hlist
    have hcidr := mem_availableSubnets.mp (hlist ▸ List.mem_cons_self :
      cidr ∈ availableSubnets σ blockId block prefixLen)
    have hoff : ∀ o ∈ directChildren σ blockId, ¬ cidr.overlaps o := fun o ho =>
      hcidr.2 o (mem_previewOccupants_of_directChildren htree hb ho)
    rw [or_iff_right (by simp)]
    constructor
    · rintro ⟨s, σ', -, -, -, -, hok⟩ slot hslot
      cases hchosen : chooseSubnet block.network (directChildren σ blockId) prefixLen none with
      | error r => simp [hchosen] at hok
      | ok chosen =>
        obtain ⟨hlowest, hcount⟩ := (chooseSubnet_none_ok hmax hp.le).mp hchosen
        obtain rfl := hlowest.unique hp.le hmax hslot
        cases hover : assertNoOverlap σ block.spaceId chosen with
        | error r => simp [hchosen, hover] at hok
        | ok u =>
          refine ⟨fun i s hs hsp ho => ?_, hcount⟩
          exact assertNoOverlap_eq_ok.mp hover i s hs hsp (by simp) ho.symm
    · intro hclear
      obtain ⟨slot, hslot⟩ := exists_lowestFree hp.le hmax hmem hoff
      obtain ⟨hspaceFree, hcount⟩ := hclear slot hslot
      have hslotMem := mem_availableSubnets_of_free hslot.mem hslot.free hspaceFree
      have hsame : slot = cidr := by
        have h₁ := hslot.lowest cidr hmem hoff
        have h₂ := hlow slot hslot.mem (List.mem_filter.mp hslotMem).2
        obtain ⟨hasub, halen⟩ := (Net.mem_subnets hp.le hmax).mp hslot.mem
        obtain ⟨hbsub, hblen⟩ := (Net.mem_subnets hp.le hmax).mp hmem
        exact Net.ext_of_bounds (hasub.1.trans hbsub.1.symm) (le_antisymm h₁ h₂)
          (halen.trans hblen.symm)
      have hover : assertNoOverlap σ block.spaceId slot = .ok () := by
        rw [assertNoOverlap_eq_ok]
        exact fun i s hs hsp _ ho => hspaceFree i s hs hsp ho.symm
      rw [(chooseSubnet_none_ok hmax hp.le).mpr ⟨hslot, hcount⟩]
      simp only [hover]
      obtain ⟨gateway, hrow⟩ := insertSubnet_subnets σ
        { spaceId := block.spaceId, blockId, network := slot, kind := subnetKindFor slot,
          gateway := none, settings := options.settings }
        (hasBoundaryRows slot (subnetKindFor slot) && !options.skipAutoAddresses)
      exact ⟨_, _, hsame, rfl, rfl, hrow, rfl⟩

end Allocate

def Op.isCreation : Op → Bool
  | .createSpace .. | .createBlock .. | .createSubnet .. | .allocateSubnet .. => true
  | _ => false

def SpacesLive (σ : Store) : Prop :=
  ∀ i b, σ.getBlock i = some b → ∃ s, σ.getSpace b.spaceId = some s

section

variable (h : SpacesLive σ)
include h

theorem SpacesLive.congr (hblocks : σ'.blocks = σ.blocks) (hspaces : σ'.spaces = σ.spaces) :
    SpacesLive σ' := by
  intro i b hb
  rw [Store.getSpace, hspaces]
  rw [Store.getBlock, hblocks] at hb
  exact h i b hb

theorem SpacesLive.createBlock {body : BlockCreate} {blockId : Nat}
    (hop : createBlock σ body = .ok (blockId, σ')) : SpacesLive σ' := by
  have hspace : ∃ s, σ.getSpace body.spaceId = some s := by
    simp only [Ipam.createBlock, bind_eq_ok, require_eq_ok, orRefuse_eq_ok, exists_const] at hop
    obtain ⟨-, s, hs, -⟩ := hop
    exact ⟨s, hs⟩
  obtain ⟨ids, carved, -, -, -, -, rfl⟩ := createBlock_ok hop
  intro i b' hb'
  obtain ⟨hb', hd⟩ := Store.getBlock_eq_some.mp hb'
  simp only [adopt, Table.get?_modify, Option.map_eq_some_iff] at hb'
  obtain ⟨b, hb, rfl⟩ := hb'
  have hsame : (if i ∈ ids then { b with parentBlockId := some σ.blocks.next } else b).spaceId =
      b.spaceId ∧ b.deletion = none := by
    split at hd <;> exact ⟨by split <;> rfl, hd⟩
  rw [hsame.1]
  rcases Table.get?_insert_cases hb with ⟨-, rfl⟩ | hb
  · exact hspace
  · exact h i b (Store.getBlock_eq_some.mpr ⟨hb, hsame.2⟩)

theorem SpacesLive.createSubnet {body : SubnetCreate} {subnetId : Nat}
    (hop : createSubnet σ body = .ok (subnetId, σ')) : SpacesLive σ' := by
  obtain ⟨_, _, _, -, -, -, -, -, -, -, -, -, rfl⟩ := createSubnet_ok hop
  exact h.congr (by simp) (by simp)

theorem SpacesLive.step {op : Op} (hcreate : op.isCreation = true) (hop : step σ op = .ok σ') :
    SpacesLive σ' := by
  cases op <;> simp only [Op.isCreation, Bool.false_eq_true] at hcreate <;>
    simp only [Ipam.step, map_snd_eq_ok] at hop
  case createSpace =>
    obtain ⟨_, hop⟩ := hop
    obtain ⟨-, rfl⟩ := createSpace_ok hop
    intro i b hb
    obtain ⟨s, hs⟩ := h i b hb
    obtain ⟨hs, hd⟩ := Store.getSpace_eq_some.mp hs
    exact ⟨s, Store.getSpace_eq_some.mpr ⟨Table.get?_insert_of_get? _ hs, hd⟩⟩
  case createBlock => exact hop.elim fun _ => h.createBlock
  case createSubnet => exact hop.elim fun _ => h.createSubnet
  case allocateSubnet =>
    obtain ⟨_, hop⟩ := hop
    obtain ⟨_, _, -, -, hcreate⟩ := allocateSubnet_ok hop
    exact h.createSubnet hcreate

end

theorem Reachable.spacesLive (h : Reachable (fun _ op => op.isCreation = true) σ) :
    SpacesLive σ := by
  induction h with
  | empty =>
    intro i b hb
    simp [Store.empty, Store.getBlock] at hb
  | step op _ hcreate hop ih => exact ih.step hcreate hop

/-- In every state that creations reach, the carve on a block does what the
preview shows exactly when nothing is free or its slot is clear. -/
theorem previewAgrees_iff_of_reachable {σ : Store}
    (h : Reachable (fun _ op => op.isCreation = true) σ) {blockId prefixLen : Nat}
    {block : IPBlock} (hb : σ.getBlock blockId = some block)
    (hp : block.network.prefixlen < prefixLen)
    (hmax : prefixLen ≤ block.network.version.maxPrefixlen) {options : SubnetOptions}
    (hchecks : options.otherChecks = true) (hgateway : options.gateway = none) :
    PreviewAgrees σ blockId prefixLen options ↔
      availableSubnets σ blockId block prefixLen = [] ∨ CarveClear σ blockId block prefixLen :=
  previewAgrees_iff hb (h.spacesLive blockId block hb) hp hmax hchecks hgateway h.treeInv

/-- 10.0.0.0/24 hangs directly under 10.0.0.0/8, whose child block is
10.0.0.0/22. -/
def subnetOverChildBlock : List Op :=
  let net := fun prefixlen => Net.ofValue .v4 (10 * 2 ^ 24) prefixlen
  [.createSpace "left", .createBlock { spaceId := 0, network := net 8 },
    .createBlock { spaceId := 0, network := net 22, parentBlockId := some 0 },
    .createSubnet { spaceId := 0, blockId := 0, network := net 24 }]

theorem previewAgrees_iff_subnetOverChildBlock : ∃ σ block,
    (run .empty subnetOverChildBlock).toOption = some σ ∧ σ.getBlock 1 = some block ∧
      (PreviewAgrees σ 1 24 {} ↔
        availableSubnets σ 1 block 24 = [] ∨ CarveClear σ 1 block 24) := by
  have hend : ((run .empty subnetOverChildBlock).toOption.any fun σ =>
      (σ.getBlock 1).any fun b => b.network == Net.ofValue .v4 (10 * 2 ^ 24) 22) = true := by
    decide +kernel
  simp only [Option.any_eq_true, beq_iff_eq] at hend
  obtain ⟨σ, hrun, block, hb, hnet⟩ := hend
  exact ⟨σ, block, hrun, hb, previewAgrees_iff_of_reachable (.of_run hrun fun _ => by decide) hb
    (hnet ▸ by decide) (hnet ▸ by decide) rfl rfl⟩

/-- The preview of the child block lists 10.0.1.0/24 first, the carve takes
10.0.0.0/24 and is refused. -/
theorem not_previewAgrees_subnetOverChildBlock :
    ∃ σ block, Reachable (fun _ op => op.isCreation = true) σ ∧ σ.getBlock 1 = some block ∧
      block.network.prefixlen < 24 ∧ 24 ≤ block.network.version.maxPrefixlen ∧
      ¬ PreviewAgrees σ 1 24 {} := by
  have hend : ((run .empty subnetOverChildBlock).toOption.any fun σ =>
      (σ.getBlock 1).any fun b => b.network == Net.ofValue .v4 (10 * 2 ^ 24) 22 &&
        (getAvailableSubnets σ 1 24 none).toOption.any (fun l => !l.isEmpty) &&
        (allocateSubnet σ 1 { prefixLen := 24 }).toOption.isNone) = true := by
    decide +kernel
  simp only [Option.any_eq_true, Bool.and_eq_true, beq_iff_eq] at hend
  obtain ⟨σ, hrun, block, hb, ⟨hnet, list, hlist, hnonempty⟩, hrefused⟩ := hend
  refine ⟨σ, block, .of_run hrun fun _ => by decide, hb, hnet ▸ by decide, hnet ▸ by decide, ?_⟩
  intro hagrees
  unfold PreviewAgrees at hagrees
  split at hagrees
  · exact hagrees
  · rename_i heq
    simp [heq, Except.toOption] at hlist
    simp [← hlist] at hnonempty
  · obtain ⟨_, _, -, -, -, -, hok⟩ := hagrees
    simp [hok, Except.toOption] at hrefused

end SpatiumDdi.Ipam
