import SpatiumDdi.Ipam.BlocksApart

/-!
The free-space finder: a sweep over the blocks of a space, or of one subtree,
for aligned slots of a prefix length that meet none of a block's direct
children. What a slot of one block says about the rest of the space follows from
the block forest alone: a network that meets the slot hangs at or below the
block, hence at a direct child, or above it.
-/

namespace SpatiumDdi.Ipam

open Ipaddress Forest

structure FreeSpaceCandidate where
  cidr : Net
  parentBlockId : Nat
  parentBlockCidr : Net
  freeAddresses : Nat
deriving DecidableEq

structure FreeSpaceSummary where
  warning : Option String := none
  blocksScanned : Option Nat := none
  candidatesEmitted : Option Nat := none
deriving DecidableEq

structure FreeSpaceResult where
  candidates : List FreeSpaceCandidate
  summary : FreeSpaceSummary

structure FreeSpaceRequest where
  spaceId : Nat
  prefixLength : Nat
  addressFamily : Nat := 4
  count : Int := 5
  minFreeAddresses : Option Int := none
  parentBlockId : Option Nat := none

def hardCap : Int := 100

def usableAddresses (net : Net) : Nat :=
  if net.version = .v4 ∧ net.prefixlen < 31 then net.numAddresses - 2 else net.numAddresses

def validatePrefix (prefixLength addressFamily : Nat) : Option String :=
  if addressFamily = 4 then
    if 8 ≤ prefixLength ∧ prefixLength ≤ 30 then none
    else some s!"prefix_length must be between 8 and 30 for IPv4 (got {prefixLength})"
  else if addressFamily = 6 then
    if 8 ≤ prefixLength ∧ prefixLength ≤ 126 then none
    else some s!"prefix_length must be between 8 and 126 for IPv6 (got {prefixLength})"
  else some s!"address_family must be 4 or 6 (got {addressFamily})"

/-- The subtree walk, a level at a time; a block is taken once. -/
def subtreeLoop (σ : Store) : Nat → List Nat → List (Nat × IPBlock) → List (Nat × IPBlock)
  | 0, _, seen => seen
  | fuel + 1, frontier, seen =>
    if frontier = [] then seen
    else
      let next := (σ.liveBlocks fun _ b => b.parentBlockId.any (· ∈ frontier)).filter
        fun r => !(r.1 ∈ seen.map Prod.fst)
      subtreeLoop σ fuel (next.map Prod.fst) (seen ++ next)

/-- Every live block of the space, or the live subtree of one block. Each level
of the walk takes a new block, so one level for each row and a last empty one
are enough. -/
def loadBlocks (σ : Store) (spaceId : Nat) (parentBlockId : Option Nat) : List (Nat × IPBlock) :=
  match parentBlockId with
  | none => σ.liveBlocks fun _ b => b.spaceId == spaceId
  | some p =>
    match σ.getBlock p with
    | none => []
    | some root => subtreeLoop σ (σ.blocks.rows.length + 1) [p] [(p, root)]

def blockMatchesFamily (block : IPBlock) (addressFamily : Nat) : Bool :=
  block.network.version == if addressFamily = 4 then .v4 else .v6

/-- Tightest block first, then by address. -/
def sweepOrder (a b : Nat × IPBlock) : Prop :=
  b.2.network.prefixlen < a.2.network.prefixlen ∨
    a.2.network.prefixlen = b.2.network.prefixlen ∧
      a.2.network.networkAddress ≤ b.2.network.networkAddress

instance : DecidableRel sweepOrder := fun _ _ => inferInstanceAs (Decidable (_ ∨ _))

/-- The first `remaining` slots of the block that meet none of its children. -/
def candidatesForBlock (blockNet : Net) (occupants : List Net) (prefixLength remaining : Nat) :
    List Net :=
  if prefixLength < blockNet.prefixlen then []
  else if prefixLength = blockNet.prefixlen then if occupants = [] then [blockNet] else []
  else ((blockNet.subnets prefixLength).filter fun candidate =>
    !occupants.any fun occ => candidate.overlaps occ).take remaining

/-- The inner loop over the slots of one block; also returns the CIDRs seen. -/
def emitCandidates (cap : Nat) (minFreeAddresses : Option Int) (blockId : Nat) (blockNet : Net) :
    List Net → List FreeSpaceCandidate → List Net → List FreeSpaceCandidate × List Net
  | [], candidates, seenCidrs => (candidates, seenCidrs)
  | cand :: rest, candidates, seenCidrs =>
    if cand ∈ seenCidrs then
      emitCandidates cap minFreeAddresses blockId blockNet rest candidates seenCidrs
    else
      let freeAddresses := usableAddresses cand
      if minFreeAddresses.any fun m => (freeAddresses : Int) < m then
        emitCandidates cap minFreeAddresses blockId blockNet rest candidates (cand :: seenCidrs)
      else
        let candidates := candidates ++ [⟨cand, blockId, blockNet, freeAddresses⟩]
        if cap ≤ candidates.length then (candidates, cand :: seenCidrs)
        else emitCandidates cap minFreeAddresses blockId blockNet rest candidates
          (cand :: seenCidrs)

/-- The outer loop over the blocks. -/
def sweepBlocks (σ : Store) (cap prefixLength : Nat) (minFreeAddresses : Option Int) :
    List (Nat × IPBlock) → List FreeSpaceCandidate → List Net → List FreeSpaceCandidate
  | [], candidates, _ => candidates
  | (i, block) :: rest, candidates, seenCidrs =>
    if cap ≤ candidates.length then candidates
    else if prefixLength < block.network.prefixlen then
      sweepBlocks σ cap prefixLength minFreeAddresses rest candidates seenCidrs
    else
      let slots := candidatesForBlock block.network (directChildren σ i) prefixLength
        (cap - candidates.length)
      let out := emitCandidates cap minFreeAddresses i block.network slots candidates seenCidrs
      sweepBlocks σ cap prefixLength minFreeAddresses rest out.1 out.2

def noBlocksWarning : Option Nat → String
  | none => "space has no blocks"
  | some _ => "block subtree contains no blocks"

def findFreeSpace (σ : Store) (request : FreeSpaceRequest) : FreeSpaceResult :=
  let cap := (max 1 (min request.count hardCap)).toNat
  match validatePrefix request.prefixLength request.addressFamily with
  | some err => ⟨[], { warning := some err }⟩
  | none =>
    let blocks := loadBlocks σ request.spaceId request.parentBlockId
    if blocks = [] then
      ⟨[], { warning := some (noBlocksWarning request.parentBlockId),
             blocksScanned := some 0, candidatesEmitted := some 0 }⟩
    else
      let inFamily := (blocks.filter fun r =>
        blockMatchesFamily r.2 request.addressFamily).insertionSort sweepOrder
      let candidates := sweepBlocks σ cap request.prefixLength request.minFreeAddresses inFamily
        [] []
      ⟨candidates, { blocksScanned := some inFamily.length,
                     candidatesEmitted := some candidates.length }⟩

/-- A slot of a block of the sweep that meets none of the block's children. -/
def SlotOf (σ : Store) (blocks : List (Nat × IPBlock)) (c : FreeSpaceCandidate) : Prop :=
  ∃ b, (c.parentBlockId, b) ∈ blocks ∧ c.parentBlockCidr = b.network ∧
    c.cidr.subnetOf b.network ∧ ∀ o ∈ directChildren σ c.parentBlockId, ¬ c.cidr.overlaps o

variable {prefixLength : Nat}

theorem mem_candidatesForBlock {blockNet n : Net} {occupants : List Net} {remaining : Nat}
    (hp : prefixLength ≤ blockNet.version.maxPrefixlen)
    (hn : n ∈ candidatesForBlock blockNet occupants prefixLength remaining) :
    n.subnetOf blockNet ∧ ∀ o ∈ occupants, ¬ n.overlaps o := by
  unfold candidatesForBlock at hn
  split at hn
  · simp at hn
  split at hn
  · split at hn
    · rename_i hocc
      rw [List.mem_singleton.mp hn, hocc]
      exact ⟨Net.subnetOf.refl _, by simp⟩
    · simp at hn
  · have hmem := List.mem_filter.mp (List.mem_of_mem_take hn)
    exact ⟨((Net.mem_subnets (by omega) hp).mp hmem.1).1, by simpa using hmem.2⟩

variable {c : FreeSpaceCandidate} {cap : Nat} {minFreeAddresses : Option Int}
  {candidates : List FreeSpaceCandidate} {seenCidrs : List Net}

theorem mem_emitCandidates {blockId : Nat} {blockNet : Net} {slots : List Net}
    (hc : c ∈ (emitCandidates cap minFreeAddresses blockId blockNet slots candidates seenCidrs).1) :
    c ∈ candidates ∨ c.cidr ∈ slots ∧ c.parentBlockId = blockId ∧ c.parentBlockCidr = blockNet := by
  induction slots generalizing candidates seenCidrs with
  | nil => exact Or.inl hc
  | cons cand rest ih =>
    have hlater : c ∈ candidates ∨ c.cidr ∈ rest ∧ c.parentBlockId = blockId ∧
        c.parentBlockCidr = blockNet → c ∈ candidates ∨ c.cidr ∈ cand :: rest ∧
          c.parentBlockId = blockId ∧ c.parentBlockCidr = blockNet :=
      Or.imp_right (And.imp_left (List.mem_cons_of_mem cand))
    have happend : c ∈ candidates ++ [⟨cand, blockId, blockNet, usableAddresses cand⟩] →
        c ∈ candidates ∨ c.cidr ∈ cand :: rest ∧ c.parentBlockId = blockId ∧
          c.parentBlockCidr = blockNet := by
      intro h
      rcases List.mem_append.mp h with h | h
      · exact Or.inl h
      · rw [List.mem_singleton.mp h]
        exact Or.inr ⟨by simp, rfl, rfl⟩
    unfold emitCandidates at hc
    split at hc
    · exact hlater (ih hc)
    · simp only at hc
      split at hc
      · exact hlater (ih hc)
      · split at hc
        · exact happend hc
        · rcases ih hc with h | ⟨h, hrest⟩
          · exact happend h
          · exact Or.inr ⟨List.mem_cons_of_mem cand h, hrest⟩

variable {σ : Store}

theorem mem_sweepBlocks {all blocks : List (Nat × IPBlock)} (hall : ∀ r ∈ blocks, r ∈ all)
    (hp : ∀ r ∈ blocks, prefixLength ≤ r.2.network.version.maxPrefixlen)
    (hc : c ∈ sweepBlocks σ cap prefixLength minFreeAddresses blocks candidates seenCidrs) :
    c ∈ candidates ∨ SlotOf σ all c := by
  induction blocks generalizing candidates seenCidrs with
  | nil => exact Or.inl hc
  | cons r rest ih =>
    obtain ⟨i, block⟩ := r
    have hall' : ∀ r ∈ rest, r ∈ all := fun r hr => hall r (by simp [hr])
    have hp' : ∀ r ∈ rest, prefixLength ≤ r.2.network.version.maxPrefixlen :=
      fun r hr => hp r (by simp [hr])
    unfold sweepBlocks at hc
    split at hc
    · exact Or.inl hc
    split at hc
    · exact ih hall' hp' hc
    · rcases ih hall' hp' hc with h | h
      · rcases mem_emitCandidates h with h | ⟨hslot, rfl, hnet⟩
        · exact Or.inl h
        · obtain ⟨hsub, hoff⟩ := mem_candidatesForBlock (hp (c.parentBlockId, block) (by simp)) hslot
          exact Or.inr ⟨block, hall (c.parentBlockId, block) (by simp), hnet, hsub, hoff⟩
      · exact Or.inr h

theorem validatePrefix_ok {addressFamily : Nat} {b : IPBlock}
    (h : validatePrefix prefixLength addressFamily = none)
    (hb : blockMatchesFamily b addressFamily = true) :
    prefixLength ≤ b.network.version.maxPrefixlen := by
  unfold validatePrefix at h
  unfold blockMatchesFamily at hb
  rw [beq_iff_eq] at hb
  rw [hb]
  split at h
  · rename_i hf
    simp only [ite_eq_left_iff, reduceCtorEq, imp_false, not_not] at h
    simp only [hf, if_true, Version.maxPrefixlen]
    omega
  · rename_i hf
    simp only [hf, if_false, Version.maxPrefixlen]
    split at h
    · simp only [ite_eq_left_iff, reduceCtorEq, imp_false, not_not] at h
      omega
    · simp at h

theorem mem_findFreeSpace {request : FreeSpaceRequest}
    (hc : c ∈ (findFreeSpace σ request).candidates) :
    SlotOf σ (loadBlocks σ request.spaceId request.parentBlockId) c := by
  unfold findFreeSpace at hc
  simp only at hc
  split at hc
  · simp at hc
  · rename_i hprefix
    split at hc
    · simp at hc
    · have hmem : ∀ r, r ∈ ((loadBlocks σ request.spaceId request.parentBlockId).filter fun r =>
          blockMatchesFamily r.2 request.addressFamily).insertionSort sweepOrder →
          r ∈ loadBlocks σ request.spaceId request.parentBlockId ∧
            blockMatchesFamily r.2 request.addressFamily = true := fun r hr =>
        List.mem_filter.mp ((List.mem_insertionSort _).mp hr)
      rcases mem_sweepBlocks (fun r hr => (hmem r hr).1)
        (fun r hr => validatePrefix_ok hprefix (hmem r hr).2) hc with h | h
      · simp at h
      · exact h

theorem mem_subtreeLoop {fuel p : Nat} {frontier : List Nat} {seen : List (Nat × IPBlock)}
    (hfrontier : ∀ i ∈ frontier, Above σ.parentBlock i p)
    (hseen : ∀ r ∈ seen, σ.getBlock r.1 = some r.2 ∧ Above σ.parentBlock r.1 p) {r : Nat × IPBlock}
    (hr : r ∈ subtreeLoop σ fuel frontier seen) :
    σ.getBlock r.1 = some r.2 ∧ Above σ.parentBlock r.1 p := by
  induction fuel generalizing frontier seen with
  | zero => exact hseen r hr
  | succ fuel ih =>
    unfold subtreeLoop at hr
    split at hr
    · exact hseen r hr
    · have hnext : ∀ r ∈ (σ.liveBlocks fun _ b => b.parentBlockId.any (· ∈ frontier)).filter
          fun r => !(r.1 ∈ seen.map Prod.fst), σ.getBlock r.1 = some r.2 ∧
            Above σ.parentBlock r.1 p := by
        rintro ⟨i, b⟩ hb
        obtain ⟨hb, hparent⟩ := Store.mem_liveBlocks.mp (List.mem_filter.mp hb).1
        simp only [Option.any_eq_true, decide_eq_true_eq] at hparent
        obtain ⟨q, hq, hmem⟩ := hparent
        exact ⟨hb, (hfrontier q hmem).head
          (Store.parentBlock_eq_some.mpr ⟨b, (Store.getBlock_eq_some.mp hb).1, hq⟩)⟩
      refine ih (fun i hi => ?_) (fun r hr => ?_) hr
      · obtain ⟨r, hr, rfl⟩ := List.mem_map.mp hi
        exact (hnext r hr).2
      · rcases List.mem_append.mp hr with hr | hr
        · exact hseen r hr
        · exact hnext r hr

theorem mem_loadBlocks (htree : TreeInv σ) {spaceId : Nat} {parentBlockId : Option Nat}
    (hparent : ∀ p b, parentBlockId = some p → σ.getBlock p = some b → b.spaceId = spaceId)
    {i : Nat} {b : IPBlock} (hb : (i, b) ∈ loadBlocks σ spaceId parentBlockId) :
    σ.getBlock i = some b ∧ b.spaceId = spaceId := by
  unfold loadBlocks at hb
  split at hb
  · obtain ⟨hb, hsp⟩ := Store.mem_liveBlocks.mp hb
    exact ⟨hb, by simpa using hsp⟩
  · rename_i p
    split at hb
    · simp at hb
    · rename_i root hroot
      obtain ⟨hlive, habove⟩ := mem_subtreeLoop (p := p) (by simpa using Above.refl _ _)
        (by simpa using ⟨hroot, Above.refl _ _⟩) hb
      obtain ⟨c, hc, hsp, -⟩ := htree.above (Store.getBlock_eq_some.mp hlive).1 habove
      obtain rfl := Option.some.inj (hc.symm.trans (Store.getBlock_eq_some.mp hroot).1)
      exact ⟨hlive, hsp.symm.trans (hparent p c rfl hroot)⟩

end SpatiumDdi.Ipam
