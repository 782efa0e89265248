import SpatiumDdi.Ipam.Tree

/-!
Runs of the IPAM: the operations, one step, and the states that a sequence of
successful operations reaches from the empty store. `allowed` cuts the runs
down to the operations and the inputs a result is about; a refused operation
changes nothing, so it is no step.
-/

namespace SpatiumDdi.Ipam

open Ipaddress Forest Trash

def spaceOf (σ : Store) : RowKey → Option Nat
  | .space i => some i
  | .block i => (σ.blocks.get? i).map (·.spaceId)
  | .subnet i => (σ.subnets.get? i).map (·.spaceId)
  | _ => none

namespace TreeInv

variable {σ σ' : Store} {request : SoftDelete}

section

variable (h : TreeInv σ)
include h

theorem spaceOf_rides {root k : RowKey} (hk : Rides σ root k) :
    spaceOf σ k = none ∨ spaceOf σ k = spaceOf σ root := by
  induction hk with
  | root => exact Or.inr rfl
  | @child p k _ hp _ ih =>
    cases k with
    | block i =>
      right
      simp only [cascadeParents, List.mem_flatMap, Option.mem_toList, List.mem_cons,
        Option.map_eq_some_iff] at hp
      obtain ⟨b, hb, rfl | ⟨q, hq, rfl⟩⟩ := hp
      · simpa [spaceOf, hb] using ih
      · obtain ⟨c, hc, hsp, -⟩ := h.parent hb hq
        simpa [spaceOf, hb, hc, hsp] using ih
    | subnet i =>
      right
      simp only [cascadeParents, List.mem_flatMap, Option.mem_toList, List.mem_cons,
        List.not_mem_nil, or_false] at hp
      obtain ⟨s, hs, rfl | rfl⟩ := hp
      · simpa [spaceOf, hs] using ih
      · obtain ⟨c, hc, hsp, -⟩ := h.block hs
        simpa [spaceOf, hs, hc, hsp] using ih
    | space i => simp [cascadeParents] at hp
    | _ => exact Or.inl rfl

theorem batch_tree {keys : List RowKey} (hop : collectBatch σ request = .ok keys) :
    (∃ sp, (∀ i, .block i ∈ keys → ∃ b, σ.getBlock i = some b ∧ b.spaceId = sp) ∧
      ∀ i, .subnet i ∈ keys → ∃ s, σ.getSubnet i = some s ∧ s.spaceId = sp) ∧
    (∀ i b p, σ.getBlock i = some b → b.parentBlockId = some p → .block p ∈ keys →
      .block i ∈ keys) ∧
    ∀ i s, σ.getSubnet i = some s → .block s.blockId ∈ keys → .subnet i ∈ keys := by
  obtain ⟨hroot, hriders, hmem⟩ := collectBatch_ok hop
  have hrides : ∀ k, mayRide k = false → k ∈ keys → Rides σ request.root k := by
    intro k hk hkeys
    rcases (hmem k).mp hkeys with hr | hr
    · exact hr
    · simp [(hriders k hr).1] at hk
  refine ⟨⟨(spaceOf σ request.root).getD 0, ?_, ?_⟩, ?_, ?_⟩
  · intro i hi
    have hr := hrides _ rfl hi
    have hlive := hr.isLive hroot
    have hsp := h.spaceOf_rides hr
    obtain ⟨b, hb, hd⟩ : ∃ b, σ.blocks.get? i = some b ∧ b.deletion = none := by
      simpa [isLive, stampOf] using hlive
    refine ⟨b, Store.getBlock_eq_some.mpr ⟨hb, hd⟩, ?_⟩
    rcases hsp with hsp | hsp
    · simp [spaceOf, hb] at hsp
    · rw [← hsp]
      simp [spaceOf, hb]
  · intro i hi
    have hr := hrides _ rfl hi
    have hlive := hr.isLive hroot
    have hsp := h.spaceOf_rides hr
    obtain ⟨s, hs, hd⟩ : ∃ s, σ.subnets.get? i = some s ∧ s.deletion = none := by
      simpa [isLive, stampOf] using hlive
    refine ⟨s, Store.getSubnet_eq_some.mpr ⟨hs, hd⟩, ?_⟩
    rcases hsp with hsp | hsp
    · simp [spaceOf, hs] at hsp
    · rw [← hsp]
      simp [spaceOf, hs]
  · intro i b p hb hp hkeys
    obtain ⟨hb, hd⟩ := Store.getBlock_eq_some.mp hb
    refine (hmem _).mpr (Or.inl ((hrides _ rfl hkeys).child ?_ ?_))
    · simp [cascadeParents, hb, hp]
    · simp [isLive, stampOf, hb, hd]
  · intro i s hs hkeys
    obtain ⟨hs, hd⟩ := Store.getSubnet_eq_some.mp hs
    refine (hmem _).mpr (Or.inl ((hrides _ rfl hkeys).child ?_ ?_))
    · simp [cascadeParents, hs]
    · simp [isLive, stampOf, hs, hd]

theorem restamp {f g : Nat → Option Nat → Option Nat}
    (hblocks : σ'.blocks = σ.blocks.modify fun i b => { b with deletion := f i b.deletion })
    (hsubnets : σ'.subnets = σ.subnets.modify fun i s => { s with deletion := g i s.deletion })
    (hf : ∀ i b, σ.blocks.get? i = some b → ∀ n, f i b.deletion = some n → n < σ'.nextBatch)
    (hg : ∀ i s, σ.subnets.get? i = some s → ∀ n, g i s.deletion = some n → n < σ'.nextBatch)
    (hparent : ∀ i b p q, σ.blocks.get? i = some b → b.parentBlockId = some p →
      σ.blocks.get? p = some q → (b.deletion = none → q.deletion = none) →
      f i b.deletion = none → f p q.deletion = none)
    (hblock : ∀ i s q, σ.subnets.get? i = some s → σ.blocks.get? s.blockId = some q →
      (s.deletion = none → q.deletion = none) → g i s.deletion = none →
      f s.blockId q.deletion = none) : TreeInv σ' := by
  constructor
  · intro i b' p hi hp
    simp only [hblocks, Table.get?_modify, Option.map_eq_some_iff] at hi
    obtain ⟨b, hb, rfl⟩ := hi
    obtain ⟨q, hq, hsp, hsub, hd⟩ := h.parent hb hp
    exact ⟨{ q with deletion := f p q.deletion }, by simp [hblocks, hq], hsp, hsub,
      hparent i b p q hb hp hq hd⟩
  · intro i s' hi
    simp only [hsubnets, Table.get?_modify, Option.map_eq_some_iff] at hi
    obtain ⟨s, hs, rfl⟩ := hi
    obtain ⟨q, hq, hsp, hsub, hd⟩ := h.block hs
    exact ⟨{ q with deletion := f s.blockId q.deletion }, by simp [hblocks, hq], hsp, hsub,
      hblock i s q hs hq hd⟩
  · refine fun i => (h.rooted i).congr fun j => ?_
    simp only [Store.parentBlock, hblocks, Table.get?_modify]
    cases σ.blocks.get? j <;> rfl
  · intro i b' n hi hd
    simp only [hblocks, Table.get?_modify, Option.map_eq_some_iff] at hi
    obtain ⟨b, hb, rfl⟩ := hi
    exact hf i b hb n hd
  · intro i s' n hi hd
    simp only [hsubnets, Table.get?_modify, Option.map_eq_some_iff] at hi
    obtain ⟨s, hs, rfl⟩ := hi
    exact hg i s hs n hd

theorem softDelete {batch : Nat} (hop : softDelete σ request = .ok (batch, σ')) : TreeInv σ' := by
  simp only [Trash.softDelete, bind_eq_ok, pure_eq_ok, Prod.mk.injEq] at hop
  obtain ⟨keys, hkeys, -, rfl⟩ := hop
  obtain ⟨-, hchild, hsubnet⟩ := h.batch_tree hkeys
  have hlt : ∀ {k d n}, (∀ m, d = some m → m < σ.nextBatch) →
      stamp keys σ.nextBatch k d = some n → n < σ.nextBatch + 1 := by
    intro k d n hd hn
    rcases stamp_eq_some.mp hn with ⟨-, rfl⟩ | ⟨-, hn⟩
    · exact Nat.lt_succ_self _
    · exact Nat.lt_succ_of_lt (hd n hn)
  refine h.restamp (f := fun i => stamp keys σ.nextBatch (.block i))
    (g := fun i => stamp keys σ.nextBatch (.subnet i)) rfl rfl
    (fun i b hb n => hlt fun m => h.blockStamp hb) (fun i s hs n => hlt fun m => h.subnetStamp hs)
    ?_ ?_
  · intro i b p q hb hp hq hd hlive
    simp only [stamp_eq_none] at hlive ⊢
    have hq' := hd hlive.2
    exact ⟨fun hpk => hlive.1 (hchild i b p (Store.getBlock_eq_some.mpr ⟨hb, hlive.2⟩) hp hpk), hq'⟩
  · intro i s q hs hq hd hlive
    simp only [stamp_eq_none] at hlive ⊢
    have hq' := hd hlive.2
    exact ⟨fun hpk => hlive.1 (hsubnet i s (Store.getSubnet_eq_some.mpr ⟨hs, hlive.2⟩) hpk), hq'⟩

theorem restoreBatch {batch : Nat} (hop : restoreBatch σ batch = .ok σ') : TreeInv σ' := by
  obtain ⟨hblock, hsubnet, hblocks, hsubnets, hbatch⟩ := restoreBatch_ok hop
  refine h.restamp (f := fun _ => unstamp batch) (g := fun _ => unstamp batch) hblocks hsubnets
    (fun i b hb n hn => ?_) (fun i s hs n hn => ?_) ?_ ?_
  · exact hbatch ▸ h.blockStamp hb (unstamp_eq_some.mp hn).1
  · exact hbatch ▸ h.subnetStamp hs (unstamp_eq_some.mp hn).1
  · intro i b p q hb hp hq hd hlive
    rw [unstamp_eq_none] at hlive ⊢
    rcases hlive with hlive | hlive
    · exact Or.inl (hd hlive)
    · exact (blockConflict_ok (hblock i b hb hlive)).1 p q hp hq
  · intro i s q hs hq hd hlive
    rw [unstamp_eq_none] at hlive ⊢
    rcases hlive with hlive | hlive
    · exact Or.inl (hd hlive)
    · exact (subnetConflict_ok (hsubnet i s hs hlive)).1 q hq

end

end TreeInv

inductive Op where
  | createSpace (name : String)
  | createBlock (body : BlockCreate)
  | updateBlock (blockId : Nat) (parentBlockId : Option (Option Nat)) (otherChecks : Bool)
  | createSubnet (body : SubnetCreate)
  | allocateSubnet (blockId : Nat) (body : SubnetAllocate)
  | applyPlan (plan : SubnetPlan)
  | commitSubnetResize (request : SubnetResize)
  | commitBlockResize (request : BlockResize)
  | commitSubnetSplit (request : SubnetSplit)
  | commitSubnetMerge (request : SubnetMerge)
  | commitMove (request : MoveRequest)
  | softDelete (request : SoftDelete)
  | restoreBatch (batch : Nat)

def Op.isUpdateBlock : Op → Bool
  | .updateBlock .. => true
  | _ => false

def Op.isBlockOp : Op → Bool
  | .createSpace .. | .createBlock .. | .updateBlock .. | .commitBlockResize .. | .commitMove ..
  | .applyPlan .. | .softDelete .. | .restoreBatch .. => true
  | _ => false

def step (σ : Store) : Op → Except Refusal Store
  | .createSpace name => (createSpace σ name).map Prod.snd
  | .createBlock body => (createBlock σ body).map Prod.snd
  | .updateBlock blockId parentBlockId otherChecks =>
    updateBlock σ blockId parentBlockId otherChecks
  | .createSubnet body => (createSubnet σ body).map Prod.snd
  | .allocateSubnet blockId body => (allocateSubnet σ blockId body).map Prod.snd
  | .applyPlan plan => applyPlan σ plan
  | .commitSubnetResize request => commitSubnetResize σ request
  | .commitBlockResize request => commitBlockResize σ request
  | .commitSubnetSplit request => (commitSubnetSplit σ request).map Prod.snd
  | .commitSubnetMerge request => (commitSubnetMerge σ request).map Prod.snd
  | .commitMove request => commitMove σ request
  | .softDelete request => (Trash.softDelete σ request).map Prod.snd
  | .restoreBatch batch => Trash.restoreBatch σ batch

/-- The states that successful operations, each one `allowed` in its state,
reach from the empty store. -/
inductive Reachable (allowed : Store → Op → Prop) : Store → Prop where
  | empty : Reachable allowed .empty
  | step {σ σ' : Store} (op : Op) : Reachable allowed σ → allowed σ op → step σ op = .ok σ' →
      Reachable allowed σ'

def run (σ : Store) : List Op → Except Refusal Store
  | [] => .ok σ
  | op :: rest => do
    let σ' ← step σ op
    run σ' rest

variable {allowed : Store → Op → Prop} {σ σ' : Store}

theorem Reachable.steps (h : Reachable allowed σ) (ops : List Op) (hrun : run σ ops = .ok σ')
    (hallowed : ∀ σ, ∀ op ∈ ops, allowed σ op) : Reachable allowed σ' := by
  induction ops generalizing σ with
  | nil => exact Except.ok.inj hrun ▸ h
  | cons op rest ih =>
    simp only [run, bind_eq_ok] at hrun
    obtain ⟨σ₁, hop, hrun⟩ := hrun
    exact ih (h.step op (hallowed σ op (by simp)) hop) hrun
      fun σ op hop => hallowed σ op (by simp [hop])

theorem Reachable.of_run {ops : List Op} (hrun : (run .empty ops).toOption = some σ)
    (hallowed : ∀ σ, ∀ op ∈ ops, allowed σ op) : Reachable allowed σ :=
  Reachable.empty.steps ops (toOption_eq_some.mp hrun) hallowed

theorem Reachable.mono {p q : Store → Op → Prop} (hpq : ∀ σ op, p σ op → q σ op) (h : Reachable p σ) :
    Reachable q σ := by
  induction h with
  | empty => exact .empty
  | step op _ hp hop ih => exact ih.step op (hpq _ _ hp) hop

theorem TreeInv.step (h : TreeInv σ) {op : Op} (hop : step σ op = .ok σ') : TreeInv σ' := by
  cases op <;> simp only [Ipam.step, map_snd_eq_ok] at hop
  case createSpace =>
    obtain ⟨_, hop⟩ := hop
    obtain ⟨-, rfl⟩ := createSpace_ok hop
    exact h.congr rfl rfl le_rfl
  case createBlock => exact hop.elim fun _ => h.createBlock
  case updateBlock => exact h.updateBlock hop
  case createSubnet => exact hop.elim fun _ => h.createSubnet
  case allocateSubnet => exact hop.elim fun _ => h.allocateSubnet
  case applyPlan => exact h.applyPlan hop
  case commitSubnetResize => exact h.commitSubnetResize hop
  case commitBlockResize => exact h.commitBlockResize hop
  case commitSubnetSplit => exact hop.elim fun _ => h.commitSubnetSplit
  case commitSubnetMerge => exact hop.elim fun _ => h.commitSubnetMerge
  case commitMove => exact h.commitMove hop
  case softDelete => exact hop.elim fun _ => h.softDelete
  case restoreBatch => exact h.restoreBatch hop

theorem Reachable.treeInv (h : Reachable allowed σ) : TreeInv σ := by
  induction h with
  | empty => exact treeInv_empty
  | step op _ _ hop ih => exact ih.step hop

end SpatiumDdi.Ipam
