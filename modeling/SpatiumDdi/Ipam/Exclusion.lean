import SpatiumDdi.Lib.TryLocks
import SpatiumDdi.Ipam.Merge

/-!
The structural commits and their advisory locks. Resize, split, merge and block
move each take one transaction-level lock of a namespace of their own module;
the split and the block move happen to use the same namespace. A commit writes
only the subnet rows it names, so two commits get in each other's way exactly
when they name a common subnet; the locks keep them apart only if they are of
one kind and on one key.
-/

namespace SpatiumDdi.Ipam

open Ipaddress Forest TryLocks

inductive StructuralCommit where
  | subnetResize (request : SubnetResize)
  | subnetSplit (request : SubnetSplit)
  | subnetMerge (request : SubnetMerge)
  | blockMove (request : MoveRequest)

def lockNsSubnet : Nat := 0x49504D31

def lockNsSplit : Nat := 0x49504D33

def lockNsMerge : Nat := 0x49504D34

def lockNsBlockMove : Nat := 0x49504D33

/-- The two arguments of `pg_try_advisory_xact_lock`. `crc` is the CRC-32 of the
UUID text of a row. -/
def advisoryLockKey (crc : Nat → Nat) (resourceId namespaceId : Nat) : Nat × Int :=
  let key := crc resourceId
  (namespaceId, if 2 ^ 31 ≤ key then (key : Int) - 2 ^ 32 else key)

namespace StructuralCommit

def lock (crc : Nat → Nat) : StructuralCommit → Nat × Int
  | .subnetResize request => advisoryLockKey crc request.subnetId lockNsSubnet
  | .subnetSplit request => advisoryLockKey crc request.subnetId lockNsSplit
  | .subnetMerge request => advisoryLockKey crc request.targetId lockNsMerge
  | .blockMove request => advisoryLockKey crc request.blockId lockNsBlockMove

end StructuralCommit

def movedSubnets (σ : Store) (blockId : Nat) : List Nat :=
  match collectDescendants σ blockId with
  | .ok ids => (σ.subnets.select fun _ s => s.blockId ∈ blockId :: ids).map Prod.fst
  | .error _ => []

def StructuralCommit.rewrites (σ : Store) : StructuralCommit → List Nat
  | .subnetResize request => [request.subnetId]
  | .subnetSplit request => [request.subnetId]
  | .subnetMerge request => request.targetId :: request.siblingSubnetIds
  | .blockMove request => movedSubnets σ request.blockId

structure CommitTxn where
  commit : StructuralCommit
  readIn : Store

namespace CommitTxn

def lock (crc : Nat → Nat) (t : CommitTxn) : Nat × Int := t.commit.lock crc

def Shares (t u : CommitTxn) : Prop :=
  ∃ i, i ∈ t.commit.rewrites t.readIn ∧ i ∈ u.commit.rewrites u.readIn

end CommitTxn

/-- In every interleaving of the transactions, no two that rewrite a common
subnet are past their lock step together. -/
def Exclude {ι : Type} [DecidableEq ι] (crc : Nat → Nat) (txn : ι → CommitTxn) : Prop :=
  ∀ s, TryLocks.Reachable (fun i => (txn i).lock crc) s → ∀ i j, i ≠ j → (txn i).Shares (txn j) →
    (s i).holds → ¬ (s j).holds

/-- The locks keep a set of commits apart exactly when any two of them that
rewrite a common subnet try for the same lock. -/
theorem exclude_iff {ι : Type} [DecidableEq ι] (crc : Nat → Nat) (txn : ι → CommitTxn) :
    Exclude crc txn ↔
      ∀ i j, i ≠ j → (txn i).Shares (txn j) → (txn i).lock crc = (txn j).lock crc :=
  excludes_iff fun i j => (txn i).Shares (txn j)

def resizeAndSplit : Bool → CommitTxn
  | true => { commit := .subnetResize { subnetId := 0, newCidr := Net.ofValue .v4 0 8 }
              readIn := .empty }
  | false => { commit := .subnetSplit { subnetId := 0, newPrefixLength := 25,
                                        confirmCidr := Net.ofValue .v4 0 24 }
               readIn := .empty }

/-- Their namespaces differ, so both get their lock. -/
theorem not_exclude_resizeAndSplit : ¬ ∃ crc : Nat → Nat, Exclude crc resizeAndSplit := by
  rintro ⟨crc, h⟩
  have hshares : (resizeAndSplit true).Shares (resizeAndSplit false) :=
    ⟨0, List.mem_singleton.mpr rfl, List.mem_singleton.mpr rfl⟩
  have hlock := (excludes_iff fun i j => (resizeAndSplit i).Shares (resizeAndSplit j)).mp h
    true false (by decide) hshares
  have hns : lockNsSubnet = lockNsSplit := congrArg Prod.fst hlock
  exact absurd hns (by decide)

end SpatiumDdi.Ipam
