import SpatiumDdi.Ipam.Move

/-!
Soft delete and restore. Deleting a row stamps it and its live cascade with a
fresh batch id; restoring a batch clears the stamp of all its rows, or of none
when one of them would clash with a live row or hang under a parent that is
still in the Trash.
-/

namespace SpatiumDdi.Trash

open Ipaddress Forest Ipam

inductive RowKey where
  | space (id : Nat)
  | block (id : Nat)
  | subnet (id : Nat)
  | scope (id : Nat)
  | pool (id : Nat)
  | static (id : Nat)
  | zone (id : Nat)
  | record (id : Nat)
deriving DecidableEq

def stampOf (σ : Store) : RowKey → Option (Option Nat)
  | .space i => (σ.spaces.get? i).map (·.deletion)
  | .block i => (σ.blocks.get? i).map (·.deletion)
  | .subnet i => (σ.subnets.get? i).map (·.deletion)
  | .scope i => (σ.scopes.get? i).map (·.deletion)
  | .pool i => (σ.pools.get? i).map (·.deletion)
  | .static i => (σ.statics.get? i).map (·.deletion)
  | .zone i => (σ.zones.get? i).map (·.deletion)
  | .record i => (σ.records.get? i).map (·.deletion)

def isLive (σ : Store) (k : RowKey) : Bool := stampOf σ k == some none

/-- Pools and reservations ride their scope's batch. -/
def scopeDescendants (σ : Store) (scopeId : Nat) : List RowKey :=
  (σ.pools.select fun _ p => p.deletion.isNone && p.scopeId == scopeId).map (.pool ·.1) ++
    (σ.statics.select fun _ s => s.deletion.isNone && s.scopeId == scopeId).map (.static ·.1)

def subnetDescendants (σ : Store) (subnetId : Nat) : List RowKey :=
  (σ.scopes.select fun _ sc => sc.deletion.isNone && sc.subnetId == subnetId).flatMap fun r =>
    scopeDescendants σ r.1 ++ [.scope r.1]

/-- The live children of a block, as the recursion over blocks sees them. -/
def childBlockIds (σ : Store) (blockId : Nat) : List Nat :=
  (σ.liveBlocks fun _ b => b.parentBlockId == some blockId).map Prod.fst

def subnetsOfBlock (σ : Store) (blockId : Nat) : List RowKey :=
  (σ.liveSubnets fun _ s => s.blockId == blockId).flatMap fun r =>
    subnetDescendants σ r.1 ++ [.subnet r.1]

def blockDescendants (σ : Store) (blockId : Nat) : Except Refusal (List RowKey) :=
  orRefuse (walk (childBlockIds σ) (subnetsOfBlock σ) RowKey.block (σ.blocks.rows.length + 1)
    blockId) .diverges

def spaceBlocks (σ : Store) : List Nat → Except Refusal (List RowKey)
  | [] => .ok []
  | blockId :: rest => do
    let below ← blockDescendants σ blockId
    let others ← spaceBlocks σ rest
    return below ++ [.block blockId] ++ others

def spaceSubnets (σ : Store) (out : List RowKey) : List Nat → List RowKey
  | [] => out
  | subnetId :: rest =>
    if .subnet subnetId ∈ out then spaceSubnets σ out rest
    else spaceSubnets σ (out ++ subnetDescendants σ subnetId ++ [.subnet subnetId]) rest

/-- `_collect_descendants`: the live rows that cascade from a row. -/
def collectDescendants (σ : Store) : RowKey → Except Refusal (List RowKey)
  | .space i => do
    let blocks ← spaceBlocks σ ((σ.liveBlocks fun _ b => b.spaceId == i).map Prod.fst)
    return spaceSubnets σ blocks ((σ.liveSubnets fun _ s => s.spaceId == i).map Prod.fst)
  | .block i => blockDescendants σ i
  | .subnet i => .ok (subnetDescendants σ i)
  | .scope i => .ok (scopeDescendants σ i)
  | _ => .ok []

/-- Each object joins a batch once. -/
def addToBatch (batch keys : List RowKey) : List RowKey :=
  keys.foldl (fun rows k => if k ∈ rows then rows else rows ++ [k]) batch

/-- Rows that may ride another root's deletion: the reverse zones a subnet
created, and the other records of a bulk record delete. -/
def mayRide : RowKey → Bool
  | .zone _ | .record _ => true
  | _ => false

structure SoftDelete where
  root : RowKey
  riders : List RowKey := []

def collectBatch (σ : Store) (request : SoftDelete) : Except Refusal (List RowKey) := do
  require (isLive σ request.root = true) .refusedElsewhere
  require (∀ k ∈ request.riders, mayRide k = true ∧ isLive σ k = true) .refusedElsewhere
  let descendants ← collectDescendants σ request.root
  return addToBatch [] (descendants ++ [request.root] ++ request.riders)

/-- The records of a live row's batch beyond those named in it: the live records
of its zones, and the live IPAM records of its subnets' addresses. -/
def recordRides (σ : Store) (keys : List RowKey) (r : DNSRecord) : Bool :=
  r.deletion.isNone &&
    (.zone r.zoneId ∈ keys ||
      r.autoGenerated &&
        (r.ipAddressId.bind σ.addresses.get?).any fun a => .subnet a.subnetId ∈ keys)

def stamp (keys : List RowKey) (b : Nat) (k : RowKey) (deletion : Option Nat) : Option Nat :=
  if k ∈ keys then some b else deletion

/-- `apply_soft_delete`, and the retraction of the records of trashed subnets
that follows it. -/
def applySoftDelete (σ : Store) (keys : List RowKey) : Store :=
  let b := σ.nextBatch
  { σ with
    spaces := σ.spaces.modify fun i s => { s with deletion := stamp keys b (.space i) s.deletion }
    blocks := σ.blocks.modify fun i s => { s with deletion := stamp keys b (.block i) s.deletion }
    subnets := σ.subnets.modify fun i s =>
      { s with deletion := stamp keys b (.subnet i) s.deletion }
    scopes := σ.scopes.modify fun i s => { s with deletion := stamp keys b (.scope i) s.deletion }
    pools := σ.pools.modify fun i s => { s with deletion := stamp keys b (.pool i) s.deletion }
    statics := σ.statics.modify fun i s =>
      { s with deletion := stamp keys b (.static i) s.deletion }
    zones := σ.zones.modify fun i s => { s with deletion := stamp keys b (.zone i) s.deletion }
    records := σ.records.modify fun i r =>
      { r with deletion := if recordRides σ keys r then some b else
          stamp keys b (.record i) r.deletion }
    nextBatch := b + 1 }

/-- Moves a row and its cascade to the Trash; returns the batch id. -/
def softDelete (σ : Store) (request : SoftDelete) : Except Refusal (Nat × Store) := do
  let keys ← collectBatch σ request
  return (σ.nextBatch, applySoftDelete σ keys)

/-- The stamp of a row that is in the Trash under another batch. -/
def trashedElsewhere (b : Nat) (deletion : Option Nat) : Bool := deletion.any (· != b)

def spaceTrashed (σ : Store) (b i : Nat) : Bool :=
  (σ.spaces.get? i).any fun s => trashedElsewhere b s.deletion

def blockTrashed (σ : Store) (b i : Nat) : Bool :=
  (σ.blocks.get? i).any fun s => trashedElsewhere b s.deletion

def subnetTrashed (σ : Store) (b i : Nat) : Bool :=
  (σ.subnets.get? i).any fun s => trashedElsewhere b s.deletion

def scopeTrashed (σ : Store) (b i : Nat) : Bool :=
  (σ.scopes.get? i).any fun s => trashedElsewhere b s.deletion

def zoneTrashed (σ : Store) (b i : Nat) : Bool :=
  (σ.zones.get? i).any fun z => trashedElsewhere b z.deletion

def spaceConflict (σ : Store) (i : Nat) (s : IPSpace) : Bool :=
  σ.spaces.rows.any fun r => r.2.deletion.isNone && r.2.name == s.name && r.1 != i

/-- A trashed parent, a live block with the same CIDR in the space, or any
overlap with a live sibling; a block that would cover siblings is refused too. -/
def blockConflict (σ : Store) (b i : Nat) (s : IPBlock) : Bool :=
  s.parentBlockId.any (blockTrashed σ b) || spaceTrashed σ b s.spaceId ||
    (σ.liveBlocks fun j t => t.spaceId == s.spaceId && t.network == s.network && j != i) != [] ||
    match assertNoBlockOverlap σ s.spaceId s.network s.parentBlockId (some i) with
    | .error _ => true
    | .ok covered => !covered.isEmpty

def subnetConflict (σ : Store) (b i : Nat) (s : Subnet) : Bool :=
  blockTrashed σ b s.blockId || spaceTrashed σ b s.spaceId ||
    (σ.liveSubnets fun j t => t.spaceId == s.spaceId && t.network == s.network && j != i) != [] ||
    match assertNoOverlap σ s.spaceId s.network (some i) with
    | .error _ => true
    | .ok _ => false

/-- Another live active scope of the group covers an overlapping prefix. -/
def groupCidrClash (σ : Store) (i : Nat) (sc : DHCPScope) : Bool :=
  (σ.subnets.get? sc.subnetId).any fun subnet =>
    σ.scopes.rows.any fun r =>
      r.2.deletion.isNone && r.2.groupId == sc.groupId && r.2.subnetId != sc.subnetId &&
        r.2.isActive && r.1 != i &&
        (σ.subnets.get? r.2.subnetId).any fun other => other.network.overlaps subnet.network

def scopeConflict (σ : Store) (b i : Nat) (sc : DHCPScope) : Bool :=
  subnetTrashed σ b sc.subnetId ||
    σ.scopes.rows.any (fun r => r.2.deletion.isNone && r.2.groupId == sc.groupId &&
      r.2.subnetId == sc.subnetId && r.1 != i) ||
    (sc.isActive && groupCidrClash σ i sc)

def poolConflict (σ : Store) (b : Nat) (p : DHCPPool) : Bool := scopeTrashed σ b p.scopeId

/-- A live reservation of a live scope of the same group holds the MAC. -/
def staticConflict (σ : Store) (b i : Nat) (s : DHCPStaticAssignment) : Bool :=
  scopeTrashed σ b s.scopeId ||
    (σ.scopes.get? s.scopeId).any fun parent =>
      σ.statics.rows.any fun r => r.2.deletion.isNone && r.2.macAddress == s.macAddress &&
        r.1 != i && (σ.getScope r.2.scopeId).any fun sc => sc.groupId == parent.groupId

def zoneConflict (σ : Store) (i : Nat) (z : DNSZone) : Bool :=
  σ.zones.rows.any fun r => r.2.deletion.isNone && r.2.groupId == z.groupId &&
    r.2.viewId == z.viewId && r.2.name == z.name && r.1 != i

/-- What two records must share to be the same record. -/
structure RecordIdentity where
  zoneId : Nat
  name : String
  recordType : String
  value : String
  viewId : Option Nat
  priority : Option Nat
  weight : Option Nat
  port : Option Nat
deriving DecidableEq

/-- PostgreSQL's `btrim`: spaces only. -/
def btrim (s : String) : String :=
  String.ofList ((s.toList.dropWhile (· == ' ')).reverse.dropWhile (· == ' ')).reverse

def recordIdentity (r : DNSRecord) : RecordIdentity :=
  { zoneId := r.zoneId, name := r.name.toLower, recordType := r.recordType.toUpper,
    value := btrim r.value, viewId := r.viewId, priority := r.priority, weight := r.weight,
    port := r.port }

/-- Two records that may not share their name: one of them is a CNAME. -/
def cnameClash (r l : DNSRecord) : Bool :=
  l.zoneId == r.zoneId && l.name.toLower == r.name.toLower &&
    (l.viewId == none || r.viewId == none || l.viewId == r.viewId) &&
    (l.recordType.toUpper == "CNAME" || r.recordType.toUpper == "CNAME")

/-- An IPAM record outside its zone's batch whose address is an orphan. -/
def orphanRecord (σ : Store) (r : DNSRecord) : Bool :=
  r.autoGenerated &&
    (r.ipAddressId.bind σ.addresses.get?).any (fun a => a.status == .orphan) &&
    (σ.zones.get? r.zoneId).any fun z => z.deletion != r.deletion

def recordConflict (σ : Store) (b i : Nat) (r : DNSRecord) : Bool :=
  zoneTrashed σ b r.zoneId || orphanRecord σ r ||
    σ.records.rows.any fun l => l.2.deletion.isNone && l.1 != i &&
      (recordIdentity l.2 == recordIdentity r || cnameClash r l.2)

/-- Whether a row of the batch fails its check; rows outside it do not count. -/
def batchConflict (σ : Store) (b : Nat) : Bool :=
  σ.spaces.rows.any (fun r => r.2.deletion == some b && spaceConflict σ r.1 r.2) ||
    σ.blocks.rows.any (fun r => r.2.deletion == some b && blockConflict σ b r.1 r.2) ||
    σ.subnets.rows.any (fun r => r.2.deletion == some b && subnetConflict σ b r.1 r.2) ||
    σ.scopes.rows.any (fun r => r.2.deletion == some b && scopeConflict σ b r.1 r.2) ||
    σ.pools.rows.any (fun r => r.2.deletion == some b && poolConflict σ b r.2) ||
    σ.statics.rows.any (fun r => r.2.deletion == some b && staticConflict σ b r.1 r.2) ||
    σ.zones.rows.any (fun r => r.2.deletion == some b && zoneConflict σ r.1 r.2) ||
    σ.records.rows.any (fun r => r.2.deletion == some b && recordConflict σ b r.1 r.2)

def unstamp (b : Nat) (deletion : Option Nat) : Option Nat :=
  if deletion = some b then none else deletion

/-- A record of the batch after the restore: an IPAM record whose address's
subnet is in the Trash under another batch moves to that batch. -/
def restoreRecord (σ : Store) (b : Nat) (r : DNSRecord) : Option Nat :=
  if r.deletion = some b ∧ r.autoGenerated = true then
    match (r.ipAddressId.bind σ.addresses.get?).bind fun a => σ.subnets.get? a.subnetId with
    | none => none
    | some subnet => if subnet.deletion = some b then none else subnet.deletion
  else unstamp b r.deletion

/-- `restore_batch` with the default conflict check: all rows of the batch or
none. -/
def restoreBatch (σ : Store) (b : Nat) : Except Refusal Store := do
  require (batchConflict σ b = false) .refusedElsewhere
  return { σ with
    spaces := σ.spaces.modify fun _ s => { s with deletion := unstamp b s.deletion }
    blocks := σ.blocks.modify fun _ s => { s with deletion := unstamp b s.deletion }
    subnets := σ.subnets.modify fun _ s => { s with deletion := unstamp b s.deletion }
    scopes := σ.scopes.modify fun _ s => { s with deletion := unstamp b s.deletion }
    pools := σ.pools.modify fun _ s => { s with deletion := unstamp b s.deletion }
    statics := σ.statics.modify fun _ s => { s with deletion := unstamp b s.deletion }
    zones := σ.zones.modify fun _ s => { s with deletion := unstamp b s.deletion }
    records := σ.records.modify fun _ r => { r with deletion := restoreRecord σ b r } }

end SpatiumDdi.Trash

/-!
What a soft-delete batch holds. `Rides` is the cascade as a relation: the live
rows that a chain of live rows connects to the root. The walks over spaces,
blocks, subnets and scopes return exactly these rows, so a batch is its root,
what rides it, and the extra rows that the request names.
-/

namespace SpatiumDdi.Trash

open Ipaddress Forest Ipam

variable {b : Nat} {k : RowKey} {d : Option Nat}

variable {keys out : List RowKey}

@[simp] theorem stamp_eq_none : stamp keys b k d = none ↔ k ∉ keys ∧ d = none := by
  unfold stamp
  split <;> simp_all

variable {n : Nat}

theorem stamp_eq_some : stamp keys b k d = some n ↔ k ∈ keys ∧ n = b ∨ k ∉ keys ∧ d = some n := by
  unfold stamp
  split <;> simp_all [eq_comm]

/-- The rows whose deletion a walk carries down to the row: what it hangs under,
a record's zone apart. -/
def cascadeParents (σ : Store) : RowKey → List RowKey
  | .block i => (σ.blocks.get? i).toList.flatMap fun b =>
      .space b.spaceId :: (b.parentBlockId.map RowKey.block).toList
  | .subnet i => (σ.subnets.get? i).toList.flatMap fun s => [.space s.spaceId, .block s.blockId]
  | .scope i => (σ.scopes.get? i).toList.map fun sc => .subnet sc.subnetId
  | .pool i => (σ.pools.get? i).toList.map fun p => .scope p.scopeId
  | .static i => (σ.statics.get? i).toList.map fun s => .scope s.scopeId
  | _ => []

/-- The rows a deletion of `root` reaches through live rows. -/
inductive Rides (σ : Store) (root : RowKey) : RowKey → Prop where
  | root : Rides σ root root
  | child {p k : RowKey} : Rides σ root p → p ∈ cascadeParents σ k → isLive σ k = true →
      Rides σ root k

/-- The list holds every live child of the root and of its own rows. -/
def Covers (σ : Store) (root : RowKey) (keys : List RowKey) : Prop :=
  ∀ p, p = root ∨ p ∈ keys → ∀ k, isLive σ k = true → p ∈ cascadeParents σ k → k ∈ keys

variable {σ : Store} {root : RowKey}

theorem Covers.of_rides (h : Covers σ root keys) (hk : Rides σ root k) : k = root ∨ k ∈ keys := by
  induction hk with
  | root => exact Or.inl rfl
  | child _ hp hlive ih => exact Or.inr (h _ ih _ hlive hp)

theorem Rides.trans {a b c : RowKey} (hab : Rides σ a b) (hbc : Rides σ b c) : Rides σ a c := by
  induction hbc with
  | root => exact hab
  | child _ hp hlive ih => exact ih.child hp hlive

private theorem row_and {α : Type} {o : Option α} {p q : α → Prop} :
    ((∃ a, o = some a ∧ p a) ∧ ∃ a, o = some a ∧ q a) ↔ ∃ a, o = some a ∧ q a ∧ p a := by
  cases o <;> simp [and_comm]

variable {i : Nat}

theorem mem_scopeDescendants :
    k ∈ scopeDescendants σ i ↔ .scope i ∈ cascadeParents σ k ∧ isLive σ k = true := by
  simp only [scopeDescendants, List.mem_append, List.mem_map, Prod.exists, Table.mem_select,
    Bool.and_eq_true, Option.isNone_iff_eq_none, beq_iff_eq]
  cases k <;> simp [cascadeParents, isLive, stampOf, row_and]

theorem mem_subnetDescendants :
    k ∈ subnetDescendants σ i ↔ ∃ j, .subnet i ∈ cascadeParents σ (.scope j) ∧
      isLive σ (.scope j) = true ∧ (k = .scope j ∨ k ∈ scopeDescendants σ j) := by
  simp only [subnetDescendants, List.mem_flatMap, Prod.exists, Table.mem_select,
    Bool.and_eq_true, Option.isNone_iff_eq_none, beq_iff_eq, List.mem_append, List.mem_singleton,
    or_comm (a := k ∈ scopeDescendants σ _)]
  refine exists_congr fun j => ?_
  rw [← and_assoc, exists_and_right]
  simp [cascadeParents, isLive, stampOf, row_and]

theorem mem_subnetsOfBlock :
    k ∈ subnetsOfBlock σ i ↔ ∃ j, .block i ∈ cascadeParents σ (.subnet j) ∧
      isLive σ (.subnet j) = true ∧ (k = .subnet j ∨ k ∈ subnetDescendants σ j) := by
  simp only [subnetsOfBlock, List.mem_flatMap, Prod.exists, Store.mem_liveSubnets,
    Store.getSubnet_eq_some, beq_iff_eq, List.mem_append, List.mem_singleton,
    or_comm (a := k ∈ subnetDescendants σ _)]
  refine exists_congr fun j => ?_
  rw [← and_assoc, exists_and_right]
  simp [cascadeParents, isLive, stampOf, row_and, and_assoc, eq_comm (a := i)]

variable {j : Nat}

theorem mem_blocksOfSpace :
    j ∈ (σ.liveBlocks fun _ b => b.spaceId == i).map Prod.fst ↔
      .space i ∈ cascadeParents σ (.block j) ∧ isLive σ (.block j) = true := by
  simp [Store.mem_liveBlocks, Store.getBlock_eq_some, cascadeParents, isLive, stampOf, row_and,
    and_assoc, eq_comm (a := i)]

theorem mem_subnetsOfSpace :
    j ∈ (σ.liveSubnets fun _ s => s.spaceId == i).map Prod.fst ↔
      .space i ∈ cascadeParents σ (.subnet j) ∧ isLive σ (.subnet j) = true := by
  simp [Store.mem_liveSubnets, Store.getSubnet_eq_some, cascadeParents, isLive, stampOf, row_and,
    and_assoc, eq_comm (a := i)]

def liveParent (σ : Store) (i : Nat) : Option Nat := (σ.getBlock i).bind (·.parentBlockId)

theorem mem_childBlockIds : j ∈ childBlockIds σ i ↔ liveParent σ j = some i := by
  simp [childBlockIds, Store.mem_liveBlocks, liveParent, Option.bind_eq_some_iff]

theorem liveParent_eq_some : liveParent σ j = some i ↔
    .block i ∈ cascadeParents σ (.block j) ∧ isLive σ (.block j) = true := by
  simp [liveParent, Store.getBlock_eq_some, cascadeParents, isLive, stampOf, row_and,
    Option.bind_eq_some_iff, and_assoc]

theorem rides_of_above (h : Above (liveParent σ) j i) : Rides σ (.block i) (.block j) := by
  induction h using Relation.ReflTransGen.head_induction_on with
  | refl => exact .root
  | head hj _ ih =>
    obtain ⟨hp, hlive⟩ := liveParent_eq_some.mp hj
    exact ih.child hp hlive

theorem scopeDescendants_rides (hk : k ∈ scopeDescendants σ i) : Rides σ (.scope i) k := by
  obtain ⟨hp, hlive⟩ := mem_scopeDescendants.mp hk
  exact Rides.root.child hp hlive

theorem subnetDescendants_rides (hk : k ∈ subnetDescendants σ i) : Rides σ (.subnet i) k := by
  obtain ⟨j, hp, hlive, hk⟩ := mem_subnetDescendants.mp hk
  have hscope : Rides σ (.subnet i) (.scope j) := Rides.root.child hp hlive
  rcases hk with rfl | hk
  · exact hscope
  · exact hscope.trans (scopeDescendants_rides hk)

theorem subnetsOfBlock_rides (hk : k ∈ subnetsOfBlock σ i) : Rides σ (.block i) k := by
  obtain ⟨j, hp, hlive, hk⟩ := mem_subnetsOfBlock.mp hk
  have hsubnet : Rides σ (.block i) (.subnet j) := Rides.root.child hp hlive
  rcases hk with rfl | hk
  · exact hsubnet
  · exact hsubnet.trans (subnetDescendants_rides hk)

theorem mem_blockDescendants (h : blockDescendants σ i = .ok keys) :
    k ∈ keys ↔ (∃ j, Above (liveParent σ) j i ∧ k ∈ subnetsOfBlock σ j) ∨
      ∃ j p, liveParent σ j = some p ∧ Above (liveParent σ) p i ∧ k = .block j := by
  rw [blockDescendants, orRefuse_eq_ok] at h
  exact mem_walk (fun _ _ => mem_childBlockIds) h

theorem blockDescendants_rides (h : blockDescendants σ i = .ok keys) (hk : k ∈ keys) :
    Rides σ (.block i) k := by
  rcases (mem_blockDescendants h).mp hk with ⟨j, hj, hk⟩ | ⟨j, p, hjp, hp, rfl⟩
  · exact (rides_of_above hj).trans (subnetsOfBlock_rides hk)
  · exact rides_of_above (hp.head hjp)

variable {ids : List Nat}

theorem spaceBlocks_ok (h : spaceBlocks σ ids = .ok keys) :
    k ∈ keys ↔ ∃ i ∈ ids, k = .block i ∨ ∃ below, blockDescendants σ i = .ok below ∧ k ∈ below := by
  induction ids generalizing keys with
  | nil =>
    simp only [spaceBlocks, Except.ok.injEq] at h
    simp [← h]
  | cons i rest ih =>
    simp only [spaceBlocks, bind_eq_ok, pure_eq_ok] at h
    obtain ⟨below, hbelow, others, hothers, rfl⟩ := h
    simp only [List.append_assoc, List.mem_append, List.mem_singleton, ih hothers,
      List.exists_mem_cons_iff, hbelow, Except.ok.injEq, exists_eq_left', or_assoc]
    exact or_left_comm

theorem spaceBlocks_isOk (h : spaceBlocks σ ids = .ok keys) (hi : i ∈ ids) :
    ∃ below, blockDescendants σ i = .ok below := by
  induction ids generalizing keys with
  | nil => simp at hi
  | cons j rest ih =>
    simp only [spaceBlocks, bind_eq_ok, pure_eq_ok] at h
    obtain ⟨below, hbelow, others, hothers, -⟩ := h
    rcases List.mem_cons.mp hi with rfl | hi
    · exact ⟨below, hbelow⟩
    · exact ih hothers hi

theorem mem_spaceSubnets :
    k ∈ spaceSubnets σ out ids → k ∈ out ∨ ∃ i ∈ ids, k = .subnet i ∨ k ∈ subnetDescendants σ i := by
  induction ids generalizing out with
  | nil => exact Or.inl
  | cons i rest ih =>
    intro hk
    unfold spaceSubnets at hk
    split at hk
    · rcases ih hk with h | ⟨j, hj, h⟩
      · exact Or.inl h
      · exact Or.inr ⟨j, by simp [hj], h⟩
    · rcases ih hk with h | ⟨j, hj, h⟩
      · simp only [List.append_assoc, List.mem_append, List.mem_singleton] at h
        rcases h with h | h | h
        · exact Or.inl h
        · exact Or.inr ⟨i, by simp, Or.inr h⟩
        · exact Or.inr ⟨i, by simp, Or.inl h⟩
      · exact Or.inr ⟨j, by simp [hj], h⟩

theorem subset_spaceSubnets (out : List RowKey) (ids : List Nat) :
    out ⊆ spaceSubnets σ out ids := by
  induction ids generalizing out with
  | nil => exact List.Subset.refl _
  | cons i rest ih =>
    unfold spaceSubnets
    split
    · exact ih out
    · exact fun k hk => ih _ (by simp [hk])

theorem covers_scope (σ : Store) (i : Nat) : Covers σ (.scope i) (scopeDescendants σ i) := by
  rintro p (rfl | hp) k hlive hpk
  · exact mem_scopeDescendants.mpr ⟨hpk, hlive⟩
  · obtain ⟨hp, -⟩ := mem_scopeDescendants.mp hp
    cases p <;> simp [cascadeParents] at hp
    all_goals cases k <;> simp [cascadeParents] at hpk

theorem covers_subnet (σ : Store) (i : Nat) : Covers σ (.subnet i) (subnetDescendants σ i) := by
  rintro p (rfl | hp) k hlive hpk
  · cases k with
    | scope j => exact mem_subnetDescendants.mpr ⟨j, hpk, hlive, Or.inl rfl⟩
    | _ => simp [cascadeParents] at hpk
  · obtain ⟨j, hj, hjlive, hp⟩ := mem_subnetDescendants.mp hp
    exact mem_subnetDescendants.mpr ⟨j, hj, hjlive, Or.inr (covers_scope σ j p hp k hlive hpk)⟩

theorem covers_block (h : blockDescendants σ i = .ok keys) : Covers σ (.block i) keys := by
  have hblock : ∀ j, Above (liveParent σ) j i → ∀ k, isLive σ k = true →
      .block j ∈ cascadeParents σ k → k ∈ keys := by
    intro j hj k hlive hjk
    rw [mem_blockDescendants h]
    cases k with
    | block c => exact Or.inr ⟨c, j, liveParent_eq_some.mpr ⟨hjk, hlive⟩, hj, rfl⟩
    | subnet c => exact Or.inl ⟨j, hj, mem_subnetsOfBlock.mpr ⟨c, hjk, hlive, Or.inl rfl⟩⟩
    | _ => simp [cascadeParents] at hjk
  rintro p (rfl | hp) k hlive hpk
  · exact hblock i (Above.refl _ _) k hlive hpk
  · rcases (mem_blockDescendants h).mp hp with ⟨j, hj, hp⟩ | ⟨j, q, hjq, hq, rfl⟩
    · obtain ⟨c, hc, hclive, hp⟩ := mem_subnetsOfBlock.mp hp
      exact (mem_blockDescendants h).mpr (Or.inl ⟨j, hj, mem_subnetsOfBlock.mpr
        ⟨c, hc, hclive, Or.inr (covers_subnet σ c p hp k hlive hpk)⟩⟩)
    · exact hblock j (hq.head hjq) k hlive hpk

/-- The list holds every live child of its own rows. -/
def Closed (σ : Store) (keys : List RowKey) : Prop :=
  ∀ p ∈ keys, ∀ k, isLive σ k = true → p ∈ cascadeParents σ k → k ∈ keys

theorem closed_spaceBlocks (h : spaceBlocks σ ids = .ok keys) : Closed σ keys := by
  intro p hp k hlive hpk
  obtain ⟨i, hi, hp⟩ := (spaceBlocks_ok h).mp hp
  obtain ⟨below, hbelow⟩ : ∃ below, blockDescendants σ i = .ok below := spaceBlocks_isOk h hi
  refine (spaceBlocks_ok h).mpr ⟨i, hi, Or.inr ⟨below, hbelow, ?_⟩⟩
  refine covers_block hbelow p ?_ k hlive hpk
  rcases hp with rfl | ⟨below', hbelow', hp⟩
  · exact Or.inl rfl
  · exact Or.inr (Except.ok.inj (hbelow'.symm.trans hbelow) ▸ hp)

theorem closed_spaceSubnets (ids : List Nat) (h : Closed σ out) :
    Closed σ (spaceSubnets σ out ids) := by
  induction ids generalizing out with
  | nil => exact h
  | cons i rest ih =>
    unfold spaceSubnets
    split
    · exact ih h
    · refine ih fun p hp k hlive hpk => ?_
      simp only [List.append_assoc, List.mem_append, List.mem_singleton] at hp ⊢
      rcases hp with hp | hp
      · exact Or.inl (h p hp k hlive hpk)
      · exact Or.inr (Or.inl (covers_subnet σ i p hp.symm k hlive hpk))

theorem subnet_mem_spaceSubnets (out : List RowKey) (hi : i ∈ ids) :
    .subnet i ∈ spaceSubnets σ out ids := by
  induction ids generalizing out with
  | nil => simp at hi
  | cons j rest ih =>
    unfold spaceSubnets
    split
    · rename_i hj
      rcases List.mem_cons.mp hi with rfl | hi
      · exact subset_spaceSubnets _ _ hj
      · exact ih out hi
    · rcases List.mem_cons.mp hi with rfl | hi
      · exact subset_spaceSubnets _ _ (by simp)
      · exact ih _ hi

theorem covers_space (h : collectDescendants σ (.space i) = .ok keys) :
    Covers σ (.space i) keys := by
  simp only [collectDescendants, bind_eq_ok, pure_eq_ok] at h
  obtain ⟨blocks, hblocks, rfl⟩ := h
  rintro p (rfl | hp) k hlive hpk
  · cases k with
    | block j =>
      have hj := mem_blocksOfSpace.mpr ⟨hpk, hlive⟩
      exact subset_spaceSubnets _ _ ((spaceBlocks_ok hblocks).mpr ⟨j, hj, Or.inl rfl⟩)
    | subnet j => exact subnet_mem_spaceSubnets _ (mem_subnetsOfSpace.mpr ⟨hpk, hlive⟩)
    | _ => simp [cascadeParents] at hpk
  · exact closed_spaceSubnets _ (closed_spaceBlocks hblocks) p hp k hlive hpk

section

variable (h : collectDescendants σ root = .ok keys)
include h

theorem covers_collectDescendants : Covers σ root keys := by
  cases root with
  | space i => exact covers_space h
  | block i => exact covers_block h
  | subnet i =>
    obtain rfl : subnetDescendants σ i = keys := Except.ok.inj h
    exact covers_subnet σ i
  | scope i =>
    obtain rfl : scopeDescendants σ i = keys := Except.ok.inj h
    exact covers_scope σ i
  | _ =>
    obtain rfl : [] = keys := Except.ok.inj h
    rintro p (rfl | hp) k hlive hpk
    · cases k <;> simp [cascadeParents] at hpk
    · simp at hp

theorem collectDescendants_rides (hk : k ∈ keys) : Rides σ root k := by
  cases root with
  | space i =>
    simp only [collectDescendants, bind_eq_ok, pure_eq_ok] at h
    obtain ⟨blocks, hblocks, rfl⟩ := h
    rcases mem_spaceSubnets hk with hk | ⟨j, hj, hk⟩
    · obtain ⟨j, hj, hk⟩ := (spaceBlocks_ok hblocks).mp hk
      obtain ⟨hp, hlive⟩ := mem_blocksOfSpace.mp hj
      have hj : Rides σ (.space i) (.block j) := Rides.root.child hp hlive
      rcases hk with rfl | ⟨below, hbelow, hk⟩
      · exact hj
      · exact hj.trans (blockDescendants_rides hbelow hk)
    · obtain ⟨hp, hlive⟩ := mem_subnetsOfSpace.mp hj
      have hj : Rides σ (.space i) (.subnet j) := Rides.root.child hp hlive
      rcases hk with rfl | hk
      · exact hj
      · exact hj.trans (subnetDescendants_rides hk)
  | block i => exact blockDescendants_rides h hk
  | subnet i => exact subnetDescendants_rides (Except.ok.inj h ▸ hk)
  | scope i => exact scopeDescendants_rides (Except.ok.inj h ▸ hk)
  | _ =>
    obtain rfl : [] = keys := Except.ok.inj h
    simp at hk

end

theorem mem_addToBatch {batch : List RowKey} :
    k ∈ addToBatch batch keys ↔ k ∈ batch ∨ k ∈ keys := by
  induction keys generalizing batch with
  | nil => simp [addToBatch]
  | cons a keys ih =>
    rw [addToBatch, List.foldl_cons, ← addToBatch, ih, List.mem_cons]
    split
    · rename_i ha
      constructor
      · rintro (h | h)
        · exact Or.inl h
        · exact Or.inr (Or.inr h)
      · rintro (h | rfl | h)
        · exact Or.inl h
        · exact Or.inl ha
        · exact Or.inr h
    · simp only [List.mem_append, List.mem_singleton, or_assoc]

theorem collectBatch_ok {request : SoftDelete} (h : collectBatch σ request = .ok keys) :
    isLive σ request.root = true ∧
      (∀ k ∈ request.riders, mayRide k = true ∧ isLive σ k = true) ∧
      ∀ k, k ∈ keys ↔ Rides σ request.root k ∨ k ∈ request.riders := by
  simp only [collectBatch, bind_eq_ok, require_eq_ok, exists_const, pure_eq_ok] at h
  obtain ⟨hroot, hriders, below, hbelow, rfl⟩ := h
  refine ⟨hroot, hriders, fun k => ?_⟩
  simp only [mem_addToBatch, List.mem_append, List.mem_singleton, List.not_mem_nil, false_or]
  constructor
  · rintro ((hk | rfl) | hk)
    · exact Or.inl (collectDescendants_rides hbelow hk)
    · exact Or.inl .root
    · exact Or.inr hk
  · rintro (hk | hk)
    · exact Or.inl ((covers_collectDescendants hbelow).of_rides hk).symm
    · exact Or.inr hk

theorem Rides.isLive (h : Rides σ root k) (hroot : isLive σ root = true) : isLive σ k = true := by
  cases h with
  | root => exact hroot
  | child _ _ hlive => exact hlive

theorem unstamp_eq_none : unstamp b d = none ↔ d = none ∨ d = some b := by
  unfold unstamp
  split <;> simp_all

theorem unstamp_eq_some : unstamp b d = some n ↔ d = some n ∧ n ≠ b := by
  unfold unstamp
  split
  · simp_all [eq_comm]
  · rename_i h
    refine ⟨fun hd => ⟨hd, fun hn => h (hn ▸ hd)⟩, And.left⟩

theorem trashedElsewhere_eq_false : trashedElsewhere b d = false ↔ d = none ∨ d = some b := by
  cases d <;> simp [trashedElsewhere]

theorem blockConflict_ok {s : IPBlock} (h : blockConflict σ b i s = false) :
    (∀ p q, s.parentBlockId = some p → σ.blocks.get? p = some q →
      q.deletion = none ∨ q.deletion = some b) ∧
    assertNoBlockOverlap σ s.spaceId s.network s.parentBlockId (some i) = .ok [] := by
  simp only [blockConflict, Bool.or_eq_false_iff] at h
  obtain ⟨⟨⟨hparent, -⟩, -⟩, hover⟩ := h
  constructor
  · intro p q hp hq
    simpa [hp, blockTrashed, hq, trashedElsewhere_eq_false] using hparent
  · split at hover
    · simp at hover
    · rename_i covered heq
      rw [heq]
      simpa using hover

theorem subnetConflict_ok {s : Subnet} (h : subnetConflict σ b i s = false) :
    (∀ q, σ.blocks.get? s.blockId = some q → q.deletion = none ∨ q.deletion = some b) ∧
    assertNoOverlap σ s.spaceId s.network (some i) = .ok () := by
  simp only [subnetConflict, Bool.or_eq_false_iff] at h
  obtain ⟨⟨⟨hblock, -⟩, -⟩, hover⟩ := h
  constructor
  · intro q hq
    simpa [blockTrashed, hq, trashedElsewhere_eq_false] using hblock
  · split at hover
    · simp at hover
    · assumption

theorem restoreBatch_ok {σ' : Store} (h : restoreBatch σ b = .ok σ') :
    (∀ i s, σ.blocks.get? i = some s → s.deletion = some b → blockConflict σ b i s = false) ∧
    (∀ i s, σ.subnets.get? i = some s → s.deletion = some b → subnetConflict σ b i s = false) ∧
    σ'.blocks = σ.blocks.modify (fun _ s => { s with deletion := unstamp b s.deletion }) ∧
    σ'.subnets = σ.subnets.modify (fun _ s => { s with deletion := unstamp b s.deletion }) ∧
    σ'.nextBatch = σ.nextBatch := by
  simp only [restoreBatch, bind_eq_ok, require_eq_ok, exists_const, pure_eq_ok] at h
  obtain ⟨hconflict, rfl⟩ := h
  simp only [batchConflict, Bool.or_eq_false_iff, List.any_eq_false] at hconflict
  obtain ⟨⟨⟨⟨⟨⟨⟨-, hblocks⟩, hsubnets⟩, -⟩, -⟩, -⟩, -⟩, -⟩ := hconflict
  refine ⟨fun i s hs hd => ?_, fun i s hs hd => ?_, rfl, rfl, rfl⟩
  · simpa [hd] using hblocks (i, s) (Table.mem_rows_iff.mpr hs)
  · simpa [hd] using hsubnets (i, s) (Table.mem_rows_iff.mpr hs)

end SpatiumDdi.Trash
