import SpatiumDdi.Lib.Subnets
import SpatiumDdi.Lib.Table
import SpatiumDdi.Lib.Forest

/-!
The tables of the control plane that the IPAM operations, the Trash and the
DHCP checks read and write. Rows hold the columns those functions use. A
foreign key is the key of a row of the other table.

`deletion` stands for the two soft-delete columns `deleted_at` and
`deletion_batch_id`, which are only ever written together: `none` is a live
row, `some b` a row in the Trash under batch `b`.
-/

namespace SpatiumDdi

open Ipaddress

structure IPSpace where
  name : String
  deletion : Option Nat := none
deriving DecidableEq

structure IPBlock where
  spaceId : Nat
  parentBlockId : Option Nat
  network : Net
  /-- Some integration's reconciler owns the row. -/
  integrationOwned : Bool := false
  deletion : Option Nat := none
deriving DecidableEq

inductive SubnetKind where
  | unicast
  | multicast
deriving DecidableEq

/-- The columns a split hands down unchanged and on which a merge wants its
sources to agree. -/
structure SubnetSettings where
  vlanId : Option Nat := none
  vlanRefId : Option Nat := none
  dnsZoneId : Option Nat := none
  dhcpServerGroupId : Option Nat := none
  ddnsEnabled : Bool := false
  ddnsHostnamePolicy : String := "client_or_generated"
  ddnsDomainOverride : Option String := none
  ddnsTtl : Option Nat := none
  ddnsInheritSettings : Bool := true
  dnsInheritSettings : Bool := true
  dhcpInheritSettings : Bool := true
  status : String := "active"
  routerZoneId : Option Nat := none
  customerId : Option Nat := none
  siteId : Option Nat := none
deriving DecidableEq

structure Subnet where
  spaceId : Nat
  blockId : Nat
  network : Net
  kind : SubnetKind := .unicast
  gateway : Option Address := none
  settings : SubnetSettings := {}
  integrationOwned : Bool := false
  deletion : Option Nat := none
deriving DecidableEq

inductive AddressStatus where
  | available
  | allocated
  | reserved
  | staticDhcp
  | deprecated
  | orphan
  | dhcp
  | network
  | broadcast
  /-- A status that an integration's reconciler writes. -/
  | integration (name : String)
deriving DecidableEq

structure IPAddress where
  subnetId : Nat
  address : Address
  status : AddressStatus := .available
  hostname : Option String := none
  description : String := ""
  dnsRecordId : Option Nat := none
  integrationOwned : Bool := false
deriving DecidableEq

structure DHCPScope where
  groupId : Nat
  subnetId : Nat
  isActive : Bool := true
  deletion : Option Nat := none
deriving DecidableEq

structure DHCPPool where
  scopeId : Nat
  startIp : Address
  endIp : Address
  deletion : Option Nat := none
deriving DecidableEq

structure DHCPStaticAssignment where
  scopeId : Nat
  ipAddress : Address
  macAddress : String
  deletion : Option Nat := none
deriving DecidableEq

structure DNSZone where
  groupId : Nat
  viewId : Option Nat
  name : String
  deletion : Option Nat := none
deriving DecidableEq

structure DNSRecord where
  zoneId : Nat
  viewId : Option Nat := none
  name : String
  recordType : String
  value : String
  priority : Option Nat := none
  weight : Option Nat := none
  port : Option Nat := none
  autoGenerated : Bool := false
  ipAddressId : Option Nat := none
  deletion : Option Nat := none
deriving DecidableEq

@[ext]
structure Store where
  spaces : Table IPSpace
  blocks : Table IPBlock
  subnets : Table Subnet
  addresses : Table IPAddress
  scopes : Table DHCPScope
  pools : Table DHCPPool
  statics : Table DHCPStaticAssignment
  zones : Table DNSZone
  records : Table DNSRecord
  /-- The batch id the next soft-delete draws. -/
  nextBatch : Nat

def Store.empty : Store where
  spaces := .empty
  blocks := .empty
  subnets := .empty
  addresses := .empty
  scopes := .empty
  pools := .empty
  statics := .empty
  zones := .empty
  records := .empty
  nextBatch := 0

namespace Store

/-- `db.get(IPSpace, id)`: the soft-delete filter hides a trashed row. The
three lookups below are the same query on the other tables. -/
def getSpace (σ : Store) (i : Nat) : Option IPSpace :=
  (σ.spaces.get? i).filter fun s => s.deletion.isNone

def getBlock (σ : Store) (i : Nat) : Option IPBlock :=
  (σ.blocks.get? i).filter fun b => b.deletion.isNone

def getSubnet (σ : Store) (i : Nat) : Option Subnet :=
  (σ.subnets.get? i).filter fun s => s.deletion.isNone

def getScope (σ : Store) (i : Nat) : Option DHCPScope :=
  (σ.scopes.get? i).filter fun s => s.deletion.isNone

variable {σ : Store} {i : Nat}

theorem getSpace_eq_some {s : IPSpace} :
    σ.getSpace i = some s ↔ σ.spaces.get? i = some s ∧ s.deletion = none := by
  simp [getSpace, Option.filter_eq_some_iff]

variable {b : IPBlock}

theorem getBlock_eq_some :
    σ.getBlock i = some b ↔ σ.blocks.get? i = some b ∧ b.deletion = none := by
  simp [getBlock, Option.filter_eq_some_iff]

variable {s : Subnet} {p : Nat → IPBlock → Bool}

theorem getSubnet_eq_some :
    σ.getSubnet i = some s ↔ σ.subnets.get? i = some s ∧ s.deletion = none := by
  simp [getSubnet, Option.filter_eq_some_iff]

theorem getScope_eq_some {s : DHCPScope} :
    σ.getScope i = some s ↔ σ.scopes.get? i = some s ∧ s.deletion = none := by
  simp [getScope, Option.filter_eq_some_iff]

def liveBlocks (σ : Store) (p : Nat → IPBlock → Bool) : List (Nat × IPBlock) :=
  σ.blocks.select fun i b => b.deletion.isNone && p i b

def liveSubnets (σ : Store) (p : Nat → Subnet → Bool) : List (Nat × Subnet) :=
  σ.subnets.select fun i s => s.deletion.isNone && p i s

theorem mem_liveBlocks : (i, b) ∈ σ.liveBlocks p ↔ σ.getBlock i = some b ∧ p i b = true := by
  rw [liveBlocks, Table.mem_select, getBlock_eq_some]
  simp [and_assoc]

theorem mem_liveSubnets {p : Nat → Subnet → Bool} :
    (i, s) ∈ σ.liveSubnets p ↔ σ.getSubnet i = some s ∧ p i s = true := by
  rw [liveSubnets, Table.mem_select, getSubnet_eq_some]
  simp [and_assoc]

theorem liveBlocks_eq_nil (h : σ.liveBlocks p = []) (hb : σ.getBlock i = some b) :
    p i b = false := by
  by_contra hp
  have hmem := mem_liveBlocks.mpr ⟨hb, Bool.eq_true_of_not_eq_false hp⟩
  simp [h] at hmem

theorem liveSubnets_eq_nil {p : Nat → Subnet → Bool} (h : σ.liveSubnets p = [])
    (hs : σ.getSubnet i = some s) : p i s = false := by
  by_contra hp
  have hmem := mem_liveSubnets.mpr ⟨hs, Bool.eq_true_of_not_eq_false hp⟩
  simp [h] at hmem

/-- The `parent_block_id` of a block, live or in the Trash. -/
def parentBlock (σ : Store) (i : Nat) : Option Nat := (σ.blocks.get? i).bind (·.parentBlockId)

theorem parentBlock_eq_some {p : Nat} :
    σ.parentBlock i = some p ↔ ∃ b, σ.blocks.get? i = some b ∧ b.parentBlockId = some p := by
  simp [parentBlock, Option.bind_eq_some_iff]

end Store

end SpatiumDdi
