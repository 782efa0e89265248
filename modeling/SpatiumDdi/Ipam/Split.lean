import SpatiumDdi.Ipam.Move
import SpatiumDdi.Lib.Collapse

/-!
Splitting a subnet into equal children. The children are new rows that inherit
the parent's settings; its addresses and DHCP scopes are handed to the child
they lie in, and the parent row is deleted with whatever still points at it.
-/

namespace SpatiumDdi.Ipam

open Ipaddress

structure SubnetSplit where
  subnetId : Nat
  newPrefixLength : Nat
  confirmCidr : Net
  otherChecks : Bool := true

def validateSplit (parent : Net) (newPrefix : Nat) : Except Refusal Unit := do
  require (parent.prefixlen < newPrefix) (.prefixTooShort newPrefix)
  require (newPrefix ≤ match parent.version with | .v4 => 30 | .v6 => 126) (.prefixTooLong newPrefix)

def scopePools (σ : Store) (scopeId : Nat) : List DHCPPool :=
  (σ.pools.select fun _ p => p.deletion.isNone && p.scopeId == scopeId).map Prod.snd

def scopeStatics (σ : Store) (scopeId : Nat) : List DHCPStaticAssignment :=
  (σ.statics.select fun _ s => s.deletion.isNone && s.scopeId == scopeId).map Prod.snd

def scopeIsEmpty (σ : Store) (scopeId : Nat) : Bool :=
  (scopePools σ scopeId).isEmpty && (scopeStatics σ scopeId).isEmpty

/-- Every pool boundary and every reservation of the scope lies in the child. -/
def scopeFits (σ : Store) (scopeId : Nat) (child : Net) : Bool :=
  (scopePools σ scopeId).all (fun p => child.contains p.startIp && child.contains p.endIp) &&
    (scopeStatics σ scopeId).all fun s => child.contains s.ipAddress

def subnetScopes (σ : Store) (subnetId : Nat) : List Nat :=
  (σ.scopes.select fun _ sc => sc.deletion.isNone && sc.subnetId == subnetId).map Prod.fst

/-- The scope the preview shows for a child: the first that fits it, where an
empty scope fits the child with the parent's network address. -/
def boundScope (σ : Store) (parent : Net) (scopes : List Nat) (child : Net) : Option Nat :=
  scopes.find? fun scope =>
    if scopeIsEmpty σ scope then decide (child.contains (parent.nth 0)) else scopeFits σ scope child

/-- Scopes that are shown for no child though they have pools or reservations,
or for more than one. -/
def scopeConflicts (σ : Store) (parent : Net) (scopes : List Nat) (children : List Net) :
    List Nat :=
  scopes.filter fun scope =>
    let matching := children.filter fun child => boundScope σ parent scopes child == some scope
    (matching.isEmpty && !scopeIsEmpty σ scope) || decide (1 < matching.length)

/-- The conflicts that block a split: DHCP scopes that do not fit one child,
and hosts on a boundary the split creates. -/
def splitIsBlocked (σ : Store) (subnetId : Nat) (subnet : Subnet) (children : List Net) : Bool :=
  scopeConflicts σ subnet.network (subnetScopes σ subnetId) children != [] ||
    boundaryHostConflicts (subnetRows σ subnetId) children subnet.kind
      (boundaryAddresses subnet.network subnet.kind) != []

/-- The new row of a child. The gateway goes to the child that contains it. -/
def splitChild (parent : Subnet) (net : Net) : Subnet :=
  { spaceId := parent.spaceId, blockId := parent.blockId, network := net,
    kind := parent.kind, gateway := parent.gateway.filter fun gw => net.contains gw,
    settings := parent.settings }

/-- The key of the first child that satisfies `p`. -/
def findChild (first : Nat) (children : List Net) (p : Net → Bool) : Option Nat :=
  (children.findIdx? p).map (first + ·)

/-- A row deleted by the split: an untouched placeholder on the parent's own
boundary. -/
def retiredBySplit (subnetId : Nat) (parent : Net) (a : IPAddress) : Bool :=
  a.subnetId == subnetId && a.address ∈ boundaryAddresses parent .unicast && isDefaultPlaceholder a

def splitAddresses (σ : Store) (subnetId first : Nat) (parent : Net) (children : List Net) :
    Table IPAddress :=
  (σ.addresses.keep fun _ a => !retiredBySplit subnetId parent a).modify fun _ a =>
    if a.subnetId = subnetId then
      match findChild first children fun child => child.contains a.address with
      | some child => { a with subnetId := child }
      | none => a
    else a

/-- The child a scope moves to: the first it fits if it has pools or
reservations, else the one with the parent's network address. -/
def scopeTarget (σ : Store) (first : Nat) (parent : Net) (children : List Net) (scope : Nat) :
    Option Nat :=
  let fitting :=
    if scopeIsEmpty σ scope then none else findChild first children fun c => scopeFits σ scope c
  fitting.or (findChild first children fun child => child.contains (parent.nth 0))

def splitScopes (σ : Store) (subnetId first : Nat) (parent : Net) (children : List Net) :
    Table DHCPScope :=
  σ.scopes.modify fun i sc =>
    if sc.deletion.isNone && sc.subnetId == subnetId then
      match scopeTarget σ first parent children i with
      | some child => { sc with subnetId := child }
      | none => sc
    else sc

/-- `db.delete(subnet)`: the row and, by cascade, the addresses and scopes that
still point at it, with the scopes' pools and reservations. -/
def deleteSubnet (σ : Store) (subnetId : Nat) : Store :=
  let gone := fun scopeId => (σ.scopes.get? scopeId).any fun sc => sc.subnetId == subnetId
  { σ with
    subnets := σ.subnets.keep fun i _ => i != subnetId
    addresses := σ.addresses.keep fun _ a => a.subnetId != subnetId
    scopes := σ.scopes.keep fun _ sc => sc.subnetId != subnetId
    pools := σ.pools.keep fun _ p => !gone p.scopeId
    statics := σ.statics.keep fun _ s => !gone s.scopeId }

def ensureAllBoundaryRows (σ : Store) (kind : SubnetKind) : Nat → List Net → Store
  | _, [] => σ
  | id, net :: rest => ensureAllBoundaryRows (ensureBoundaryRows σ id net kind) kind (id + 1) rest

/-- Applies the split; also returns the keys of the children. -/
def commitSubnetSplit (σ : Store) (request : SubnetSplit) :
    Except Refusal (List Nat × Store) := do
  require (request.otherChecks = true) .refusedElsewhere
  let subnet ← orRefuse (σ.getSubnet request.subnetId) .subnetNotFound
  let parent := subnet.network
  validateSplit parent request.newPrefixLength
  require (request.confirmCidr = parent) .confirmation
  let children := parent.subnets request.newPrefixLength
  require (splitIsBlocked σ request.subnetId subnet children = false) .splitConflict
  let first := σ.subnets.next
  let σ₁ := { σ with
    subnets := σ.subnets.insertAll (children.map (splitChild subnet))
    addresses := splitAddresses σ request.subnetId first parent children }
  let σ₂ := ensureAllBoundaryRows σ₁ subnet.kind first children
  let σ₃ := { σ₂ with scopes := splitScopes σ₂ request.subnetId first parent children }
  return ((List.range children.length).map (first + ·), deleteSubnet σ₃ request.subnetId)

theorem ensureAllBoundaryRows_eq (σ : Store) (kind : SubnetKind) (id : Nat) (nets : List Net) :
    ∃ addresses, ensureAllBoundaryRows σ kind id nets = { σ with addresses } := by
  induction nets generalizing σ id with
  | nil => exact ⟨σ.addresses, rfl⟩
  | cons net rest ih =>
    obtain ⟨addresses, h⟩ := ih (ensureBoundaryRows σ id net kind) (id + 1)
    exact ⟨addresses, h⟩

@[simp] theorem deleteSubnet_subnets (σ : Store) (subnetId : Nat) :
    (deleteSubnet σ subnetId).subnets = σ.subnets.keep fun i _ => i != subnetId := rfl

theorem validateSplit_ok {parent : Net} {newPrefix : Nat} {u : Unit}
    (h : validateSplit parent newPrefix = .ok u) :
    parent.prefixlen < newPrefix ∧ newPrefix < parent.version.maxPrefixlen - 1 := by
  simp only [validateSplit, bind_eq_ok, require_eq_ok, exists_const] at h
  refine ⟨h.1, ?_⟩
  obtain ⟨-, h⟩ := h
  cases hv : parent.version <;> simp only [hv, Version.maxPrefixlen] at h ⊢ <;> omega

theorem commitSubnetSplit_ok {σ σ' : Store} {request : SubnetSplit} {ids : List Nat}
    (h : commitSubnetSplit σ request = .ok (ids, σ')) :
    ∃ subnet, σ.getSubnet request.subnetId = some subnet ∧
      subnet.network.prefixlen < request.newPrefixLength ∧
      request.newPrefixLength < subnet.network.version.maxPrefixlen - 1 ∧
      σ'.blocks = σ.blocks ∧ σ'.spaces = σ.spaces ∧ σ'.nextBatch = σ.nextBatch ∧
      σ'.subnets = (σ.subnets.insertAll
        ((subnet.network.subnets request.newPrefixLength).map (splitChild subnet))).keep
          fun i _ => i != request.subnetId := by
  simp only [commitSubnetSplit, bind_eq_ok, require_eq_ok, orRefuse_eq_ok, exists_const,
    pure_eq_ok, Prod.mk.injEq] at h
  obtain ⟨-, subnet, hsubnet, _, hvalid, -, -, rfl, rfl⟩ := h
  obtain ⟨hlt, hle⟩ := validateSplit_ok hvalid
  refine ⟨subnet, hsubnet, hlt, hle, ?_⟩
  obtain ⟨addresses, haddr⟩ := ensureAllBoundaryRows_eq
    { σ with
      subnets := σ.subnets.insertAll
        ((subnet.network.subnets request.newPrefixLength).map (splitChild subnet))
      addresses := splitAddresses σ request.subnetId σ.subnets.next subnet.network
        (subnet.network.subnets request.newPrefixLength) }
    subnet.kind σ.subnets.next (subnet.network.subnets request.newPrefixLength)
  rw [haddr]
  exact ⟨rfl, rfl, rfl, rfl⟩

end SpatiumDdi.Ipam

/-!
The conflicts that the preview of a split reports. Each child shows one scope, the first that fits
it, and a scope is taken to straddle a boundary when no child shows it. So a scope is reported
wrongly exactly where it fits a child that an earlier one took.
-/

namespace SpatiumDdi.Ipam

open Ipaddress

inductive SplitConflict where
  | validation (reason : Refusal)
  | dhcpScopeStraddlesBoundary (scope : Nat)
  | dhcpScopeAmbiguous (scope : Nat) (matching : List Net)
  | hostOnChildBoundary (address : Address)
deriving DecidableEq

def matchingChildren (σ : Store) (parent : Net) (scopes : List Nat) (children : List Net)
    (scope : Nat) : List Net :=
  children.filter fun child => boundScope σ parent scopes child == some scope

def scopeConflict (σ : Store) (parent : Net) (scopes : List Nat) (children : List Net)
    (scope : Nat) : Option SplitConflict :=
  let matching := matchingChildren σ parent scopes children scope
  if matching.isEmpty && !scopeIsEmpty σ scope then some (.dhcpScopeStraddlesBoundary scope)
  else if 1 < matching.length then some (.dhcpScopeAmbiguous scope matching)
  else none

/-- `preview_subnet_split`, its conflicts. `scopes` are the live scopes of the subnet, in the order
the query returns them. -/
def previewSubnetSplit (σ : Store) (subnetId : Nat) (subnet : Subnet) (scopes : List Nat)
    (newPrefix : Nat) : List SplitConflict :=
  let parent := subnet.network
  match validateSplit parent newPrefix with
  | .error reason => [.validation reason]
  | .ok () =>
    let children := parent.subnets newPrefix
    scopes.filterMap (scopeConflict σ parent scopes children) ++
      (boundaryHostConflicts (subnetRows σ subnetId) children subnet.kind
        (boundaryAddresses parent subnet.kind)).map .hostOnChildBoundary

/-- A scope takes a child: an empty one the child with the parent's network address, any other a
child that it fits. -/
def takes (σ : Store) (parent child : Net) (scope : Nat) : Bool :=
  if scopeIsEmpty σ scope then decide (child.contains (parent.nth 0)) else scopeFits σ scope child

/-- The scopes reported to straddle a boundary are those with a pool or reservation that no child
contains entirely. -/
def StraddlesExact (σ : Store) (subnetId : Nat) (subnet : Subnet) (scopes : List Nat)
    (newPrefix : Nat) : Prop :=
  ∀ scope ∈ scopes, .dhcpScopeStraddlesBoundary scope ∈
      previewSubnetSplit σ subnetId subnet scopes newPrefix ↔
    scopeIsEmpty σ scope = false ∧
      ∀ child ∈ subnet.network.subnets newPrefix, scopeFits σ scope child = false

instance (σ : Store) (subnetId : Nat) (subnet : Subnet) (scopes : List Nat) (newPrefix : Nat) :
    Decidable (StraddlesExact σ subnetId subnet scopes newPrefix) :=
  inferInstanceAs (Decidable (∀ scope ∈ scopes, _ ↔ _))

variable {σ : Store}

theorem scopeFits_unique {scope : Nat} {parent c d : Net} {p : Nat}
    (hempty : scopeIsEmpty σ scope = false) (hp : parent.prefixlen ≤ p)
    (hmax : p ≤ parent.version.maxPrefixlen) (hc : c ∈ parent.subnets p) (hd : d ∈ parent.subnets p)
    (hfits : scopeFits σ scope c = true) (hfits' : scopeFits σ scope d = true) : c = d := by
  simp only [scopeFits, Bool.and_eq_true, List.all_eq_true, decide_eq_true_eq] at hfits hfits'
  have hcommon : ∃ a : Address, c.contains a ∧ d.contains a := by
    simp only [scopeIsEmpty, Bool.and_eq_false_iff, List.isEmpty_eq_false_iff] at hempty
    rcases hempty with hpools | hstatics
    · obtain ⟨pool, hpool⟩ := List.exists_mem_of_ne_nil _ hpools
      exact ⟨pool.startIp, (hfits.1 pool hpool).1, (hfits'.1 pool hpool).1⟩
    · obtain ⟨s, hs⟩ := List.exists_mem_of_ne_nil _ hstatics
      exact ⟨s.ipAddress, hfits.2 s hs, hfits'.2 s hs⟩
  obtain ⟨a, hca, hda⟩ := hcommon
  have hoverlaps : c.overlaps d := hca.2.overlaps hda.2 (hca.1.symm.trans hda.1)
  exact (Net.Tiles.subnets hp hmax).eq_of_overlaps hc hd hoverlaps

theorem boundScope_eq (σ : Store) (parent : Net) (scopes : List Nat) (child : Net) :
    boundScope σ parent scopes child = scopes.find? (takes σ parent child) := rfl

theorem boundScope_eq_some {parent child : Net} {scopes : List Nat} {scope : Nat} :
    boundScope σ parent scopes child = some scope ↔ takes σ parent child scope = true ∧
      ∃ before after, scopes = before ++ scope :: after ∧
        ∀ other ∈ before, takes σ parent child other = false := by
  rw [boundScope_eq, List.find?_eq_some_iff_append]
  simp

theorem mem_previewSubnetSplit {subnetId : Nat} {subnet : Subnet} {scopes : List Nat}
    {newPrefix scope : Nat} (hvalid : validateSplit subnet.network newPrefix = .ok ()) :
    .dhcpScopeStraddlesBoundary scope ∈ previewSubnetSplit σ subnetId subnet scopes newPrefix ↔
      scope ∈ scopes ∧ scopeIsEmpty σ scope = false ∧
        ∀ child ∈ subnet.network.subnets newPrefix,
          boundScope σ subnet.network scopes child ≠ some scope := by
  simp only [previewSubnetSplit, hvalid, List.mem_append, List.mem_filterMap, List.mem_map,
    reduceCtorEq, and_false, exists_false, or_false]
  constructor
  · rintro ⟨found, hfound, hconflict⟩
    simp only [scopeConflict] at hconflict
    split at hconflict
    · rename_i hmatching
      simp only [Option.some.injEq, SplitConflict.dhcpScopeStraddlesBoundary.injEq] at hconflict
      subst hconflict
      simpa [hfound, matchingChildren, List.filter_eq_nil_iff, and_comm] using hmatching
    · split at hconflict <;> simp at hconflict
  · rintro ⟨hscope, hempty, hnone⟩
    refine ⟨scope, hscope, ?_⟩
    have hmatching : matchingChildren σ subnet.network scopes
        (subnet.network.subnets newPrefix) scope = [] := by
      simpa [matchingChildren, List.filter_eq_nil_iff] using hnone
    simp [scopeConflict, hmatching, hempty]

/-- **The scopes reported are the ones that straddle a boundary exactly where no scope that fits a
child comes after another that takes it.** -/
theorem straddlesExact_iff {σ : Store} (subnetId : Nat) {subnet : Subnet} (scopes : List Nat)
    {newPrefix : Nat} (hvalid : validateSplit subnet.network newPrefix = .ok ()) :
    StraddlesExact σ subnetId subnet scopes newPrefix ↔
      ∀ before scope after, scopes = before ++ scope :: after → scope ∉ before →
        scopeIsEmpty σ scope = false → ∀ child ∈ subnet.network.subnets newPrefix,
          scopeFits σ scope child = true →
            ∀ other ∈ before, takes σ subnet.network child other = false := by
  obtain ⟨hlt, hle⟩ := validateSplit_ok hvalid
  constructor
  · intro h before scope after hscopes hfirst hempty child hchild hfits
    have hscope : scope ∈ scopes := by simp [hscopes]
    -- It fits a child, so it is not reported, so some child shows it: the one it fits.
    have hreported : .dhcpScopeStraddlesBoundary scope ∉
        previewSubnetSplit σ subnetId subnet scopes newPrefix := by
      intro hmem
      have hnone := ((h scope hscope).mp hmem).2 child hchild
      rw [hfits] at hnone
      cases hnone
    rw [mem_previewSubnetSplit hvalid] at hreported
    simp only [hscope, hempty, true_and, not_forall, not_not] at hreported
    obtain ⟨shown, hshown, hbound⟩ := hreported
    obtain ⟨htakes, before', after', hscopes', hearlier⟩ := boundScope_eq_some.mp hbound
    have hfits' : scopeFits σ scope shown = true := by simpa [takes, hempty] using htakes
    obtain rfl := scopeFits_unique hempty (by omega) (by omega) hchild hshown hfits hfits'
    intro other hother
    -- What comes before the first occurrence comes before every other.
    rcases List.append_eq_append_iff.mp (hscopes.symm.trans hscopes') with
      ⟨mid, rfl, -⟩ | ⟨mid, rfl, hmid⟩
    · exact hearlier other (List.mem_append_left mid hother)
    · cases mid with
      | nil => exact hearlier other (by simpa using hother)
      | cons first mid =>
        obtain ⟨rfl, -⟩ := List.cons.inj hmid
        exact absurd (List.mem_append_right before' List.mem_cons_self) hfirst
  · intro h scope hscope
    rw [mem_previewSubnetSplit hvalid]
    constructor
    · rintro ⟨-, hempty, hnone⟩
      refine ⟨hempty, fun child hchild => ?_⟩
      by_contra hfits
      rw [Bool.not_eq_false] at hfits
      obtain ⟨before, after, hscopes, hfirst⟩ := List.eq_append_cons_of_mem hscope
      have hearlier := h before scope after hscopes hfirst hempty child hchild hfits
      have htakes : takes σ subnet.network child scope = true := by simp [takes, hempty, hfits]
      exact hnone child hchild (boundScope_eq_some.mpr ⟨htakes, before, after, hscopes, hearlier⟩)
    · rintro ⟨hempty, hnone⟩
      refine ⟨hscope, hempty, fun child hchild hbound => ?_⟩
      obtain ⟨htakes, -⟩ := boundScope_eq_some.mp hbound
      have hfits : scopeFits σ scope child = true := by simpa [takes, hempty] using htakes
      rw [hnone child hchild] at hfits
      cases hfits

def sharedSubnet : Subnet :=
  { spaceId := 0, blockId := 0, network := Net.ofValue .v4 0x0A000000 24, gateway := none }

/-- 10.0.0.0/24 with a scope of each of two server groups, each with a pool from the given host to
the one ten after it. -/
def sharedStore (first second : Nat) : Store :=
  let host := sharedSubnet.network.nth
  { Store.empty with
    subnets := Table.empty.insert sharedSubnet
    scopes := Table.empty.insertAll [{ groupId := 0, subnetId := 0 }, { groupId := 1, subnetId := 0 }]
    pools := Table.empty.insertAll
      [{ scopeId := 0, startIp := host first, endIp := host (first + 10) },
       { scopeId := 1, startIp := host second, endIp := host (second + 10) }] }

theorem straddlesExact_iff_apart :
    StraddlesExact (sharedStore 10 140) 0 sharedSubnet
        (subnetScopes (sharedStore 10 140) 0) 25 := by
  refine (straddlesExact_iff 0 _ rfl).mpr ?_
  intro before scope after hscopes _ _ child hchild hfits other hother
  have hloaded : subnetScopes (sharedStore 10 140) 0 = [0, 1] := by decide +kernel
  rw [hloaded] at hscopes
  have hapart : ∀ child ∈ sharedSubnet.network.subnets 25,
      scopeFits (sharedStore 10 140) 1 child = true →
        takes (sharedStore 10 140) sharedSubnet.network child 0 = false := by decide +kernel
  match before, hscopes with
  | [], _ => cases hother
  | [first], hscopes =>
    simp only [List.cons_append, List.nil_append, List.cons.injEq] at hscopes
    obtain ⟨rfl, rfl, -⟩ := hscopes
    rw [List.mem_singleton.mp hother]
    exact hapart child hchild hfits
  | _ :: _ :: _, hscopes => simp at hscopes

/-- Both pools lie in the lower half, and the second scope is reported to straddle the boundary. -/
theorem not_straddlesExact_together :
    ¬ StraddlesExact (sharedStore 10 40) 0 sharedSubnet
        (subnetScopes (sharedStore 10 40) 0) 25 := by
  decide +kernel

end SpatiumDdi.Ipam
