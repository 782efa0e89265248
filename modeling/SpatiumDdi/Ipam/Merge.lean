import SpatiumDdi.Ipam.Split

/-!
Merging sibling subnets into the one network they make up. The merged subnet is
a new row with the target's settings; the sources' addresses and their one DHCP
scope move to it, untouched boundary rows go, and the sources are deleted.
-/

namespace SpatiumDdi.Ipam

open Ipaddress

structure SubnetMerge where
  targetId : Nat
  siblingSubnetIds : List Nat
  confirmCidr : Net
  otherChecks : Bool := true

/-- The target and the siblings, duplicates removed. -/
def loadSources (σ : Store) : List Nat → List Nat → Except Refusal (List (Nat × Subnet))
  | _, [] => .ok []
  | seen, id :: rest =>
    if id ∈ seen then loadSources σ seen rest
    else do
      let s ← orRefuse (σ.getSubnet id) .subnetNotFound
      let others ← loadSources σ (id :: seen) rest
      return (id, s) :: others

/-- The one network that exactly covers the given ones, if there is one. -/
def summariseOrNone (nets : List Net) : Option Net :=
  match Net.collapseAddresses nets with
  | [net] => if (nets.map Net.numAddresses).sum = net.numAddresses then some net else none
  | _ => none

def metadataAgrees (sources : List Subnet) : Bool :=
  match sources with
  | [] => true
  | target :: _ => sources.all fun s => s.settings == target.settings && s.kind == target.kind

/-- The distinct gateways among the sources, each with the first that has it. -/
def gatewaysOf (sources : List (Nat × Subnet)) : List (Address × Nat × Subnet) :=
  sources.foldl (fun acc src =>
    match src.2.gateway with
    | none => acc
    | some gw => if gw ∈ acc.map Prod.fst then acc else acc ++ [(gw, src)]) []

def gatewayPlan (sources : List (Nat × Subnet)) (kind : SubnetKind) (merged : Net)
    (rows : List IPAddress) : Option Address × List Address :=
  match gatewaysOf sources with
  | [] => (none, [])
  | [(gw, _)] => (if merged.contains gw then some gw else none, [])
  | gateways =>
    let createGw := merged.nth 1
    if !hasBoundaryRows merged kind || !(createGw ∈ gateways.map Prod.fst) then (none, [])
    else
      (some createGw, (gateways.filter fun g =>
        g.1 != createGw && g.1 == g.2.2.network.nth 1 &&
          match rows.reverse.find? fun row => row.address == g.1 with
          | none => false
          | some row => row.subnetId == g.2.1 && isDefaultGatewayRow row).map Prod.fst)

def sourceRows (σ : Store) (ids : List Nat) : List IPAddress :=
  (σ.addresses.select fun _ a => a.subnetId ∈ ids).map Prod.snd

/-- Why a merge is blocked, in the order the preview checks it. -/
inductive MergeConflict where
  | tooFewSubnets
  | blockMismatch
  | familyMismatch
  | nonContiguous
  | metadataMismatch
  | hostOnMergedBoundary
  | multipleDhcpScopes
deriving DecidableEq

structure MergePreview where
  mergedCidr : Option Net
  survivingScopeId : Option Nat
  conflicts : List MergeConflict

def sourceScopes (σ : Store) (ids : List Nat) : List Nat :=
  (σ.scopes.select fun _ sc => sc.deletion.isNone && decide (sc.subnetId ∈ ids)).map Prod.fst

def previewSubnetMerge (σ : Store) (sources : List (Nat × Subnet)) : MergePreview :=
  if sources.length < 2 then ⟨none, none, [.tooFewSubnets]⟩
  else
    let ids := sources.map Prod.fst
    let nets := sources.map (·.2.network)
    let kind := (sources.head?.map (·.2.kind)).getD .unicast
    let oneBlock := sources.all fun r => some r.2.blockId == sources.head?.map (·.2.blockId)
    let oneFamily := nets.all fun n => some n.version == nets.head?.map (·.version)
    let merged := if oneFamily then summariseOrNone nets else none
    let already := sources.flatMap fun r => boundaryAddresses r.2.network r.2.kind
    let hosts := merged.toList.flatMap fun m =>
      boundaryHostConflicts (sourceRows σ ids) [m] kind already
    let scopes := sourceScopes σ ids
    { mergedCidr := merged
      survivingScopeId := if scopes.length = 1 then scopes.head? else none
      conflicts :=
        (if oneBlock then [] else [.blockMismatch]) ++
        (if oneFamily then [] else [.familyMismatch]) ++
        (if oneFamily && merged.isNone then [.nonContiguous] else []) ++
        (if metadataAgrees (sources.map Prod.snd) then [] else [.metadataMismatch]) ++
        (if hosts.isEmpty then [] else [.hostOnMergedBoundary]) ++
        (if scopes.length ≤ 1 then [] else [.multipleDhcpScopes]) }

/-- The addresses at which an untouched placeholder of a source is retired. -/
def sourceBoundary (sources : List (Nat × Subnet)) : List Address :=
  sources.flatMap fun r => r.2.network.nth 0 :: boundaryAddresses r.2.network .unicast

def retiredByMerge (sources : List (Nat × Subnet)) (retiredGateways : List Address)
    (a : IPAddress) : Bool :=
  a.subnetId ∈ sources.map Prod.fst &&
    ((a.address ∈ sourceBoundary sources && isDefaultPlaceholder a) ||
      (a.address ∈ retiredGateways && isDefaultGatewayRow a))

def mergedSubnet (target : Subnet) (net : Net) (gateway : Option Address) : Subnet :=
  { spaceId := target.spaceId, blockId := target.blockId, network := net,
    kind := target.kind, gateway, settings := target.settings }

/-- The sources are deleted one after the other. -/
def deleteSubnets (σ : Store) (ids : List Nat) : Store := ids.foldl deleteSubnet σ

def commitSubnetMerge (σ : Store) (request : SubnetMerge) : Except Refusal (Nat × Store) := do
  require (request.otherChecks = true) .refusedElsewhere
  let target ← orRefuse (σ.getSubnet request.targetId) .subnetNotFound
  let siblings ← loadSources σ [request.targetId] request.siblingSubnetIds
  let sources := (request.targetId, target) :: siblings
  let preview := previewSubnetMerge σ sources
  require (preview.conflicts = []) .mergeConflict
  let merged ← orRefuse preview.mergedCidr .mergeConflict
  require (request.confirmCidr = merged) .confirmation
  let ids := sources.map Prod.fst
  let plan := gatewayPlan sources target.kind merged (sourceRows σ ids)
  let mergedId := σ.subnets.next
  let σ₁ := { σ with
    subnets := σ.subnets.insert (mergedSubnet target merged plan.1)
    addresses := (σ.addresses.keep fun _ a => !retiredByMerge sources plan.2 a).modify fun _ a =>
      if a.subnetId ∈ ids then { a with subnetId := mergedId } else a
    scopes := σ.scopes.modify fun i sc =>
      if preview.survivingScopeId = some i then { sc with subnetId := mergedId } else sc }
  let σ₂ := ensureBoundaryRows σ₁ mergedId merged target.kind
  return (mergedId, deleteSubnets σ₂ ids)

variable {sources : List (Nat × Subnet)}

theorem loadSources_ok {σ : Store} {seen ids : List Nat} (h : loadSources σ seen ids = .ok sources) :
    ∀ r ∈ sources, σ.getSubnet r.1 = some r.2 := by
  induction ids generalizing seen sources with
  | nil =>
    simp only [loadSources, Except.ok.injEq] at h
    subst h
    simp
  | cons id rest ih =>
    unfold loadSources at h
    split at h
    · exact ih h
    · simp only [bind_eq_ok, orRefuse_eq_ok, pure_eq_ok] at h
      obtain ⟨s, hs, others, hothers, rfl⟩ := h
      intro r hr
      rcases List.mem_cons.mp hr with rfl | hr
      · exact hs
      · exact ih hothers r hr

variable {nets : List Net} {net : Net}

theorem summariseOrNone_covered (h : summariseOrNone nets = some net) : Net.Covered nets net := by
  unfold summariseOrNone at h
  split at h
  · rename_i n hcollapse
    split at h
    · obtain rfl : n = net := Option.some.inj h
      exact Net.covered_collapseAddresses (by simp [hcollapse])
    · simp at h
  · simp at h

theorem previewSubnetMerge_ok {σ : Store}
    (hconflicts : (previewSubnetMerge σ sources).conflicts = [])
    (hmerged : (previewSubnetMerge σ sources).mergedCidr = some net) :
    (∀ r ∈ sources, ∀ r' ∈ sources, r.2.blockId = r'.2.blockId) ∧
      Net.Covered (sources.map (·.2.network)) net := by
  unfold previewSubnetMerge at hconflicts hmerged
  split at hconflicts
  · simp at hconflicts
  · rename_i hlen
    rw [if_neg hlen] at hmerged
    simp only [List.append_eq_nil_iff, ite_eq_left_iff, List.cons_ne_self,
      imp_false, not_not] at hconflicts
    obtain ⟨⟨⟨⟨⟨hblock, -⟩, -⟩, -⟩, -⟩, -⟩ := hconflicts
    constructor
    · have hhead : ∀ r ∈ sources, some r.2.blockId = sources.head?.map (·.2.blockId) := by
        simpa [List.all_eq_true] using hblock
      intro r hr r' hr'
      exact Option.some.inj ((hhead r hr).trans (hhead r' hr').symm)
    · simp only at hmerged
      split at hmerged
      · exact summariseOrNone_covered hmerged
      · simp at hmerged

theorem deleteSubnets_subnets (σ : Store) (ids : List Nat) (k : Nat) :
    (deleteSubnets σ ids).subnets.get? k = if k ∈ ids then none else σ.subnets.get? k := by
  induction ids generalizing σ with
  | nil => simp [deleteSubnets]
  | cons id rest ih =>
    rw [deleteSubnets, List.foldl_cons, ← deleteSubnets, ih]
    simp only [deleteSubnet, Table.get?_keep, List.mem_cons]
    by_cases hk : k = id
    · simp [hk]
    · have hne : (k != id) = true := by simpa using hk
      cases hget : σ.subnets.get? k <;> simp [hk, hne, Option.filter]

theorem deleteSubnets_blocks (σ : Store) (ids : List Nat) :
    (deleteSubnets σ ids).blocks = σ.blocks ∧ (deleteSubnets σ ids).spaces = σ.spaces ∧
      (deleteSubnets σ ids).nextBatch = σ.nextBatch := by
  induction ids generalizing σ with
  | nil => exact ⟨rfl, rfl, rfl⟩
  | cons id rest ih => exact ih (deleteSubnet σ id)

theorem commitSubnetMerge_ok {σ σ' : Store} {request : SubnetMerge} {mergedId : Nat}
    (h : commitSubnetMerge σ request = .ok (mergedId, σ')) :
    ∃ (target : Subnet) (sources : List (Nat × Subnet)) (merged : Net) (gateway : Option Address),
      σ.getSubnet request.targetId = some target ∧ (request.targetId, target) ∈ sources ∧
      (∀ r ∈ sources, σ.getSubnet r.1 = some r.2) ∧
      (∀ r ∈ sources, r.2.blockId = target.blockId) ∧
      Net.Covered (sources.map (·.2.network)) merged ∧
      σ'.blocks = σ.blocks ∧ σ'.spaces = σ.spaces ∧ σ'.nextBatch = σ.nextBatch ∧
      ∀ k, σ'.subnets.get? k = if k ∈ sources.map Prod.fst then none
        else (σ.subnets.insert (mergedSubnet target merged gateway)).get? k := by
  simp only [commitSubnetMerge, bind_eq_ok, require_eq_ok, orRefuse_eq_ok, exists_const,
    pure_eq_ok, Prod.mk.injEq] at h
  obtain ⟨-, target, htarget, siblings, hsiblings, hconflicts, merged, hmerged, -, rfl, rfl⟩ := h
  obtain ⟨hblock, hcovered⟩ := previewSubnetMerge_ok hconflicts hmerged
  have hlive : ∀ r ∈ (request.targetId, target) :: siblings, σ.getSubnet r.1 = some r.2 := by
    intro r hr
    rcases List.mem_cons.mp hr with rfl | hr
    · exact htarget
    · exact loadSources_ok hsiblings r hr
  obtain ⟨hblocks, hspaces, hbatch⟩ := deleteSubnets_blocks (ensureBoundaryRows _ _ _ _) _
  exact ⟨target, (request.targetId, target) :: siblings, merged, _, htarget, by simp, hlive,
    fun r hr => hblock r hr (request.targetId, target) (by simp), hcovered, hblocks, hspaces,
    hbatch, fun k => deleteSubnets_subnets (ensureBoundaryRows _ _ _ _) _ k⟩

/-- The networks are pairwise disjoint and have the addresses of the one network together. -/
structure Partitions (net : Net) (nets : List Net) : Prop where
  disjoint : nets.Pairwise fun a b => ¬ a.overlaps b
  union : ∀ address : Address, net.contains address ↔ ∃ a ∈ nets, a.contains address

theorem exists_address {n : Net} {x : Nat} (hx : n.hasValue x) :
    ∃ a : Address, a.version = n.version ∧ a.value = x := by
  have hlt := lt_of_lt_of_le (Net.hasValue_iff.mp hx).2 n.end_le
  exact ⟨⟨n.version, x, hlt⟩, rfl, rfl⟩

theorem Partitions.tiles (h : Partitions net nets) : Net.Tiles net nets where
  disjoint := h.disjoint
  inside := by
    intro a ha
    have hlast : a.hasValue (a.networkAddress + a.numAddresses - 1) := by
      have := a.numAddresses_pos
      exact Net.hasValue_iff.mpr ⟨by omega, by omega⟩
    obtain ⟨first, hv, hfirst⟩ := exists_address a.hasValue_networkAddress
    obtain ⟨last, hv', hlast'⟩ := exists_address hlast
    have hlow := (h.union first).mpr ⟨a, ha, hv, hfirst ▸ a.hasValue_networkAddress⟩
    have hhigh := (h.union last).mpr ⟨a, ha, hv', hlast' ▸ hlast⟩
    have hlow' := Net.hasValue_iff.mp hlow.2
    have hhigh' := Net.hasValue_iff.mp hhigh.2
    rw [Net.subnetOf_iff]
    exact ⟨hv.symm.trans hlow.1, by omega, by omega⟩
  covered := by
    intro x hx
    obtain ⟨address, hv, hvalue⟩ := exists_address hx
    obtain ⟨a, ha, hav, hax⟩ := (h.union address).mp ⟨hv, hvalue ▸ hx⟩
    exact ⟨a, ha, hav.symm.trans hv, hvalue ▸ hax⟩

theorem Partitions.of_tiles (h : Net.Tiles net nets) : Partitions net nets where
  disjoint := h.disjoint
  union := by
    intro address
    constructor
    · rintro ⟨hv, hx⟩
      obtain ⟨a, ha, hav, hax⟩ := h.covered address.value hx
      exact ⟨a, ha, hv.trans hav.symm, hax⟩
    · rintro ⟨a, ha, hv, hx⟩
      exact ⟨hv.trans (h.inside a ha).1, hx.mono (h.inside a ha)⟩

/-- **A merge accepts exactly the partitions of a network.** -/
theorem summariseOrNone_iff (family : Version) {nets : List Net}
    (hfamily : ∀ a ∈ nets, a.version = family) :
    (∀ net, summariseOrNone nets = some net ↔ Partitions net nets) ∧
      (summariseOrNone nets = none ↔ ¬ ∃ net, Partitions net nets) := by
  have hsome : ∀ net, summariseOrNone nets = some net ↔ Partitions net nets := by
    intro net
    constructor
    · intro h
      unfold summariseOrNone at h
      split at h
      · rename_i found hcollapse
        obtain ⟨hsum, h⟩ := Option.ite_none_right_eq_some.mp h
        obtain rfl : found = net := Option.some.inj h
        exact .of_tiles (Net.tiles_of_collapseAddresses hfamily hcollapse hsum)
      · cases h
    · intro h
      simp [summariseOrNone, Net.collapseAddresses_of_tiles h.tiles, h.tiles.sum_eq]
  refine ⟨hsome, ?_⟩
  rw [Option.eq_none_iff_forall_ne_some]
  constructor
  · rintro h ⟨net, hnet⟩
    exact h net ((hsome net).mpr hnet)
  · exact fun h net hnet => h ⟨net, (hsome net).mp hnet⟩

/-- Two halves make up a network; one of them twice does not. -/
theorem summariseOrNone_iff_halves :
    Partitions (Net.ofValue .v4 0x0A000000 24)
        [Net.ofValue .v4 0x0A000080 25, Net.ofValue .v4 0x0A000000 25] ∧
      ¬ ∃ net, Partitions net [Net.ofValue .v4 0x0A000000 25, Net.ofValue .v4 0x0A000000 25] := by
  refine ⟨((summariseOrNone_iff .v4 (by decide)).1 _).mp ?_,
    (summariseOrNone_iff .v4 (by decide)).2.mp ?_⟩
  · decide +kernel
  · decide +kernel

end SpatiumDdi.Ipam
