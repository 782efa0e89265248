import SpatiumDdi.Lib.Batches
import SpatiumDdi.Ipam.Run

/-!
The Trash round trip. Soft deletes and restores change stamps alone, so a state
is the rows it started from under other stamps, and the stamps go through
deletions and restores of nested batches. What a restore checks besides the
Trash speaks of live rows only; a state in which every live row passes its own
check gets all its rows back, in whatever order the batches are tried.
-/

namespace SpatiumDdi.Trash

open Ipaddress Forest Ipam Batches

def withStamps (σ : Store) (d : Stamps RowKey) (n : Nat) : Store :=
  { σ with
    spaces := σ.spaces.modify fun i s => { s with deletion := d (.space i) }
    blocks := σ.blocks.modify fun i s => { s with deletion := d (.block i) }
    subnets := σ.subnets.modify fun i s => { s with deletion := d (.subnet i) }
    scopes := σ.scopes.modify fun i s => { s with deletion := d (.scope i) }
    pools := σ.pools.modify fun i s => { s with deletion := d (.pool i) }
    statics := σ.statics.modify fun i s => { s with deletion := d (.static i) }
    zones := σ.zones.modify fun i s => { s with deletion := d (.zone i) }
    records := σ.records.modify fun i s => { s with deletion := d (.record i) }
    nextBatch := n }

section

variable (σ : Store) (d : Stamps RowKey) (n : Nat)

theorem withStamps_spaces : (withStamps σ d n).spaces =
    σ.spaces.modify fun i s => { s with deletion := d (.space i) } := rfl

theorem withStamps_blocks : (withStamps σ d n).blocks =
    σ.blocks.modify fun i s => { s with deletion := d (.block i) } := rfl

theorem withStamps_subnets : (withStamps σ d n).subnets =
    σ.subnets.modify fun i s => { s with deletion := d (.subnet i) } := rfl

theorem withStamps_scopes : (withStamps σ d n).scopes =
    σ.scopes.modify fun i s => { s with deletion := d (.scope i) } := rfl

theorem withStamps_pools : (withStamps σ d n).pools =
    σ.pools.modify fun i s => { s with deletion := d (.pool i) } := rfl

theorem withStamps_statics : (withStamps σ d n).statics =
    σ.statics.modify fun i s => { s with deletion := d (.static i) } := rfl

theorem withStamps_zones : (withStamps σ d n).zones =
    σ.zones.modify fun i s => { s with deletion := d (.zone i) } := rfl

theorem withStamps_records : (withStamps σ d n).records =
    σ.records.modify fun i s => { s with deletion := d (.record i) } := rfl

end

def stamps (σ : Store) : Stamps RowKey := fun k => (stampOf σ k).join

/-- What a row hangs under: what the cascade goes through, and a record's zone. -/
def rowParents (σ : Store) : RowKey → List RowKey
  | .record i => (σ.records.get? i).toList.map fun r => .zone r.zoneId
  | k => cascadeParents σ k

def recordOwner (σ : Store) : RowKey → Option RowKey
  | .record i => (σ.records.get? i).bind fun r =>
      if r.autoGenerated then
        (r.ipAddressId.bind σ.addresses.get?).bind fun a =>
          (σ.subnets.get? a.subnetId).map fun _ => .subnet a.subnetId
      else none
  | _ => none

variable {k : RowKey} {σ τ : Store} {d d₀ : Stamps RowKey} {n b n₀ : Nat}

theorem recordOwner_eq_some {s : RowKey} :
    recordOwner σ k = some s ↔ ∃ i r a j, k = .record i ∧ σ.records.get? i = some r ∧
      r.autoGenerated = true ∧ r.ipAddressId.bind σ.addresses.get? = some a ∧
      σ.subnets.get? a.subnetId = some j ∧ s = .subnet a.subnetId := by
  cases k <;> simp only [recordOwner, reduceCtorEq, false_and, exists_false]
  simp only [Option.bind_eq_some_iff, Option.ite_none_right_eq_some, Option.map_eq_some_iff,
    RowKey.record.injEq]
  constructor
  · rintro ⟨r, hr, hauto, a, ha, j, hj, rfl⟩
    exact ⟨_, r, a, j, rfl, hr, hauto, ha, hj, rfl⟩
  · rintro ⟨_, r, a, j, rfl, hr, hauto, ha, hj, rfl⟩
    exact ⟨r, hr, hauto, a, ha, j, hj, rfl⟩

def links (σ : Store) : Links RowKey where
  parent p k := p ∈ rowParents σ k ∧ (stampOf σ p).isSome
  owner := recordOwner σ
  parent_free := by
    rintro p k ⟨hp, -⟩
    cases p <;> simp only [recordOwner]
    cases k <;> simp [rowParents, cascadeParents] at hp
  owner_free := by
    intro k s hs
    obtain ⟨i, r, a, j, -, -, -, -, -, rfl⟩ := recordOwner_eq_some.mp hs
    rfl

@[simp] theorem stampOf_withStamps (σ : Store) (d : Stamps RowKey) (n : Nat) (k : RowKey) :
    stampOf (withStamps σ d n) k = (stampOf σ k).map fun _ => d k := by
  cases k <;> simp [stampOf, withStamps, Option.map_map, Function.comp_def]

@[simp] theorem cascadeParents_withStamps (σ : Store) (d : Stamps RowKey) (n : Nat) (k : RowKey) :
    cascadeParents (withStamps σ d n) k = cascadeParents σ k := by
  cases k <;> simp only [cascadeParents, withStamps, Table.get?_modify]
  case block i => cases σ.blocks.get? i <;> rfl
  case subnet i => cases σ.subnets.get? i <;> rfl
  case scope i => cases σ.scopes.get? i <;> rfl
  case pool i => cases σ.pools.get? i <;> rfl
  case static i => cases σ.statics.get? i <;> rfl

@[simp] theorem rowParents_withStamps (σ : Store) (d : Stamps RowKey) (n : Nat) (k : RowKey) :
    rowParents (withStamps σ d n) k = rowParents σ k := by
  cases k with
  | record i => cases hr : σ.records.get? i <;> simp [rowParents, withStamps_records, hr]
  | _ => simp only [rowParents, cascadeParents_withStamps]

theorem withStamps_stamps (σ : Store) : withStamps σ (stamps σ) σ.nextBatch = σ := by
  have hself : ∀ k d, stampOf σ k = some d → stamps σ k = d := fun k d h => by simp [stamps, h]
  have h₁ := Table.modify_eq_self (t := σ.spaces)
    (f := fun i s => { s with deletion := stamps σ (.space i) }) fun i s hs => by
      rw [hself (.space i) s.deletion (by simp [stampOf, hs])]
  have h₂ := Table.modify_eq_self (t := σ.blocks)
    (f := fun i s => { s with deletion := stamps σ (.block i) }) fun i s hs => by
      rw [hself (.block i) s.deletion (by simp [stampOf, hs])]
  have h₃ := Table.modify_eq_self (t := σ.subnets)
    (f := fun i s => { s with deletion := stamps σ (.subnet i) }) fun i s hs => by
      rw [hself (.subnet i) s.deletion (by simp [stampOf, hs])]
  have h₄ := Table.modify_eq_self (t := σ.scopes)
    (f := fun i s => { s with deletion := stamps σ (.scope i) }) fun i s hs => by
      rw [hself (.scope i) s.deletion (by simp [stampOf, hs])]
  have h₅ := Table.modify_eq_self (t := σ.pools)
    (f := fun i s => { s with deletion := stamps σ (.pool i) }) fun i s hs => by
      rw [hself (.pool i) s.deletion (by simp [stampOf, hs])]
  have h₆ := Table.modify_eq_self (t := σ.statics)
    (f := fun i s => { s with deletion := stamps σ (.static i) }) fun i s hs => by
      rw [hself (.static i) s.deletion (by simp [stampOf, hs])]
  have h₇ := Table.modify_eq_self (t := σ.zones)
    (f := fun i s => { s with deletion := stamps σ (.zone i) }) fun i s hs => by
      rw [hself (.zone i) s.deletion (by simp [stampOf, hs])]
  have h₈ := Table.modify_eq_self (t := σ.records)
    (f := fun i s => { s with deletion := stamps σ (.record i) }) fun i s hs => by
      rw [hself (.record i) s.deletion (by simp [stampOf, hs])]
  rw [withStamps, h₁, h₂, h₃, h₄, h₅, h₆, h₇, h₈]

/-- What a deletion stamps: the rows of its batch, and the records of their
zones and addresses. -/
def inBatch (σ : Store) (keys : List RowKey) (k : RowKey) : Prop :=
  k ∈ keys ∨ ∃ i r, k = .record i ∧ σ.records.get? i = some r ∧ recordRides σ keys r = true

theorem applySoftDelete_withStamps (σ : Store) (d : Stamps RowKey) (n : Nat)
    (keys : List RowKey) :
    ∃ d', applySoftDelete (withStamps σ d n) keys = withStamps σ d' (n + 1) ∧
      (∀ k, inBatch (withStamps σ d n) keys k → d' k = some n) ∧
      ∀ k, ¬ inBatch (withStamps σ d n) keys k → d' k = d k := by
  classical
  refine ⟨fun k => if inBatch (withStamps σ d n) keys k then some n else d k, ?_,
    fun k hk => if_pos hk, fun k hk => if_neg hk⟩
  have hkeys : ∀ k, (∀ i, k ≠ .record i) →
      (if inBatch (withStamps σ d n) keys k then some n else d k) = stamp keys n k (d k) := by
    intro k hk
    have hiff : inBatch (withStamps σ d n) keys k ↔ k ∈ keys := by
      refine or_iff_left ?_
      rintro ⟨i, -, he, -⟩
      exact hk i he
    simp only [hiff, stamp]
  have hrecord : ∀ i r, σ.records.get? i = some r →
      (inBatch (withStamps σ d n) keys (.record i) ↔ .record i ∈ keys ∨
        recordRides (withStamps σ d n) keys { r with deletion := d (.record i) } = true) := by
    intro i r hr
    simp [inBatch, withStamps, hr]
  refine Store.ext ?_ ?_ ?_ rfl ?_ ?_ ?_ ?_ ?_ rfl <;> simp only [applySoftDelete]
  · rw [withStamps_spaces, withStamps_spaces, Table.modify_modify]
    refine Table.modify_congr fun i s _ => ?_
    simp only [hkeys (.space i) (by simp)]
    rfl
  · rw [withStamps_blocks, withStamps_blocks, Table.modify_modify]
    refine Table.modify_congr fun i s _ => ?_
    simp only [hkeys (.block i) (by simp)]
    rfl
  · rw [withStamps_subnets, withStamps_subnets, Table.modify_modify]
    refine Table.modify_congr fun i s _ => ?_
    simp only [hkeys (.subnet i) (by simp)]
    rfl
  · rw [withStamps_scopes, withStamps_scopes, Table.modify_modify]
    refine Table.modify_congr fun i s _ => ?_
    simp only [hkeys (.scope i) (by simp)]
    rfl
  · rw [withStamps_pools, withStamps_pools, Table.modify_modify]
    refine Table.modify_congr fun i s _ => ?_
    simp only [hkeys (.pool i) (by simp)]
    rfl
  · rw [withStamps_statics, withStamps_statics, Table.modify_modify]
    refine Table.modify_congr fun i s _ => ?_
    simp only [hkeys (.static i) (by simp)]
    rfl
  · rw [withStamps_zones, withStamps_zones, Table.modify_modify]
    refine Table.modify_congr fun i s _ => ?_
    simp only [hkeys (.zone i) (by simp)]
    rfl
  · rw [withStamps_records, withStamps_records, Table.modify_modify]
    refine Table.modify_congr fun i r hr => ?_
    simp only [hrecord i r hr, stamp, show (withStamps σ d n).nextBatch = n from rfl]
    by_cases hmem : RowKey.record i ∈ keys <;> simp [hmem]

theorem isLive_withStamps :
    isLive (withStamps σ d n) k = true ↔ (stampOf σ k).isSome ∧ d k = none := by
  rw [isLive, stampOf_withStamps]
  cases stampOf σ k <;> simp

theorem isSome_of_mem_rowParents {p : RowKey} (h : p ∈ rowParents σ k) : (stampOf σ k).isSome := by
  cases k <;> simp only [rowParents, cascadeParents, List.not_mem_nil] at h <;>
    simp only [stampOf, Option.isSome_map]
  case block i => cases hb : σ.blocks.get? i <;> simp [hb] at h ⊢
  case subnet i => cases hb : σ.subnets.get? i <;> simp [hb] at h ⊢
  case scope i => cases hb : σ.scopes.get? i <;> simp [hb] at h ⊢
  case pool i => cases hb : σ.pools.get? i <;> simp [hb] at h ⊢
  case static i => cases hb : σ.statics.get? i <;> simp [hb] at h ⊢
  case record i => cases hb : σ.records.get? i <;> simp [hb] at h ⊢

theorem softDelete_withStamps {request : SoftDelete}
    (h : softDelete (withStamps σ d n) request = .ok (b, τ)) :
    b = n ∧ ∃ S d', Deletes (links σ) n S d d' ∧ τ = withStamps σ d' (n + 1) := by
  simp only [softDelete, bind_eq_ok, pure_eq_ok, Prod.mk.injEq] at h
  obtain ⟨keys, hkeys, rfl, rfl⟩ := h
  obtain ⟨hroot, hriders, hmem⟩ := collectBatch_ok hkeys
  obtain ⟨d', happly, hin, hout⟩ := applySoftDelete_withStamps σ d n keys
  refine ⟨rfl, inBatch (withStamps σ d n) keys, d', ?_, happly⟩
  have hlive : ∀ k ∈ keys, isLive (withStamps σ d n) k = true := by
    intro k hk
    rcases (hmem k).mp hk with hk | hk
    · exact hk.isLive hroot
    · exact (hriders k hk).2
  have hrecord : ∀ {i r}, (withStamps σ d n).records.get? i = some r →
      ∃ r₀, σ.records.get? i = some r₀ ∧ r = { r₀ with deletion := d (.record i) } := by
    intro i r hr
    rw [withStamps_records, Table.get?_modify, Option.map_eq_some_iff] at hr
    obtain ⟨r₀, hr₀, rfl⟩ := hr
    exact ⟨r₀, hr₀, rfl⟩
  refine ⟨fun k hk => ?_, fun k p hp hS hk => ?_, fun k s hs hS hk => ?_, hin, hout⟩
  · rcases hk with hk | ⟨i, r, rfl, hr, hride⟩
    · exact (isLive_withStamps.mp (hlive k hk)).2
    · obtain ⟨r₀, -, rfl⟩ := hrecord hr
      simp only [recordRides, Bool.and_eq_true, Option.isNone_iff_eq_none] at hride
      exact hride.1
  · obtain ⟨hp, -⟩ := hp
    have hklive := isLive_withStamps (n := n).mpr ⟨isSome_of_mem_rowParents hp, hk⟩
    have hpkeys : p ∈ keys := by
      rcases hS with hS | ⟨i, r, rfl, -⟩
      · exact hS
      · cases k <;> simp [rowParents, cascadeParents] at hp
    cases k with
    | record i =>
      simp only [rowParents, List.mem_map, Option.mem_toList] at hp
      obtain ⟨r, hr, rfl⟩ := hp
      refine Or.inr ⟨i, { r with deletion := d (.record i) }, rfl, ?_, ?_⟩
      · simp [withStamps_records, hr]
      · simp [recordRides, hk, hpkeys]
    | _ =>
      refine Or.inl ((hmem _).mpr (Or.inl ?_))
      rcases (hmem p).mp hpkeys with hride | hrider
      · exact hride.child (by simpa [rowParents] using hp) hklive
      · have := (hriders p hrider).1
        cases p <;> simp [mayRide, rowParents, cascadeParents] at this hp
  · obtain ⟨i, r, a, j, rfl, hr, hauto, ha, hj, rfl⟩ := recordOwner_eq_some.mp hs
    have hkeys : RowKey.subnet a.subnetId ∈ keys := by
      rcases hS with hS | ⟨_, _, he, -⟩
      · exact hS
      · simp at he
    refine Or.inr ⟨i, { r with deletion := d (.record i) }, rfl, ?_, ?_⟩
    · simp [withStamps_records, hr]
    · have haddr : (withStamps σ d n).addresses = σ.addresses := rfl
      simp [recordRides, hk, hauto, haddr, ha, hkeys]

theorem restored_of_unowned (hk : recordOwner σ k = none) :
    restored (links σ) b d k = unstamp b (d k) := by
  have hk' : (links σ).owner k = none := hk
  unfold restored unstamp
  simp [hk']

variable {i : Nat}

theorem restoreRecord_withStamps {r : DNSRecord} (hr : σ.records.get? i = some r) :
    restoreRecord (withStamps σ d n) b { r with deletion := d (.record i) } =
      restored (links σ) b d (.record i) := by
  have howner : (links σ).owner (.record i) = if r.autoGenerated then
      (r.ipAddressId.bind σ.addresses.get?).bind fun a =>
        (σ.subnets.get? a.subnetId).map fun _ => RowKey.subnet a.subnetId else none := by
    simp [links, recordOwner, hr]
  have haddr : (withStamps σ d n).addresses = σ.addresses := rfl
  simp only [restoreRecord, restored, howner, haddr, withStamps_subnets, Table.get?_modify,
    unstamp]
  by_cases hd : d (.record i) = some b
  · by_cases hauto : r.autoGenerated = true
    · simp only [hd, hauto, and_self, if_true]
      cases ha : r.ipAddressId.bind σ.addresses.get? with
      | none => simp
      | some a =>
        cases hs : σ.subnets.get? a.subnetId with
        | none => simp [hs]
        | some s => cases hds : d (.subnet a.subnetId) <;> simp [hs, hds]
    · simp [hd, hauto]
  · simp [hd]

theorem restoreBatch_withStamps (σ : Store) (d : Stamps RowKey) (n b : Nat) :
    restoreBatch (withStamps σ d n) b = if batchConflict (withStamps σ d n) b = false then
      .ok (withStamps σ (restored (links σ) b d) n) else .error .refusedElsewhere := by
  unfold restoreBatch require
  split
  · refine congrArg Except.ok (Store.ext ?_ ?_ ?_ rfl ?_ ?_ ?_ ?_ ?_ rfl)
    · simp only [withStamps_spaces, Table.modify_modify]
      exact Table.modify_congr fun i s _ => by rw [restored_of_unowned rfl]
    · simp only [withStamps_blocks, Table.modify_modify]
      exact Table.modify_congr fun i s _ => by rw [restored_of_unowned rfl]
    · simp only [withStamps_subnets, Table.modify_modify]
      exact Table.modify_congr fun i s _ => by rw [restored_of_unowned rfl]
    · simp only [withStamps_scopes, Table.modify_modify]
      exact Table.modify_congr fun i s _ => by rw [restored_of_unowned rfl]
    · simp only [withStamps_pools, Table.modify_modify]
      exact Table.modify_congr fun i s _ => by rw [restored_of_unowned rfl]
    · simp only [withStamps_statics, Table.modify_modify]
      exact Table.modify_congr fun i s _ => by rw [restored_of_unowned rfl]
    · simp only [withStamps_zones, Table.modify_modify]
      exact Table.modify_congr fun i s _ => by rw [restored_of_unowned rfl]
    · simp only [withStamps_records, Table.modify_modify]
      exact Table.modify_congr fun i r hr => by rw [restoreRecord_withStamps hr]
  · rfl

/-- Whether the check of a batch passes, as a function of the stamps. -/
def accepts (σ : Store) (b : Nat) (d : Stamps RowKey) : Bool := !batchConflict (withStamps σ d 0) b

theorem spaceTrashed_eq_false :
    spaceTrashed (withStamps σ d n) b i = false ↔
      ((stampOf σ (.space i)).isSome → d (.space i) = none ∨ d (.space i) = some b) := by
  cases h : σ.spaces.get? i <;>
    simp [spaceTrashed, withStamps_spaces, stampOf, h, trashedElsewhere_eq_false]

theorem blockTrashed_eq_false :
    blockTrashed (withStamps σ d n) b i = false ↔
      ((stampOf σ (.block i)).isSome → d (.block i) = none ∨ d (.block i) = some b) := by
  cases h : σ.blocks.get? i <;>
    simp [blockTrashed, withStamps_blocks, stampOf, h, trashedElsewhere_eq_false]

theorem subnetTrashed_eq_false :
    subnetTrashed (withStamps σ d n) b i = false ↔
      ((stampOf σ (.subnet i)).isSome → d (.subnet i) = none ∨ d (.subnet i) = some b) := by
  cases h : σ.subnets.get? i <;>
    simp [subnetTrashed, withStamps_subnets, stampOf, h, trashedElsewhere_eq_false]

theorem scopeTrashed_eq_false :
    scopeTrashed (withStamps σ d n) b i = false ↔
      ((stampOf σ (.scope i)).isSome → d (.scope i) = none ∨ d (.scope i) = some b) := by
  cases h : σ.scopes.get? i <;>
    simp [scopeTrashed, withStamps_scopes, stampOf, h, trashedElsewhere_eq_false]

theorem zoneTrashed_eq_false :
    zoneTrashed (withStamps σ d n) b i = false ↔
      ((stampOf σ (.zone i)).isSome → d (.zone i) = none ∨ d (.zone i) = some b) := by
  cases h : σ.zones.get? i <;>
    simp [zoneTrashed, withStamps_zones, stampOf, h, trashedElsewhere_eq_false]

theorem batchConflict_eq_false : batchConflict σ b = false ↔
    (∀ i s, σ.spaces.get? i = some s → s.deletion = some b → spaceConflict σ i s = false) ∧
    (∀ i s, σ.blocks.get? i = some s → s.deletion = some b → blockConflict σ b i s = false) ∧
    (∀ i s, σ.subnets.get? i = some s → s.deletion = some b → subnetConflict σ b i s = false) ∧
    (∀ i s, σ.scopes.get? i = some s → s.deletion = some b → scopeConflict σ b i s = false) ∧
    (∀ i s, σ.pools.get? i = some s → s.deletion = some b → poolConflict σ b s = false) ∧
    (∀ i s, σ.statics.get? i = some s → s.deletion = some b → staticConflict σ b i s = false) ∧
    (∀ i s, σ.zones.get? i = some s → s.deletion = some b → zoneConflict σ i s = false) ∧
    ∀ i s, σ.records.get? i = some s → s.deletion = some b → recordConflict σ b i s = false := by
  simp only [batchConflict, Bool.or_eq_false_iff, List.any_eq_false, Bool.and_eq_true, beq_iff_eq,
    not_and, Bool.not_eq_true, Prod.forall, Table.mem_rows_iff, and_assoc]

theorem clear_of_accepts (h : accepts σ b d = true) : Clear (links σ) b d := by
  simp only [accepts, Bool.not_eq_true', batchConflict_eq_false] at h
  obtain ⟨-, hblock, hsubnet, hscope, hpool, hstatic, -, hrecord⟩ := h
  rintro k p ⟨hp, hsome⟩ hk
  cases k <;> simp only [rowParents, cascadeParents, List.not_mem_nil, List.mem_flatMap,
    List.mem_map, Option.mem_toList, List.mem_cons, or_false, Option.map_eq_some_iff] at hp
  case block i =>
    obtain ⟨s, hs, hp⟩ := hp
    have hc := hblock i { s with deletion := d (.block i) } (by simp [withStamps_blocks, hs]) hk
    simp only [blockConflict, Bool.or_eq_false_iff] at hc
    rcases hp with rfl | ⟨q, hq, rfl⟩
    · exact spaceTrashed_eq_false.mp hc.1.1.2 hsome
    · refine (blockTrashed_eq_false (n := 0)).mp ?_ hsome
      simpa [hq] using hc.1.1.1
  case subnet i =>
    obtain ⟨s, hs, hp⟩ := hp
    have hc := hsubnet i { s with deletion := d (.subnet i) } (by simp [withStamps_subnets, hs]) hk
    simp only [subnetConflict, Bool.or_eq_false_iff] at hc
    rcases hp with rfl | rfl
    · exact spaceTrashed_eq_false.mp hc.1.1.2 hsome
    · exact blockTrashed_eq_false.mp hc.1.1.1 hsome
  case scope i =>
    obtain ⟨s, hs, rfl⟩ := hp
    have hc := hscope i { s with deletion := d (.scope i) } (by simp [withStamps_scopes, hs]) hk
    simp only [scopeConflict, Bool.or_eq_false_iff] at hc
    exact subnetTrashed_eq_false.mp hc.1.1 hsome
  case pool i =>
    obtain ⟨s, hs, rfl⟩ := hp
    have hc := hpool i { s with deletion := d (.pool i) } (by simp [withStamps_pools, hs]) hk
    exact scopeTrashed_eq_false.mp hc hsome
  case static i =>
    obtain ⟨s, hs, rfl⟩ := hp
    have hc := hstatic i { s with deletion := d (.static i) } (by simp [withStamps_statics, hs]) hk
    simp only [staticConflict, Bool.or_eq_false_iff] at hc
    exact scopeTrashed_eq_false.mp hc.1 hsome
  case record i =>
    obtain ⟨s, hs, rfl⟩ := hp
    have hc := hrecord i { s with deletion := d (.record i) } (by simp [withStamps_records, hs]) hk
    simp only [recordConflict, Bool.or_eq_false_iff] at hc
    exact zoneTrashed_eq_false.mp hc.1.1 hsome

section Monotone

variable {σ : Store} {d : Stamps RowKey} {n b : Nat}

/-- Nothing is live under `d` that is not live in the state. -/
def FewerLive (σ : Store) (d : Stamps RowKey) : Prop := ∀ k, d k = none → stamps σ k = none

variable {x : Option Nat}

section

variable (hlive : FewerLive σ d)
include hlive

theorem spaceConflict_mono {s : IPSpace} (h : spaceConflict σ i s = false) :
    spaceConflict (withStamps σ d n) i { s with deletion := x } = false := by
  simp only [spaceConflict, List.any_eq_false, Prod.forall, Table.mem_rows_iff,
    withStamps_spaces, Table.get?_modify, Option.map_eq_some_iff] at h ⊢
  rintro j t' ⟨t, ht, rfl⟩ hc
  refine h j t ht ?_
  have hj := hlive (.space j)
  simp_all [stamps, stampOf]

theorem zoneConflict_mono {z : DNSZone} (h : zoneConflict σ i z = false) :
    zoneConflict (withStamps σ d n) i { z with deletion := x } = false := by
  simp only [zoneConflict, List.any_eq_false, Prod.forall, Table.mem_rows_iff,
    withStamps_zones, Table.get?_modify, Option.map_eq_some_iff] at h ⊢
  rintro j t' ⟨t, ht, rfl⟩ hc
  refine h j t ht ?_
  have hj := hlive (.zone j)
  simp_all [stamps, stampOf]

theorem getBlock_withStamps {t' : IPBlock} (h : (withStamps σ d n).getBlock i = some t') :
    ∃ t, σ.getBlock i = some t ∧ t' = { t with deletion := none } := by
  obtain ⟨h, hd⟩ := Store.getBlock_eq_some.mp h
  rw [withStamps_blocks, Table.get?_modify, Option.map_eq_some_iff] at h
  obtain ⟨t, ht, rfl⟩ := h
  have hstamp : stamps σ (.block i) = none := hlive _ hd
  exact ⟨t, Store.getBlock_eq_some.mpr ⟨ht, by simpa [stamps, stampOf, ht] using hstamp⟩,
    congrArg (fun x => { t with deletion := x }) hd⟩

theorem getSubnet_withStamps {t' : Subnet} (h : (withStamps σ d n).getSubnet i = some t') :
    ∃ t, σ.getSubnet i = some t ∧ t' = { t with deletion := none } := by
  obtain ⟨h, hd⟩ := Store.getSubnet_eq_some.mp h
  rw [withStamps_subnets, Table.get?_modify, Option.map_eq_some_iff] at h
  obtain ⟨t, ht, rfl⟩ := h
  have hstamp : stamps σ (.subnet i) = none := hlive _ hd
  exact ⟨t, Store.getSubnet_eq_some.mpr ⟨ht, by simpa [stamps, stampOf, ht] using hstamp⟩,
    congrArg (fun x => { t with deletion := x }) hd⟩

end

variable {m : Nat}

section

variable (hlive : FewerLive σ d) {sc : DHCPScope}
include hlive

theorem blockConflict_mono {s : IPBlock} (h : blockConflict σ m i s = false)
    (hparent : s.parentBlockId.any (blockTrashed (withStamps σ d n) b) = false)
    (hspace : spaceTrashed (withStamps σ d n) b s.spaceId = false) :
    blockConflict (withStamps σ d n) b i { s with deletion := x } = false := by
  have hover := (blockConflict_ok h).2
  simp only [blockConflict, Bool.or_eq_false_iff, bne_eq_false_iff_eq] at h
  obtain ⟨⟨-, hsame⟩, -⟩ := h
  have hnone : overlappingSiblings (withStamps σ d n) s.spaceId s.network s.parentBlockId (some i) =
      [] := by
    refine List.eq_nil_iff_forall_not_mem.mpr ?_
    rintro ⟨j, t'⟩ hmem
    obtain ⟨ht', hsp, hpar, hne, ho⟩ := mem_overlappingSiblings.mp hmem
    obtain ⟨t, ht, rfl⟩ := getBlock_withStamps hlive ht'
    simpa using (assertNoBlockOverlap_eq_ok hover).1 j t ht hsp hpar hne ho
  have hsame' : (withStamps σ d n).liveBlocks (fun j t =>
      t.spaceId == s.spaceId && t.network == s.network && j != i) = [] := by
    refine List.eq_nil_iff_forall_not_mem.mpr ?_
    rintro ⟨j, t'⟩ hmem
    obtain ⟨ht', hp⟩ := Store.mem_liveBlocks.mp hmem
    obtain ⟨t, ht, rfl⟩ := getBlock_withStamps hlive ht'
    have hfalse := Store.liveBlocks_eq_nil hsame ht
    simp_all
  simp only [blockConflict, hparent, hspace, hsame', assertNoBlockOverlap, hnone,
    reparentCandidates]
  rfl

theorem subnetConflict_mono {s : Subnet} (h : subnetConflict σ m i s = false)
    (hblock : blockTrashed (withStamps σ d n) b s.blockId = false)
    (hspace : spaceTrashed (withStamps σ d n) b s.spaceId = false) :
    subnetConflict (withStamps σ d n) b i { s with deletion := x } = false := by
  have hover := (subnetConflict_ok h).2
  simp only [subnetConflict, Bool.or_eq_false_iff, bne_eq_false_iff_eq] at h
  obtain ⟨⟨-, hsame⟩, -⟩ := h
  have hover' : assertNoOverlap (withStamps σ d n) s.spaceId s.network (some i) = .ok () := by
    refine assertNoOverlap_eq_ok.mpr fun j t' ht' => ?_
    obtain ⟨t, ht, rfl⟩ := getSubnet_withStamps hlive ht'
    exact assertNoOverlap_eq_ok.mp hover j t ht
  have hsame' : (withStamps σ d n).liveSubnets (fun j t =>
      t.spaceId == s.spaceId && t.network == s.network && j != i) = [] := by
    refine List.eq_nil_iff_forall_not_mem.mpr ?_
    rintro ⟨j, t'⟩ hmem
    obtain ⟨ht', hp⟩ := Store.mem_liveSubnets.mp hmem
    obtain ⟨t, ht, rfl⟩ := getSubnet_withStamps hlive ht'
    have hfalse := Store.liveSubnets_eq_nil hsame ht
    simp_all
  simp only [subnetConflict, hblock, hspace, hsame', hover']
  rfl

theorem getScope_withStamps {t' : DHCPScope} (h : (withStamps σ d n).getScope i = some t') :
    ∃ t, σ.getScope i = some t ∧ t' = { t with deletion := none } := by
  obtain ⟨h, hd⟩ := Store.getScope_eq_some.mp h
  rw [withStamps_scopes, Table.get?_modify, Option.map_eq_some_iff] at h
  obtain ⟨t, ht, rfl⟩ := h
  have hstamp : stamps σ (.scope i) = none := hlive _ hd
  exact ⟨t, Store.getScope_eq_some.mpr ⟨ht, by simpa [stamps, stampOf, ht] using hstamp⟩,
    congrArg (fun x => { t with deletion := x }) hd⟩

theorem groupCidrClash_mono (h : groupCidrClash σ i sc = false) :
    groupCidrClash (withStamps σ d n) i { sc with deletion := x } = false := by
  unfold groupCidrClash at h ⊢
  cases hs : σ.subnets.get? sc.subnetId with
  | none => simp [withStamps_subnets, hs]
  | some subnet =>
    simp only [withStamps_subnets, withStamps_scopes, Table.get?_modify, hs, Option.map_some,
      Option.any_some, List.any_eq_false, Prod.forall, Table.mem_rows_iff,
      Option.map_eq_some_iff] at h ⊢
    rintro j t' ⟨t, ht, rfl⟩ hc
    refine h j t ht ?_
    have hj := hlive (.scope j)
    cases hother : σ.subnets.get? t.subnetId <;> simp_all [stamps, stampOf]

theorem scopeConflict_mono (h : scopeConflict σ m i sc = false)
    (hsubnet : subnetTrashed (withStamps σ d n) b sc.subnetId = false) :
    scopeConflict (withStamps σ d n) b i { sc with deletion := x } = false := by
  simp only [scopeConflict, Bool.or_eq_false_iff, Bool.and_eq_false_imp] at h ⊢
  obtain ⟨⟨-, hsame⟩, hclash⟩ := h
  refine ⟨⟨hsubnet, ?_⟩, fun hactive => groupCidrClash_mono hlive (hclash hactive)⟩
  simp only [List.any_eq_false, Prod.forall, Table.mem_rows_iff, withStamps_scopes,
    Table.get?_modify, Option.map_eq_some_iff] at hsame ⊢
  rintro j t' ⟨t, ht, rfl⟩ hc
  refine hsame j t ht ?_
  have hj := hlive (.scope j)
  simp_all [stamps, stampOf]

theorem staticConflict_mono {s : DHCPStaticAssignment} (h : staticConflict σ m i s = false)
    (hscope : scopeTrashed (withStamps σ d n) b s.scopeId = false) :
    staticConflict (withStamps σ d n) b i { s with deletion := x } = false := by
  simp only [staticConflict, Bool.or_eq_false_iff] at h ⊢
  obtain ⟨-, hmac⟩ := h
  refine ⟨hscope, ?_⟩
  cases hparent : σ.scopes.get? s.scopeId with
  | none => simp [withStamps_scopes, hparent]
  | some parent =>
    simp only [hparent, withStamps_scopes, withStamps_statics, Table.get?_modify, Option.map_some,
      Option.any_some, List.any_eq_false, Prod.forall, Table.mem_rows_iff,
      Option.map_eq_some_iff, Bool.and_eq_true, Option.any_eq_true, not_and, not_exists] at hmac ⊢
    rintro j t' ⟨t, ht, rfl⟩ hc sc' hsc'
    obtain ⟨sc, hsc, rfl⟩ := getScope_withStamps hlive hsc'
    have hj := hlive (.static j)
    refine hmac j t ht ?_ sc hsc
    simp_all [stamps, stampOf]

theorem recordConflict_mono {r : DNSRecord} (h : recordConflict σ m i r = false)
    (hzone : zoneTrashed (withStamps σ d n) b r.zoneId = false)
    (horphan : orphanRecord (withStamps σ d n) { r with deletion := x } = false) :
    recordConflict (withStamps σ d n) b i { r with deletion := x } = false := by
  simp only [recordConflict, Bool.or_eq_false_iff] at h ⊢
  obtain ⟨-, hclash⟩ := h
  refine ⟨⟨hzone, horphan⟩, ?_⟩
  simp only [List.any_eq_false, Prod.forall, Table.mem_rows_iff, withStamps_records,
    Table.get?_modify, Option.map_eq_some_iff] at hclash ⊢
  rintro j t' ⟨t, ht, rfl⟩ hc
  refine hclash j t ht ?_
  have hj := hlive (.record j)
  simp_all [stamps, stampOf, recordIdentity, cnameClash]

end

end Monotone

def rowKeys (σ : Store) : List RowKey :=
  σ.spaces.rows.map (.space ·.1) ++ σ.blocks.rows.map (.block ·.1) ++
    σ.subnets.rows.map (.subnet ·.1) ++ σ.scopes.rows.map (.scope ·.1) ++
    σ.pools.rows.map (.pool ·.1) ++ σ.statics.rows.map (.static ·.1) ++
    σ.zones.rows.map (.zone ·.1) ++ σ.records.rows.map (.record ·.1)

def LiveParents (σ : Store) : Prop :=
  ∀ k, isLive σ k = true → ∀ p ∈ rowParents σ k, stamps σ p = none

/-- A state none of whose live rows a restore would refuse: no live row hangs
under a trashed one, no live IPAM record belongs to an address that is an orphan
or in a trashed subnet, and every live row passes its own check. -/
@[mk_iff]
structure Restorable (σ : Store) : Prop where
  fresh : ∀ k ∈ rowKeys σ, ∀ b ∈ stamps σ k, b < σ.nextBatch
  parents : ∀ k ∈ rowKeys σ, stamps σ k = none → ∀ p ∈ rowParents σ k, stamps σ p = none
  owners : ∀ k ∈ rowKeys σ, stamps σ k = none → ∀ s ∈ recordOwner σ k, stamps σ s = none
  orphans : ∀ r ∈ σ.records.rows, r.2.deletion = none → r.2.autoGenerated = true →
    ∀ a ∈ r.2.ipAddressId.bind σ.addresses.get?, a.status ≠ .orphan
  spaces : ∀ r ∈ σ.spaces.rows, r.2.deletion = none → spaceConflict σ r.1 r.2 = false
  blocks : ∀ r ∈ σ.blocks.rows, r.2.deletion = none →
    blockConflict σ σ.nextBatch r.1 r.2 = false
  subnets : ∀ r ∈ σ.subnets.rows, r.2.deletion = none →
    subnetConflict σ σ.nextBatch r.1 r.2 = false
  scopes : ∀ r ∈ σ.scopes.rows, r.2.deletion = none →
    scopeConflict σ σ.nextBatch r.1 r.2 = false
  statics : ∀ r ∈ σ.statics.rows, r.2.deletion = none →
    staticConflict σ σ.nextBatch r.1 r.2 = false
  zones : ∀ r ∈ σ.zones.rows, r.2.deletion = none → zoneConflict σ r.1 r.2 = false
  records : ∀ r ∈ σ.records.rows, r.2.deletion = none →
    recordConflict σ σ.nextBatch r.1 r.2 = false

instance (σ : Store) : Decidable (Restorable σ) :=
  decidable_of_iff _ (restorable_iff σ).symm

theorem mem_rowKeys : k ∈ rowKeys σ ↔ (stampOf σ k).isSome := by
  cases k <;> simp [rowKeys, stampOf, Table.mem_rows_iff, Option.isSome_iff_exists]

theorem stamps_of_notMem (h : k ∉ rowKeys σ) : stamps σ k = none := by
  rw [mem_rowKeys, Bool.not_eq_true, Option.isSome_eq_false_iff, Option.isNone_iff_eq_none] at h
  simp [stamps, h]

namespace Restorable

variable {σ : Store} (hσ : Restorable σ)
include hσ

theorem lt_nextBatch (k : RowKey) (b : Nat) (h : stamps σ k = some b) : b < σ.nextBatch := by
  refine hσ.fresh k ?_ b h
  by_contra hk
  simp [stamps_of_notMem hk] at h

theorem coherent : Coherent (links σ) (stamps σ) := by
  constructor
  · rintro k p ⟨hp, -⟩ hk
    exact hσ.parents k (mem_rowKeys.mpr (isSome_of_mem_rowParents hp)) hk p hp
  · intro k s hs hk
    refine hσ.owners k ?_ hk s hs
    obtain ⟨i, r, a, j, rfl, hr, -⟩ := recordOwner_eq_some.mp hs
    simp [mem_rowKeys, stampOf, hr]

theorem accepts_last (b : Nat) (d : Stamps RowKey)
    (h : Nested (links σ) (stamps σ) σ.nextBatch (b + 1) d) (hb : σ.nextBatch ≤ b) :
    accepts σ b d = true := by
  have hclear := h.clear_last hσ.coherent hσ.lt_nextBatch hb
  have hlive : FewerLive σ d := by
    intro k hk
    cases hs : stamps σ k with
    | none => rfl
    | some c => simp [h.old k c hs] at hk
  have hwas : ∀ k, d k = some b → stamps σ k = none := by
    intro k hk
    cases hs : stamps σ k with
    | none => rfl
    | some c =>
      have hc := hσ.lt_nextBatch k c hs
      have := h.old k c hs
      rw [hk, Option.some.injEq] at this
      omega
  have hparent : ∀ k p, d k = some b → p ∈ rowParents σ k → (stampOf σ p).isSome →
      d p = none ∨ d p = some b := fun k p hk hp hsome => hclear k p ⟨hp, hsome⟩ hk
  rw [accepts, Bool.not_eq_true', batchConflict_eq_false]
  simp only [withStamps_spaces, withStamps_blocks, withStamps_subnets, withStamps_scopes,
    withStamps_pools, withStamps_statics, withStamps_zones, withStamps_records, Table.get?_modify,
    Option.map_eq_some_iff]
  refine ⟨?_, ?_, ?_, ?_, ?_, ?_, ?_, ?_⟩
  · rintro i _ ⟨s, hs, rfl⟩ hd
    have hdel : s.deletion = none := by simpa [stamps, stampOf, hs] using hwas _ hd
    exact spaceConflict_mono hlive (hσ.spaces (i, s) (Table.mem_rows_iff.mpr hs) hdel)
  · rintro i _ ⟨s, hs, rfl⟩ hd
    have hdel : s.deletion = none := by simpa [stamps, stampOf, hs] using hwas _ hd
    refine blockConflict_mono hlive (hσ.blocks (i, s) (Table.mem_rows_iff.mpr hs) hdel) ?_ ?_
    · cases hp : s.parentBlockId with
      | none => rfl
      | some p =>
        refine blockTrashed_eq_false.mpr (hparent (.block i) _ hd ?_)
        simp [rowParents, cascadeParents, hs, hp]
    · refine spaceTrashed_eq_false.mpr (hparent (.block i) _ hd ?_)
      simp [rowParents, cascadeParents, hs]
  · rintro i _ ⟨s, hs, rfl⟩ hd
    have hdel : s.deletion = none := by simpa [stamps, stampOf, hs] using hwas _ hd
    refine subnetConflict_mono hlive (hσ.subnets (i, s) (Table.mem_rows_iff.mpr hs) hdel) ?_ ?_
    · refine blockTrashed_eq_false.mpr (hparent (.subnet i) _ hd ?_)
      simp [rowParents, cascadeParents, hs]
    · refine spaceTrashed_eq_false.mpr (hparent (.subnet i) _ hd ?_)
      simp [rowParents, cascadeParents, hs]
  · rintro i _ ⟨s, hs, rfl⟩ hd
    have hdel : s.deletion = none := by simpa [stamps, stampOf, hs] using hwas _ hd
    refine scopeConflict_mono hlive (hσ.scopes (i, s) (Table.mem_rows_iff.mpr hs) hdel) ?_
    refine subnetTrashed_eq_false.mpr (hparent (.scope i) _ hd ?_)
    simp [rowParents, cascadeParents, hs]
  · rintro i _ ⟨s, hs, rfl⟩ hd
    refine scopeTrashed_eq_false.mpr (hparent (.pool i) _ hd ?_)
    simp [rowParents, cascadeParents, hs]
  · rintro i _ ⟨s, hs, rfl⟩ hd
    have hdel : s.deletion = none := by simpa [stamps, stampOf, hs] using hwas _ hd
    refine staticConflict_mono hlive (hσ.statics (i, s) (Table.mem_rows_iff.mpr hs) hdel) ?_
    refine scopeTrashed_eq_false.mpr (hparent (.static i) _ hd ?_)
    simp [rowParents, cascadeParents, hs]
  · rintro i _ ⟨s, hs, rfl⟩ hd
    have hdel : s.deletion = none := by simpa [stamps, stampOf, hs] using hwas _ hd
    exact zoneConflict_mono hlive (hσ.zones (i, s) (Table.mem_rows_iff.mpr hs) hdel)
  · rintro i _ ⟨r, hr, rfl⟩ hd
    have hdel : r.deletion = none := by simpa [stamps, stampOf, hr] using hwas _ hd
    have hrow := Table.mem_rows_iff.mpr hr
    refine recordConflict_mono hlive (hσ.records (i, r) hrow hdel) ?_ ?_
    · refine zoneTrashed_eq_false.mpr (hparent (.record i) _ hd ?_)
      simp [rowParents, hr]
    · have horphan := hσ.orphans (i, r) hrow hdel
      have haddr : (withStamps σ d 0).addresses = σ.addresses := rfl
      cases hauto : r.autoGenerated with
      | false => simp [orphanRecord]
      | true =>
        cases ha : r.ipAddressId.bind σ.addresses.get? with
        | none => simp [orphanRecord, haddr, ha]
        | some a => simp [orphanRecord, haddr, ha, horphan hauto a ha]

end Restorable

def softDeletes (σ : Store) : List SoftDelete → Except Refusal (List Nat × Store)
  | [] => .ok ([], σ)
  | request :: rest => do
    let (b, σ') ← softDelete σ request
    let (ids, τ) ← softDeletes σ' rest
    return (b :: ids, τ)

/-- One attempt to restore a batch; a refused one changes nothing. -/
def retry (σ : Store) (b : Nat) : Store := (restoreBatch σ b).toOption.getD σ

def restoreRound (σ : Store) (order : List Nat) : Store := order.foldl retry σ

def restoreRounds (σ : Store) (rounds : List (List Nat)) : Store := rounds.foldl restoreRound σ

theorem retry_withStamps (σ : Store) (d : Stamps RowKey) (n b : Nat) :
    retry (withStamps σ d n) b = withStamps σ (attempt (links σ) (accepts σ) d b) n := by
  have hcheck : batchConflict (withStamps σ d n) b = batchConflict (withStamps σ d 0) b := rfl
  rw [retry, restoreBatch_withStamps, hcheck, attempt, accepts]
  cases batchConflict (withStamps σ d 0) b <;> rfl

theorem restoreRound_withStamps (σ : Store) (d : Stamps RowKey) (n : Nat) (order : List Nat) :
    restoreRound (withStamps σ d n) order =
      withStamps σ (attempts (links σ) (accepts σ) d order) n := by
  induction order generalizing d with
  | nil => rfl
  | cons b rest ih =>
    rw [restoreRound, List.foldl_cons, retry_withStamps]
    exact ih (attempt (links σ) (accepts σ) d b)

theorem restoreRounds_withStamps (σ : Store) (d : Stamps RowKey) (n : Nat)
    (rounds : List (List Nat)) : restoreRounds (withStamps σ d n) rounds =
      withStamps σ (rounds.foldl (attempts (links σ) (accepts σ)) d) n := by
  induction rounds generalizing d with
  | nil => rfl
  | cons order rest ih =>
    rw [restoreRounds, List.foldl_cons, restoreRound_withStamps]
    exact ih (attempts (links σ) (accepts σ) d order)

theorem softDeletes_withStamps {requests : List SoftDelete} {ids : List Nat}
    (h : softDeletes (withStamps σ d n) requests = .ok (ids, τ)) (hd : Nested (links σ) d₀ n₀ n d)
    (hn : n₀ ≤ n) :
    ids = List.range' n ids.length ∧ ∃ d', τ = withStamps σ d' (n + ids.length) ∧
      Nested (links σ) d₀ n₀ (n + ids.length) d' := by
  induction requests generalizing d n ids with
  | nil =>
    simp only [softDeletes, Except.ok.injEq, Prod.mk.injEq] at h
    obtain ⟨rfl, rfl⟩ := h
    exact ⟨rfl, d, rfl, hd⟩
  | cons request rest ih =>
    simp only [softDeletes, bind_eq_ok, pure_eq_ok, Prod.exists, Prod.mk.injEq] at h
    obtain ⟨b, σ', hdelete, ids', τ', hrest, rfl, rfl⟩ := h
    obtain ⟨rfl, S, d', hdel, rfl⟩ := softDelete_withStamps hdelete
    obtain ⟨hids, d'', rfl, hd''⟩ := ih hrest (hd.delete hn hdel) (by omega)
    have hlen : b + (b :: ids').length = b + 1 + ids'.length := by simp; omega
    rw [hlen]
    refine ⟨?_, d'', rfl, hd''⟩
    rw [List.length_cons, List.range'_succ, ← hids]

theorem liveParents_withStamps {m : Nat} (h : Nested (links σ) d₀ n₀ n d) :
    LiveParents (withStamps σ d m) := by
  intro k hk p hp
  rw [rowParents_withStamps] at hp
  cases hs : stampOf σ p with
  | none => simp [stamps, hs]
  | some x =>
    have := h.coherent.parent k p ⟨hp, by simp [hs]⟩ (isLive_withStamps.mp hk).2
    simp [stamps, hs, this]

/-- A round trip through the Trash. After soft deletes, and after any restores
of their batches, no live row hangs under a trashed one; and trying every batch
in as many rounds as there are batches, in any orders, brings back the state
before them. -/
theorem restoreRounds_of_softDeletes {σ τ : Store} {requests : List SoftDelete} {ids : List Nat}
    (hσ : Restorable σ) (h : softDeletes σ requests = .ok (ids, τ)) :
    (∀ order : List Nat, (∀ b ∈ order, b ∈ ids) → LiveParents (restoreRound τ order)) ∧
    ∀ rounds : List (List Nat), (∀ order ∈ rounds, ∀ b, b ∈ order ↔ b ∈ ids) →
      ids.length ≤ rounds.length →
      restoreRounds τ rounds = { σ with nextBatch := τ.nextBatch } := by
  have hstart := withStamps_stamps σ
  rw [← hstart] at h
  obtain ⟨hids, d, rfl, hd⟩ := softDeletes_withStamps h (Nested.refl hσ.coherent) (Nat.le_refl _)
  have hmem : ∀ b, b ∈ ids ↔ σ.nextBatch ≤ b ∧ b < σ.nextBatch + ids.length := by
    intro b
    rw [hids, List.mem_range'_1, List.length_range']
  have hclear : ∀ b d, accepts σ b d = true → Clear (links σ) b d := fun _ _ => clear_of_accepts
  constructor
  · intro order horder
    rw [restoreRound_withStamps]
    exact liveParents_withStamps (hd.attempts hσ.coherent hσ.lt_nextBatch hclear
      fun b hb => ((hmem b).mp (horder b hb)).1)
  · intro rounds hrounds hlen
    have hback := Nested.rounds hσ.coherent hσ.lt_nextBatch hclear hσ.accepts_last
      (fun order ho => ⟨fun b hb => ((hmem b).mp ((hrounds order ho b).mp hb)).1,
        fun b hle hlt => (hrounds order ho b).mpr ((hmem b).mpr ⟨hle, hlt⟩)⟩)
      (Nat.le_refl _) (by omega) hd (by omega)
    rw [restoreRounds_withStamps, hback]
    calc withStamps σ (stamps σ) (σ.nextBatch + ids.length)
        = { withStamps σ (stamps σ) σ.nextBatch with
            nextBatch := σ.nextBatch + ids.length } := rfl
      _ = { σ with nextBatch := σ.nextBatch + ids.length } := by rw [hstart]

def nestedBlocks : List Op :=
  [.createSpace "left",
    .createBlock { spaceId := 0, network := Net.ofValue .v4 (10 * 2 ^ 24) 8 },
    .createBlock { spaceId := 0, network := Net.ofValue .v4 (10 * 2 ^ 24) 16,
                   parentBlockId := some 0 },
    .createSubnet { spaceId := 0, blockId := 1, network := Net.ofValue .v4 (10 * 2 ^ 24) 24 }]

/-- Child before parent, and restored parent last. -/
theorem restoreRounds_nestedBlocks : ∃ σ ids τ, (run .empty nestedBlocks).toOption = some σ ∧
    softDeletes σ [{ root := .subnet 0 }, { root := .block 1 }, { root := .space 0 }] =
      .ok (ids, τ) ∧
    restoreRounds τ [[0, 1, 2], [0, 1, 2], [0, 1, 2]] = { σ with nextBatch := τ.nextBatch } := by
  have hend : ((run .empty nestedBlocks).toOption.any fun σ => decide (Restorable σ) &&
      (softDeletes σ [{ root := .subnet 0 }, { root := .block 1 },
        { root := .space 0 }]).toOption.any fun r => r.1 == [0, 1, 2]) = true := by
    decide +kernel
  simp only [Option.any_eq_true, Bool.and_eq_true, beq_iff_eq, decide_eq_true_eq,
    toOption_eq_some (ε := Refusal) (α := List Nat × Store)] at hend
  obtain ⟨σ, hrun, hσ, ⟨ids, τ⟩, hdelete, rfl⟩ := hend
  refine ⟨σ, _, τ, hrun, hdelete, (restoreRounds_of_softDeletes hσ hdelete).2 _ ?_ (by simp)⟩
  intro order horder b
  simp only [List.mem_cons, List.not_mem_nil, or_false, or_self] at horder
  rw [horder]

/-- A block nested in one with its own CIDR, which `create_block` accepts. -/
def sameCidrBlocks : List Op :=
  [.createSpace "left",
    .createBlock { spaceId := 0, network := Net.ofValue .v4 (10 * 2 ^ 24) 8 },
    .createBlock { spaceId := 0, network := Net.ofValue .v4 (10 * 2 ^ 24) 8,
                   parentBlockId := some 0 }]

theorem restoreRounds_of_refused (h : retry σ b = σ) {rounds : List (List Nat)}
    (hrounds : ∀ order ∈ rounds, ∀ c ∈ order, c = b) : restoreRounds σ rounds = σ := by
  have hround : ∀ order : List Nat, (∀ c ∈ order, c = b) → restoreRound σ order = σ := by
    intro order horder
    induction order with
    | nil => rfl
    | cons c rest ih =>
      obtain rfl := horder c (by simp)
      rw [restoreRound, List.foldl_cons, h]
      exact ih fun c hc => horder c (by simp [hc])
  induction rounds with
  | nil => rfl
  | cons order rest ih =>
    rw [restoreRounds, List.foldl_cons, hround order (hrounds order (by simp))]
    exact ih fun o ho => hrounds o (by simp [ho])

/-- The nested block, trashed on its own, never comes back. -/
theorem not_restored_sameCidrBlocks : ∃ σ τ, Reachable (fun _ _ => True) σ ∧
    isLive σ (.block 1) = true ∧ softDeletes σ [{ root := .block 1 }] = .ok ([0], τ) ∧
    ∀ rounds : List (List Nat), (∀ order ∈ rounds, ∀ c ∈ order, c = 0) →
      isLive (restoreRounds τ rounds) (.block 1) = false := by
  have hend : ((run .empty sameCidrBlocks).toOption.any fun σ => isLive σ (.block 1) &&
      (softDeletes σ [{ root := .block 1 }]).toOption.any fun r => r.1 == [0] &&
        (restoreBatch r.2 0).toOption.isNone && !isLive r.2 (.block 1)) = true := by
    decide +kernel
  simp only [Option.any_eq_true, Bool.and_eq_true, beq_iff_eq, Option.isNone_iff_eq_none,
    Bool.not_eq_true', toOption_eq_some (ε := Refusal) (α := List Nat × Store)] at hend
  obtain ⟨σ, hrun, hlive, ⟨ids, τ⟩, hdelete, ⟨rfl, hrefused⟩, hdead⟩ := hend
  refine ⟨σ, τ, .of_run hrun fun _ => by simp, hlive, hdelete, fun rounds hrounds => ?_⟩
  rw [restoreRounds_of_refused (b := 0) (by rw [retry, hrefused]; rfl) hrounds]
  exact hdead

end SpatiumDdi.Trash
