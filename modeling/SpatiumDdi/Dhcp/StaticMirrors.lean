import SpatiumDdi.Lib.Table
import SpatiumDdi.Dhcp.StaticsConverge

/-!
The IPAM mirror of a reservation: the row of its address, with the operator's columns on it. An
upsert deletes the row at the address a reservation has left, keeps the operator's columns on the
reservation, and puts them back on the row at the new address, which it makes or takes over.

The DNS records of a row and its sightings write none of the columns here and are left out, and so
is a concurrent writer of the rows.
-/

namespace SpatiumDdi.Dhcp.Ingest

inductive IpStatus where
  | available
  | allocated
  | reserved
  | dhcp
  | staticDhcp
  | discovered
  | orphan
  | deprecated
deriving DecidableEq

end SpatiumDdi.Dhcp.Ingest

namespace SpatiumDdi.Dhcp.StaticMirror

open Ingest (IpStatus)

inductive OperatorField where
  | description
  | tags
  | customFields
  | ownerUserId
  | ownerGroupId
  | managedBy
  | role
  | reservedUntil
  | decomDate
  deriving DecidableEq

def operatorMirrorFields : List OperatorField :=
  [.description, .tags, .customFields, .ownerUserId, .ownerGroupId, .managedBy, .role,
    .reservedUntil, .decomDate]

/-- What a column or a snapshot holds. An id is its text, an instant and a day are their ISO
texts, and a member of an object is its JSON text. -/
inductive Value where
  | null
  | text (s : String)
  | object (members : List (String × String))
  | uuid (text : String)
  | datetime (iso : String)
  | date (iso : String)
  deriving DecidableEq

/-- `val in (None, "", {}, [])`. -/
def Value.isEmpty : Value → Bool
  | .null => true
  | .text s => s == ""
  | .object members => members.isEmpty
  | _ => false

def Value.jsonSafe : Value → Value
  | .uuid s => .text s
  | .datetime iso => .text iso
  | .date iso => .text iso
  | v => v

/-- What `_restore_operator_fields` makes of a snapshot's value. -/
def OperatorField.parse : OperatorField → Value → Value
  | .ownerUserId, .text s => .uuid s
  | .ownerGroupId, .text s => .uuid s
  | .reservedUntil, .text s => .datetime s
  | .decomDate, .text s => .date s
  | _, v => v

def OperatorField.Admits : OperatorField → Value → Prop
  | .description, v => ∃ s, v = .text s
  | .tags, v | .customFields, v => ∃ members, v = .object members
  | .ownerUserId, v | .ownerGroupId, v => v = .null ∨ ∃ s, v = .uuid s
  | .managedBy, v | .role, v => v = .null ∨ ∃ s, v = .text s
  | .reservedUntil, v => v = .null ∨ ∃ s, v = .datetime s
  | .decomDate, v => v = .null ∨ ∃ s, v = .date s

def OperatorField.default : OperatorField → Value
  | .description => .text ""
  | .tags | .customFields => .object []
  | _ => .null

abbrev Columns := OperatorField → Value

abbrev Snapshot := OperatorField → Option Value

def snapshotOperatorFields (columns : Columns) : Option Snapshot :=
  let snap : Snapshot := fun f => if (columns f).isEmpty then none else some (columns f).jsonSafe
  if operatorMirrorFields.all fun f => (snap f).isNone then none else some snap

def restoreOperatorFields (columns : Columns) (snapshot : Snapshot) : Columns := fun f =>
  match snapshot f with
  | some v => f.parse v
  | none => columns f

structure IpAddress where
  subnetId : Nat
  address : Ip
  status : IpStatus
  staticAssignmentId : Option Nat := none
  hostname : Option String := none
  macAddress : Option Mac := none
  autoFromLease : Bool := false
  dhcpLeaseId : Option Nat := none
  operator : Columns := OperatorField.default

def IpAddress.key (row : IpAddress) : Nat × Ip := (row.subnetId, row.address)

/-- The rows, and what each reservation has of them: its `ipam_metadata_snapshot` and its
`ip_address_id`. -/
structure State where
  rows : KeyedTable IpAddress IpAddress.key
  snapshots : Nat → Option Snapshot
  links : Nat → Option Nat

structure LiveLease where
  id : Nat
  hostname : Option String
  macAddress : Option Mac

/-- What an upsert meets: the subnet of the scope, the lease that `_live_lease_at` finds for a row,
and the subnets that keep a lease's hostname out. -/
structure Around where
  subnetId : Nat
  liveLeaseAt : Nat × Ip → Option LiveLease
  suppressed : Nat → Bool

def mirrorLeaseOnto (writeHostname : Bool) (lease : LiveLease) (row : IpAddress) : IpAddress :=
  let name := ((lease.hostname.filter (· ≠ "")).orElse fun _ => row.hostname).getD ""
  { row with
    hostname :=
      if writeHostname then some (String.ofList (name.toList.take 253)) else row.hostname
    macAddress := lease.macAddress.orElse fun _ => row.macAddress
    status := .dhcp
    autoFromLease := true
    dhcpLeaseId := some lease.id }

/-- `insert_ipam_mirror_row`, where no other writer made the row, and else the row as it is. -/
def State.insertRow (m : State) (row : IpAddress) : State :=
  if h : m.rows.lookup row.key = none then { m with rows := m.rows.insert row h } else m

def State.deleteMirrorRow (m : State) (row : Nat × IpAddress) (st : Nat) : State where
  rows := m.rows.delete row.1
  snapshots := match snapshotOperatorFields row.2.operator with
    | some snapshot => Function.update m.snapshots st (some snapshot)
    | none => m.snapshots
  links := if m.links st = some row.1 then Function.update m.links st none else m.links

section Around

variable (env : Around)

/-- The row that `_release_moved_row` makes for the lease that holds an address. -/
def handover (row : IpAddress) : Option IpAddress :=
  (env.liveLeaseAt row.key).map fun lease =>
    mirrorLeaseOnto (!env.suppressed row.subnetId) lease
      { subnetId := row.subnetId, address := row.address, status := .available }

def State.releaseMovedRow (m : State) (row : Nat × IpAddress) (st : Nat) : State :=
  match handover env row.2 with
  | none => m.deleteMirrorRow row st
  | some candidate => (m.deleteMirrorRow row st).insertRow candidate

def State.lockStaticRows (m : State) (st : Nat) : List (Nat × IpAddress) :=
  m.rows.table.select fun _ row => row.staticAssignmentId = some st

/-- A row of the reservation that is not at its address any more. -/
def State.leaveRow (st : StaticAssignment) (m : State) (row : Nat × IpAddress) : State :=
  if row.2.address = st.ipAddress then m
  else if row.2.status = .staticDhcp then m.releaseMovedRow env row st.id
  else
    { m with rows := m.rows.update row.1 (fun r => { r with staticAssignmentId := none }) fun _ _ => rfl }

/-- What an upsert writes on the reservation's row. -/
def stampRow (st : StaticAssignment) (snapshot : Option Snapshot) (row : IpAddress) : IpAddress :=
  { row with
    hostname := some (Text.strip st.hostname)
    macAddress := some st.macAddress
    status := .staticDhcp
    staticAssignmentId := some st.id
    autoFromLease := false
    dhcpLeaseId := none
    operator := match snapshot with
      | some snapshot => restoreOperatorFields row.operator snapshot
      | none => row.operator }

/-- The reservation's row is found or made, and stamped. -/
def State.takeRow (m : State) (st : StaticAssignment) : State :=
  let stamp := stampRow st (m.snapshots st.id)
  match h : m.rows.lookup (env.subnetId, st.ipAddress) with
  | some (i, _) =>
    { rows := m.rows.update i stamp fun _ _ => rfl
      snapshots := Function.update m.snapshots st.id none
      links := Function.update m.links st.id (some i) }
  | none =>
    { rows := m.rows.insert
        (stamp { subnetId := env.subnetId, address := st.ipAddress, status := .staticDhcp }) h
      snapshots := Function.update m.snapshots st.id none
      links := Function.update m.links st.id (some m.rows.table.next) }

def State.upsertIpamForStatic (m : State) (st : StaticAssignment) : State :=
  ((m.lockStaticRows st.id).foldl (State.leaveRow env st) m).takeRow env st

/-- `remove_ipam_for_static`, and the subnets of the rows it removed. -/
def State.removeIpamForStatic (m : State) (st : StaticAssignment) : State × List Nat :=
  let rows := m.lockStaticRows st.id
  (rows.foldl (fun m row => m.deleteMirrorRow row st.id) m, rows.map fun row => row.2.subnetId)

/-- `_mirror_is_current`, of the row the reservation links to. -/
def State.mirrorIsCurrent (m : State) (st : StaticAssignment) : Bool :=
  match (m.links st.id).bind m.rows.table.get? with
  | none => false
  | some row =>
    decide (row.subnetId = env.subnetId) && decide (row.address = st.ipAddress) &&
      decide (row.status = .staticDhcp) && decide (row.staticAssignmentId = some st.id)

/-- The mirrors that the merge of a scope's reservations writes. -/
def staticMirrors : Mirrors State where
  upsert m st :=
    let m' := m.upsertIpamForStatic env st
    (m', decide (m'.links st.id ≠ m.links st.id))
  remove m st := m.removeIpamForStatic st
  isCurrent m st := m.mirrorIsCurrent env st

end Around

end SpatiumDdi.Dhcp.StaticMirror

/-!
The mirrors of the reservations that a merge moves, written one after the other. Every reservation
ends with one row, at its new address. Whose columns that row has depends on the order: a
reservation takes over what stands at its new address, and leaves nothing to the next one there.
-/

namespace SpatiumDdi.Dhcp.StaticMirror

abbrev Mover := StaticAssignment × Wanted

theorem OperatorField.parse_jsonSafe {f : OperatorField} {v : Value} (h : f.Admits v) :
    f.parse v.jsonSafe = v := by
  cases f with
  | description | tags | customFields =>
    obtain ⟨x, rfl⟩ := h
    rfl
  | _ =>
    rcases h with rfl | ⟨s, rfl⟩
    · rfl
    · rfl

/-- The columns of `own` laid over those that are there: an empty one leaves what is there. -/
def overlay (there own : Columns) : Columns := fun f => if (own f).isEmpty then there f else own f

theorem mem_operatorMirrorFields (f : OperatorField) : f ∈ operatorMirrorFields := by
  cases f <;> decide

theorem restore_snapshot {there own : Columns} (h : ∀ f : OperatorField, f.Admits (own f)) :
    (match snapshotOperatorFields own with
      | some snapshot => restoreOperatorFields there snapshot
      | none => there) = overlay there own := by
  funext f
  rw [snapshotOperatorFields]
  by_cases hall : (operatorMirrorFields.all fun f =>
      (if (own f).isEmpty then none else some (own f).jsonSafe : Option Value).isNone) = true
  · rw [if_pos hall]
    have hnone := List.all_eq_true.mp hall f (mem_operatorMirrorFields f)
    have hempty : (own f).isEmpty = true := by
      by_contra hne
      rw [if_neg hne] at hnone
      cases hnone
    rw [overlay, if_pos hempty]
  · rw [if_neg hall]
    change restoreOperatorFields there _ f = _
    rw [restoreOperatorFields, overlay]
    by_cases hempty : (own f).isEmpty = true
    · rw [if_pos hempty, if_pos hempty]
    · rw [if_neg hempty, if_neg hempty]
      exact OperatorField.parse_jsonSafe (h f)

def State.columnsAt (m : State) (key : Nat × Ip) : Columns :=
  ((m.rows.lookup key).map fun row => row.2.operator).getD OperatorField.default

variable {env : Around} {m : State} {st : StaticAssignment} {id i : Nat} {row : Nat × IpAddress}

theorem lookup_of_mem_select {t : KeyedTable IpAddress IpAddress.key}
    (h : row ∈ t.table.select fun _ row => row.staticAssignmentId = some id) :
    t.lookup row.2.key = some row ∧ row.2.staticAssignmentId = some id := by
  obtain ⟨i, row⟩ := row
  obtain ⟨hget, hid⟩ := Table.mem_select.mp h
  exact ⟨KeyedTable.lookup_eq_some.mpr ⟨hget, rfl⟩, of_decide_eq_true hid⟩

theorem lockStaticRows_eq_nil
    (h : ∀ k i row, m.rows.lookup k = some (i, row) → row.staticAssignmentId ≠ some id) :
    m.lockStaticRows id = [] := by
  refine List.eq_nil_iff_forall_not_mem.mpr fun row hrow => ?_
  obtain ⟨hlookup, hid⟩ := lookup_of_mem_select hrow
  exact h _ row.1 row.2 hlookup hid

theorem lockStaticRows_eq_singleton {row : IpAddress} {key : Nat × Ip}
    (hrow : m.rows.lookup key = some (i, row)) (hid : row.staticAssignmentId = some id)
    (honly : ∀ k j r, m.rows.lookup k = some (j, r) → r.staticAssignmentId = some id → k = key) :
    m.lockStaticRows id = [(i, row)] := by
  have hmem : (i, row) ∈ m.lockStaticRows id :=
    Table.mem_select.mpr ⟨(KeyedTable.lookup_eq_some.mp hrow).1, decide_eq_true hid⟩
  have hall : ∀ r ∈ m.lockStaticRows id, r = (i, row) := by
    intro r hr
    obtain ⟨hlookup, hr⟩ := lookup_of_mem_select hr
    rw [honly _ r.1 r.2 hlookup hr] at hlookup
    exact Option.some.inj (hlookup.symm.trans hrow)
  have hnodup : (m.lockStaticRows id).Nodup :=
    (List.Nodup.of_map _ m.rows.table.nodup).sublist List.filter_sublist
  cases hrows : m.lockStaticRows id with
  | nil => rw [hrows] at hmem; cases hmem
  | cons r rest =>
    rw [hrows] at hall hnodup
    have hr := hall r List.mem_cons_self
    cases rest with
    | nil => rw [hr]
    | cons r' rest =>
      have hr' := hall r' (List.mem_cons_of_mem _ List.mem_cons_self)
      rw [hr, hr'] at hnodup
      exact absurd List.mem_cons_self (List.nodup_cons.mp hnodup).1

theorem takeRow_spec (env : Around) (m : State) (st : StaticAssignment) :
    ∃ i base, (m.takeRow env st).rows.lookup (env.subnetId, st.ipAddress) =
        some (i, stampRow st (m.snapshots st.id) base) ∧
      base.operator = m.columnsAt (env.subnetId, st.ipAddress) ∧
      (m.takeRow env st).links st.id = some i ∧
      (∀ k, k ≠ (env.subnetId, st.ipAddress) → (m.takeRow env st).rows.lookup k = m.rows.lookup k) ∧
      (m.takeRow env st).snapshots = Function.update m.snapshots st.id none ∧
      ∀ id, id ≠ st.id → (m.takeRow env st).links id = m.links id := by
  rw [State.takeRow]
  split
  · rename_i i row hrow
    have hlookup := m.rows.lookup_update (f := stampRow st (m.snapshots st.id)) (fun _ _ => rfl) hrow
    refine ⟨i, row, ?_, ?_, Function.update_self .., ?_, rfl, ?_⟩
    · exact (hlookup _).trans (if_pos rfl)
    · rw [State.columnsAt, hrow]
      rfl
    · exact fun k hk => (hlookup k).trans (if_neg hk)
    · exact fun id hid => Function.update_of_ne hid ..
  · rename_i hrow
    let made : IpAddress :=
      { subnetId := env.subnetId, address := st.ipAddress, status := .staticDhcp }
    have hfree : m.rows.lookup (stampRow st (m.snapshots st.id) made).key = none := hrow
    have hlookup := m.rows.lookup_insert _ hfree
    refine ⟨m.rows.table.next, made, ?_, ?_, Function.update_self .., ?_, rfl, ?_⟩
    · exact (hlookup _).trans (if_pos rfl)
    · rw [State.columnsAt, hrow]
      rfl
    · exact fun k hk => (hlookup k).trans (if_neg hk)
    · exact fun id hid => Function.update_of_ne hid ..

/-- A row of nobody's with no columns on it, if any. -/
def Vacant (row : Option (Nat × IpAddress)) : Prop :=
  ∀ i r, row = some (i, r) → r.staticAssignmentId = none ∧ r.operator = OperatorField.default

theorem vacant_handover {row candidate : IpAddress} (h : handover env row = some candidate) :
    candidate.key = row.key ∧ candidate.staticAssignmentId = none ∧
      candidate.operator = OperatorField.default := by
  obtain ⟨lease, -, rfl⟩ := Option.map_eq_some_iff.mp h
  exact ⟨rfl, rfl, rfl⟩

theorem releaseMovedRow_spec (env : Around) {row : IpAddress} (id : Nat)
    (hrow : m.rows.lookup row.key = some (i, row)) :
    Vacant ((m.releaseMovedRow env (i, row) id).rows.lookup row.key) ∧
      (∀ k, k ≠ row.key → (m.releaseMovedRow env (i, row) id).rows.lookup k = m.rows.lookup k) ∧
      (m.releaseMovedRow env (i, row) id).snapshots = (m.deleteMirrorRow (i, row) id).snapshots ∧
      (m.releaseMovedRow env (i, row) id).links = (m.deleteMirrorRow (i, row) id).links := by
  have hdelete := m.rows.lookup_delete hrow
  have hgone : (m.deleteMirrorRow (i, row) id).rows.lookup row.key = none :=
    (hdelete _).trans (if_pos rfl)
  have hother : ∀ k, k ≠ row.key →
      (m.deleteMirrorRow (i, row) id).rows.lookup k = m.rows.lookup k :=
    fun k hk => (hdelete k).trans (if_neg hk)
  rw [State.releaseMovedRow]
  cases hcandidate : handover env row with
  | none =>
    refine ⟨?_, hother, rfl, rfl⟩
    dsimp only
    rw [hgone]
    intro j r hr
    cases hr
  | some candidate =>
    obtain ⟨hkey, hid, hcolumns⟩ := vacant_handover hcandidate
    have hfree : (m.deleteMirrorRow (i, row) id).rows.lookup candidate.key = none := by
      rw [hkey]
      exact hgone
    have hinsert := KeyedTable.lookup_insert _ candidate hfree
    dsimp only
    rw [State.insertRow, dif_pos hfree]
    refine ⟨?_, ?_, rfl, rfl⟩
    · intro j r hr
      rw [hinsert, if_pos hkey.symm] at hr
      cases hr
      exact ⟨hid, hcolumns⟩
    · intro k hk
      rw [hinsert, if_neg (hkey ▸ hk)]
      exact hother k hk

structure Mirrored (env : Around) (rows : List StaticAssignment) (m : State) : Prop where
  mirror : ∀ st ∈ rows, ∃ i row, m.rows.lookup (env.subnetId, st.ipAddress) = some (i, row) ∧
    row.staticAssignmentId = some st.id ∧ row.status = .staticDhcp ∧ m.links st.id = some i
  only : ∀ st ∈ rows, ∀ k i row, m.rows.lookup k = some (i, row) →
    row.staticAssignmentId = some st.id → k = (env.subnetId, st.ipAddress)
  restored : ∀ st ∈ rows, m.snapshots st.id = none
  typed : ∀ k i row, m.rows.lookup k = some (i, row) →
    ∀ f : OperatorField, f.Admits (row.operator f)

def Holds (env : Around) (m : State) (id : Nat) (ip : Ip) (columns : Columns) : Prop :=
  ∃ i row, m.rows.lookup (env.subnetId, ip) = some (i, row) ∧ row.staticAssignmentId = some id ∧
    row.status = .staticDhcp ∧ row.operator = columns ∧ m.links id = some i ∧
    ∀ k j r, m.rows.lookup k = some (j, r) → r.staticAssignmentId = some id →
      k = (env.subnetId, ip)

def oldIps (movers : List Mover) : List Ip := movers.map fun p => p.1.ipAddress

def newIps (movers : List Mover) : List Ip := movers.map fun p => p.2.ipAddress

/-- The columns of the reservation's mirror before the moves. -/
def ownColumns (env : Around) (m : State) (p : Mover) : Columns :=
  m.columnsAt (env.subnetId, p.1.ipAddress)

/-- The columns that stand at the new address when the reservation comes there: none where one of
those before it has left, and else those of the row that was there before the moves. -/
def standing (env : Around) (m : State) (before : List Mover) (p : Mover) : Columns :=
  if p.2.ipAddress ∈ oldIps before then OperatorField.default
  else m.columnsAt (env.subnetId, p.2.ipAddress)

/-- The columns that the reservation ends with, after those before it. -/
def settledColumns (env : Around) (m : State) (before : List Mover) (p : Mover) : Columns :=
  if p.1.ipAddress ∈ newIps before then standing env m before p
  else overlay (standing env m before p) (ownColumns env m p)

/-- The reservation comes to the columns it had: one whose row was taken finds the same there, and
any other finds nothing else in a column that it has empty. -/
def Kept (env : Around) (m : State) (before : List Mover) (p : Mover) : Prop :=
  if p.1.ipAddress ∈ newIps before then standing env m before p = ownColumns env m p
  else ∀ f, (ownColumns env m p f).isEmpty = true →
    standing env m before p f = ownColumns env m p f

theorem settledColumns_eq_own {before : List Mover} {p : Mover} :
    settledColumns env m before p = ownColumns env m p ↔ Kept env m before p := by
  rw [settledColumns, Kept]
  by_cases htaken : p.1.ipAddress ∈ newIps before
  · rw [if_pos htaken, if_pos htaken]
  · rw [if_neg htaken, if_neg htaken]
    constructor
    · intro h f hempty
      rw [← congrFun h f, overlay, if_pos hempty]
    · intro h
      funext f
      rw [overlay]
      by_cases hempty : (ownColumns env m p f).isEmpty = true
      · rw [if_pos hempty]
        exact h f hempty
      · rw [if_neg hempty]

structure Moved (env : Around) (rows : List StaticAssignment) (m₀ : State) (done : List Mover)
    (m : State) : Prop where
  landed : ∀ before p after, done = before ++ p :: after → ∃ i row,
    m.rows.lookup (env.subnetId, p.2.ipAddress) = some (i, row) ∧
      row.staticAssignmentId = some p.1.id ∧ row.status = .staticDhcp ∧
      row.operator = settledColumns env m₀ before p ∧ m.links p.1.id = some i
  left : ∀ ip ∈ oldIps done, ip ∉ newIps done → Vacant (m.rows.lookup (env.subnetId, ip))
  elsewhere : ∀ k : Nat × Ip, (k.1 = env.subnetId → k.2 ∉ oldIps done ∧ k.2 ∉ newIps done) →
    m.rows.lookup k = m₀.rows.lookup k
  restored : ∀ st ∈ rows, m.snapshots st.id = none
  links : ∀ id ∉ done.map (fun p => p.1.id), m.links id = m₀.links id

theorem Moved.nil {rows : List StaticAssignment} (h : Mirrored env rows m) :
    Moved env rows m [] m where
  landed := fun before p after heq => by simp at heq
  left := fun ip hip => absurd hip List.not_mem_nil
  elsewhere := fun _ _ => rfl
  restored := h.restored
  links := fun _ _ => rfl

variable {rows : List StaticAssignment} {m₀ : State} {done : List Mover} {p : Mover}

theorem Moved.row_cases (h : Moved env rows m₀ done m) {k : Nat × Ip} {row : IpAddress}
    (hrow : m.rows.lookup k = some (i, row)) (hid : row.staticAssignmentId = some id) :
    (∃ q ∈ done, k = (env.subnetId, q.2.ipAddress) ∧ q.1.id = id) ∨
      ((k.1 = env.subnetId → k.2 ∉ oldIps done ∧ k.2 ∉ newIps done) ∧
        m₀.rows.lookup k = some (i, row)) := by
  obtain ⟨subnet, ip⟩ := k
  by_cases hsame : subnet = env.subnetId
  · subst hsame
    by_cases hnew : ip ∈ newIps done
    · obtain ⟨q, hq, rfl⟩ := List.mem_map.mp hnew
      obtain ⟨before, after, hsplit⟩ := List.append_of_mem hq
      obtain ⟨j, r, hr, hrid, -⟩ := h.landed before q after hsplit
      cases hr.symm.trans hrow
      exact .inl ⟨q, hq, rfl, Option.some.inj (hrid.symm.trans hid)⟩
    · by_cases hold : ip ∈ oldIps done
      · rw [(h.left ip hold hnew i row hrow).1] at hid
        cases hid
      · have houtside : env.subnetId = env.subnetId → ip ∉ oldIps done ∧ ip ∉ newIps done :=
          fun _ => ⟨hold, hnew⟩
        exact .inr ⟨houtside, (h.elsewhere _ houtside).symm.trans hrow⟩
  · have houtside : subnet = env.subnetId → ip ∉ oldIps done ∧ ip ∉ newIps done :=
      fun heq => absurd heq hsame
    exact .inr ⟨houtside, (h.elsewhere _ houtside).symm.trans hrow⟩

theorem Moved.columnsAt_new (h : Moved env rows m₀ done m) (hnew : p.2.ipAddress ∉ newIps done) :
    m.columnsAt (env.subnetId, p.2.ipAddress) = standing env m₀ done p := by
  rw [standing]
  by_cases hold : p.2.ipAddress ∈ oldIps done
  · rw [if_pos hold, State.columnsAt]
    cases hrow : m.rows.lookup (env.subnetId, p.2.ipAddress) with
    | none => rfl
    | some r => exact (h.left _ hold hnew r.1 r.2 hrow).2
  · rw [if_neg hold, State.columnsAt, State.columnsAt, h.elsewhere _ fun _ => ⟨hold, hnew⟩]

/-- A mover that comes after others: it has not moved, and neither its addresses clash with theirs
nor with each other. -/
structure Next (rows : List StaticAssignment) (done : List Mover) (p : Mover) : Prop where
  mem : p.1 ∈ rows
  fresh : p.1.id ∉ done.map fun q => q.1.id
  old : p.1.ipAddress ∉ oldIps done
  new : p.2.ipAddress ∉ newIps done
  moves : p.1.ipAddress ≠ p.2.ipAddress

theorem Moved.release (h : Moved env rows m₀ done m) (hm : Mirrored env rows m₀)
    (hp : Next rows done p) (hip : st.ipAddress = p.2.ipAddress) (hid : st.id = p.1.id) :
    (p.1.ipAddress ∈ newIps done ∧
      (m.lockStaticRows st.id).foldl (State.leaveRow env st) m = m) ∨
    (p.1.ipAddress ∉ newIps done ∧ ∃ i row, m.rows.lookup row.key = some (i, row) ∧
      row.key = (env.subnetId, p.1.ipAddress) ∧ row.operator = ownColumns env m₀ p ∧
      (∀ f : OperatorField, f.Admits (row.operator f)) ∧
      (m.lockStaticRows st.id).foldl (State.leaveRow env st) m =
        m.releaseMovedRow env (i, row) st.id) := by
  obtain ⟨i, row, hrow, hrowId, hstatus, -⟩ := hm.mirror p.1 hp.mem
  -- a row of the reservation is the one it had, which no one has taken
  have hlinked : ∀ k j r, m.rows.lookup k = some (j, r) → r.staticAssignmentId = some st.id →
      k = (env.subnetId, p.1.ipAddress) ∧ p.1.ipAddress ∉ newIps done := by
    intro k j r hr hrid
    rw [hid] at hrid
    rcases h.row_cases hr hrid with ⟨q, hq, -, hqid⟩ | ⟨houtside, hr₀⟩
    · exact absurd (List.mem_map.mpr ⟨q, hq, hqid⟩) hp.fresh
    · obtain rfl := hm.only p.1 hp.mem k j r hr₀ hrid
      exact ⟨rfl, (houtside rfl).2⟩
  by_cases htaken : p.1.ipAddress ∈ newIps done
  · refine .inl ⟨htaken, ?_⟩
    rw [lockStaticRows_eq_nil fun k j r hr hrid => absurd htaken (hlinked k j r hr hrid).2]
    rfl
  · have hkey : row.key = (env.subnetId, p.1.ipAddress) := (KeyedTable.lookup_eq_some.mp hrow).2
    have hsame : m.rows.lookup (env.subnetId, p.1.ipAddress) = some (i, row) :=
      (h.elsewhere _ fun _ => ⟨hp.old, htaken⟩).trans hrow
    have haddress : row.address ≠ st.ipAddress := by
      rw [hip]
      exact fun heq => hp.moves ((congrArg Prod.snd hkey).symm.trans heq)
    refine .inr ⟨htaken, i, row, hkey ▸ hsame, hkey, ?_, hm.typed _ i row hrow, ?_⟩
    · rw [ownColumns, State.columnsAt, hrow]
      rfl
    · rw [lockStaticRows_eq_singleton hsame (hid ▸ hrowId) fun k j r hr hrid =>
        (hlinked k j r hr hrid).1]
      change State.leaveRow env st m (i, row) = _
      rw [State.leaveRow, if_neg haddress, if_pos hstatus]

theorem deleteMirrorRow_snapshots (row : Nat × IpAddress) (h : m.snapshots id = none) :
    (m.deleteMirrorRow row id).snapshots id = snapshotOperatorFields row.2.operator ∧
      ∀ other, other ≠ id → (m.deleteMirrorRow row id).snapshots other = m.snapshots other := by
  rw [State.deleteMirrorRow]
  dsimp only
  cases snapshotOperatorFields row.2.operator with
  | none => exact ⟨h, fun _ _ => rfl⟩
  | some snapshot =>
    exact ⟨Function.update_self .., fun other hother => Function.update_of_ne hother ..⟩

theorem deleteMirrorRow_links {other : Nat} (h : other ≠ id) :
    (m.deleteMirrorRow row id).links other = m.links other := by
  rw [State.deleteMirrorRow]
  dsimp only
  split
  · exact Function.update_of_ne h ..
  · rfl

/-- What the rows are before the next reservation takes its own: where it was there is nothing of
anybody's, and its columns are as `snapshot` has them. -/
structure Released (env : Around) (m : State) (p : Mover) (taken : Prop)
    (own : Columns) (m' : State) : Prop where
  left : ¬ taken → Vacant (m'.rows.lookup (env.subnetId, p.1.ipAddress))
  elsewhere : ∀ k, (taken ∨ k ≠ (env.subnetId, p.1.ipAddress)) →
    m'.rows.lookup k = m.rows.lookup k
  kept : m'.snapshots p.1.id = none ∧ taken ∨
    m'.snapshots p.1.id = snapshotOperatorFields own ∧ ¬ taken
  snapshots : ∀ id, id ≠ p.1.id → m'.snapshots id = m.snapshots id
  links : ∀ id, id ≠ p.1.id → m'.links id = m.links id

theorem Moved.released (h : Moved env rows m₀ done m) (hm : Mirrored env rows m₀)
    (hp : Next rows done p) (hip : st.ipAddress = p.2.ipAddress) (hid : st.id = p.1.id) :
    Released env m p (p.1.ipAddress ∈ newIps done) (ownColumns env m₀ p)
      ((m.lockStaticRows st.id).foldl (State.leaveRow env st) m) := by
  have hnone := h.restored p.1 hp.mem
  rcases h.release hm hp hip hid with ⟨htaken, heq⟩ | ⟨hfree, i, row, hrow, hkey, hown, -, heq⟩
  · rw [heq]
    exact ⟨fun hnot => absurd htaken hnot, fun _ _ => rfl, .inl ⟨hnone, htaken⟩, fun _ _ => rfl,
      fun _ _ => rfl⟩
  · obtain ⟨hvacant, hother, hsnapshots, hlinks⟩ := releaseMovedRow_spec env p.1.id hrow
    obtain ⟨hkept, hkeeps⟩ := deleteMirrorRow_snapshots (i, row) hnone
    rw [heq, hid]
    refine ⟨fun _ => hkey ▸ hvacant, fun k hk => hother k ?_, .inr ⟨?_, hfree⟩, ?_, ?_⟩
    · rw [hkey]
      exact hk.resolve_left hfree
    · rw [hsnapshots, hkept, hown]
    · intro other hother
      rw [hsnapshots]
      exact hkeeps other hother
    · intro other hother
      rw [hlinks]
      exact deleteMirrorRow_links hother

theorem ownColumns_admits (hm : Mirrored env rows m₀) (hp : p.1 ∈ rows) (f : OperatorField) :
    f.Admits (ownColumns env m₀ p f) := by
  obtain ⟨i, row, hrow, -⟩ := hm.mirror p.1 hp
  rw [ownColumns, State.columnsAt, hrow]
  exact hm.typed _ i row hrow f

theorem oldIps_append (movers : List Mover) (p : Mover) :
    oldIps (movers ++ [p]) = oldIps movers ++ [p.1.ipAddress] := by
  rw [oldIps, List.map_append, List.map_singleton, oldIps]

theorem newIps_append (movers : List Mover) (p : Mover) :
    newIps (movers ++ [p]) = newIps movers ++ [p.2.ipAddress] := by
  rw [newIps, List.map_append, List.map_singleton, newIps]

theorem append_singleton_split {α : Type} {xs before after : List α} {x y : α}
    (h : xs ++ [y] = before ++ x :: after) :
    (x = y ∧ before = xs ∧ after = []) ∨ ∃ rest, after = rest ++ [y] ∧ xs = before ++ x :: rest := by
  rcases List.eq_nil_or_concat after with rfl | ⟨rest, z, rfl⟩
  · obtain ⟨hxs, hy⟩ := List.append_inj' h rfl
    exact .inl ⟨(List.cons.inj hy).1.symm, hxs.symm, rfl⟩
  · rw [List.concat_eq_append, ← List.cons_append, ← List.append_assoc] at h
    obtain ⟨hxs, hy⟩ := List.append_inj' h rfl
    obtain rfl := (List.cons.inj hy).1
    exact .inr ⟨rest, List.concat_eq_append, hxs⟩

theorem Moved.upsert (h : Moved env rows m₀ done m) (hm : Mirrored env rows m₀)
    (hp : Next rows done p) (hip : st.ipAddress = p.2.ipAddress) (hid : st.id = p.1.id) :
    Moved env rows m₀ (done ++ [p]) (m.upsertIpamForStatic env st) := by
  have hrel := h.released hm hp hip hid
  rw [State.upsertIpamForStatic]
  generalize (m.lockStaticRows st.id).foldl (State.leaveRow env st) m = m' at hrel
  obtain ⟨i, base, hrow, hbase, hlink, hother, hsnapshots, hlinks⟩ := takeRow_spec env m' st
  rw [hip] at hrow hbase hother
  rw [hid] at hrow hlink hsnapshots hlinks
  have hne : ((env.subnetId, p.2.ipAddress) : Nat × Ip) ≠ (env.subnetId, p.1.ipAddress) :=
    fun heq => hp.moves (congrArg Prod.snd heq).symm
  have hthere : base.operator = standing env m₀ done p := by
    rw [hbase, State.columnsAt, hrel.elsewhere _ (.inr hne)]
    exact h.columnsAt_new hp.new
  refine ⟨?_, ?_, ?_, ?_, ?_⟩
  · intro before q after hsplit
    rcases append_singleton_split hsplit with ⟨rfl, rfl, rfl⟩ | ⟨rest, rfl, hdone⟩
    · refine ⟨i, _, hrow, congrArg some hid, rfl, ?_, hlink⟩
      change (match m'.snapshots q.1.id with
        | some snapshot => restoreOperatorFields base.operator snapshot
        | none => base.operator) = _
      rw [settledColumns]
      rcases hrel.kept with ⟨hnone, htaken⟩ | ⟨hsome, hfree⟩
      · rw [hnone, if_pos htaken]
        exact hthere
      · rw [hsome, if_neg hfree, restore_snapshot (ownColumns_admits hm hp.mem), hthere]
    · obtain ⟨j, r, hr, hrid, hstatus, hcolumns, hrlink⟩ := h.landed before q rest hdone
      have hqmem : q ∈ done := hdone ▸ List.mem_append_right _ List.mem_cons_self
      have hkey : ((env.subnetId, q.2.ipAddress) : Nat × Ip) ≠ (env.subnetId, p.2.ipAddress) :=
        fun heq => hp.new (List.mem_map.mpr ⟨q, hqmem, congrArg Prod.snd heq⟩)
      have hqold : p.1.ipAddress ∈ newIps done ∨
          ((env.subnetId, q.2.ipAddress) : Nat × Ip) ≠ (env.subnetId, p.1.ipAddress) := by
        by_cases heq : q.2.ipAddress = p.1.ipAddress
        · exact .inl (List.mem_map.mpr ⟨q, hqmem, heq⟩)
        · exact .inr fun hpair => heq (congrArg Prod.snd hpair)
      have hqid : q.1.id ≠ p.1.id := fun heq => hp.fresh (List.mem_map.mpr ⟨q, hqmem, heq⟩)
      refine ⟨j, r, ?_, hrid, hstatus, hcolumns, ?_⟩
      · rw [hother _ hkey, hrel.elsewhere _ hqold, hr]
      · rw [hlinks _ hqid, hrel.links _ hqid, hrlink]
  · intro ip hold hnew
    rw [oldIps_append, List.mem_append, List.mem_singleton] at hold
    rw [newIps_append, List.mem_append, List.mem_singleton, not_or] at hnew
    rw [hother _ fun heq => hnew.2 (congrArg Prod.snd heq)]
    by_cases hown : ip = p.1.ipAddress
    · subst hown
      exact hrel.left hnew.1
    · rw [hrel.elsewhere _ (.inr fun heq => hown (congrArg Prod.snd heq))]
      exact h.left ip (hold.resolve_right hown) hnew.1
  · intro k hk
    have hdone : k.1 = env.subnetId → k.2 ∉ oldIps done ∧ k.2 ∉ newIps done := by
      intro hsubnet
      obtain ⟨hold, hnew⟩ := hk hsubnet
      rw [oldIps_append, List.mem_append, not_or] at hold
      rw [newIps_append, List.mem_append, not_or] at hnew
      exact ⟨hold.1, hnew.1⟩
    have hkold : k ≠ (env.subnetId, p.1.ipAddress) := by
      rintro rfl
      refine (hk rfl).1 ?_
      rw [oldIps_append]
      exact List.mem_append_right _ (List.mem_singleton_self _)
    have hknew : k ≠ (env.subnetId, p.2.ipAddress) := by
      rintro rfl
      refine (hk rfl).2 ?_
      rw [newIps_append]
      exact List.mem_append_right _ (List.mem_singleton_self _)
    rw [hother k hknew, hrel.elsewhere k (.inr hkold), h.elsewhere k hdone]
  · intro r hr
    rw [hsnapshots]
    by_cases hsame : r.id = p.1.id
    · rw [hsame, Function.update_self]
    · rw [Function.update_of_ne hsame, hrel.snapshots _ hsame, h.restored r hr]
  · intro id hfresh
    rw [List.map_append, List.mem_append, List.map_singleton, List.mem_singleton, not_or] at hfresh
    rw [hlinks _ hfresh.2, hrel.links _ hfresh.2, h.links _ hfresh.1]

end SpatiumDdi.Dhcp.StaticMirror
