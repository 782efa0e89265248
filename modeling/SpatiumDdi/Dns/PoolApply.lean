import Mathlib.Data.List.Nodup
import Mathlib.Data.List.Pairwise

/-!
`apply_pool_state`: the records of a DNS pool brought in line with its members, one member after
the other, and the operations that each change queues. Beside it stands a server that takes the
operations in order: a `delete_value` removes one value, an `add` adds one, and an operation that
carries an RRset replaces the set.

Serials and the counts that the pass returns are left out.
-/

namespace SpatiumDdi.Dns.PoolApply

inductive CheckState where
  | unknown
  | healthy
  | unhealthy
deriving DecidableEq

inductive RecordType where
  | a
  | aaaa
deriving DecidableEq

structure Member where
  id : Nat
  address : String
  enabled : Bool
  lastCheckState : Option CheckState
deriving DecidableEq

structure Pool where
  recordName : String
  recordType : RecordType
  ttl : Nat
  enabled : Bool
  members : List Member
deriving DecidableEq

structure Record where
  name : String
  fqdn : String
  type : RecordType
  value : String
  ttl : Nat
  poolMemberId : Option Nat
deriving DecidableEq

inductive OpKind where
  | create
  | update
  | delete
deriving DecidableEq

inductive RrsetAction where
  | add
  | deleteValue
deriving DecidableEq

/-- The complete set an operation leaves at its name. -/
structure Rrset where
  ttl : Nat
  members : List String
deriving DecidableEq

structure Op where
  op : OpKind
  name : String
  type : RecordType
  value : String
  ttl : Nat
  rrsetAction : Option RrsetAction
  rrset : Option Rrset := none
deriving DecidableEq

abbrev Key := String × RecordType

/-- `rrset_key`: names are compared without their case. -/
def rrsetKey (name : String) (type : RecordType) : Key := (name.toLower, type)

def Record.key (r : Record) : Key := rrsetKey r.name r.type

def Pool.key (pool : Pool) : Key := rrsetKey pool.recordName pool.recordType

def membersAt (records : List Record) (key : Key) : List (String × Nat) :=
  (records.filter (·.key = key)).map fun r => (r.value, r.ttl)

/-- `_fold`, for an operation that is no delete: its value is there exactly once. -/
def fold (op : Op) (members : List (String × Nat)) : List (String × Nat) :=
  (members.filter (·.1 ≠ op.value)) ++ [(op.value, op.ttl)]

/-- `_rrset_payload`: the lowest TTL is the set's. -/
def rrsetPayload (members : List (String × Nat)) : Rrset where
  ttl := (members.map Prod.snd).min?.getD 0
  members := (members.map Prod.fst).eraseDups

/-- An operation that says itself what it does to the set is left alone. -/
def stamp (records : List Record) (op : Op) : Op :=
  match op.rrsetAction with
  | some _ => op
  | none =>
    { op with rrset := some (rrsetPayload (fold op (membersAt records (rrsetKey op.name op.type)))) }

def Pool.shouldRender (pool : Pool) (m : Member) : Bool :=
  pool.enabled && m.enabled && m.lastCheckState.getD .unknown = .healthy

def fqdn (zoneName name : String) : String :=
  if name = "@" then zoneName else name ++ "." ++ zoneName

def Pool.record (zoneName : String) (pool : Pool) (m : Member) : Record where
  name := pool.recordName
  fqdn := fqdn zoneName pool.recordName
  type := pool.recordType
  value := m.address
  ttl := pool.ttl
  poolMemberId := some m.id

def deleteOp (r : Record) : Op where
  op := .delete
  name := r.name
  type := r.type
  value := r.value
  ttl := r.ttl
  rrsetAction := some .deleteValue

/-- `_record_payload`, as the operation that ships it. -/
def createOp (pool : Pool) (m : Member) : Op where
  op := .create
  name := pool.recordName
  type := pool.recordType
  value := m.address
  ttl := pool.ttl
  rrsetAction := some .add

/-- The records of a zone and what is queued for its servers, as a pass goes. -/
structure State where
  records : List Record
  ops : List Op := []
  ttlChanged : Option Member := none

def State.modify (s : State) (id : Nat) (f : Record → Record) : State :=
  { s with records := s.records.map fun r => if r.poolMemberId = some id then f r else r }

def State.deleteRecord (s : State) (r : Record) : State :=
  { s with
    records := s.records.filter (·.poolMemberId ≠ r.poolMemberId)
    ops := s.ops ++ [deleteOp r] }

def State.enqueue (s : State) (op : Op) : State := { s with ops := s.ops ++ [stamp s.records op] }

/-- `existing_by_member`, before the pass. -/
def existing (records : List Record) (id : Nat) : Option Record :=
  (records.filter (·.poolMemberId = some id)).getLast?

/-- One member of the pool, whose record before the pass was `rec`. -/
def applyMember (zoneName : String) (pool : Pool) (rec : Option Record) (s : State) (m : Member) :
    State :=
  match pool.shouldRender m, rec with
  | true, none =>
    { s with
      records := s.records ++ [pool.record zoneName m]
      ops := s.ops ++ [createOp pool m] }
  | false, none => s
  | false, some rec => s.deleteRecord rec
  | true, some rec =>
    if rec.value ≠ m.address then
      -- The record keeps its name and type, whatever the pool's are.
      let s := { s with ops := s.ops ++ [deleteOp rec] }
      let s := s.modify m.id fun r => { r with value := m.address, ttl := pool.ttl }
      { s with ops := s.ops ++ [createOp pool m] }
    else if rec.name ≠ pool.recordName ∨ rec.type ≠ pool.recordType then
      let s := { s with ops := s.ops ++ [deleteOp rec] }
      let s := s.modify m.id fun r =>
        { r with
          name := pool.recordName
          type := pool.recordType
          fqdn := fqdn zoneName pool.recordName
          ttl := pool.ttl }
      { s with ops := s.ops ++ [createOp pool m] }
    else if rec.ttl ≠ pool.ttl then
      { s.modify m.id (fun r => { r with ttl := pool.ttl }) with ttlChanged := some m }
    else s

def orphans (pool : Pool) (memberRows : List Nat) (records : List Record) : List Record :=
  records.filter fun r =>
    r.poolMemberId.any fun id => id ∈ memberRows && id ∉ pool.members.map Member.id

/-- The one operation for a TTL that changed: no `rrset_action`, so it carries the set. -/
def ttlOp (pool : Pool) (m : Member) : Op :=
  { createOp pool m with op := .update, rrsetAction := none }

/-- `apply_pool_state`. `memberRows` are the members of the pool in the database, those about to
be deleted among them. -/
def applyPoolState (zoneName : String) (pool : Pool) (memberRows : List Nat)
    (records : List Record) : State :=
  let s := (orphans pool memberRows records).foldl State.deleteRecord { records }
  let s := pool.members.foldl
    (fun s m => applyMember zoneName pool (existing records m.id) s m) s
  match s.ttlChanged with
  | none => s
  | some m => s.enqueue (ttlOp pool m)

/-- The values a server has at a name, each with its TTL. -/
abbrev Served := Key → List (String × Nat)

def serve (s : Served) (op : Op) : Served :=
  let key := rrsetKey op.name op.type
  match op.rrset, op.rrsetAction with
  | some rrset, _ => Function.update s key (rrset.members.map (·, rrset.ttl))
  | none, some .deleteValue => Function.update s key ((s key).filter (·.1 ≠ op.value))
  | none, some .add =>
    Function.update s key ((s key).filter (·.1 ≠ op.value) ++ [(op.value, op.ttl)])
  | none, none => s

def serveAll (s : Served) (ops : List Op) : Served := ops.foldl serve s

def Serves (s : Served) (records : List Record) (key : Key) : Prop :=
  ∀ v t, (v, t) ∈ s key ↔ ∃ r ∈ records, r.key = key ∧ r.value = v ∧ r.ttl = t

/-- One record for each member that renders and none for any other: exactly the pool's. -/
def Desired (zoneName : String) (pool : Pool) (memberRows : List Nat) (records : List Record) :
    Prop :=
  ∀ id ∈ memberRows, records.filter (·.poolMemberId = some id) =
    (((pool.members.find? (·.id = id)).filter (pool.shouldRender ·)).map
      (pool.record zoneName)).toList

/-- What an operation does to a value at a name: nothing, or it takes it, or gives it a TTL. -/
def touch (key : Key) (v : String) (op : Op) : Option (Option Nat) :=
  if rrsetKey op.name op.type = key ∧ op.value = v then
    match op.rrsetAction with
    | some .add => some (some op.ttl)
    | some .deleteValue => some none
    | none => none
  else none

theorem mem_serve {s : Served} {op : Op} (hset : op.rrset = none) (key : Key) (v : String)
    (t : Nat) : (v, t) ∈ serve s op key ↔
      (touch key v op).elim ((v, t) ∈ s key) (· = some t) := by
  unfold serve touch
  rw [hset]
  by_cases hkey : rrsetKey op.name op.type = key
  · subst hkey
    by_cases hv : op.value = v
    · subst hv
      cases op.rrsetAction with
      | none => simp
      | some action => cases action <;> simp [eq_comm]
    · cases op.rrsetAction with
      | none => simp [hv]
      | some action => cases action <;> simp [hv, Ne.symm hv]
  · have hother : ∀ l, Function.update s (rrsetKey op.name op.type) l key = s key := fun l =>
      Function.update_of_ne (Ne.symm hkey) l s
    cases op.rrsetAction with
    | none => simp [hkey]
    | some action => cases action <;> simp [hkey, hother]

theorem mem_serveAll {s : Served} {ops : List Op} (hset : ∀ op ∈ ops, op.rrset = none) (key : Key)
    (v : String) (t : Nat) : (v, t) ∈ serveAll s ops key ↔
      (ops.filterMap (touch key v)).getLast?.elim ((v, t) ∈ s key) (· = some t) := by
  induction ops generalizing s with
  | nil => rfl
  | cons op ops ih =>
    have hrest := ih (s := serve s op) fun op' h => hset op' (List.mem_cons_of_mem _ h)
    rw [serveAll, List.foldl_cons]
    rw [serveAll] at hrest
    rw [hrest, mem_serve (hset op (by simp))]
    cases htouch : touch key v op with
    | none => simp [htouch]
    | some o =>
      rw [List.filterMap_cons, htouch]
      cases hlast : (ops.filterMap (touch key v)).getLast? with
      | none => simp [List.getLast?_eq_none_iff.mp hlast]
      | some o' => simp [List.getLast?_cons, hlast]

end SpatiumDdi.Dns.PoolApply
