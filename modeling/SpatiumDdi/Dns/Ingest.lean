import Mathlib.Data.List.Nodup
import SpatiumDdi.Lib.Runs
import SpatiumDdi.Lib.Text

/-!
The records that an external writer puts on the servers of a dynamic zone
(`services/dns/ingest.py`). Each server reports what it holds; a report is read as a change since
the same server's previous one, mirrored, and sent to the others as one op for each value.
-/

namespace SpatiumDdi.Dns.Ingest

/-- One record read off a live zone. The name is relative, `@` at the apex. -/
structure IncomingRecord where
  name : String
  recordType : String
  value : String
  ttl : Option ℕ
  priority : Option ℕ
  weight : Option ℕ
  port : Option ℕ
  name_ne : name ≠ ""

structure Key where
  name : String
  recordType : String
  value : String
  deriving DecidableEq

def key (r : IncomingRecord) : Key :=
  ⟨r.name.toLower, r.recordType.toUpper, Text.strip r.value⟩

def nt (k : Key) : String × String :=
  (if k.name = "" then "@" else k.name, k.recordType)

def ignoredTypes : List String :=
  ["SOA", "RRSIG", "NSEC", "NSEC3", "NSEC3PARAM", "DNSKEY", "CDS", "CDNSKEY", "TYPE65534"]

def isApexNs (name recordType : String) : Bool :=
  recordType.toUpper == "NS" && (name == "@" || name == "")

def isPlaceholderGlue (name recordType value : String) : Bool :=
  name.toLower == "ns1" && recordType.toUpper == "A" && Text.strip value == "127.0.0.1"

structure Zone where
  /-- The names and types of the rows that are no mirror, folded. -/
  managedNt : List (String × String)
  /-- `_placeholder_glue_in_use`. -/
  placeholderInUse : Bool

def Zone.ignores (zone : Zone) (r : IncomingRecord) : Bool :=
  ignoredTypes.contains r.recordType.toUpper || isApexNs r.name r.recordType.toUpper ||
    zone.placeholderInUse && isPlaceholderGlue r.name r.recordType.toUpper r.value

def Zone.manages (zone : Zone) (r : IncomingRecord) : Bool :=
  zone.managedNt.contains (r.name.toLower, r.recordType.toUpper)

def Zone.learns (zone : Zone) (r : IncomingRecord) : Bool :=
  !zone.ignores r && !zone.manages r

def setdefault (desired : List IncomingRecord) (r : IncomingRecord) : List IncomingRecord :=
  if desired.any (key · == key r) then desired else desired ++ [r]

/-- What the server holds, after the daemon-owned and managed-name filters. -/
def Zone.desired (zone : Zone) (incoming : List IncomingRecord) : List IncomingRecord :=
  (incoming.filter zone.learns).foldl setdefault []

inductive RecordOp where
  | create
  | delete
  deriving DecidableEq

inductive RrsetAction where
  | add
  | deleteValue

structure LearnedOp where
  op : RecordOp
  record : IncomingRecord
  rrsetAction : RrsetAction

/-- `learned_record_op`: it adds or removes exactly this value. -/
def learnedRecordOp (op : RecordOp) (r : IncomingRecord) : LearnedOp where
  op := op
  record := r
  rrsetAction := if op = .create then .add else .deleteValue

inductive OpState where
  | queued
  | applied (appliedAt : ℕ)
  | failed (updatedAt : ℕ)
  deriving DecidableEq

structure OpRow where
  op : LearnedOp
  /-- The op carries the whole RRset of its name and type. -/
  rrset : Bool
  state : OpState
  /-- The op took effect on the server, which may not have said so yet. -/
  landed : Bool

def second : ℕ := 1000000

def opAttributionSlack : ℕ := 60 * second
def failedOpBackoff : ℕ := 6 * 3600 * second

/-- The agent gives up a transfer and a POST after 20 s each. -/
def reportTimeout : ℕ := 40 * second

def OpRow.touches (op : OpRow) (k : Key) : Bool :=
  nt (key op.op.record) = nt k && (op.rrset || (key op.op.record).value = k.value)

/-- `ServerOps.explains`, of one op: it is queued, or was applied since the previous report. -/
def OpRow.explains (reportedAt : Option ℕ) (k : Key) (op : OpRow) : Bool :=
  op.touches k && match op.state with
    | .queued => true
    | .applied appliedAt => reportedAt.any (· ≤ appliedAt + opAttributionSlack)
    | .failed _ => false

/-- `ServerOps.blocks_correction`, of one op: it is queued, or failed a short while ago. -/
def OpRow.blocksCorrection (now : ℕ) (k : Key) (op : OpRow) : Bool :=
  op.touches k && match op.state with
    | .queued => true
    | .applied _ => false
    | .failed updatedAt => now ≤ updatedAt + failedOpBackoff

/-- `DNSIngestSnapshot`: the previous report of a server. -/
structure Snapshot where
  recordKeys : List Key
  reportedAt : ℕ

structure IngestResult where
  added : ℕ := 0
  removed : ℕ := 0
  skippedManaged : ℕ := 0
  skippedIgnored : ℕ := 0
  peerOps : ℕ := 0
  corrections : ℕ := 0
  deferred : ℕ := 0

/-- What a report writes: the mirror rows, the server's snapshot, and the ops it queues. -/
structure Pass where
  mirror : List IncomingRecord
  snapshot : Option Snapshot
  peerOps : List LearnedOp
  selfOps : List LearnedOp
  result : IngestResult

structure Report where
  now : ℕ
  managedNt : List (String × String)
  ops : List OpRow
  snapshot : Option Snapshot
  mirror : List IncomingRecord
  desired : List IncomingRecord

def Report.current (rep : Report) : List Key := rep.desired.map key
def Report.previous (rep : Report) : List Key := (rep.snapshot.map (·.recordKeys)).getD []
def Report.mirrored (rep : Report) : List Key := rep.mirror.map key

def Report.explains (rep : Report) (k : Key) : Bool :=
  rep.ops.any (·.explains (rep.snapshot.map (·.reportedAt)) k)

def Report.blocksCorrection (rep : Report) (k : Key) : Bool :=
  rep.ops.any (·.blocksCorrection rep.now k)

/-- Appeared on this server since its last report. -/
def Report.appeared (rep : Report) : List IncomingRecord :=
  rep.desired.filter fun r => !rep.previous.contains (key r) && !rep.mirrored.contains (key r)

/-- Vanished from this server since its last report. Shadowed mirrors are dropped below. -/
def Report.vanished (rep : Report) : List IncomingRecord :=
  rep.mirror.filter fun row => rep.previous.contains (key row) && !rep.current.contains (key row) &&
    !rep.managedNt.contains (nt (key row))

def Report.added (rep : Report) : List IncomingRecord :=
  rep.appeared.filter fun r => !rep.explains (key r)

def Report.withdrawn (rep : Report) : List IncomingRecord :=
  rep.vanished.filter fun r => !rep.explains (key r)

/-- Appeared, and an op explains it: it is looked at again with the next report. -/
def Report.notYet (rep : Report) : List IncomingRecord :=
  rep.appeared.filter fun r => rep.explains (key r)

/-- Vanished, and an op explains it: it counts as held until the next report decides. -/
def Report.stillHeld (rep : Report) : List IncomingRecord :=
  rep.vanished.filter fun r => rep.explains (key r)

/-- The mirror rows the report leaves, without those it adds. A managed name costs no op. -/
def Report.kept (rep : Report) : List IncomingRecord :=
  rep.mirror.filter fun row =>
    !(rep.withdrawn.map key).contains (key row) && !rep.managedNt.contains (nt (key row))

/-- The server lacks a mirrored value that it never reported, or holds one whose mirror is gone. -/
def Report.corrections (rep : Report) : List LearnedOp :=
  ((rep.kept.filter fun row => !rep.current.contains (key row) &&
      !rep.previous.contains (key row) && !rep.blocksCorrection (key row)).map
    (learnedRecordOp .create)) ++
  ((rep.desired.filter fun r => rep.previous.contains (key r) &&
      !(rep.kept.map key).contains (key r) && !rep.blocksCorrection (key r)).map
    (learnedRecordOp .delete))

/-- What becomes the stored snapshot. -/
def Report.carried (rep : Report) : List Key :=
  (rep.current.filter fun k => !(rep.notYet.map key).contains k) ++ rep.stillHeld.map key

def transitionReconcile (rep : Report) : Pass :=
  let peerOps := rep.withdrawn.map (learnedRecordOp .delete) ++
    rep.added.map (learnedRecordOp .create)
  { mirror := rep.kept ++ rep.added
    snapshot := some ⟨rep.carried, rep.now⟩
    peerOps := peerOps
    selfOps := rep.corrections
    result :=
      { added := rep.added.length
        removed := rep.mirror.length - rep.kept.length
        peerOps := peerOps.length
        corrections := rep.corrections.length
        deferred := rep.notYet.length + rep.stillHeld.length } }

/-- `_full_reconcile` and `_save_snapshot`: the report of a server with no peers is the truth. -/
def fullReconcile (rep : Report) : Pass :=
  let added := rep.desired.filter fun r => !rep.mirrored.contains (key r)
  let kept := rep.mirror.filter fun row => rep.current.contains (key row)
  { mirror := kept ++ added
    snapshot := some ⟨rep.current, rep.now⟩
    peerOps := []
    selfOps := []
    result := { added := added.length, removed := rep.mirror.length - kept.length } }

structure Reading where
  readAt : ℕ
  records : List IncomingRecord

structure Server where
  enabled : Bool
  held : List IncomingRecord
  reading : Option Reading
  snapshot : Option Snapshot
  ops : List OpRow

structure Posted where
  postedAt : ℕ
  readAt : ℕ
  keys : List Key
  /-- The values that no op explained. -/
  unexplained : List Key
  result : IngestResult

/-- The zone, its mirror rows and the servers. The reports posted are kept for the statements only,
the latest first. -/
structure State (ι : Type) where
  now : ℕ
  zone : Zone
  mirror : List IncomingRecord
  server : ι → Server
  posted : ι → List Posted

variable {ι : Type} [DecidableEq ι] {records desired : List IncomingRecord} {k : Key}

def State.peers (s : State ι) (group : List ι) (i : ι) : List ι :=
  group.filter fun j => (s.server j).enabled && j ≠ i

def Server.enqueue (server : Server) (ops : List LearnedOp) : Server :=
  { server with ops := server.ops ++ ops.map (⟨·, false, .queued, false⟩) }

def State.report (s : State ι) (i : ι) (records : List IncomingRecord) : Report where
  now := s.now
  managedNt := s.zone.managedNt
  ops := (s.server i).ops
  snapshot := (s.server i).snapshot
  mirror := s.mirror
  desired := s.zone.desired records

/-- `reconcile_external_records`, with what it skips counted. -/
def State.pass (s : State ι) (group : List ι) (i : ι) (records : List IncomingRecord) : Pass :=
  let rep := s.report i records
  let pass :=
    if s.peers group i = [] then fullReconcile rep
    -- A paused server does not drive the mirror, and its snapshot stays as it was.
    else if (s.server i).enabled = false then ⟨s.mirror, (s.server i).snapshot, [], [], {}⟩
    else transitionReconcile rep
  { pass with
    result := { pass.result with
      skippedIgnored := records.countP s.zone.ignores
      skippedManaged := records.countP fun r => !s.zone.ignores r && s.zone.manages r } }

/-- The servers after a report: the reporter's peers get `peerOps`, the reporter `selfOps`. -/
def State.receive (s : State ι) (group : List ι) (i : ι) (pass : Pass) (j : ι) : Server :=
  if j = i then
    { (s.server i).enqueue (if (s.server i).enabled then pass.selfOps else []) with
      reading := none
      snapshot := pass.snapshot }
  else if j ∈ s.peers group i then (s.server j).enqueue pass.peerOps
  else s.server j

def State.post (s : State ι) (group : List ι) (i : ι) (reading : Reading) : State ι :=
  let pass := s.pass group i reading.records
  let rep := s.report i reading.records
  { s with
    mirror := pass.mirror
    server := s.receive group i pass
    posted := Function.update s.posted i
      ({ postedAt := s.now
         readAt := reading.readAt
         keys := rep.current
         unexplained := rep.current.filter (!rep.explains ·)
         result := pass.result } :: s.posted i) }

/-- What the records of a server are after one of its ops. -/
def LearnedOp.perform (op : LearnedOp) (held : List IncomingRecord) : List IncomingRecord :=
  match op.rrsetAction with
  | .add => if held.any (key · == key op.record) then held else held ++ [op.record]
  | .deleteValue => held.filter (key · != key op.record)

/-- The first op that has not landed yet, and the queue once it has. -/
def nextOp : List OpRow → Option (LearnedOp × List OpRow)
  | [] => none
  | row :: rows =>
    if row.landed then (nextOp rows).map fun (op, rows) => (op, row :: rows)
    else some (row.op, { row with landed := true } :: rows)

inductive Action (ι : Type) where
  /-- Time passes. -/
  | tick (duration : ℕ)
  | writerAdds (server : ι) (record : IncomingRecord)
  | writerDeletes (server : ι) (key : Key)
  /-- The next op of the server takes effect on it. -/
  | land (server : ι)
  /-- The op at this place in the server's queue is acknowledged. -/
  | ack (server : ι) (place : ℕ)
  | read (server : ι)
  | post (server : ι)

def State.set (s : State ι) (i : ι) (server : Server) : State ι :=
  { s with server := Function.update s.server i server }

def step (group : List ι) (s : State ι) : Action ι → Option (State ι)
  | .tick duration => some { s with now := s.now + duration }
  | .writerAdds i r =>
    some (s.set i { s.server i with held := (s.server i).held.filter (key · != key r) ++ [r] })
  | .writerDeletes i k =>
    some (s.set i { s.server i with held := (s.server i).held.filter (key · != k) })
  | .land i =>
    (nextOp (s.server i).ops).map fun (op, ops) =>
      s.set i { s.server i with held := op.perform (s.server i).held, ops := ops }
  | .ack i place =>
    (s.server i).ops[place]?.bind fun row =>
      if row.landed ∧ row.state = .queued then
        some (s.set i { s.server i with
          ops := (s.server i).ops.set place { row with state := .applied s.now } })
      else none
  | .read i => some (s.set i { s.server i with reading := some ⟨s.now, (s.server i).held⟩ })
  | .post i =>
    (s.server i).reading.bind fun reading =>
      if i ∈ group ∧ s.now ≤ reading.readAt + reportTimeout then some (s.post group i reading)
      else none

def start (zone : Zone) (held : ι → List IncomingRecord) : State ι where
  now := 0
  zone := zone
  mirror := []
  server i := ⟨true, held i, none, none, []⟩
  posted _ := []

def Zone.values (zone : Zone) (records : List IncomingRecord) : List Key :=
  (records.filter zone.learns).map key

theorem mem_keys_filter {p : Key → Bool} :
    k ∈ (records.filter fun r => p (key r)).map key ↔ k ∈ records.map key ∧ p k = true := by
  simp only [List.mem_map, List.mem_filter]
  constructor
  · rintro ⟨r, ⟨hr, hp⟩, rfl⟩
    exact ⟨⟨r, hr, rfl⟩, hp⟩
  · rintro ⟨⟨r, hr, rfl⟩, hp⟩
    exact ⟨r, ⟨hr, hp⟩, rfl⟩

theorem mem_setdefault {r : IncomingRecord} :
    k ∈ (setdefault desired r).map key ↔ k ∈ desired.map key ∨ k = key r := by
  unfold setdefault
  split
  case isTrue h =>
    obtain ⟨old, hold, heq⟩ := List.any_eq_true.mp h
    have hkey : key old = key r := by simpa using heq
    constructor
    · exact Or.inl
    · rintro (hk | rfl)
      · exact hk
      · exact hkey ▸ List.mem_map_of_mem hold
  case isFalse => simp

theorem nodup_setdefault (r : IncomingRecord) (h : (desired.map key).Nodup) :
    ((setdefault desired r).map key).Nodup := by
  unfold setdefault
  split
  case isTrue => exact h
  case isFalse hnone =>
    rw [List.map_append, List.map_singleton]
    apply List.Nodup.append h (List.nodup_singleton _)
    rw [List.disjoint_singleton]
    intro hmem
    obtain ⟨old, hold, heq⟩ := List.mem_map.mp hmem
    exact hnone (List.any_eq_true.mpr ⟨old, hold, by simpa using heq⟩)

theorem mem_desired {zone : Zone} :
    k ∈ (zone.desired records).map key ↔ k ∈ zone.values records := by
  have hfold : ∀ (rs acc : List IncomingRecord),
      k ∈ (rs.foldl setdefault acc).map key ↔ k ∈ acc.map key ∨ k ∈ rs.map key := by
    intro rs
    induction rs with
    | nil => simp
    | cons r rs ih =>
      intro acc
      rw [List.foldl_cons, ih, mem_setdefault, List.map_cons, List.mem_cons, or_assoc]
  rw [Zone.desired, hfold, Zone.values]
  simp

theorem nodup_desired (zone : Zone) (records : List IncomingRecord) :
    ((zone.desired records).map key).Nodup := by
  have hfold : ∀ (rs acc : List IncomingRecord), (acc.map key).Nodup →
      ((rs.foldl setdefault acc).map key).Nodup := by
    intro rs
    induction rs with
    | nil => exact fun acc h => h
    | cons r rs ih => exact fun acc h => ih _ (nodup_setdefault r h)
  exact hfold _ _ List.nodup_nil

@[simp] theorem nt_key (r : IncomingRecord) :
    nt (key r) = (r.name.toLower, r.recordType.toUpper) := by
  have hname : r.name.toLower ≠ "" := fun h => r.name_ne (String.map_eq_empty.mp h)
  simp [nt, key, hname]

theorem unmanaged_of_mem_values {zone : Zone} (h : k ∈ zone.values records) :
    nt k ∉ zone.managedNt := by
  obtain ⟨r, hr, rfl⟩ := List.mem_map.mp h
  obtain ⟨-, hlearns⟩ := List.mem_filter.mp hr
  rw [nt_key]
  simp only [Zone.learns, Zone.manages, Bool.and_eq_true, Bool.not_eq_true',
    List.contains_eq_mem, decide_eq_false_iff_not] at hlearns
  exact hlearns.2

variable {rep : Report} {k : Key} {op : LearnedOp}

theorem mem_appeared : k ∈ rep.appeared.map key ↔
    k ∈ rep.current ∧ k ∉ rep.previous ∧ k ∉ rep.mirrored := by
  rw [Report.appeared, mem_keys_filter (p := fun k => !rep.previous.contains k &&
    !rep.mirrored.contains k)]
  simp [Report.current]

theorem mem_vanished : k ∈ rep.vanished.map key ↔
    k ∈ rep.mirrored ∧ k ∈ rep.previous ∧ k ∉ rep.current ∧ nt k ∉ rep.managedNt := by
  rw [Report.vanished, mem_keys_filter (p := fun k => rep.previous.contains k &&
    !rep.current.contains k && !rep.managedNt.contains (nt k))]
  simp [Report.mirrored, and_assoc]

theorem mem_added : k ∈ rep.added.map key ↔
    (k ∈ rep.current ∧ k ∉ rep.previous ∧ k ∉ rep.mirrored) ∧ rep.explains k = false := by
  rw [Report.added, mem_keys_filter (p := fun k => !rep.explains k), mem_appeared,
    Bool.not_eq_true']

theorem mem_withdrawn : k ∈ rep.withdrawn.map key ↔
    (k ∈ rep.mirrored ∧ k ∈ rep.previous ∧ k ∉ rep.current ∧ nt k ∉ rep.managedNt) ∧
      rep.explains k = false := by
  rw [Report.withdrawn, mem_keys_filter (p := fun k => !rep.explains k), mem_vanished,
    Bool.not_eq_true']

theorem mem_kept : k ∈ rep.kept.map key ↔
    k ∈ rep.mirrored ∧ k ∉ rep.withdrawn.map key ∧ nt k ∉ rep.managedNt := by
  rw [Report.kept, mem_keys_filter (p := fun k => !(rep.withdrawn.map key).contains k &&
    !rep.managedNt.contains (nt k))]
  simp [Report.mirrored]

theorem mem_notYet : k ∈ rep.notYet.map key ↔
    (k ∈ rep.current ∧ k ∉ rep.previous ∧ k ∉ rep.mirrored) ∧ rep.explains k = true := by
  rw [Report.notYet, mem_keys_filter (p := rep.explains), mem_appeared]

theorem mem_stillHeld : k ∈ rep.stillHeld.map key ↔
    (k ∈ rep.mirrored ∧ k ∈ rep.previous ∧ k ∉ rep.current ∧ nt k ∉ rep.managedNt) ∧
      rep.explains k = true := by
  rw [Report.stillHeld, mem_keys_filter (p := rep.explains), mem_vanished]

theorem mem_carried : k ∈ rep.carried ↔
    (k ∈ rep.current ∧ k ∉ rep.notYet.map key) ∨ k ∈ rep.stillHeld.map key := by
  simp [Report.carried]

theorem mem_mirror_of_unexplained (hcurrent : k ∈ rep.current) (hexplains : rep.explains k = false)
    (hmanaged : nt k ∉ rep.managedNt) (hprevious : k ∈ rep.previous → k ∈ rep.mirrored) :
    k ∈ (rep.kept ++ rep.added).map key := by
  rw [List.map_append, List.mem_append, mem_kept, mem_added]
  by_cases hmirrored : k ∈ rep.mirrored
  · refine Or.inl ⟨hmirrored, fun hwithdrawn => ?_, hmanaged⟩
    exact (mem_withdrawn.mp hwithdrawn).1.2.2.1 hcurrent
  · exact Or.inr ⟨⟨hcurrent, fun h => hmirrored (hprevious h), hmirrored⟩, hexplains⟩

theorem nodup_mirror (hmirror : rep.mirrored.Nodup) (hdesired : rep.current.Nodup) :
    ((rep.kept ++ rep.added).map key).Nodup := by
  have hkept : (rep.kept.map key).Nodup :=
    hmirror.sublist (List.filter_sublist.map key)
  have hadded : (rep.added.map key).Nodup :=
    hdesired.sublist ((List.filter_sublist.trans List.filter_sublist).map key)
  rw [List.map_append]
  apply hkept.append hadded
  intro k hk hk'
  exact (mem_added.mp hk').1.2.2 (mem_kept.mp hk).1

theorem delete_of_peer
    (h : op ∈ rep.withdrawn.map (learnedRecordOp .delete) ++ rep.added.map (learnedRecordOp .create))
    (hdelete : op.rrsetAction = .deleteValue) : key op.record ∈ rep.withdrawn.map key := by
  rcases List.mem_append.mp h with h | h
  · obtain ⟨r, hr, rfl⟩ := List.mem_map.mp h
    exact List.mem_map_of_mem hr
  · obtain ⟨r, -, rfl⟩ := List.mem_map.mp h
    cases hdelete

theorem delete_of_correction (h : op ∈ rep.corrections) (hdelete : op.rrsetAction = .deleteValue) :
    key op.record ∈ rep.current ∧ key op.record ∈ rep.previous ∧
      key op.record ∉ rep.kept.map key := by
  rcases List.mem_append.mp h with h | h
  · obtain ⟨r, -, rfl⟩ := List.mem_map.mp h
    cases hdelete
  · obtain ⟨r, hr, rfl⟩ := List.mem_map.mp h
    obtain ⟨hmem, hr⟩ := List.mem_filter.mp hr
    simp only [Bool.and_eq_true, Bool.not_eq_true', List.contains_eq_mem, decide_eq_true_eq,
      decide_eq_false_iff_not] at hr
    exact ⟨List.mem_map_of_mem hmem, hr.1.1, hr.1.2⟩

/-- The pass added, dropped, put off and queued nothing. -/
def IngestResult.Quiet (result : IngestResult) : Prop :=
  result.added = 0 ∧ result.removed = 0 ∧ result.deferred = 0 ∧ result.peerOps = 0 ∧
    result.corrections = 0

instance : DecidablePred IngestResult.Quiet := fun _ => inferInstanceAs (Decidable (_ ∧ _))

theorem current_iff_mirrored (hquiet : (transitionReconcile rep).result.Quiet)
    (hblocks : ∀ k, rep.blocksCorrection k = false)
    (hmanaged : ∀ k ∈ rep.mirrored, nt k ∉ rep.managedNt) :
    k ∈ rep.current ↔ k ∈ rep.mirrored := by
  obtain ⟨hadded, -, hdeferred, hpeer, hself⟩ := hquiet
  replace hadded : rep.added = [] := List.eq_nil_of_length_eq_zero hadded
  replace hself : rep.corrections = [] := List.eq_nil_of_length_eq_zero hself
  have hlater : rep.notYet.length + rep.stillHeld.length = 0 := hdeferred
  have hnotYet : rep.notYet = [] := List.eq_nil_of_length_eq_zero (by omega)
  have hstillHeld : rep.stillHeld = [] := List.eq_nil_of_length_eq_zero (by omega)
  have hops : (rep.withdrawn.map (learnedRecordOp .delete) ++
      rep.added.map (learnedRecordOp .create)).length = 0 := hpeer
  have hwithdrawn : rep.withdrawn = [] := by
    simpa using (List.append_eq_nil_iff.mp (List.eq_nil_of_length_eq_zero hops)).1
  have hkept : k ∈ rep.mirrored → k ∈ rep.kept.map key := fun h =>
    mem_kept.mpr ⟨h, by simp [hwithdrawn], hmanaged k h⟩
  have hcreates := List.map_eq_nil_iff.mp (List.append_eq_nil_iff.mp hself).1
  have hdeletes := List.map_eq_nil_iff.mp (List.append_eq_nil_iff.mp hself).2
  rw [List.filter_eq_nil_iff] at hcreates hdeletes
  by_cases hprevious : k ∈ rep.previous
  · constructor
    · intro hcurrent
      -- Else the server would be told to delete it.
      by_contra hmirrored
      obtain ⟨r, hr, rfl⟩ := List.mem_map.mp hcurrent
      apply hdeletes r hr
      have hgone : key r ∉ rep.kept.map key := fun h => hmirrored (mem_kept.mp h).1
      simp only [Bool.and_eq_true, Bool.not_eq_true', List.contains_eq_mem, decide_eq_true_eq,
        decide_eq_false_iff_not]
      exact ⟨⟨hprevious, hgone⟩, hblocks _⟩
    · intro hmirrored
      -- Else it would be dropped or put off.
      by_contra hcurrent
      have hvanished := And.intro hmirrored
        (And.intro hprevious (And.intro hcurrent (hmanaged k hmirrored)))
      cases hexplains : rep.explains k with
      | true =>
        have := mem_stillHeld.mpr ⟨hvanished, hexplains⟩
        simp [hstillHeld] at this
      | false =>
        have := mem_withdrawn.mpr ⟨hvanished, hexplains⟩
        simp [hwithdrawn] at this
  · constructor
    · intro hcurrent
      -- Else it would be mirrored now or put off.
      by_contra hmirrored
      have happeared := And.intro hcurrent (And.intro hprevious hmirrored)
      cases hexplains : rep.explains k with
      | true =>
        have := mem_notYet.mpr ⟨happeared, hexplains⟩
        simp [hnotYet] at this
      | false =>
        have := mem_added.mpr ⟨happeared, hexplains⟩
        simp [hadded] at this
    · intro hmirrored
      -- Else the server would be told to add it.
      by_contra hcurrent
      obtain ⟨row, hrow, hkey⟩ := List.mem_map.mp (hkept hmirrored)
      apply hcreates row hrow
      rw [hkey]
      simp only [Bool.and_eq_true, Bool.not_eq_true', List.contains_eq_mem,
        decide_eq_false_iff_not]
      exact ⟨⟨hcurrent, hprevious⟩, hblocks _⟩

theorem mirror_of_no_peerOps
    (h : rep.withdrawn.map (learnedRecordOp .delete) ++ rep.added.map (learnedRecordOp .create) = [])
    (hmanaged : ∀ k ∈ rep.mirrored, nt k ∉ rep.managedNt) :
    k ∈ (rep.kept ++ rep.added).map key ↔ k ∈ rep.mirrored := by
  obtain ⟨hwithdrawn, hadded⟩ := List.append_eq_nil_iff.mp h
  rw [List.map_eq_nil_iff] at hwithdrawn hadded
  rw [hadded, List.append_nil, mem_kept, hwithdrawn]
  constructor
  · exact fun h => h.1
  · exact fun h => ⟨h, List.not_mem_nil, hmanaged k h⟩

end SpatiumDdi.Dns.Ingest
