import Mathlib.Data.List.Sort
import SpatiumDdi.Lib.Runs
import SpatiumDdi.Lib.Versions

/-!
The queue of one agent-based DNS server beside its stored bundles: `render_and_store` with
`retire_queued_ops`, the polls' `page_pending_ops` and the writers whose records, ops and dirty mark
commit together. A writer's commit bumps `bundle_dirty_seq`, so the sequence numbers the commits, a
snapshot is the number of commits it sees, and an op's transaction is visible in it when the number
of its commit is not above.
-/

namespace SpatiumDdi.Dns.OpCoverage

inductive OpKind where
  | create
  | update
  | delete
  | dnssecRollover
  | dnssecSign
  | dnssecUnsign
  deriving DecidableEq

def OpKind.isRecord : OpKind → Bool
  | .create | .update | .delete => true
  | .dnssecRollover | .dnssecSign | .dnssecUnsign => false

inductive OpState where
  | pending
  | inFlight
  | applied
  | failed
  deriving DecidableEq

def OpState.queued : OpState → Bool
  | .pending | .inFlight => true
  | .applied | .failed => false

structure Edit where
  kind : OpKind
  zone : ℕ
  id : ℕ
  createdAt : ℕ
  seq : ℕ
  deriving DecidableEq

/-- A `DNSRecordOp`, with the number of the commit it came with. -/
structure Op extends Edit where
  commit : ℕ
  deriving DecidableEq

def Op.before (a b : Op) : Bool :=
  a.createdAt < b.createdAt ||
    (a.createdAt = b.createdAt && (a.seq < b.seq || (a.seq = b.seq && a.id ≤ b.id)))

def coveredBy (snapshot : ℕ) (op : Op) : Bool := op.commit ≤ snapshot

/-- For each zone how many commits the statement saw that read its records. -/
abbrev Body := List (ℕ × ℕ)

def reflects (body : Body) (op : Op) : Bool := (body.lookup op.zone).any (op.commit ≤ ·)

/-- A `DNSAgentBundle`; the snapshot is its `visible_xacts`. -/
structure Bundle where
  watermark : ℕ
  revision : ℕ
  snapshot : ℕ
  shipsOps : Bool
  body : Body
  deriving DecidableEq

abbrev Bundles := Versions Bundle Bundle.watermark

/-- Where `render_and_store` stands, with what it has read and the ops it has retired. -/
inductive Phase where
  | started
  | snapshotted (snapshot : ℕ)
  | rendering (snapshot : ℕ) (zones : List ℕ) (body : Body)
  | retiring (snapshot : ℕ) (body : Body) (retired : List ℕ) (after : Option ℕ)
  | rendered (snapshot : ℕ) (body : Body) (retired : List ℕ)

structure Render where
  watermark : ℕ
  revision : ℕ
  hasViews : Bool
  maintenance : Bool
  phase : Phase

inductive Poll where
  | refreshed (watermark : Option ℕ) (maintenance : Bool)
  | loaded (bundle : Bundle) (maintenance : Bool)
  | selected (bundle : Bundle) (ids : List ℕ)

/-- The committed state, the renders and polls that are open with the op rows they hold, and which
ops a render retired or a page shipped. -/
structure State where
  dirtySeq : ℕ
  zones : List ℕ
  ops : List Op := []
  opState : ℕ → OpState := fun _ => .pending
  holder : ℕ → Option ℕ := fun _ => none
  bundles : Bundles := .empty
  watermark : Option ℕ := none
  renders : ℕ → Option Render := fun _ => none
  polls : ℕ → Option Poll := fun _ => none
  retired : List ℕ := []
  shipped : List ℕ := []

namespace State

variable (s : State)

/-- `newest`: the bundle stored at the server's `bundle_watermark`. -/
def served : Option Bundle := s.watermark.bind s.bundles.at?

def putRender (t : ℕ) (r : Render) : State :=
  { s with renders := Function.update s.renders t (some r) }

/-- The render's transaction ends and releases its rows. -/
def closeRender (t : ℕ) : State :=
  { s with
    holder := fun i => if s.holder i = some t then none else s.holder i
    renders := Function.update s.renders t none }

def putPoll (t : ℕ) (p : Poll) : State := { s with polls := Function.update s.polls t (some p) }

def closePoll (t : ℕ) : State := { s with polls := Function.update s.polls t none }

def mark (ids : List ℕ) (state : OpState) : State :=
  { s with opState := fun i => if i ∈ ids then state else s.opState i }

end State

def retireChunk : ℕ := 5000

/-- What a chunk's statement selects: covered ops that are still queued, above the last id. The ops
the render has retired itself are queued no more. -/
def retirable (s : State) (t snapshot : ℕ) (after : Option ℕ) : List (Op × ℕ) :=
  let rows := s.ops.zipIdx.filter fun (op, i) =>
    (s.opState i).queued && op.kind.isRecord && coveredBy snapshot op &&
      s.holder i ≠ some t && after.all (· < op.id)
  (rows.insertionSort fun a b => a.1.id ≤ b.1.id).take retireChunk

/-- One chunk of the retire; `none` while it waits for a row. -/
def retire (s : State) (t : ℕ) (r : Render) (snapshot : ℕ) (body : Body) (retired : List ℕ)
    (after : Option ℕ) : Option State :=
  let chunk := retirable s t snapshot after
  let ids := chunk.map Prod.snd
  if ids.any (fun i => (s.holder i).isSome) then none
  else
    let retired' := retired ++ ids
    let phase := if chunk.length < retireChunk then Phase.rendered snapshot body retired'
      else Phase.retiring snapshot body retired' (chunk.getLast?.map (·.1.id))
    let held := { s with holder := fun i => if i ∈ ids then some t else s.holder i }
    some (held.putRender t { r with phase := phase })

inductive Outcome where
  | lost
  | raised
  | behind
  | served

/-- What comes of a `store`: another bundle of this revision is there; the prune deletes the row that
was just written; the mirror columns stay ahead; the bundle is the served one. -/
def outcome (s : State) (keepVersions : ℕ) (bundle : Bundle) : Outcome :=
  if (s.bundles.at? bundle.watermark).any (bundle.revision ≤ ·.revision) then .lost
  else if (s.bundles.put bundle).kept (max 1 keepVersions) bundle.watermark = false then .raised
  else if s.watermark.all (· ≤ bundle.watermark) then .served
  else .behind

/-- `store`, and the commit that makes its writes and the retire seen. -/
def store (s : State) (t keepVersions : ℕ) (bundle : Bundle) (retired : List ℕ) : State :=
  let retiring := { s.mark retired .applied with retired := s.retired ++ retired }
  let stored := (s.bundles.put bundle).keepNewest (max 1 keepVersions)
  match outcome s keepVersions bundle with
  | .lost => retiring.closeRender t
  | .raised => s.closeRender t
  | .behind => { retiring with bundles := stored }.closeRender t
  | .served => { retiring with bundles := stored, watermark := some bundle.watermark }.closeRender t

def Render.bundle (r : Render) (snapshot : ℕ) (body : Body) : Bundle :=
  ⟨r.watermark, r.revision, snapshot, !r.hasViews, body⟩

/-- What a page selects: covered pending ops that are not backing off, oldest first, in a bundle of
a group with views only those no record op. -/
def pageOf (s : State) (bundle : Bundle) (maintenance : Bool) (batch : ℕ) (backingOff : List ℕ) :
    List ℕ :=
  if maintenance then []
  else
    let rows := s.ops.zipIdx.filter fun (op, i) =>
      s.opState i = .pending && !backingOff.contains i &&
        (bundle.shipsOps || !op.kind.isRecord) && coveredBy bundle.snapshot op
    ((rows.insertionSort fun a b => a.1.before b.1).take (max 1 batch)).map Prod.snd

def stillPending (s : State) (ids : List ℕ) : List ℕ := ids.filter (s.opState · = .pending)

/-- The page is locked, marked and committed, unless the bundle it goes with was pruned. -/
def ship (s : State) (t : ℕ) (bundle : Bundle) (ids : List ℕ) : State :=
  if (s.bundles.at? bundle.watermark).isNone then s.closePoll t
  else
    let page := stillPending s ids
    { s.mark page .inFlight with shipped := s.shipped ++ page }.closePoll t

inductive Action where
  | write (edits : List Edit)
  | beginRender (t revision : ℕ) (hasViews maintenance : Bool)
  | snapshot (t : ℕ)
  | listZones (t : ℕ)
  | readZones (t : ℕ) (zones : List ℕ)
  | encoded (t : ℕ)
  | retire (t : ℕ)
  | store (t keepVersions : ℕ)
  | rollback (t : ℕ)
  | refresh (t : ℕ) (maintenance : Bool)
  | newest (t revision : ℕ)
  | page (t batch : ℕ) (backingOff : List ℕ)
  | ship (t : ℕ)
  | leave (t : ℕ)
  | settle (i : ℕ) (state : OpState)

/-- One step; `none` where it cannot be taken, a lock it waits for among them. -/
def step (s : State) : Action → Option State
  | .write edits =>
    some { s with
      dirtySeq := s.dirtySeq + 1
      zones := s.zones ++ edits.map (·.zone)
      ops := s.ops ++ edits.map fun e => ⟨e, s.dirtySeq + 1⟩ }
  | .beginRender t revision hasViews maintenance =>
    match s.renders t with
    | none => some (s.putRender t ⟨s.dirtySeq, revision, hasViews, maintenance, .started⟩)
    | some _ => none
  | .snapshot t => do
    let r ← s.renders t
    match r.phase with
    | .started => some (s.putRender t { r with phase := .snapshotted s.dirtySeq })
    | _ => none
  | .listZones t => do
    let r ← s.renders t
    match r.phase with
    | .snapshotted n => some (s.putRender t { r with phase := .rendering n s.zones [] })
    | _ => none
  | .readZones t zones => do
    let r ← s.renders t
    match r.phase with
    | .rendering n listed body =>
      let body' := body ++ zones.map (·, s.dirtySeq)
      some (s.putRender t { r with phase := .rendering n listed body' })
    | _ => none
  | .encoded t => do
    let r ← s.renders t
    match r.phase with
    | .rendering n zones body =>
      if zones.all fun z => (body.lookup z).isSome then
        -- Outside views, or in maintenance, there is no retire.
        let phase := if r.hasViews && !r.maintenance then Phase.retiring n body [] none
          else Phase.rendered n body []
        some (s.putRender t { r with phase := phase })
      else none
    | _ => none
  | .retire t => do
    let r ← s.renders t
    match r.phase with
    | .retiring n body retired after => retire s t r n body retired after
    | _ => none
  | .store t keepVersions => do
    let r ← s.renders t
    match r.phase with
    | .rendered n body retired => some (store s t keepVersions (r.bundle n body) retired)
    | _ => none
  | .rollback t => some (s.closeRender t)
  | .refresh t maintenance =>
    match s.polls t with
    | none => some (s.putPoll t (.refreshed s.watermark maintenance))
    | some _ => none
  | .newest t revision =>
    match s.polls t with
    | some (.refreshed watermark maintenance) => do
      let bundle ← watermark.bind s.bundles.at?
      if revision ≤ bundle.revision then some (s.putPoll t (.loaded bundle maintenance)) else none
    | _ => none
  | .page t batch backingOff =>
    match s.polls t with
    | some (.loaded bundle maintenance) =>
      some (s.putPoll t (.selected bundle (pageOf s bundle maintenance batch backingOff)))
    | _ => none
  | .ship t =>
    match s.polls t with
    | some (.selected bundle ids) =>
      if ids.any (fun i => (s.holder i).isSome) then none else some (ship s t bundle ids)
    | _ => none
  | .leave t => some (s.closePoll t)
  | .settle i state =>
    -- An ack, a return to the queue or a supersede, which lock the op's row.
    if (s.opState i).queued && (s.holder i).isNone then some (s.mark [i] state) else none

end SpatiumDdi.Dns.OpCoverage
