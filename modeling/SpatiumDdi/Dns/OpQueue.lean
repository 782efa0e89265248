import Mathlib.Algebra.Group.Nat.Defs
import Mathlib.Data.List.Sort
import SpatiumDdi.Lib.Runs

/-!
The record ops of one RRset on one agent-based server: the edits that queue them, the pages that ship
them, the agent that applies them and the heartbeats that settle them. An edit's transaction fixes
`created_at` when it starts and takes the zone row's lock before it stamps its op, so the ops of the
RRset commit in the order of their stamps, whatever `created_at` says.
-/

namespace SpatiumDdi.Dns.OpQueue

variable {V : Type}

/-- What an op was queued with: the RRset it is stamped with and its place in the queue. -/
structure Op (V : Type) where
  createdAt : ℕ
  seq : ℕ
  rrset : V

inductive OpState where
  | pending
  | inFlight
  | applied
  | failed
  | superseded
  deriving DecidableEq

structure Row where
  state : OpState := .pending
  attempts : ℕ := 0
  nextAttemptAt : Option ℕ := none
  updatedAt : ℕ := 0

def maxOpAttempts : ℕ := 8
def opRetryBaseSeconds : ℕ := 30
def opRetryMaxSeconds : ℕ := 15 * 60
def inFlightAckTimeout : ℕ := 5 * 60

def retryDelay (attempts : ℕ) : ℕ :=
  min (opRetryBaseSeconds * 2 ^ min (attempts - 1) 16) opRetryMaxSeconds

def queuedAfter (a b : Op V) : Bool :=
  if a.createdAt ≠ b.createdAt then b.createdAt < a.createdAt else b.seq < a.seq

/-- Whether `_successors` finds an op for the one at `i`: the ops are numbered as they committed. -/
def hasSuccessor (ops : List (Op V)) (rows : ℕ → Row) (i : ℕ) : Bool :=
  ops[i]?.any fun op => ops.zipIdx.any fun (other, j) =>
    ((rows j).state = .pending || (rows j).state = .inFlight || (rows j).state = .applied) &&
      queuedAfter other op

def failAttempt (now : ℕ) (superseded : Bool) (row : Row) : Row :=
  let attempts := row.attempts + 1
  if superseded then
    { state := .superseded, attempts := attempts, nextAttemptAt := none, updatedAt := now }
  else if maxOpAttempts ≤ attempts then
    { state := .failed, attempts := attempts, nextAttemptAt := none, updatedAt := now }
  else
    { state := .pending, attempts := attempts, nextAttemptAt := some (now + retryDelay attempts),
      updatedAt := now }

/-- `fail_attempts`: the successors are looked up once, before any of the rows is written. -/
def failAttempts (ops : List (Op V)) (now : ℕ) (failures : List ℕ) (rows : ℕ → Row) : ℕ → Row :=
  fun i => if i ∈ failures then failAttempt now (hasSuccessor ops rows i) (rows i) else rows i

/-- An agent's verdict on an op, with the dispatch it answers if the agent echoes it. -/
structure Ack where
  op : ℕ
  ok : Bool
  dispatch : Option ℕ
  deriving DecidableEq

/-- The loop of `apply_acks` over one ack: the rows as the `ok` ones leave them, and the failures. -/
def applyAck (now : ℕ) (acc : (ℕ → Row) × List ℕ) (ack : Ack) : (ℕ → Row) × List ℕ :=
  let (rows, failures) := acc
  let row := rows ack.op
  let current := ack.dispatch.all (· = row.attempts)
  if ack.ok then
    if row.state = .applied then acc
    else
      let attempts := if row.state = .inFlight && current then row.attempts + 1 else row.attempts
      let row' : Row :=
        { state := .applied, attempts := attempts, nextAttemptAt := none, updatedAt := now }
      (Function.update rows ack.op row', failures.filter (· ≠ ack.op))
  else if row.state = .inFlight && current && !failures.contains ack.op then
    (rows, failures ++ [ack.op])
  else acc

def settleAcks (now : ℕ) (rows : ℕ → Row) (acks : List Ack) : (ℕ → Row) × List ℕ :=
  acks.foldl (applyAck now) (rows, [])

/-- What comes of an op at the server. An attempt that ends in an error may have changed the RRset. -/
inductive Verdict where
  | ok
  | error (changed : Bool)

def Verdict.isOk : Verdict → Bool
  | .ok => true
  | .error _ => false

def Verdict.changed : Verdict → Bool
  | .ok => true
  | .error changed => changed

/-- The RRset the server holds, the ops that were put there, in order, and the acks for them. -/
structure Agent (V : Type) where
  server : V
  applied : List ℕ := []
  acks : List Ack := []

structure Shipped where
  op : ℕ
  dispatch : ℕ

def Shipped.echoed (item : Shipped) (echo : Bool) : Option ℕ :=
  if echo then some item.dispatch else none

def Agent.apply (ops : List (Op V)) (echo : Bool) (verdict : ℕ → Verdict) (agent : Agent V)
    (item : Shipped) : Agent V :=
  match ops[item.op]? with
  | none => agent
  | some op =>
    let acks := agent.acks ++ [⟨item.op, (verdict item.op).isOk, item.echoed echo⟩]
    if (verdict item.op).changed then ⟨op.rrset, agent.applied ++ [item.op], acks⟩
    else { agent with acks := acks }

inductive Edit (V : Type) where
  | begun (createdAt : ℕ)
  | stamped (op : Op V)

inductive Poll where
  | selected (now : ℕ) (ids : List ℕ)
  | loaded (now : ℕ) (ids waiting : List ℕ)

/-- A heartbeat's transaction: the ops it locked, and their rows as it has written them. -/
structure Heartbeat where
  now : ℕ
  held : List ℕ
  rows : ℕ → Row

/-- The committed state, the transactions that are open with the locks they hold, and the pages on
their way. -/
structure State (V : Type) where
  clock : ℕ := 0
  live : V
  nextSeq : ℕ := 0
  ops : List (Op V) := []
  rows : ℕ → Row := fun _ => {}
  zoneLock : Option ℕ := none
  edits : ℕ → Option (Edit V) := fun _ => none
  snapshots : List ℕ := []
  polls : ℕ → Option Poll := fun _ => none
  holder : ℕ → Option ℕ := fun _ => none
  heartbeats : ℕ → Option Heartbeat := fun _ => none
  unread : List (List Shipped) := []
  agent : Agent V

namespace State

variable (s : State V)

def view (hb : Heartbeat) (i : ℕ) : Row := if i ∈ hb.held then hb.rows i else s.rows i

/-- The ops that the heartbeat's lock takes beside the acked ones. -/
def stale (now : ℕ) (i : ℕ) : Bool :=
  (s.rows i).state = .inFlight && (s.rows i).updatedAt + inFlightAckTimeout < now

def release (t : ℕ) (i : ℕ) : Option ℕ := if s.holder i = some t then none else s.holder i

end State

def QueueOrder (a b : Op V × ℕ) : Prop := queuedAfter a.1 b.1 = false

instance : DecidableRel (QueueOrder (V := V)) := fun a b =>
  inferInstanceAs (Decidable (queuedAfter a.1 b.1 = false))

/-- The candidates of `page_pending_ops` under a bundle whose snapshot sees `covered` commits. -/
def candidates (s : State V) (covered batch : ℕ) : List ℕ :=
  let rows := s.ops.zipIdx.filter fun (_, i) =>
    (s.rows i).state = .pending && (s.rows i).nextAttemptAt.all (· ≤ s.clock) && i < covered
  ((rows.insertionSort QueueOrder).take (max 1 batch)).map Prod.snd

def backsOff (now : ℕ) (row : Row) : Bool := row.state = .pending && row.nextAttemptAt.any (now < ·)

def backedOff (s : State V) (now : ℕ) (ids : List ℕ) : List ℕ :=
  if ids = [] then [] else (List.range s.ops.length).filter fun i => backsOff now (s.rows i)

def stillPending (s : State V) (ids : List ℕ) : List ℕ :=
  ids.filter fun i => (s.rows i).state = .pending

/-- `_supersede_backed_off_ops`: whether the last op of the page retires one that waits. -/
def retires (s : State V) (page : List ℕ) (i : ℕ) : Bool :=
  (page.getLast?.bind (s.ops[·]?)).any fun newest => s.ops[i]?.any (queuedAfter newest ·)

/-- The page is locked, marked and committed, and goes out. -/
def ship (s : State V) (t now : ℕ) (ids waiting : List ℕ) : State V :=
  let page := stillPending s ids
  let superseded := waiting.filter fun i => backsOff now (s.rows i) && retires s page i
  let retired := fun i =>
    if i ∈ superseded then
      { s.rows i with state := .superseded, nextAttemptAt := none, updatedAt := now }
    else s.rows i
  let rows := fun i =>
    if i ∈ page then { retired i with state := .inFlight, updatedAt := now } else retired i
  { s with
    rows := rows
    polls := Function.update s.polls t none
    unread := s.unread ++
      (if page = [] then [] else [page.map fun i => ⟨i, (s.rows i).attempts⟩]) }

inductive Action (V : Type) where
  | tick (seconds : ℕ)
  | beginEdit (t : ℕ)
  | stamp (t : ℕ) (rrset : V)
  | commit (t : ℕ)
  | abort (t : ℕ)
  | render
  | page (t covered batch : ℕ)
  | waiting (t : ℕ)
  | ship (t : ℕ)
  | leave (t : ℕ)
  | receive (echo : Bool) (verdict : ℕ → Verdict)
  | lose (page : ℕ)
  | acks (t : ℕ) (acks : List Ack)
  | reset (t : ℕ)
  | commitHeartbeat (t : ℕ)
  | abortHeartbeat (t : ℕ)

/-- One step; `none` where it cannot be taken, a lock it waits for among them. -/
def step (s : State V) : Action V → Option (State V)
  | .tick seconds => some { s with clock := s.clock + seconds }
  | .beginEdit t =>
    match s.edits t with
    | none => some { s with edits := Function.update s.edits t (some (.begun s.clock)) }
    | some _ => none
  | .stamp t rrset =>
    match s.edits t, s.zoneLock with
    | some (.begun createdAt), none =>
      some { s with
        zoneLock := some t
        nextSeq := s.nextSeq + 1
        edits := Function.update s.edits t (some (.stamped ⟨createdAt, s.nextSeq, rrset⟩)) }
    | _, _ => none
  | .commit t =>
    match s.edits t with
    | some (.stamped op) =>
      some { s with
        live := op.rrset
        ops := s.ops ++ [op]
        zoneLock := none
        edits := Function.update s.edits t none }
    | _ => none
  | .abort t =>
    some { s with
      zoneLock := if s.zoneLock = some t then none else s.zoneLock
      edits := Function.update s.edits t none }
  | .render => some { s with snapshots := s.snapshots ++ [s.ops.length] }
  | .page t covered batch =>
    match s.polls t with
    | none =>
      if covered ∈ s.snapshots then
        let poll := Poll.selected s.clock (candidates s covered batch)
        some { s with polls := Function.update s.polls t (some poll) }
      else none
    | some _ => none
  | .waiting t =>
    match s.polls t with
    | some (.selected now ids) =>
      some { s with polls := Function.update s.polls t (some (.loaded now ids (backedOff s now ids))) }
    | _ => none
  | .ship t =>
    match s.polls t with
    | some (.loaded now ids waiting) =>
      if (ids ++ waiting).any (fun i => (s.holder i).isSome) then none
      else some (ship s t now ids waiting)
    | _ => none
  | .leave t => some { s with polls := Function.update s.polls t none }
  | .receive echo verdict =>
    match s.unread with
    | page :: rest =>
      some { s with unread := rest, agent := page.foldl (Agent.apply s.ops echo verdict) s.agent }
    | [] => none
  | .lose page => some { s with unread := s.unread.eraseIdx page }
  | .acks t acks =>
    match s.heartbeats t with
    | none =>
      let held := acks.map (·.op) ++ (List.range s.ops.length).filter (s.stale s.clock)
      if acks.all (s.agent.acks.contains ·) && held.all (fun i => (s.holder i).isNone) then
        let (rows, failures) := settleAcks s.clock s.rows acks
        some { s with
          holder := fun i => if i ∈ held then some t else s.holder i
          heartbeats := Function.update s.heartbeats t
            (some ⟨s.clock, held, failAttempts s.ops s.clock failures rows⟩) }
      else none
    | some _ => none
  | .reset t =>
    match s.heartbeats t with
    | some hb =>
      let rows := s.view hb
      let stale := hb.held.filter fun i =>
        (rows i).state = .inFlight && (rows i).updatedAt + inFlightAckTimeout < hb.now
      some { s with
        heartbeats := Function.update s.heartbeats t
          (some { hb with rows := failAttempts s.ops hb.now stale rows }) }
    | none => none
  | .commitHeartbeat t =>
    match s.heartbeats t with
    | some hb =>
      some { s with
        rows := s.view hb
        holder := s.release t
        heartbeats := Function.update s.heartbeats t none }
    | none => none
  | .abortHeartbeat t =>
    some { s with holder := s.release t, heartbeats := Function.update s.heartbeats t none }

end SpatiumDdi.Dns.OpQueue
