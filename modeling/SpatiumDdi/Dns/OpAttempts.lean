import Mathlib.Algebra.Group.Nat.Defs
import Mathlib.Data.List.Basic

/-!
The attempts at the record ops of all servers: the pages that ship them, the acks, and the two ways
back of an op that nobody acked (`services/dns/record_ops.py`, `page_pending_ops`). Ops are numbered
in the order the table has them. What a page selects before it locks the rows is given to it, and
the PTRs that a retried delete takes with it are left out.
-/

namespace SpatiumDdi.Dns.OpAttempts

variable {Key : Type} [DecidableEq Key]

/-- The columns of an op that its attempts leave alone. An op without an RRset has no key. -/
structure Op (Key : Type) where
  server : ℕ
  rrset : Option Key
  createdAt : ℤ
  seq : Option ℤ

inductive OpState where
  | pending
  | inFlight
  | applied
  | failed
  | superseded
  deriving DecidableEq

structure Row where
  state : OpState := .pending
  attempts : ℕ := 0
  lastError : Option String := none
  updatedAt : ℤ := 0
  appliedAt : Option ℤ := none
  nextAttemptAt : Option ℤ := none
  supersededBy : Option ℕ := none
  dispatchedTo : Option String := none
  dispatchedPollAt : Option ℤ := none

abbrev Rows := ℕ → Row

def maxOpAttempts : ℕ := 8
def opRetryBaseSeconds : ℕ := 30
def opRetryMaxSeconds : ℕ := 15 * 60
def inFlightAckTimeout : ℤ := 5 * 60

def retryDelay (attempts : ℕ) : ℕ :=
  min (opRetryBaseSeconds * 2 ^ min (attempts - 1) 16) opRetryMaxSeconds

def queuedAfter (a b : Op Key) : Bool :=
  if a.createdAt ≠ b.createdAt then b.createdAt < a.createdAt
  else
    match a.seq, b.seq with
    | some s, some t => t < s
    | _, _ => false

def newer (ops : List (Op Key)) (i j : ℕ) : ℕ :=
  match ops[i]?, ops[j]? with
  | some a, some b =>
    if a.createdAt < b.createdAt ∨
      (a.createdAt = b.createdAt ∧ a.seq.getD 0 < b.seq.getD 0) then j else i
  | _, _ => i

def successor (ops : List (Op Key)) (rows : Rows) (i : ℕ) : Option ℕ :=
  match ops[i]? with
  | none => none
  | some op =>
    let later := (List.range ops.length).filter fun j => ops[j]?.any fun other =>
      other.server = op.server && op.rrset.isSome && other.rrset = op.rrset &&
        ((rows j).state = .pending || (rows j).state = .inFlight || (rows j).state = .applied) &&
        queuedAfter other op
    match later with
    | [] => none
    | j :: rest => some (rest.foldl (newer ops) j)

def supersede (by' : ℕ) (now : ℤ) (row : Row) : Row :=
  { row with
    state := .superseded, supersededBy := some by', nextAttemptAt := none, updatedAt := now }

def failAttempt (now : ℤ) (next : Option ℕ) (message : String) (row : Row) : Row :=
  let row := { row with
    attempts := row.attempts + 1, lastError := some message, updatedAt := now }
  match next with
  | some j => supersede j now row
  | none =>
    if maxOpAttempts ≤ row.attempts then { row with state := .failed, nextAttemptAt := none }
    else
      { row with state := .pending, nextAttemptAt := some (now + retryDelay row.attempts) }

/-- `fail_attempts`: the successors are looked up before any row is written. -/
def failAttempts (ops : List (Op Key)) (now : ℤ) (failure : ℕ → Option String) (rows : Rows) :
    Rows := fun i =>
  match failure i with
  | some message => failAttempt now (successor ops rows i) message (rows i)
  | none => rows i

structure Ack where
  op : ℕ
  ok : Bool
  dispatch : Option ℕ
  message : Option String := none
  deriving DecidableEq

def Ack.error (ack : Ack) : String :=
  match ack.message with
  | none | some "" => "the agent reported an error"
  | some message => message

def Ack.current (ack : Ack) (row : Row) : Bool := ack.dispatch.all (· = row.attempts)

def Row.apply (row : Row) (now : ℤ) (current : Bool) : Row :=
  { row with
    attempts := if row.state = .inFlight && current then row.attempts + 1 else row.attempts
    state := .applied, appliedAt := some now, lastError := none, nextAttemptAt := none
    updatedAt := now }

/-- The loop of `apply_acks` over one ack: the rows as an `ok` leaves them, and the failures. -/
def applyAck (mine : ℕ → Bool) (now : ℤ) (acc : Rows × (ℕ → Option String)) (ack : Ack) :
    Rows × (ℕ → Option String) :=
  let (rows, failures) := acc
  let row := rows ack.op
  if ! mine ack.op then acc
  else if ack.ok then
    if row.state = .applied then acc
    else
      (Function.update rows ack.op (row.apply now (ack.current row)),
        Function.update failures ack.op none)
  else if row.state = .inFlight && ack.current row && (failures ack.op).isNone then
    (rows, Function.update failures ack.op (some ack.error))
  else acc

def settleAcks (mine : ℕ → Bool) (now : ℤ) (rows : Rows) (acks : List Ack) :
    Rows × (ℕ → Option String) :=
  acks.foldl (applyAck mine now) (rows, fun _ => none)

def ofServer (ops : List (Op Key)) (server i : ℕ) : Bool := ops[i]?.any (·.server = server)

def applyAcks (ops : List (Op Key)) (server : ℕ) (now : ℤ) (acks : List Ack) (rows : Rows) : Rows :=
  let (rows, failures) := settleAcks (ofServer ops server) now rows acks
  failAttempts ops now failures rows

def unacknowledged (ops : List (Op Key)) (server : ℕ) (now : ℤ) (rows : Rows) (i : ℕ) : Bool :=
  ofServer ops server i && (rows i).state = .inFlight &&
    (rows i).updatedAt < now - inFlightAckTimeout

def unacknowledgedMessage : String :=
  "no acknowledgement from the agent within 5 minutes " ++
    "(it restarted, or the response was lost); retrying"

def resetUnacknowledgedOps (ops : List (Op Key)) (server : ℕ) (now : ℤ) (rows : Rows) : Rows :=
  failAttempts ops now
    (fun i =>
      if unacknowledged ops server now rows i then some unacknowledgedMessage else none) rows

def dispatchedElsewhere (ops : List (Op Key)) (server : ℕ) (inst : String) (pollStartedAt : ℤ)
    (rows : Rows) (i : ℕ) : Bool :=
  ofServer ops server i && (rows i).state = .inFlight &&
    (rows i).dispatchedTo.any (· ≠ inst) && (rows i).dispatchedPollAt.any (· < pollStartedAt)

def elsewhereMessage : String :=
  "shipped to an agent instance that has since been replaced; re-sending"

def returnOpsDispatchedElsewhere (ops : List (Op Key)) (server : ℕ) (inst : String)
    (pollStartedAt now : ℤ) (rows : Rows) : Rows :=
  let stale := dispatchedElsewhere ops server inst pollStartedAt rows
  let rows := failAttempts ops now (fun i => if stale i then some elsewhereMessage else none) rows
  fun i =>
    if stale i && (rows i).state = .pending then { rows i with nextAttemptAt := none } else rows i

def newestShipped (ops : List (Op Key)) (page : List ℕ) (i : ℕ) : Option ℕ :=
  match ops[i]? with
  | none => none
  | some op =>
    if op.rrset.isNone then none
    else
      ((page.filter fun j => ops[j]?.any (·.rrset = op.rrset)).getLast?).filter fun j =>
        ops[j]?.any (queuedAfter · op)

def supersedeBackedOffOps (ops : List (Op Key)) (page : List ℕ) (waiting : ℕ → Bool) (now : ℤ)
    (rows : Rows) : Rows := fun i =>
  match newestShipped ops page i with
  | some j => if waiting i then supersede j now (rows i) else rows i
  | none => rows i

def ship (dispatchedTo : Option String) (pollStartedAt : Option ℤ) (now : ℤ) (row : Row) : Row :=
  { row with
    state := .inFlight, updatedAt := now, dispatchedTo := dispatchedTo
    dispatchedPollAt := if dispatchedTo.isSome then pollStartedAt else none }

/-- `page_pending_ops` once its rows are locked: of what it selected the ops that are still pending
are shipped, and of what waits those that still back off may be superseded. -/
def shipPage (ops : List (Op Key)) (selected waiting : List ℕ) (dispatchedTo : Option String)
    (pollStartedAt : Option ℤ) (now : ℤ) (rows : Rows) : Rows :=
  let page := selected.filter fun i => (rows i).state = .pending
  let backsOff := fun i =>
    decide (i ∈ waiting) && (rows i).state = .pending && (rows i).nextAttemptAt.any (now < ·)
  let rows := supersedeBackedOffOps ops page backsOff now rows
  fun i => if i ∈ page then ship dispatchedTo pollStartedAt now (rows i) else rows i

inductive Event (Key : Type) where
  | queue (op : Op Key)
  | page (server : ℕ) (selected waiting : List ℕ) (dispatchedTo : Option String)
      (pollStartedAt : Option ℤ) (now : ℤ)
  | acks (server : ℕ) (acks : List Ack) (now : ℤ)
  | reset (server : ℕ) (now : ℤ)
  | giveBack (server : ℕ) (inst : String) (pollStartedAt now : ℤ)

structure State (Key : Type) where
  ops : List (Op Key) := []
  rows : Rows := fun _ => {}

def step (s : State Key) : Event Key → State Key
  | .queue op => { s with ops := s.ops ++ [op] }
  | .page server selected waiting dispatchedTo pollStartedAt now =>
    { s with
      rows := shipPage s.ops (selected.filter (ofServer s.ops server))
        (waiting.filter (ofServer s.ops server)) dispatchedTo pollStartedAt now s.rows }
  | .acks server acks now => { s with rows := applyAcks s.ops server now acks s.rows }
  | .reset server now => { s with rows := resetUnacknowledgedOps s.ops server now s.rows }
  | .giveBack server inst pollStartedAt now =>
    { s with rows := returnOpsDispatchedElsewhere s.ops server inst pollStartedAt now s.rows }

/-- The state after a history, whose last event comes first. -/
def after : List (Event Key) → State Key
  | [] => {}
  | e :: past => step (after past) e

end SpatiumDdi.Dns.OpAttempts
