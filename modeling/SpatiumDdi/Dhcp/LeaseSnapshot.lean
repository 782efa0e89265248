import SpatiumDdi.Agent.Spool
import SpatiumDdi.Dhcp.Leases
import SpatiumDdi.Lib.Keyset

/-!
The agent's lease snapshot: a walk of a Kea daemon's lease table, page by page, each page posted
as lease events before the next is asked for. A walk starts when one is due and the last is long
enough ago; a failure of Kea or of the control plane abandons it.

The reason of a request is only logged, and is left out.
-/

namespace SpatiumDdi.Dhcp.LeaseSnapshot

open Text

abbrev Time := ℚ

/-- An entry of a `lease4-get-page` or `lease6-get-page` answer. A text that is absent reads as
empty. A number is what `int` makes of the field, none where it raises. -/
structure KeaLease where
  ipAddress : String
  hwAddress : String := ""
  duid : String := ""
  iaid : Option (Option Int) := none
  type : String := ""
  hostname : String := ""
  cltt : Option Int := some 0
  validLft : Option Int := some 0
  state : Option Int := some 0

def keaStates (state : Int) : LeaseState :=
  if state = 1 then .declined
  else if state = 2 then .expired
  else if state = 3 then .released
  else .active

/-- The start and the end of a lease granted at `cltt`. -/
def grantTimes (cltt validLft : Int) : Except TimeError (Option Timestamp × Option Timestamp) := do
  let endsAt ← if cltt ≠ 0 then (fromtimestamp (cltt + validLft)).map some else .ok none
  let startsAt ←
    if cltt ≠ 0 ∧ validLft ≠ 0 then (fromtimestamp cltt).map some else .ok none
  return (startsAt, endsAt)

def keaLeaseToEvent (lease : KeaLease) : Except TimeError (Option LeaseEvent) :=
  let ip := strip lease.ipAddress
  let mac := strip lease.hwAddress
  if ip = "" ∨ mac = "" then .ok none
  else match lease.cltt, lease.validLft, lease.state with
    | some cltt, some validLft, some state =>
      (grantTimes cltt validLft).map fun (startsAt, endsAt) =>
        some {
          ipAddress := ip
          macAddress := some mac
          hostname := orNone (strip lease.hostname)
          state := keaStates state
          startsAt, endsAt, expiresAt := endsAt }
    | _, _, _ => .ok none

def keaLease6ToEvent (lease : KeaLease) : Except TimeError (Option LeaseEvent) :=
  let ip := strip lease.ipAddress
  let duid := strip lease.duid
  if ip = "" ∨ duid = "" then .ok none
  else if lease.type ≠ "" ∧ lease.type ≠ "IA_NA" then .ok none
  else match lease.cltt, lease.validLft, lease.state, lease.iaid with
    | some _, some _, some _, some none => .ok none
    | some cltt, some validLft, some state, iaid =>
      (grantTimes cltt validLft).map fun (startsAt, endsAt) =>
        some {
          ipAddress := ip
          macAddress := orNone (strip lease.hwAddress)
          duid := some duid
          iaid := iaid.bind id
          hostname := orNone (strip lease.hostname)
          state := keaStates state
          startsAt, endsAt, expiresAt := endsAt }
    | _, _, _, _ => .ok none

def toEvent : Family → KeaLease → Except TimeError (Option LeaseEvent)
  | .v4 => keaLeaseToEvent
  | .v6 => keaLease6ToEvent

def event (family : Family) (lease : KeaLease) : Option LeaseEvent :=
  match toEvent family lease with
  | .ok event => event
  | .error _ => none

/-- The list comprehension over a page: the events, or what a conversion raised. -/
def toEvents (family : Family) : List KeaLease → Except TimeError (List LeaseEvent)
  | [] => .ok []
  | lease :: leases => do
    let event ← toEvent family lease
    let events ← toEvents family leases
    return event.toList ++ events

structure Table (order : String → ℕ) where
  leases : List KeaLease
  ordered : PageWalk.Ordered (fun l => order l.ipAddress) leases
  /-- An address is written without blanks around it. -/
  written : ∀ l ∈ leases, l.ipAddress ≠ "" ∧ strip l.ipAddress = l.ipAddress

/-- What a page is asked for from: `"start"`, or the last address of the page before. -/
inductive Cursor where
  | start
  | after (ip : String)
  deriving DecidableEq

def Cursor.place (order : String → ℕ) : Cursor → WithBot ℕ
  | .start => ⊥
  | .after ip => order ip

/-- The leases of Kea's answer: the first `limit` ones after the cursor. -/
def Table.page {order : String → ℕ} (table : Table order) (limit : ℕ) (cursor : Cursor) :
    List KeaLease :=
  PageWalk.page (fun l => order l.ipAddress) limit (cursor.place order) table.leases

def keaResultEmpty : ℕ := 3

def result (leases : List KeaLease) : ℕ := if leases = [] then keaResultEmpty else 0

def keaBackoffStart : Time := 5

def keaBackoffMax : Time := 60

def keaMaxAttempts : ℕ := 20

structure Config where
  family : Family
  /-- Where an address stands in Kea's order. -/
  order : String → ℕ
  pageSize : ℕ
  pageSize_pos : 0 < pageSize
  minInterval : Time

structure Snapshot where
  due : Bool := false
  cursor : Option Cursor := none
  lastStarted : Option Time := none
  notBefore : Time := 0
  keaFailures : ℕ := 0
  runSent : ℕ := 0
  runSkipped : ℕ := 0
  runsCompleted : ℕ := 0

def Snapshot.running (s : Snapshot) : Bool := s.cursor.isSome

/-- `request`, where no walk is in progress. -/
def Snapshot.arm (s : Snapshot) : Snapshot := { s with due := true, keaFailures := 0, notBefore := 0 }

/-- What `_step_page` meets: its clock, Kea's table where Kea answers, the status of the POST where
one is answered, and the clock of `step` after it. -/
structure Round (order : String → ℕ) where
  now : Time
  table : Option (Table order)
  status : Option ℕ
  after : Time

structure Page (order : String → ℕ) where
  cursor : Cursor
  table : Table order
  leases : List KeaLease
  events : List LeaseEvent

inductive Fate where
  /-- A conversion raised, and the walk is left where it was. -/
  | raised
  /-- The POST drew a RETRY. -/
  | aborted
  | turned
  | finished

inductive Did (order : String → ℕ) where
  | waited
  /-- Kea failed the page. -/
  | failed (cursor : Cursor)
  | read (page : Page order) (fate : Fate)

section Config

variable (cfg : Config)

def Snapshot.canStart (s : Snapshot) (now : Time) : Bool :=
  if s.due = false ∨ now < s.notBefore then false
  else match s.lastStarted with
    | none => true
    | some started => decide (cfg.minInterval ≤ now - started)

def Snapshot.onKeaFailure (s : Snapshot) (now : Time) (firstPage : Bool) : Snapshot :=
  let s := { s with cursor := none, due := true, keaFailures := s.keaFailures + 1 }
  if firstPage ∧ keaMaxAttempts < s.keaFailures then { s with due := false }
  else
    { s with notBefore := now + min keaBackoffMax (keaBackoffStart * 2 ^ (s.keaFailures - 1)) }

/-- The answer to a first page. -/
def Snapshot.begun (s : Snapshot) (now : Time) : Snapshot :=
  { s with lastStarted := some now, due := false, keaFailures := 0 }

/-- `_post_page`: whether the walk goes on. -/
def Snapshot.postPage (s : Snapshot) (events : List LeaseEvent) (status : Option ℕ) :
    Snapshot × Bool :=
  match Agent.Spool.outcomeOf status with
  | .retry => ({ s with cursor := none, due := true }, false)
  | .sent => ({ s with runSent := s.runSent + events.length }, true)
  | .rejected => (s, true)

def Snapshot.finish (s : Snapshot) : Snapshot :=
  { s with cursor := none, runsCompleted := s.runsCompleted + 1 }

def lastIp (leases : List KeaLease) : Option String :=
  leases.getLast?.bind fun lease => orNone lease.ipAddress

/-- The rest of a page once it is posted. -/
def Snapshot.turn (s : Snapshot) (leases : List KeaLease) : Snapshot × Fate :=
  match lastIp leases with
  | none => (s.finish, .finished)
  | some ip =>
    if result leases = keaResultEmpty ∨ leases.length < cfg.pageSize then (s.finish, .finished)
    else ({ s with cursor := some (.after ip) }, .turned)

def Snapshot.deliver (s : Snapshot) (leases : List KeaLease) (events : List LeaseEvent)
    (status : Option ℕ) : Snapshot × Fate :=
  let s := { s with runSkipped := s.runSkipped + (leases.length - events.length) }
  if events = [] then s.turn cfg leases
  else
    match s.postPage events status with
    | (s, false) => (s, .aborted)
    | (s, true) => s.turn cfg leases

def Snapshot.fetchPage (s : Snapshot) (cursor : Cursor) (r : Round cfg.order) :
    Snapshot × Did cfg.order :=
  match r.table with
  | none => (s.onKeaFailure r.now (cursor = .start), .failed cursor)
  | some table =>
    let s := if cursor = .start then s.begun r.now else s
    let leases := table.page cfg.pageSize cursor
    match toEvents cfg.family leases with
    | .error _ => (s, .read ⟨cursor, table, leases, []⟩ .raised)
    | .ok events =>
      let (s, fate) := s.deliver cfg leases events r.status
      (s, .read ⟨cursor, table, leases, events⟩ fate)

def Snapshot.stepPage (s : Snapshot) (r : Round cfg.order) : Snapshot × Did cfg.order :=
  match s.cursor with
  | some cursor => s.fetchPage cfg cursor r
  | none =>
    if s.canStart cfg r.now then
      { s with cursor := some .start, runSent := 0, runSkipped := 0 }.fetchPage cfg .start r
    else
      (s, .waited)

end Config

/-- One thing done, with what it left: a request that took effect, or a page. -/
inductive Entry (order : String → ℕ) where
  | asked
  | stepped (did : Did order) (due : Bool)

structure Trace (order : String → ℕ) where
  st : Snapshot := {}
  log : List (Entry order) := []

section Config

variable (cfg : Config)

def Trace.request (t : Trace cfg.order) : Trace cfg.order :=
  if t.st.running then t else ⟨t.st.arm, .asked :: t.log⟩

def Trace.stepPage (t : Trace cfg.order) (r : Round cfg.order) : Trace cfg.order × Did cfg.order :=
  let (st, did) := t.st.stepPage cfg r
  (⟨st, .stepped did st.due :: t.log⟩, did)

/-- Whether there is more to walk right now. -/
def Did.more : Did cfg.order → Bool
  | .read _ .turned => true
  | _ => false

/-- Whether an exception left `_step_page`. -/
def Did.raised : Did cfg.order → Bool
  | .read _ .raised => true
  | _ => false

/-- `step` up to a deadline, over what its pages meet, and whether an exception left it. -/
def Trace.step (deadline : Time) : Trace cfg.order → List (Round cfg.order) → Trace cfg.order × Bool
  | t, [] => (t, false)
  | t, r :: rounds =>
    let (t', did) := t.stepPage cfg r
    if did.more then if deadline ≤ r.after then (t', false) else t'.step deadline rounds
    else (t', did.raised)

inductive Call (order : String → ℕ) where
  | request
  | step (deadline : Time) (rounds : List (Round order))

def Trace.call (t : Trace cfg.order) : Call cfg.order → Trace cfg.order
  | .request => t.request cfg
  | .step deadline rounds => (t.step cfg deadline rounds).1

def Trace.run (t : Trace cfg.order) : List (Call cfg.order) → Trace cfg.order
  | [] => t
  | c :: calls => (t.call cfg c).run calls

end Config

end SpatiumDdi.Dhcp.LeaseSnapshot
