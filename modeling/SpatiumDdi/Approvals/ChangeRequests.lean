import Mathlib.Data.List.Basic

/-!
One change request and the calls that decide it: any number of `approve_change_request`, and the
reject, cancel and expiry transactions. A row lock is held from the `FOR UPDATE` to the end of the
transaction, so what a call does between the two is one step where no other step can see it; an
approval's `apply()` commits inside the call and so ends the first of its transactions. Which checks
refuse an approver, what a preview answers and how `apply()` ends are the environment's choice.
-/

namespace SpatiumDdi.Approvals

inductive Status where
  | pending | approved | executed | failed | rejected | cancelled | expired
  deriving DecidableEq

def Status.terminal : Status → Bool
  | .pending | .approved => false
  | .executed | .failed | .rejected | .cancelled | .expired => true

abbrev User := ℕ

/-- The columns of a `ChangeRequest` a decision reads or writes; of `executed_at`, whether it is
set. -/
structure ChangeRequest where
  state : Status := .pending
  requestedBy : Option User
  decidedBy : Option User := none
  executedAt : Bool := false

structure Audit where
  action : Status
  user : Option User
  deriving DecidableEq

namespace ChangeRequest

variable (cr : ChangeRequest)

def stampApproved (approver : User) : ChangeRequest :=
  { cr with state := .approved, decidedBy := some approver }

def markExecuted : ChangeRequest := { cr with state := .executed, executedAt := true }

def markFailed : ChangeRequest := { cr with state := .failed, executedAt := true }

def markDecided (state : Status) (user : User) : ChangeRequest :=
  { cr with state := state, decidedBy := some user }

def markExpired : ChangeRequest := { cr with state := .expired }

end ChangeRequest

/-- Where an approve call stands. `relocking` is after the rollback of a failed `apply()` or
preview, with whether `apply()` had committed. -/
inductive Phase where
  | started
  | locked
  | checked
  | applying
  | committed
  | returned
  | relocking (applied : Bool)
  | ended

structure Call where
  approver : User
  phase : Phase

/-- What a run did: a commit, with the call whose `apply()` it persists and the audit rows in it;
or an `apply()` that had committed returning normally. -/
inductive Event where
  | commit (applied : Option ℕ) (audits : List Audit)
  | returned (call : ℕ)
  deriving DecidableEq

/-- The committed row, the call that has it locked, the calls, and what happened, the newest
first. -/
structure State where
  row : ChangeRequest
  owner : Option ℕ
  calls : ℕ → Option Call
  log : List Event

namespace State

variable (s : State)

def put (c : ℕ) (call : Call) : State :=
  { s with calls := Function.update s.calls c (some call) }

/-- The transaction of the call ends. -/
def release (c : ℕ) : State := { s with owner := if s.owner = some c then none else s.owner }

def finish (c : ℕ) (approver : User) : State := (s.release c).put c ⟨approver, .ended⟩

def commit (row : ChangeRequest) (applied : Option ℕ) (audits : List Audit) : State :=
  { s with row := row, log := .commit applied audits :: s.log }

@[simp] theorem put_calls_self (c : ℕ) (call : Call) : (s.put c call).calls c = some call :=
  Function.update_self ..

end State

inductive Action where
  | approve (c : ℕ) (approver : User)
  | lock (c : ℕ)
  | expireLocked (c : ℕ)
  | check (c : ℕ)
  | refuse (c : ℕ)
  | resolve (c : ℕ)
  | stale (c : ℕ)
  | begin_ (c : ℕ)
  | applyCommit (c : ℕ)
  | applyReturn (c : ℕ)
  | applyRaise (c : ℕ) (permission : Bool)
  | relock (c : ℕ)
  | finish (c : ℕ)
  | die (c : ℕ)
  | reject (user : User)
  | cancel (user : User)
  | expire

/-- `_stamp_apply_failed` after `_relock_after_failed_apply`. -/
def relock (s : State) (c : ℕ) (approver : User) : State :=
  if s.row.state = .pending then
    (s.commit (s.row.stampApproved approver).markFailed none
      [⟨.approved, some approver⟩, ⟨.failed, some approver⟩]).finish c approver
  else if s.row.state = .approved ∧ s.row.decidedBy = some approver ∧ s.row.executedAt = false then
    (s.commit s.row.markFailed none [⟨.failed, some approver⟩]).finish c approver
  else s.finish c approver

def approveStep (s : State) (c : ℕ) (approver : User) : Phase → Action → Option State
  | .started, .lock _ =>
    if s.owner = none then
      if s.row.state = .pending then
        some ({ s with owner := some c }.put c ⟨approver, .locked⟩)
      else some (s.finish c approver)
    else none
  | .locked, .expireLocked _ =>
    some ((s.commit s.row.markExpired none [⟨.expired, none⟩]).finish c approver)
  | .locked, .check _ =>
    match s.row.requestedBy with
    | none => some (s.finish c approver)
    | some requester =>
      if approver = requester then some (s.finish c approver)
      else some (s.put c ⟨approver, .checked⟩)
  | .locked, .refuse _ => some (s.finish c approver)
  | .checked, .refuse _ => some (s.finish c approver)
  | .checked, .resolve _ =>
    some ((s.commit (s.row.stampApproved approver).markExecuted none
      [⟨.approved, some approver⟩, ⟨.executed, some approver⟩]).finish c approver)
  | .checked, .stale _ => some ((s.release c).put c ⟨approver, .relocking false⟩)
  | .checked, .begin_ _ => some (s.put c ⟨approver, .applying⟩)
  | .applying, .applyCommit _ =>
    -- The hook adds the approval's audit row to the commit that carries the stamp.
    some (((s.commit (s.row.stampApproved approver) (some c)
      [⟨.approved, some approver⟩]).release c).put c ⟨approver, .committed⟩)
  | .applying, .applyReturn _ =>
    -- Nothing was committed yet: the spine's commit carries the change.
    some ((s.commit (s.row.stampApproved approver).markExecuted (some c)
      [⟨.approved, some approver⟩, ⟨.executed, some approver⟩]).finish c approver)
  | .applying, .applyRaise _ permission =>
    if permission then some (s.finish c approver)
    else some ((s.release c).put c ⟨approver, .relocking false⟩)
  | .committed, .applyReturn _ =>
    some ({ s with log := .returned c :: s.log }.put c ⟨approver, .returned⟩)
  | .committed, .applyRaise _ permission =>
    if permission then some (s.finish c approver)
    else some (s.put c ⟨approver, .relocking true⟩)
  | .relocking _, .relock _ => if s.owner = none then some (relock s c approver) else none
  | .returned, .finish _ =>
    -- The call's own copy of the row says `approved`; the `UPDATE` names the row's id alone.
    if s.owner = none then
      some ((s.commit s.row.markExecuted none [⟨.executed, some approver⟩]).finish c approver)
    else none
  | _, .die _ => some (s.finish c approver)
  | _, _ => none

def Action.call : Action → Option ℕ
  | .approve _ _ | .reject _ | .cancel _ | .expire => none
  | .lock c | .expireLocked c | .check c | .refuse c | .resolve c | .stale c | .begin_ c
  | .applyCommit c | .applyReturn c | .applyRaise c _ | .relock c | .finish c | .die c => some c

/-- A transaction that decides a pending request without `apply()`. -/
def settle (s : State) (row : ChangeRequest) (audit : Audit) : Option State :=
  if s.owner = none ∧ s.row.state = .pending then some (s.commit row none [audit]) else none

def step (s : State) (a : Action) : Option State :=
  match a with
  | .approve c approver =>
    match s.calls c with
    | none => some (s.put c ⟨approver, .started⟩)
    | some _ => none
  | .reject user =>
    if s.row.requestedBy = some user then none
    else settle s (s.row.markDecided .rejected user) ⟨.rejected, some user⟩
  | .cancel user => settle s (s.row.markDecided .cancelled user) ⟨.cancelled, some user⟩
  | .expire => settle s s.row.markExpired ⟨.expired, none⟩
  | a =>
    match a.call with
    | none => none
    | some c =>
      match s.calls c with
      | none => none
      | some call => approveStep s c call.approver call.phase a

def run (s : State) : List Action → Option State
  | [] => some s
  | a :: as => (step s a).bind (run · as)

def State.queued (requestedBy : Option User) : State :=
  ⟨{ requestedBy := requestedBy }, none, fun _ => none, []⟩

end SpatiumDdi.Approvals
