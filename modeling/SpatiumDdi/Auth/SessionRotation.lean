import Mathlib.Data.Int.Basic
import Mathlib.Data.List.Basic
import Mathlib.Logic.Relation

/-!
The refresh rotation of a user's sessions and the two revocations, as READ COMMITTED transactions.
A row is locked until the transaction that locked it ends, a transaction's writes are seen when it
commits, and each statement reads what is committed when it runs. A session's id is its place in
the table, and a cookie is the id of the session it was issued for. Expiry, the idle timeout and the
account's own checks are one answer the environment gives; the rest of a session is left out.
-/

namespace SpatiumDdi.Auth.Rotation

/-- A `UserSession`. Times are in microseconds. -/
structure Session where
  revoked : Bool := false
  rotatedAt : Option ℤ := none
  rotatedToId : Option ℕ := none

def rotationGrace : ℤ := 10000000

def maxHops : ℕ := 4

def maxRevokeHops : ℕ := 64

def inRotationGrace (session : Session) (now : ℤ) : Bool :=
  session.revoked && session.rotatedToId.isSome &&
    session.rotatedAt.any fun rotatedAt => 0 ≤ now - rotatedAt && now - rotatedAt ≤ rotationGrace

/-- `rotation_successor` where no row changes during the walk, as an access token's `jti` is
resolved. -/
def rotationSuccessor (rows : List Session) (now : ℤ) : ℕ → ℕ → Option ℕ
  | 0, _ => none
  | hops + 1, current =>
    rows[current]?.bind fun session =>
      if session.revoked = false then some current
      else if inRotationGrace session now then
        session.rotatedToId.bind (rotationSuccessor rows now hops)
      else none

def liveAccessSession (rows : List Session) (now : ℤ) (jti : ℕ) : Option ℕ :=
  rotationSuccessor rows now (maxHops + 1) jti

/-- Where a refresh stands. The walk holds the row it read last. -/
inductive RefreshPhase where
  | waiting
  | walking (now : ℤ) (current : ℕ) (row : Session) (hops : ℕ)
  | resolved (now : ℤ) (session : ℕ)

/-- Where `revoke_live_sessions` stands: the rows its statement has still to visit, and those the
`UPDATE` has written. -/
inductive BulkPhase where
  | locking (todo : List ℕ)
  | updating (todo matched : List ℕ)

/-- Where `revoke_session_chain` stands. -/
inductive ChainPhase where
  | following (current : ℕ) (hops : ℕ)
  | found (row : ℕ)

inductive Txn where
  | refresh (presented : ℕ) (phase : RefreshPhase)
  | revokeLive (phase : BulkPhase)
  | revokeChain (named : ℕ) (phase : ChainPhase)

inductive Event where
  | rotated (session successor : ℕ)
  | answered (presented session : ℕ)
  | revokedLive
  | revokedChain (named : ℕ)
  deriving DecidableEq

/-- The committed rows, who holds the lock of a row, the transactions that are open, and what was
committed, the newest first. -/
structure State where
  rows : List Session
  owner : ℕ → Option ℕ
  txns : ℕ → Option Txn
  log : List Event

namespace State

variable (s : State)

def free (t r : ℕ) : Bool := s.owner r = none || s.owner r = some t

def isLive (r : ℕ) : Bool := s.rows[r]?.any (·.revoked = false)

def liveRows : List ℕ := (List.range s.rows.length).filter s.isLive

def lock (t r : ℕ) : State := { s with owner := Function.update s.owner r (some t) }

def put (t : ℕ) (x : Txn) : State := { s with txns := Function.update s.txns t (some x) }

def finish (t : ℕ) : State :=
  { s with
    owner := fun r => if s.owner r = some t then none else s.owner r
    txns := Function.update s.txns t none }

def record (events : List Event) : State := { s with log := events ++ s.log }

/-- The rows revoked by anything but a rotation. -/
def revoke (ids : List ℕ) : State :=
  { s with rows := s.rows.mapIdx fun r row => if r ∈ ids then { row with revoked := true } else row }

def rotate (presented : ℕ) (now : ℤ) : State :=
  { s with
    rows := (s.rows.mapIdx fun r row =>
      if r = presented then
        { row with revoked := true, rotatedAt := some now, rotatedToId := some s.rows.length }
      else row) ++ [{}] }

@[simp] theorem put_txns_self (t : ℕ) (x : Txn) : (s.put t x).txns t = some x :=
  Function.update_self ..

@[simp] theorem finish_txns_self (t : ℕ) : (s.finish t).txns t = none := Function.update_self ..

end State

inductive Action where
  | refresh (t cookie : ℕ)
  | lockPresented (t : ℕ) (now : ℤ)
  | hop (t : ℕ)
  | answer (t : ℕ) (ok : Bool)
  | revokeLive (t : ℕ)
  | lockLive (t r : ℕ)
  | beginUpdate (t : ℕ)
  | updateRow (t r : ℕ)
  | commitLive (t : ℕ)
  | revokeChain (t named : ℕ)
  | lockNext (t : ℕ)
  | commitChain (t : ℕ)
  | rollback (t : ℕ)

/-- One turn of the loop of `rotation_successor`, the next row read as it is committed now. -/
def hop (s : State) (t presented : ℕ) (now : ℤ) (current : ℕ) (row : Session) : ℕ → State
  | 0 => s.finish t
  | hops + 1 =>
    if row.revoked = false then s.put t (.refresh presented (.resolved now current))
    else if inRotationGrace row now then
      match row.rotatedToId with
      | none => s.finish t
      | some next =>
        match s.rows[next]? with
        | none => s.finish t
        | some nextRow => s.put t (.refresh presented (.walking now next nextRow hops))
    else s.finish t

/-- The end of `refresh`: refused, answered within the grace, or rotated. -/
def answer (s : State) (t presented : ℕ) (now : ℤ) (session : ℕ) (ok : Bool) : State :=
  if ok then
    if session = presented then
      ((s.rotate presented now).finish t).record
        [.answered presented s.rows.length, .rotated presented s.rows.length]
    else (s.finish t).record [.answered presented session]
  else s.finish t

/-- One turn of the loop of `revoke_session_chain`. -/
def followChain (s : State) (t named current : ℕ) : ℕ → State
  | 0 => s.finish t
  | hops + 1 =>
    match s.rows[current]? with
    | none => s.finish t
    | some row =>
      if row.revoked = false then (s.lock t current).put t (.revokeChain named (.found current))
      else
        match row.rotatedAt, row.rotatedToId with
        | some _, some next =>
          (s.lock t current).put t (.revokeChain named (.following next hops))
        | _, _ => s.finish t

/-- One step of one transaction; `none` where it cannot be taken, a lock it waits for among them. -/
def step (s : State) : Action → Option State
  | .refresh t cookie =>
    match s.txns t with
    | none => some (s.put t (.refresh cookie .waiting))
    | some _ => none
  | .lockPresented t now =>
    match s.txns t with
    | some (.refresh presented .waiting) =>
      if s.free t presented then
        match s.rows[presented]? with
        | none => some (s.finish t)
        | some row =>
          some ((s.lock t presented).put t
            (.refresh presented (.walking now presented row (maxHops + 1))))
      else none
    | _ => none
  | .hop t =>
    match s.txns t with
    | some (.refresh presented (.walking now current row hops)) =>
      some (hop s t presented now current row hops)
    | _ => none
  | .answer t ok =>
    match s.txns t with
    | some (.refresh presented (.resolved now session)) =>
      some (answer s t presented now session ok)
    | _ => none
  | .revokeLive t =>
    match s.txns t with
    | none => some (s.put t (.revokeLive (.locking s.liveRows)))
    | some _ => none
  | .lockLive t r =>
    match s.txns t with
    | some (.revokeLive (.locking todo)) =>
      if r ∈ todo ∧ s.free t r = true then
        -- A row that is no longer live when its lock is granted is skipped.
        let s' := if s.isLive r then s.lock t r else s
        some (s'.put t (.revokeLive (.locking (todo.erase r))))
      else none
    | _ => none
  | .beginUpdate t =>
    match s.txns t with
    | some (.revokeLive (.locking [])) => some (s.put t (.revokeLive (.updating s.liveRows [])))
    | _ => none
  | .updateRow t r =>
    match s.txns t with
    | some (.revokeLive (.updating todo matched)) =>
      if r ∈ todo ∧ s.free t r = true then
        if s.isLive r then
          some ((s.lock t r).put t (.revokeLive (.updating (todo.erase r) (r :: matched))))
        else some (s.put t (.revokeLive (.updating (todo.erase r) matched)))
      else none
    | _ => none
  | .commitLive t =>
    match s.txns t with
    | some (.revokeLive (.updating [] matched)) =>
      some (((s.revoke matched).finish t).record [.revokedLive])
    | _ => none
  | .revokeChain t named =>
    match s.txns t with
    | none => some (s.put t (.revokeChain named (.following named maxRevokeHops)))
    | some _ => none
  | .lockNext t =>
    match s.txns t with
    | some (.revokeChain named (.following current hops)) =>
      if s.free t current then some (followChain s t named current hops) else none
    | _ => none
  | .commitChain t =>
    match s.txns t with
    | some (.revokeChain named (.found row)) =>
      some (((s.revoke [row]).finish t).record [.revokedChain named])
    | _ => none
  | .rollback t => some (s.finish t)

def run (s : State) : List Action → Option State
  | [] => some s
  | a :: as => (step s a).bind (run · as)

def State.start (rows : List Session) : State := ⟨rows, fun _ => none, fun _ => none, []⟩

variable {rows rows' : List Session}

def Live (rows : List Session) (r : ℕ) : Prop :=
  ∃ row, rows[r]? = some row ∧ row.revoked = false

def Next (rows : List Session) (r q : ℕ) : Prop :=
  ∃ row, rows[r]? = some row ∧ row.rotatedToId = some q

abbrev Reach (rows : List Session) : ℕ → ℕ → Prop := Relation.ReflTransGen (Next rows)

def InChain (rows : List Session) (named r : ℕ) : Prop := Reach rows named r ∨ Reach rows r named

/-- Only a revoked row names a successor, and the successor is a row. -/
structure Chained (rows : List Session) : Prop where
  ended : ∀ r, Live rows r → ∀ q, ¬ Next rows r q
  inTable : ∀ r q, Next rows r q → q < rows.length

variable {r : ℕ}

theorem lt_of_getElem? {row : Session} (h : rows[r]? = some row) : r < rows.length :=
  (List.getElem?_eq_some_iff.mp h).1

theorem Live.lt (h : Live rows r) : r < rows.length := by
  obtain ⟨row, hrow, -⟩ := h
  exact lt_of_getElem? hrow

variable {q named : ℕ}

theorem Next.lt (h : Next rows r q) : r < rows.length := by
  obtain ⟨row, hrow, -⟩ := h
  exact lt_of_getElem? hrow

theorem next_unique : Relator.RightUnique (Next rows) := by
  rintro r q q' ⟨row, hrow, hq⟩ ⟨row', hrow', hq'⟩
  rw [hrow, Option.some.injEq] at hrow'
  rw [← hrow', hq, Option.some.injEq] at hq'
  exact hq'

theorem Chained.reach_of_live (hrows : Chained rows) (hlive : Live rows r) (h : Reach rows r q) :
    q = r := by
  rcases Relation.ReflTransGen.cases_head h with rfl | ⟨b, hb, -⟩
  · rfl
  · exact absurd hb (hrows.ended r hlive b)

theorem InChain.lt (hrows : Chained rows) (hnamed : named < rows.length) (h : InChain rows named r) :
    r < rows.length := by
  rcases h with h | h
  · rcases Relation.ReflTransGen.cases_tail h with rfl | ⟨b, -, hb⟩
    · exact hnamed
    · exact hrows.inTable b r hb
  · rcases Relation.ReflTransGen.cases_head h with rfl | ⟨b, hb, -⟩
    · exact hnamed
    · exact hb.lt

theorem InChain.trans (h : InChain rows named r) (hq : Reach rows r q) : InChain rows named q := by
  rcases h with h | h
  · exact Or.inl (h.trans hq)
  · exact Relation.ReflTransGen.total_of_right_unique next_unique h hq

theorem InChain.eq_of_live (hrows : Chained rows) (hr : Reach rows named r) (hlive : Live rows r)
    (hq : InChain rows named q) (hlive' : Live rows q) : q = r := by
  rcases hq with hq | hq
  · rcases Relation.ReflTransGen.total_of_right_unique next_unique hr hq with h | h
    · exact hrows.reach_of_live hlive h
    · exact (hrows.reach_of_live hlive' h).symm
  · have hnamed : named = q := hrows.reach_of_live hlive' hq
    exact (hrows.reach_of_live (hnamed ▸ hlive') (hnamed ▸ hr)).symm

theorem rotationSuccessor_spec {now : ℤ} {hops : ℕ}
    (h : rotationSuccessor rows now hops r = some q) : Live rows q ∧ Reach rows r q := by
  induction hops generalizing r with
  | zero => exact absurd h (by simp [rotationSuccessor])
  | succ hops ih =>
    rw [rotationSuccessor, Option.bind_eq_some_iff] at h
    obtain ⟨row, hrow, h⟩ := h
    split at h
    case isTrue hlive =>
      rw [Option.some.injEq] at h
      subst h
      exact ⟨⟨row, hrow, hlive⟩, Relation.ReflTransGen.refl⟩
    case isFalse =>
      obtain ⟨-, h⟩ := Option.ite_none_right_eq_some.mp h
      rw [Option.bind_eq_some_iff] at h
      obtain ⟨next, hnext, h⟩ := h
      obtain ⟨hlive, hreach⟩ := ih h
      exact ⟨hlive, Relation.ReflTransGen.head ⟨row, hrow, hnext⟩ hreach⟩

def Ended (rows : List Session) (class_ : ℕ → Prop) : Prop :=
  ∀ r, class_ r → ¬ Live rows r ∧ ∀ now, liveAccessSession rows now r = none

theorem Ended.of_live {class_ : ℕ → Prop} (hclosed : ∀ r q, class_ r → Reach rows r q → class_ q)
    (hdead : ∀ r, class_ r → ¬ Live rows r) : Ended rows class_ := by
  intro r hr
  refine ⟨hdead r hr, fun now => ?_⟩
  cases h : liveAccessSession rows now r with
  | none => rfl
  | some q =>
    obtain ⟨hlive, hreach⟩ := rotationSuccessor_spec h
    exact absurd hlive (hdead q (hclosed r q hr hreach))

/-- A write leaves revoked rows alone, and gives a live row no successor but a new one. -/
structure Extends (rows rows' : List Session) : Prop where
  length : rows.length ≤ rows'.length
  kept : ∀ (r : ℕ) (row : Session), rows[r]? = some row → row.revoked = true → rows'[r]? = some row
  live : ∀ r, Live rows' r → r < rows.length → Live rows r
  next : ∀ r q, Next rows' r q → Next rows r q ∨
    (Live rows r ∧ ¬ Live rows' r ∧ q = rows.length ∧ q < rows'.length)

theorem Extends.refl (rows : List Session) : Extends rows rows where
  length := le_rfl
  kept := fun _ _ h _ => h
  live := fun _ h _ => h
  next := fun _ _ h => Or.inl h

section

variable (h : Extends rows rows')
include h

theorem Extends.chained (hrows : Chained rows) : Chained rows' where
  ended := by
    intro r hlive q hnext
    rcases h.next r q hnext with hold | ⟨-, hdead, -, -⟩
    · exact hrows.ended r (h.live r hlive hold.lt) q hold
    · exact hdead hlive
  inTable := by
    intro r q hnext
    rcases h.next r q hnext with hold | ⟨-, -, -, hlt⟩
    · exact lt_of_lt_of_le (hrows.inTable r q hold) h.length
    · exact hlt

theorem Extends.next_mono (hrows : Chained rows) (hnext : Next rows r q) : Next rows' r q := by
  obtain ⟨row, hrow, hq⟩ := hnext
  have hrevoked : row.revoked = true := by
    cases hr : row.revoked with
    | true => rfl
    | false => exact absurd ⟨row, hrow, hq⟩ (hrows.ended r ⟨row, hrow, hr⟩ q)
  exact ⟨row, h.kept r row hrow hrevoked, hq⟩

theorem Extends.reach_mono (hrows : Chained rows) (hreach : Reach rows r q) : Reach rows' r q :=
  Relation.ReflTransGen.mono (fun _ _ => h.next_mono hrows) _ _ hreach

theorem Extends.inChain {named : ℕ} (hnamed : named < rows.length)
    (hdead : ∀ r, InChain rows named r → ¬ Live rows r) (hr : InChain rows' named r) :
    InChain rows named r := by
  rcases hr with hr | hr
  · left
    induction hr with
    | refl => exact Relation.ReflTransGen.refl
    | tail _ hnext ih =>
      rcases h.next _ _ hnext with hold | ⟨hlive, -⟩
      · exact ih.tail hold
      · exact absurd hlive (hdead _ (Or.inl ih))
  · right
    induction hr using Relation.ReflTransGen.head_induction_on with
    | refl => exact Relation.ReflTransGen.refl
    | head hnext _ ih =>
      rcases h.next _ _ hnext with hold | ⟨-, -, rfl, -⟩
      · exact Relation.ReflTransGen.head hold ih
      · -- The new row has no successor yet, and it is not the named one.
        rcases Relation.ReflTransGen.cases_head ih with heq | ⟨b, hb, -⟩
        · exact absurd hnamed (by rw [← heq]; exact lt_irrefl _)
        · exact absurd hb.lt (lt_irrefl _)

theorem Extends.dead (hrows : Chained rows) {named : ℕ} (hnamed : named < rows.length)
    (hdead : ∀ r, InChain rows named r → ¬ Live rows r) (hr : InChain rows' named r) :
    ¬ Live rows' r := by
  intro hlive
  have hold := h.inChain hnamed hdead hr
  exact hdead r hold (h.live r hlive (hold.lt hrows hnamed))

end

end SpatiumDdi.Auth.Rotation
