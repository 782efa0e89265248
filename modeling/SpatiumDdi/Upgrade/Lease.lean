import Mathlib.Data.Int.Notation
import SpatiumDdi.Lib.SharedTask

/-!
The upgrade Lease and what is done to it: the helpers that send one request to
the kubeapi, and the mutex built on them. Every read and write is a call that the
kubeapi may leave unanswered; a write carries the version of the Lease it was
decided on. `acquireTime` is written and never read, and is left out.
-/

namespace SpatiumDdi.Upgrade

abbrev Time := ℤ

def seconds (n : ℤ) : Time := n * 1000000

inductive Stamp where
  | micro (t : Time)
  /-- A text that is no timestamp. -/
  | other (text : String)
deriving DecidableEq

structure LeaseSpec where
  holderIdentity : Option String
  leaseDurationSeconds : Option Nat
  renewTime : Option Stamp
  leaseTransitions : Option Nat
deriving DecidableEq

structure Lease extends LeaseSpec where
  resourceVersion : Nat
deriving DecidableEq

/-- A merge patch of a Lease's spec; what it does not name stays. -/
structure LeasePatch where
  holderIdentity : String
  renewTime : Stamp
  leaseDurationSeconds : Option Nat := none
  leaseTransitions : Option Nat := none
deriving DecidableEq

inductive Request where
  | get
  | post (spec : LeaseSpec)
  | patch (p : LeasePatch) (resourceVersion : Option Nat)
deriving DecidableEq

inductive Response where
  | answered (status : Nat) (body : Option Lease) (text : String)
  /-- `KubeapiUnavailableError`, with its text. -/
  | unanswered (error : String)
deriving DecidableEq

inductive Call where
  | getConfig
  | clock
  | request (r : Request)

def Reply : Call → Type
  | .getConfig => Bool
  | .clock => Time
  | .request _ => Response

abbrev Kube (α : Type) := Task Reply α

/-- Whether a ServiceAccount is mounted. -/
def getConfig : Kube Bool := Task.ask Call.getConfig

def clock : Kube Time := Task.ask Call.clock

def request (r : Request) : Kube Response := Task.ask (Call.request r)

def notMounted : String := "ServiceAccount not mounted"

def kubeapiStatus (status : Nat) (text : String) : String :=
  "kubeapi status " ++ toString status ++ ": " ++ text

def getLease : Kube (Except String (Nat × Option Lease)) := do
  let cfg ← getConfig
  if cfg = false then
    return .error (notMounted ++ "; kubeapi unreachable")
  match ← request .get with
  | .unanswered error => return .error error
  | .answered status body _ =>
    if status = 200 then
      return .ok (status, body)
    else
      return .ok (status, none)

def createLease (holder : String) (leaseDurationSeconds : Nat) :
    Kube (Bool × Option String) := do
  let cfg ← getConfig
  if cfg = false then
    return (false, some notMounted)
  let now ← clock
  let spec : LeaseSpec :=
    { holderIdentity := some holder
      leaseDurationSeconds := some leaseDurationSeconds
      renewTime := some (.micro now)
      leaseTransitions := some 1 }
  match ← request (.post spec) with
  | .unanswered error => return (false, some error)
  | .answered status _ text =>
    if status = 200 ∨ status = 201 then
      return (true, none)
    else
      return (false, some (kubeapiStatus status text))

def conflict : String := "conflict: lease updated by another holder"

def updateLease (holder : String) (leaseDurationSeconds : Nat) (bumpTransitions : Bool)
    (expectedTransitions : Option Nat) (resourceVersion : Option Nat) :
    Kube (Bool × Option String) := do
  let cfg ← getConfig
  if cfg = false then
    return (false, some notMounted)
  let now ← clock
  let patch : LeasePatch :=
    { holderIdentity := holder
      leaseDurationSeconds := some leaseDurationSeconds
      renewTime := .micro now
      leaseTransitions := if bumpTransitions then expectedTransitions.map (· + 1) else none }
  match ← request (.patch patch resourceVersion) with
  | .unanswered error => return (false, some error)
  | .answered status _ text =>
    if status = 200 then
      return (true, none)
    else if status = 409 then
      return (false, some conflict)
    else
      return (false, some (kubeapiStatus status text))

def clearLeaseHolder (resourceVersion : Option Nat) : Kube (Bool × Option String) := do
  let cfg ← getConfig
  if cfg = false then
    return (false, some notMounted)
  let now ← clock
  -- A stamp two hours old: the next read takes the Lease for expired.
  let patch : LeasePatch := { holderIdentity := "", renewTime := .micro (now - seconds 7200) }
  match ← request (.patch patch resourceVersion) with
  | .unanswered error => return (false, some error)
  | .answered status _ text =>
    if status = 200 then
      return (true, none)
    else
      return (false, some (kubeapiStatus status text))

structure LeaseState where
  held : Bool
  holder : Option String
  renewTime : Option Stamp
  transitions : Nat
  expired : Bool
deriving DecidableEq

def noLease : LeaseState where
  held := false
  holder := none
  renewTime := none
  transitions := 0
  expired := false

/-- `LeaseUnknownError`: whether a Lease is held is unknown. -/
structure LeaseUnknownError where
  text : String

def defaultLeaseDurationS : Nat := 60

def driveIdentity (pod nonce : String) : String := pod ++ "_" ++ nonce

def orDefault (n : Option Nat) (default : Nat) : Nat :=
  match n with
  | none | some 0 => default
  | some n => n

def LeaseSpec.duration (spec : LeaseSpec) : Nat :=
  orDefault spec.leaseDurationSeconds defaultLeaseDurationS

def named : Option String → Bool
  | none => false
  | some holder => holder != ""

def parseLease : Option Lease → Kube LeaseState
  | none => return noLease
  | some body => do
    let expired ← match body.renewTime with
      | none => pure false
      | some (.other text) => pure (text != "")
      | some (.micro renewed) => do
        let now ← clock
        pure (decide (now - renewed > seconds body.duration))
    return { held := named body.holderIdentity && !expired
             holder := body.holderIdentity
             renewTime := body.renewTime
             transitions := body.leaseTransitions.getD 0
             expired := expired }

def unreachableHolder : String := "<unreachable>"

/-- A Lease that could not be read counts as held. -/
def heldBy (holder : String) : LeaseState where
  held := true
  holder := some holder
  renewTime := none
  transitions := 0
  expired := false

def read : Kube (LeaseState × Option Nat) := do
  match ← getLease with
  | .error _ =>
    let cfg ← getConfig
    if cfg then
      return (heldBy unreachableHolder, none)
    else
      return (noLease, none)
  | .ok (status, body) =>
    if status = 404 then
      return (noLease, none)
    else match body with
      | none =>
        return (heldBy (if status = 403 then "<rbac-missing>"
          else if status = 401 then "<forbidden>" else unreachableHolder), none)
      | some lease => do
        let state ← parseLease (some lease)
        return (state, some lease.resourceVersion)

def getState : Kube LeaseState := do
  let (state, _) ← read
  return state

def orNobody (holder : Option String) : String :=
  if named holder then holder.getD "" else "nobody"

def renew (me : String) (leaseDurationSeconds : Nat) :
    Kube (Except LeaseUnknownError (Bool × Option String)) := do
  let cfg ← getConfig
  if cfg = false then
    return .ok (false, some "lease lost: held by nobody")
  match ← getLease with
  | .error error => return .error ⟨"lease read unanswered: " ++ error⟩
  | .ok (status, body) =>
    if status = 404 then
      return .ok (false, some "lease lost: held by nobody")
    else match body with
      | none => return .error ⟨"lease read returned " ++ toString status⟩
      | some lease => do
        let state ← parseLease (some lease)
        if state.holder ≠ some me then
          return .ok (false, some ("lease lost: held by " ++ orNobody state.holder))
        let (ok, err) ←
          updateLease me leaseDurationSeconds false none (some lease.resourceVersion)
        if ok = false ∧ ¬ "conflict".toList.isPrefixOf (err.getD "").toList then
          return .error ⟨"lease renew write failed: " ++ err.getD "None"⟩
        return .ok (ok, err)

def acquire (me : String) (leaseDurationSeconds : Nat) :
    Kube (Except LeaseUnknownError (Bool × Option String)) := do
  let (state, version) ← read
  if state.held = false ∧ state.holder = none then
    let (ok, err) ← createLease me leaseDurationSeconds
    if ok then
      return .ok (true, none)
    -- Someone else created it between the read and the write, or the write failed.
    let state ← getState
    if state.held ∧ state.holder ≠ some me then
      return .ok (false, some ("held by " ++ state.holder.getD "None"))
    return .ok (false, err)
  if state.held ∧ state.holder = some me then
    return ← renew me leaseDurationSeconds
  if state.held then
    return .ok (false, some ("held by " ++ state.holder.getD "None"))
  -- Expired or given up: take over.
  let (ok, err) ← updateLease me leaseDurationSeconds true (some state.transitions) version
  if ok then
    return .ok (true, none)
  return .ok (false, err)

/-- `attempts` tries at a release; a 409 or an unanswered call is tried again, from the read. -/
def releaseAttempts (me : String) : Nat → Kube Bool
  | 0 => return false
  | attempts + 1 => do
    match ← getLease with
    | .error _ => releaseAttempts me attempts
    | .ok (status, body) =>
      if status = 404 then
        return false
      else match body with
        | none => releaseAttempts me attempts
        | some lease => do
          let state ← parseLease (some lease)
          if state.held = false ∨ state.holder ≠ some me then
            return false
          let (ok, _) ← clearLeaseHolder (some lease.resourceVersion)
          if ok then
            return true
          releaseAttempts me attempts

def releaseIfHeld (me : String) (attempts : Nat) : Kube Bool := do
  let cfg ← getConfig
  if cfg = false then
    return false
  releaseAttempts me (max 1 attempts)

inductive ReleaseOutcome where
  | released
  | noLease
  | notHeld
  | alive
  | unreadable
  | writeFailed
deriving DecidableEq

structure ForceReleaseOutcome where
  outcome : ReleaseOutcome
  state : Option LeaseState := none
  idle : Option Time := none
  error : Option String := none
deriving DecidableEq

/-- How long ago the Lease was renewed; unknown for a stamp that cannot be read. -/
def idleTime : Option Stamp → Kube (Option Time)
  | some (.micro renewed) => do
    let now ← clock
    return some (now - renewed)
  | some (.other _) | none => return none

def forceReleaseIdle (minIdle : Time) : Kube ForceReleaseOutcome := do
  let cfg ← getConfig
  if cfg = false then
    return { outcome := .noLease }
  match ← getLease with
  | .error error => return { outcome := .unreadable, error := some error }
  | .ok (status, body) =>
    if status = 404 then
      return { outcome := .notHeld }
    else match body with
      | none =>
        return { outcome := .unreadable
                 error := some ("lease read returned " ++ toString status) }
      | some lease => do
        let state ← parseLease (some lease)
        if named state.holder = false then
          return { outcome := .notHeld, state := some state }
        let idle ← idleTime state.renewTime
        if idle.any (· < minIdle) then
          return { outcome := .alive, state := some state, idle := idle }
        let (ok, err) ← clearLeaseHolder (some lease.resourceVersion)
        if ok = false then
          return { outcome := .writeFailed, state := some state, idle := idle, error := err }
        return { outcome := .released, state := some state, idle := idle }

/-- Without a holder the Lease is cleared whoever holds it. -/
def release (holder : Option String) : Kube (Bool × Option String) := do
  let cfg ← getConfig
  if cfg = false then
    return (true, none)
  match holder with
  | none => clearLeaseHolder none
  | some holder =>
    let (state, version) ← read
    if state.holder ≠ some holder then
      return (true, none)
    clearLeaseHolder version

end SpatiumDdi.Upgrade
