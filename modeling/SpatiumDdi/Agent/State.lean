import Mathlib.Algebra.Order.Field.Rat
import SpatiumDdi.Lib.Crash
import SpatiumDdi.Lib.Text

/-!
What the DNS agent's config path works on: the bundles of the control plane, the
files of the state directory, and what the sync loop keeps in memory. A kill
leaves the files.
-/

namespace SpatiumDdi.Agent

abbrev Etag := String

abbrev Time := ℚ

structure Bundle where
  etag : Option Etag
  structuralEtag : Option Etag
  pendingApproval : Bool
  /-- Everything else in it, as serialised. -/
  rest : String
  deriving DecidableEq

/-- A file that holds a bundle: `none` where there is none, `some none` where the
content does not parse. -/
abbrev BundleFile := Option (Option Bundle)

/-- `quarantine.json`, and the fields of `Quarantine` once it names a bundle. -/
structure Quarantine where
  etag : Etag
  structural : Option Etag
  failures : Nat
  retryAt : Time

structure Disk where
  currentTmp : BundleFile := none
  current : BundleFile := none
  currentEtag : Option String := none
  previousTmp : BundleFile := none
  previous : BundleFile := none
  previousEtagTmp : Option String := none
  previousEtag : Option String := none
  held : BundleFile := none
  quarantine : Option Quarantine := none

inductive Status where
  | ok
  | reverted
  | revertFailed
  | noPrevious
  deriving DecidableEq

/-- Where a startup hold keeps its bundle: `held.json`, or memory. -/
inductive HeldSource where
  | path
  | parsed (bundle : Bundle)

/-- `_boot_hold`. Only a bundle with an etag is held. -/
structure BootHold where
  held : HeldSource
  etag : Etag
  deaths : Nat
  named : etag ≠ ""

structure SyncLoop where
  quarantine : Option Quarantine := none
  currentStructuralEtag : Option Etag := none
  bootHold : Option BootHold := none
  bootHoldOnPrevious : Bool := false
  revertLanded : Bool := false
  applyStatus : Status := .ok
  zonesRefused : Bool := false
  /-- `driver.held_back` is not empty. -/
  heldBack : Bool := false
  /-- The applies made so far, which number the driver's answers. -/
  applies : Nat := 0

structure Outcome where
  /-- The apply raised, having disturbed the daemon or not. -/
  error : Option Bool
  heldBack : Bool
  refused : Bool

inductive Event where
  | fetched (bundle : Bundle) (etag : Etag)
  /-- `barred` is the structure that was not to be applied at that moment. -/
  | applied (bundle : Bundle) (ok : Bool) (barred : Option Etag)
  /-- `previous.json` was replaced while `live` was the live structure. -/
  | committed (content : Option Bundle) (live : Option Etag)
  deriving DecidableEq

structure State where
  disk : Disk := {}
  loop : SyncLoop := {}
  /-- A process runs. -/
  up : Bool := false
  /-- Between the two renames of a commit. -/
  midCommit : Bool := false
  /-- While the loop starts: the structure the start is not to apply. -/
  starting : Option (Option Etag) := none
  log : List Event := []

/-- What a call of the agent meets: the clock and the driver's answer after each of
its applies, and the death record. -/
structure Env where
  outcome : Nat → Outcome
  clock : Nat → Time
  /-- `ApplyGuard.deaths` and `ApplyGuard.observed`. -/
  deaths : Etag → Nat
  observed : Etag → Nat
  /-- What `ApplyGuard.startup` returned. -/
  died : Option Etag

abbrev Act := Prog State

def setLoop (f : SyncLoop → SyncLoop) : Act Unit :=
  Prog.modify fun s => { s with loop := f s.loop }

def setDisk (f : Disk → Disk) : Act Unit :=
  Prog.modify fun s => { s with disk := f s.disk }

def Env.now (env : Env) (s : State) : Time := env.clock s.loop.applies

def syncFirstAfterDeaths : Nat := 1

def quarantineAfterDeaths : Nat := 2

/-- An etag that is neither missing nor empty. -/
def truthy : Option Etag → Option Etag
  | some e => if e = "" then none else some e
  | none => none

theorem truthy_eq_some {etag : Option Etag} {e : Etag} (h : truthy etag = some e) :
    etag = some e ∧ e ≠ "" := by
  cases etag with
  | none => cases h
  | some e' =>
    by_cases hempty : e' = ""
    · simp [truthy, hempty] at h
    · simp only [truthy, if_neg hempty, Option.some.injEq] at h
      exact ⟨congrArg some h, h ▸ hempty⟩

theorem truthy_of_ne {e : Etag} (h : e ≠ "") : truthy (some e) = some e := if_neg h

def Env.deathsFor (env : Env) (etag : Option Etag) : Nat :=
  match truthy etag with
  | some e => env.deaths e
  | none => 0

def Env.observedFor (env : Env) (etag : Option Etag) : Nat :=
  match truthy etag with
  | some e => env.observed e
  | none => 0

def Env.condemned (env : Env) (etag : Option Etag) : Bool :=
  quarantineAfterDeaths ≤ env.observedFor etag

namespace Quarantine

def retryBackoffSeconds : List Time := [60, 300, 900]

/-- `same_structure`, of the quarantine that may name no bundle. -/
def sameStructure (q : Option Quarantine) (etag structural : Option Etag) : Bool :=
  match etag, q with
  | some e, some q =>
    match q.structural, structural with
    | some failed, some new => new == failed
    | _, _ => e == q.etag
  | _, _ => false

def record (q : Option Quarantine) (etag : Etag) (structural : Option Etag) (now : Time) :
    Quarantine :=
  let failures := match q with
    | some old => if sameStructure q (some etag) structural then old.failures else 0
    | none => 0
  let idx := min failures (retryBackoffSeconds.length - 1)
  { etag, structural, failures := failures + 1
    retryAt := now + retryBackoffSeconds.getD idx 0 }

def blocks (q : Option Quarantine) (etag structural : Option Etag) (now : Time) : Bool :=
  match q with
  | some failed => sameStructure q etag structural && decide (now < failed.retryAt)
  | none => false

def retryDue (q : Option Quarantine) (now : Time) : Bool :=
  match q with
  | some failed => decide (failed.retryAt ≤ now)
  | none => false

/-- The structure the quarantine names, before its retry. -/
def barred (q : Option Quarantine) (now : Time) : Option Etag :=
  match q with
  | some failed => if now < failed.retryAt then failed.structural else none
  | none => none

end Quarantine

def readEtag (raw : String) : Etag := Text.strip (Text.readText raw)

@[simp] theorem readEtag_readText (raw : String) : readEtag (Text.readText raw) = readEtag raw := by
  simp [readEtag]

def loadConfig (d : Disk) : Option Bundle × Option Etag :=
  match d.current with
  | some (some bundle) => (some bundle, d.currentEtag.map readEtag)
  | _ => (none, none)

def loadPreviousConfig (d : Disk) : Option Bundle × Option Etag :=
  match d.previous with
  | some (some bundle) => (some bundle, d.previousEtag.map readEtag)
  | _ => (none, none)

def saveConfig (bundle : Bundle) (etag : Etag) : Act Unit := do
  Prog.modify fun s =>
    { s with disk := { s.disk with currentTmp := some none }
             log := .fetched bundle etag :: s.log }
  setDisk fun d => { d with currentTmp := some (some bundle) }
  setDisk fun d => { d with current := d.currentTmp, currentTmp := none }
  setDisk fun d => { d with currentEtag := some etag }

def promote : Act Unit := do
  setDisk fun d => { d with previousTmp := some none }
  setDisk fun d => { d with previousTmp := d.current }
  Prog.modify fun s =>
    { s with disk := { s.disk with previous := s.disk.previousTmp, previousTmp := none }
             midCommit := true
             log := .committed s.disk.previousTmp.join s.loop.currentStructuralEtag :: s.log }
  setDisk fun d => { d with previousEtagTmp := d.currentEtag.map Text.readText }
  Prog.modify fun s =>
    { s with disk := { s.disk with previousEtag := s.disk.previousEtagTmp
                                   previousEtagTmp := none }
             midCommit := false }

def commitConfig (etag : Etag) : Act Unit := do
  let s ← Prog.get
  match s.disk.current, s.disk.currentEtag with
  | some _, some raw =>
    if readEtag raw ≠ etag then
      pure ()
    else if s.disk.previousEtag.map readEtag = some etag then
      pure ()
    else
      promote
  | _, _ => pure ()

/-- `hold_bundle`: whether `held.json` holds the cached bundle now. -/
def holdBundle (etag : Etag) : Act Bool := do
  let s ← Prog.get
  match s.disk.currentEtag with
  | none => do
    setDisk fun d => { d with held := none }
    pure false
  | some raw =>
    if readEtag raw ≠ etag then
      pure false
    else do
      setDisk fun d => { d with held := none }
      setDisk fun d => { d with held := d.current }
      pure s.disk.current.isSome

def heldBundle (d : Disk) : HeldSource → Option Bundle
  | .path => d.held.join
  | .parsed bundle => some bundle

end SpatiumDdi.Agent
