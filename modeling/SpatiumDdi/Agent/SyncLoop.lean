import SpatiumDdi.Agent.State

/-!
The config path of the sync loop: the start from the cached bundle, the hold after
a daemon death, and what a poll does with the control plane's answer. The driver's
answers, the clock and the death record are those of the environment.
-/

namespace SpatiumDdi.Agent

/-- The structure an apply made now is not to have: at a start the one the start is
barred from, in a poll the quarantined one. -/
def State.barred (s : State) (now : Time) : Option Etag :=
  s.starting.getD (Quarantine.barred s.loop.quarantine now)

def setStatus (status : Status) : Act Unit := setLoop fun l => { l with applyStatus := status }

def setQuarantine (q : Option Quarantine) : Act Unit :=
  Prog.modify fun s =>
    { s with loop := { s.loop with quarantine := q }, disk := { s.disk with quarantine := q } }

/-- `self._quarantine.record`. -/
def recordFailure (env : Env) (etag : Etag) (structural : Option Etag) : Act Unit := do
  let s ← Prog.get
  setQuarantine (some (Quarantine.record s.loop.quarantine etag structural (env.now s)))

/-- `_guarded_apply`: the driver's answer to the bundle. -/
def guardedApply (env : Env) (bundle : Bundle) : Act Outcome := do
  let s ← Prog.get
  let outcome := env.outcome s.loop.applies
  Prog.modify fun s =>
    { s with loop := { s.loop with applies := s.loop.applies + 1, heldBack := outcome.heldBack }
             log := .applied bundle outcome.error.isNone (s.barred (env.now s)) :: s.log }
  pure outcome

/-- `_current_structural_etag = _applied_fingerprint(bundle)`. -/
def setFingerprint (bundle : Bundle) : Act Unit :=
  setLoop fun l =>
    { l with currentStructuralEtag := if l.heldBack then none else bundle.structuralEtag }

def reportApplied (outcome : Outcome) : Act Unit :=
  setLoop fun l =>
    if l.heldBack || outcome.refused then
      { l with zonesRefused := true, applyStatus := .reverted }
    else
      { l with zonesRefused := false, applyStatus := .ok }

def previousUsable (env : Env) (prevEtag failedEtag : Option Etag) (beforeSync : Bool) : Bool :=
  if prevEtag.isSome && prevEtag == failedEtag then
    false
  else if env.condemned prevEtag then
    false
  else
    !beforeSync || env.deathsFor prevEtag == 0

/-- The last-known-good bundle where it is a fallback for `failedEtag`. -/
def usablePrevious (env : Env) (d : Disk) (failedEtag : Option Etag) (beforeSync : Bool) :
    Option (Bundle × Option Etag) :=
  match loadPreviousConfig d with
  | (some prev, prevEtag) =>
    if previousUsable env prevEtag failedEtag beforeSync then some (prev, prevEtag) else none
  | (none, _) => none

def bootstrapFallback (env : Env) (failedEtag : Option Etag) (beforeSync : Bool) : Act Unit := do
  let s ← Prog.get
  match usablePrevious env s.disk failedEtag beforeSync with
  | none => setStatus .noPrevious
  | some (prev, _) => do
    let outcome ← guardedApply env prev
    match outcome.error with
    | some _ => setStatus .revertFailed
    | none => do
      setFingerprint prev
      setStatus .reverted

/-- The record of a failed apply of a bundle that has an etag. -/
def recordBootFailure (env : Env) (etag structural : Option Etag) : Act Unit :=
  match truthy etag with
  | some e => recordFailure env e structural
  | none => pure ()

/-- `_bootstrap_apply` where the apply raised. -/
def bootstrapFailed (env : Env) (bundle : Bundle) (etag : Option Etag) (fromPrevious : Bool)
    (beforeSync : Bool) : Act Unit :=
  if fromPrevious then
    setStatus .revertFailed
  else do
    recordBootFailure env etag bundle.structuralEtag
    bootstrapFallback env etag beforeSync

def bootstrapApply (env : Env) (bundle : Bundle) (etag : Option Etag) (fromPrevious : Bool)
    (beforeSync : Bool) : Act Bool := do
  let outcome ← guardedApply env bundle
  match outcome.error with
  | none => do
    setFingerprint bundle
    if fromPrevious then
      pure true
    else do
      reportApplied outcome
      commitConfig (etag.getD "")
      pure true
  | some _ => do
    bootstrapFailed env bundle etag fromPrevious beforeSync
    pure false

def beginBootHold (bundle : Bundle) (etag : Etag) (named : etag ≠ "") (deaths : Nat) :
    Act Unit := do
  let held ← holdBundle etag
  setLoop fun l =>
    { l with bootHold := some ⟨if held then .path else .parsed bundle, etag, deaths, named⟩
             applyStatus := .noPrevious }

def endBootHold : Act Unit := do
  let s ← Prog.get
  match s.loop.bootHold with
  | none => pure ()
  | some _ => do
    setLoop fun l => { l with bootHold := none, bootHoldOnPrevious := false }
    setDisk fun d => { d with held := none }

/-- `_boot_hold_fallback` where the held bundle is not condemned. -/
def serveHeld (env : Env) (hold : BootHold) (failedEtag : Option Etag) : Act Unit := do
  let s ← Prog.get
  match heldBundle s.disk hold.held with
  | none => pure ()
  | some bundle =>
    match failedEtag with
    | none => do
      let live ← bootstrapApply env bundle (some hold.etag) false false
      if live then endBootHold else pure ()
    | some _ => do
      let live ← bootstrapApply env bundle (some hold.etag) true false
      if live then do
        setStatus .reverted
        endBootHold
      else
        pure ()

/-- `_boot_hold_fallback` where no last-known-good bundle can serve. -/
def retryHeld (env : Env) (hold : BootHold) : Act Unit := do
  let s ← Prog.get
  if Quarantine.retryDue s.loop.quarantine (env.now s) then
    match heldBundle s.disk hold.held with
    | none => pure ()
    | some bundle => do
      let live ← bootstrapApply env bundle (some hold.etag) false false
      if live then endBootHold else pure ()
  else
    pure ()

/-- `_boot_hold_fallback` where the held bundle is condemned or quarantined. -/
def servePrevious (env : Env) (hold : BootHold) (failedEtag : Option Etag) : Act Unit := do
  let s ← Prog.get
  match usablePrevious env s.disk (some hold.etag) false with
  | some (prev, prevEtag) =>
    if prevEtag = failedEtag then
      retryHeld env hold
    else do
      setStatus .reverted
      let live ← bootstrapApply env prev prevEtag true false
      if live then
        setLoop fun l => { l with applyStatus := .reverted, bootHoldOnPrevious := true }
      else
        pure ()
  | none => retryHeld env hold

def bootHoldFallback (env : Env) (failedEtag : Option Etag) : Act Unit := do
  let s ← Prog.get
  match s.loop.bootHold with
  | none => pure ()
  | some hold =>
    if s.loop.bootHoldOnPrevious then
      pure ()
    else if !env.condemned (some hold.etag) &&
        s.loop.quarantine.map (·.etag) != some hold.etag then
      serveHeld env hold failedEtag
    else
      servePrevious env hold failedEtag

def previousServesHold (env : Env) (d : Disk) (heldEtag : Etag) : Bool :=
  match truthy (d.previousEtag.map readEtag) with
  | none => false
  | some prevEtag =>
    previousUsable env (some prevEtag) (some heldEtag) false && (loadPreviousConfig d).1.isSome

/-- `_boot_hold_max_wait`, where the hold has waited long enough or not. -/
def bootHoldMaxWait (env : Env) (waited : Bool) : Act Unit := do
  let s ← Prog.get
  match s.loop.bootHold with
  | none => pure ()
  | some hold =>
    if s.loop.bootHoldOnPrevious || !waited then
      pure ()
    else if !env.condemned (some hold.etag) || previousServesHold env s.disk hold.etag then do
      bootHoldFallback env none
      setLoop fun l =>
        if l.bootHold.isSome && l.applyStatus == .reverted then
          { l with bootHoldOnPrevious := true }
        else l
    else
      pure ()

/-- `_maybe_settle`, where the guard trusts the bundle `settled` again. -/
def maybeSettle (settled : Option Etag) : Act Unit := do
  let s ← Prog.get
  if settled.isSome && s.loop.quarantine.map (·.etag) == settled then
    setQuarantine none
  else
    pure ()

def handleApplyFailure (env : Env) (etag : Etag) (structural : Option Etag)
    (daemonDisturbed : Bool) : Act Unit := do
  recordFailure env etag structural
  setLoop fun l => { l with revertLanded := false, zonesRefused := false }
  let s ← Prog.get
  match usablePrevious env s.disk (some etag) false with
  | none =>
    setLoop fun l =>
      { l with currentStructuralEtag := if daemonDisturbed then none else l.currentStructuralEtag
               applyStatus := .noPrevious }
  | some (prev, _) =>
    if !daemonDisturbed then
      setStatus .reverted
    else do
      let outcome ← guardedApply env prev
      match outcome.error with
      | some _ =>
        setLoop fun l => { l with currentStructuralEtag := none, applyStatus := .revertFailed }
      | none => do
        setLoop fun l => { l with revertLanded := true, applyStatus := .reverted }
        setFingerprint prev

/-- `_apply_with_revert`: whether the bundle is live. -/
def applyWithRevert (env : Env) (bundle : Bundle) (etag : Etag) : Act Bool := do
  let outcome ← guardedApply env bundle
  match outcome.error with
  | some daemonDisturbed => do
    handleApplyFailure env etag bundle.structuralEtag daemonDisturbed
    pure false
  | none => do
    setQuarantine none
    commitConfig etag
    reportApplied outcome
    pure true

def confirm (etag : Etag) : Act Unit := do
  setLoop fun l =>
    if l.quarantine.isNone && l.applyStatus != .ok && !l.heldBack && !l.zonesRefused then
      { l with applyStatus := .ok }
    else l
  commitConfig etag
  endBootHold

/-- What a poll does where the structural apply failed. -/
def afterFailure (env : Env) (etag : Etag) : Act Unit := do
  let s ← Prog.get
  if s.loop.bootHold.isSome then
    if s.loop.revertLanded then endBootHold else bootHoldFallback env (some etag)
  else
    pure ()

def settleBundle (env : Env) (bundle : Bundle) (etag : Etag) : Act Unit := do
  let s ← Prog.get
  if bundle.structuralEtag ≠ s.loop.currentStructuralEtag then
    if Quarantine.blocks s.loop.quarantine (some etag) bundle.structuralEtag (env.now s) then
      bootHoldFallback env none
    else do
      let live ← applyWithRevert env bundle etag
      if live then do
        setFingerprint bundle
        confirm etag
      else
        afterFailure env etag
  else
    confirm etag

/-- The quarantine of a bundle the control plane serves no longer is dropped. -/
def clearMoot (etag : Etag) (structural : Option Etag) : Act Unit := do
  let s ← Prog.get
  if s.loop.quarantine.isSome &&
      !Quarantine.sameStructure s.loop.quarantine (some etag) structural then
    setQuarantine none
  else
    pure ()

/-- What a poll does with a bundle of the control plane. -/
def acceptBundle (env : Env) (bundle : Bundle) (etag : Etag) : Act Unit := do
  clearMoot etag bundle.structuralEtag
  saveConfig bundle etag
  settleBundle env bundle etag

inductive Response where
  | unreachable
  | notModified
  /-- 401, 404, a duplicate instance, or any other status. -/
  | refused
  | ok (bundle : Bundle) (header : Option Etag)

/-- `bundle.get("etag") or resp.headers.get("ETag")`, unless empty. -/
def Response.etag (bundle : Bundle) (header : Option Etag) : Option Etag :=
  match truthy bundle.etag with
  | some e => some e
  | none => truthy header

def beforeFetch (env : Env) (settled : Option Etag) (waited : Bool) : Act Unit := do
  maybeSettle settled
  bootHoldMaxWait env waited

def afterFetch (env : Env) : Response → Act Unit
  | .unreachable | .refused => bootHoldFallback env none
  | .notModified => pure ()
  | .ok bundle header =>
    if bundle.pendingApproval then
      pure ()
    else
      match Response.etag bundle header with
      | none => pure ()
      | some etag => acceptBundle env bundle etag

def bootstrap (env : Env) (bundle : Bundle) (etag : Option Etag) : Act Unit := do
  let s ← Prog.get
  if Quarantine.blocks s.loop.quarantine etag none (env.now s) then
    match usablePrevious env s.disk etag true with
    | some (prev, prevEtag) => do
      setStatus .reverted
      let _ ← bootstrapApply env prev prevEtag true true
      pure ()
    | none => do
      let _ ← bootstrapApply env bundle etag false true
      pure ()
  else do
    let _ ← bootstrapApply env bundle etag false true
    pure ()

/-- A bundle the daemon was seen to die on is quarantined, once a death. -/
def recordDeath (env : Env) (etag : Etag) : Act Unit := do
  let s ← Prog.get
  if env.condemned (some etag) &&
      (env.died == some etag || s.loop.quarantine.map (·.etag) != some etag) then
    recordFailure env etag none
  else
    pure ()

/-- `SyncLoop.__init__`, where the daemon died on the cached bundle. -/
def holdAtStart (env : Env) (bundle : Bundle) (etag : Etag) (named : etag ≠ "") :
    Act Unit := do
  recordDeath env etag
  beginBootHold bundle etag named (env.deathsFor (some etag))

/-- `SyncLoop.__init__`, past the loading of the cached bundle. -/
def startFrom (env : Env) : Option Bundle × Option Etag → Act Unit
  | (none, _) => pure ()
  | (some bundle, etag) =>
    match h : truthy etag with
    | some e =>
      if syncFirstAfterDeaths ≤ env.deathsFor etag then
        holdAtStart env bundle e (truthy_eq_some h).2
      else
        bootstrap env bundle etag
    | none => bootstrap env bundle etag

/-- The structure a start is not to apply: the one the quarantine names, where its retry
has not come and a usable last-known-good bundle has another. -/
def barredAtStart (env : Env) (d : Disk) : Option Etag :=
  match Quarantine.barred d.quarantine (env.clock 0),
      usablePrevious env d (loadConfig d).2 true with
  | some failed, some (prev, _) => if prev.structuralEtag = some failed then none else some failed
  | _, _ => none

/-- The state in which a process starts: the quarantine is loaded, and no hold is left. -/
def State.begun (env : Env) (s : State) : State :=
  { s with up := true
           starting := some (barredAtStart env s.disk)
           loop := { quarantine := s.disk.quarantine }
           disk := { s.disk with held := none } }

def startup (env : Env) : Act Unit := do
  Prog.modify fun s => s.begun env
  let s ← Prog.get
  startFrom env (loadConfig s.disk)
  Prog.modify fun s => { s with starting := none }

/-- The calls of the config path. A poll is the two of its calls in turn. -/
inductive Call where
  | startup (env : Env)
  | beforeFetch (env : Env) (settled : Option Etag) (waited : Bool)
  | afterFetch (env : Env) (resp : Response)

def Call.prog : Call → Act Unit
  | .startup env => Agent.startup env
  | .beforeFetch env settled waited => Agent.beforeFetch env settled waited
  | .afterFetch env resp => Agent.afterFetch env resp

def State.crash (s : State) : State :=
  { s with loop := {}, up := false, midCommit := false, starting := none }

/-- A process starts at any time, and polls only once it has started. -/
def Call.enabled (s : State) : Call → Prop
  | .startup _ => True
  | .beforeFetch .. | .afterFetch .. => s.up = true

end SpatiumDdi.Agent
