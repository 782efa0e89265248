import SpatiumDdi.Upgrade.LeaseServer

/-!
Every operation of the mutex keeps to the rules of the Lease, whatever the others do
between its calls. An acquire or a renewal that reports success leaves the Lease naming
its drive, with a stamp no older than the attempt.
-/

namespace SpatiumDdi.Upgrade

open Cluster

variable {author : Author} {w : Cluster} {me : String} {a : Time} {l : Lease}

theorem getLease_safe (hsound : w.Sound) :
    getLease.Safe (kube author)
      (fun res u => w.Rely u ∧ ∀ status l, res = .ok (status, some l) → u.Seen l) w := by
  unfold getLease
  refine Task.Safe.bind (getConfig_safe.mono fun cfg u hu => ?_)
  refine Task.safe_ite (fun _ => Task.safe_pure ⟨hu, nofun⟩) fun _ => ?_
  refine Task.Safe.bind (request_safe (fun _ _ => trivial) ?_ ?_)
  · rintro v text out hv hs hrely hne
    have hwv := hu.trans hv
    cases hs with
    | refused _ _ hfail => exact absurd hfail hne
    | got l hl =>
      refine Task.safe_pure ⟨hwv, fun status l' hl' => ?_⟩
      obtain ⟨-, rfl⟩ : 200 = status ∧ l = l' := by simpa using hl'
      have hl' := hwv.sound hsound l hl
      exact ⟨hl'.1, fun l' h _ => Option.some.inj (h.symm.trans hl), hl'.2⟩
  · intro v response hv hfail
    have hwv := hu.trans hv
    cases response with
    | unanswered error => exact Task.safe_pure ⟨hwv, nofun⟩
    | answered status body text =>
      obtain rfl : body = none := hfail
      exact Task.safe_ite (fun _ => Task.safe_pure ⟨hwv, by simp⟩)
        fun _ => Task.safe_pure ⟨hwv, by simp⟩

theorem parseLease_safe :
    (parseLease (some l)).Safe (kube author)
      (fun state u => w.Rely u ∧ state.holder = l.holderIdentity ∧
        (state.held = false → l.heldAt u.now = false)) w := by
  unfold parseLease
  have hparsed : ∀ (u : Cluster) (expired : Bool), w.Rely u → expired = l.expiredAt u.now →
      (pure { held := named l.holderIdentity && !expired, holder := l.holderIdentity,
              renewTime := l.renewTime, transitions := l.leaseTransitions.getD 0,
              expired := expired } : Kube LeaseState).Safe (kube author)
        (fun state u => w.Rely u ∧ state.holder = l.holderIdentity ∧
          (state.held = false → l.heldAt u.now = false)) u := by
    intro u expired hu hexpired
    refine Task.safe_pure ⟨hu, rfl, fun hheld => ?_⟩
    unfold LeaseSpec.heldAt
    rw [← hexpired]
    exact hheld
  dsimp only
  cases hrenew : l.renewTime with
  | none =>
    have hexp : false = l.expiredAt w.now := by simp [LeaseSpec.expiredAt, hrenew]
    refine Task.Safe.bind (Task.safe_pure ?_)
    simpa only [hrenew] using hparsed w false (Rely.refl w) hexp
  | some stamp =>
    cases stamp with
    | other text =>
      have hexp : (text != "") = l.expiredAt w.now := by simp [LeaseSpec.expiredAt, hrenew]
      refine Task.Safe.bind (Task.safe_pure ?_)
      simpa only [hrenew] using hparsed w _ (Rely.refl w) hexp
    | micro renewed =>
      refine Task.Safe.bind (clock_safe.mono ?_)
      rintro now u ⟨hu, rfl⟩
      refine Task.Safe.bind (Task.safe_pure ?_)
      have hexp : decide (u.now - renewed > seconds l.duration) = l.expiredAt u.now := by
        simp [LeaseSpec.expiredAt, hrenew]
      simpa only [hrenew] using hparsed u _ hu hexp

theorem updateLease_safe (hme : me ≠ "") (hseen : w.Seen l) (ha : a ≤ w.now) (bump : Bool)
    (expected : Option Nat)
    (hfree : l.heldAt w.now = false ∨ l.holderIdentity = some me) :
    (updateLease me leaseDurationS bump expected (some l.resourceVersion)).Safe
      (kube (.drive me)) (fun res u => w.Rely u ∧ (res.1 = true → u.Holds me a)) w := by
  unfold updateLease
  refine Task.Safe.bind (getConfig_safe.mono fun cfg u hu => ?_)
  refine Task.safe_ite (fun _ => Task.safe_pure ⟨hu, nofun⟩) fun _ => ?_
  refine Task.Safe.bind (clock_safe.mono ?_)
  rintro now v ⟨huv, rfl⟩
  have hwv := hu.trans huv
  refine Task.Safe.bind (request_safe ?_ ?_ ?_)
  · intro x hx
    have hwx := hwv.trans hx
    exact Or.inl ⟨hme, rfl, rfl, v.now, l, rfl, hx.now, rfl, hseen.rely hwx,
      hfree.imp_left (heldAt_mono hwx.now), (hseen.rely hwv).stamp⟩
  · rintro x text out hx hs hrely hne
    have hwx := hwv.trans hrely
    cases hs with
    | refused _ _ hfail => exact absurd hfail hne
    | patched _ _ l' _ _ =>
      refine Task.safe_pure ⟨hwx, fun _ => ?_⟩
      exact ⟨_, v.now, rfl, rfl, rfl, rfl, ha.trans hwv.now⟩
  · intro x response hx hfail
    have hwx := hwv.trans hx
    cases response with
    | unanswered error => exact Task.safe_pure ⟨hwx, nofun⟩
    | answered status body text =>
      obtain ⟨-, hne, -⟩ := hfail
      refine Task.safe_ite (fun h => absurd h hne) fun _ => ?_
      exact Task.safe_ite (fun _ => Task.safe_pure ⟨hwx, nofun⟩)
        fun _ => Task.safe_pure ⟨hwx, nofun⟩

theorem createLease_safe (ha : a ≤ w.now) :
    (createLease me leaseDurationS).Safe (kube (.drive me))
      (fun res u => w.Rely u ∧ (res.1 = true → u.Holds me a)) w := by
  unfold createLease
  refine Task.Safe.bind (getConfig_safe.mono fun cfg u hu => ?_)
  refine Task.safe_ite (fun _ => Task.safe_pure ⟨hu, nofun⟩) fun _ => ?_
  refine Task.Safe.bind (clock_safe.mono ?_)
  rintro now v ⟨huv, rfl⟩
  have hwv := hu.trans huv
  refine Task.Safe.bind (request_safe ?_ ?_ ?_)
  · exact fun x hx => ⟨rfl, rfl, v.now, rfl, hx.now⟩
  · rintro x text out hx hs hrely hne
    have hwx := hwv.trans hrely
    cases hs with
    | refused _ _ hfail => exact absurd hfail hne
    | created =>
      refine Task.safe_pure ⟨hwx, fun _ => ?_⟩
      exact ⟨_, v.now, rfl, rfl, rfl, rfl, ha.trans hwv.now⟩
  · intro x response hx hfail
    have hwx := hwv.trans hx
    cases response with
    | unanswered error => exact Task.safe_pure ⟨hwx, nofun⟩
    | answered status body text =>
      obtain ⟨-, hne, hne'⟩ := hfail
      exact Task.safe_ite (fun h => absurd h (not_or.mpr ⟨hne, hne'⟩))
        fun _ => Task.safe_pure ⟨hwx, nofun⟩

theorem clearLeaseHolder_safe {version : Option Nat}
    (hvalid : ∀ u p, w.Rely u → u.Clears p → u.Valid author (.patch p version)) :
    (clearLeaseHolder version).Safe (kube author) (fun _ u => w.Rely u) w := by
  unfold clearLeaseHolder
  refine Task.Safe.bind (getConfig_safe.mono fun cfg u hu => ?_)
  refine Task.safe_ite (fun _ => Task.safe_pure hu) fun _ => ?_
  refine Task.Safe.bind (clock_safe.mono ?_)
  rintro now v ⟨huv, rfl⟩
  have hwv := hu.trans huv
  have hclears : ∀ x, v.Rely x → x.Clears
      { holderIdentity := "", renewTime := .micro (v.now - seconds 7200) } := by
    refine fun x hx => ⟨rfl, _, rfl, le_trans ?_ hx.now⟩
    exact sub_le_self _ (by decide)
  refine Task.Safe.bind (request_safe (fun x hx => hvalid x _ (hwv.trans hx) (hclears x hx)) ?_ ?_)
  · rintro x text ⟨u, response⟩ hx - hrely -
    have hwx := hwv.trans hrely
    cases response with
    | unanswered error => exact Task.safe_pure hwx
    | answered status body text =>
      exact Task.safe_ite (fun _ => Task.safe_pure hwx) fun _ => Task.safe_pure hwx
  · intro x response hx _
    have hwx := hwv.trans hx
    cases response with
    | unanswered error => exact Task.safe_pure hwx
    | answered status body text =>
      exact Task.safe_ite (fun _ => Task.safe_pure hwx) fun _ => Task.safe_pure hwx

theorem clearOwn_safe (hseen : w.Seen l) (hl : l.holderIdentity = some me) :
    (clearLeaseHolder (some l.resourceVersion)).Safe (kube (.drive me))
      (fun _ u => w.Rely u) w :=
  clearLeaseHolder_safe fun _ _ hu hp => Or.inr ⟨hp, l, rfl, hseen.rely hu, hl⟩

theorem clearAny_safe (version : Option Nat) :
    (clearLeaseHolder version).Safe (kube .operator) (fun _ u => w.Rely u) w :=
  clearLeaseHolder_safe fun _ _ _ hp => hp

/-- What a drive's attempt to hold the Lease, begun at `a`, promises. -/
def Granted (me : String) (a : Time) (res : Except LeaseUnknownError (Bool × Option String))
    (u : Cluster) : Prop :=
  ∀ err, res = .ok (true, err) → u.Holds me a

theorem granted_error (e : LeaseUnknownError) : Granted me a (.error e) w := nofun

theorem granted_false (err : Option String) : Granted me a (.ok (false, err)) w := nofun

/-- What `read` tells: a Lease, or that there is none, or that it counts as held. -/
def ReadOf (res : LeaseState × Option Nat) (u : Cluster) : Prop :=
  (res.2 = none ∧ (res.1.held = true ∨ res.1 = noLease)) ∨
    ∃ l, res.2 = some l.resourceVersion ∧ u.Seen l ∧ res.1.holder = l.holderIdentity ∧
      (res.1.held = false → l.heldAt u.now = false)

theorem read_safe (hsound : w.Sound) :
    read.Safe (kube author) (fun res u => w.Rely u ∧ ReadOf res u) w := by
  unfold read
  refine Task.Safe.bind ((getLease_safe hsound).mono ?_)
  rintro (error | ⟨status, body⟩) u ⟨hu, hseen⟩
  · refine Task.Safe.bind (getConfig_safe.mono fun cfg v hv => ?_)
    exact Task.safe_ite (fun _ => Task.safe_pure ⟨hu.trans hv, Or.inl ⟨rfl, Or.inl rfl⟩⟩)
      fun _ => Task.safe_pure ⟨hu.trans hv, Or.inl ⟨rfl, Or.inr rfl⟩⟩
  · refine Task.safe_ite (fun _ => Task.safe_pure ⟨hu, Or.inl ⟨rfl, Or.inr rfl⟩⟩) fun _ => ?_
    cases body with
    | none => exact Task.safe_pure ⟨hu, Or.inl ⟨rfl, Or.inl rfl⟩⟩
    | some l =>
      refine Task.Safe.bind (parseLease_safe.mono ?_)
      rintro state v ⟨hv, hholder, hheld⟩
      exact Task.safe_pure ⟨hu.trans hv,
        Or.inr ⟨l, rfl, (hseen status l rfl).rely hv, hholder, hheld⟩⟩

theorem renew_safe (hme : me ≠ "") (hsound : w.Sound) (ha : a ≤ w.now) :
    (renew me leaseDurationS).Safe (kube (.drive me))
      (fun res u => w.Rely u ∧ Granted me a res u) w := by
  unfold renew
  refine Task.Safe.bind (getConfig_safe.mono fun cfg u hu => ?_)
  refine Task.safe_ite (fun _ => Task.safe_pure ⟨hu, granted_false _⟩) fun _ => ?_
  refine Task.Safe.bind ((getLease_safe (hu.sound hsound)).mono ?_)
  rintro (error | ⟨status, body⟩) v ⟨huv, hseen⟩
  · exact Task.safe_pure ⟨hu.trans huv, granted_error _⟩
  have hwv := hu.trans huv
  refine Task.safe_ite (fun _ => Task.safe_pure ⟨hwv, granted_false _⟩) fun _ => ?_
  cases body with
  | none => exact Task.safe_pure ⟨hwv, granted_error _⟩
  | some l =>
    refine Task.Safe.bind (parseLease_safe.mono ?_)
    rintro state x ⟨hx, hholder, -⟩
    have hwx := hwv.trans hx
    refine Task.safe_ite (fun _ => Task.safe_pure ⟨hwx, granted_false _⟩) fun hmine => ?_
    have hl : l.holderIdentity = some me := hholder.symm.trans (not_not.mp hmine)
    refine Task.Safe.bind ((updateLease_safe hme ((hseen status l rfl).rely hx)
      (ha.trans hwx.now) false none (Or.inr hl)).mono ?_)
    rintro ⟨ok, err⟩ y ⟨hy, hok⟩
    refine Task.safe_ite (fun _ => Task.safe_pure ⟨hwx.trans hy, granted_error _⟩) fun _ => ?_
    refine Task.safe_pure ⟨hwx.trans hy, fun err' h => hok ?_⟩
    cases h
    rfl

theorem acquire_safe (hme : me ≠ "") (hsound : w.Sound) (ha : a ≤ w.now) :
    (acquire me leaseDurationS).Safe (kube (.drive me))
      (fun res u => w.Rely u ∧ Granted me a res u) w := by
  unfold acquire
  refine Task.Safe.bind ((read_safe hsound).mono ?_)
  rintro ⟨state, version⟩ u ⟨hu, hread⟩
  have hau := ha.trans hu.now
  refine Task.safe_ite (fun _ => ?_) fun hlease => ?_
  · refine Task.Safe.bind ((createLease_safe hau).mono ?_)
    rintro ⟨ok, err⟩ v ⟨hv, hok⟩
    have hwv := hu.trans hv
    refine Task.safe_ite (fun h => Task.safe_pure ⟨hwv, fun _ _ => hok h⟩) fun _ => ?_
    refine Task.Safe.bind ?_
    unfold getState
    refine Task.Safe.bind ((read_safe (hwv.sound hsound)).mono ?_)
    rintro ⟨state', version'⟩ x ⟨hx, -⟩
    refine Task.safe_pure ?_
    exact Task.safe_ite (fun _ => Task.safe_pure ⟨hwv.trans hx, granted_false _⟩)
      fun _ => Task.safe_pure ⟨hwv.trans hx, granted_false _⟩
  refine Task.safe_ite (fun _ => ?_) fun _ => ?_
  · refine (renew_safe hme (hu.sound hsound) hau).mono ?_
    rintro res v ⟨hv, hgranted⟩
    exact ⟨hu.trans hv, hgranted⟩
  refine Task.safe_ite (fun _ => Task.safe_pure ⟨hu, granted_false _⟩) fun hheld => ?_
  rcases hread with ⟨-, hh | hno⟩ | ⟨l, hversion, hseen, -, hfree⟩
  · exact absurd hh hheld
  · exact absurd ⟨congrArg LeaseState.held hno, congrArg LeaseState.holder hno⟩ hlease
  · dsimp only at hversion
    subst hversion
    refine Task.Safe.bind ((updateLease_safe hme hseen hau true _
      (Or.inl (hfree (by simpa using hheld)))).mono ?_)
    rintro ⟨ok, err⟩ v ⟨hv, hok⟩
    exact Task.safe_ite (fun h => Task.safe_pure ⟨hu.trans hv, fun _ _ => hok h⟩)
      fun _ => Task.safe_pure ⟨hu.trans hv, granted_false _⟩

theorem releaseAttempts_safe (attempts : Nat) (hsound : w.Sound) :
    (releaseAttempts me attempts).Safe (kube (.drive me)) (fun _ _ => True) w := by
  induction attempts generalizing w with
  | zero => exact Task.safe_pure trivial
  | succ attempts ih =>
    unfold releaseAttempts
    refine Task.Safe.bind ((getLease_safe hsound).mono ?_)
    rintro (error | ⟨status, body⟩) u ⟨hu, hseen⟩
    · exact ih (hu.sound hsound)
    refine Task.safe_ite (fun _ => Task.safe_pure trivial) fun _ => ?_
    cases body with
    | none => exact ih (hu.sound hsound)
    | some l =>
      refine Task.Safe.bind (parseLease_safe.mono ?_)
      rintro state v ⟨hv, hholder, -⟩
      refine Task.safe_ite (fun _ => Task.safe_pure trivial) fun hmine => ?_
      have hl : l.holderIdentity = some me :=
        hholder.symm.trans (not_not.mp (not_or.mp hmine).2)
      refine Task.Safe.bind ((clearOwn_safe ((hseen status l rfl).rely hv) hl).mono ?_)
      rintro ⟨ok, err⟩ x hx
      exact Task.safe_ite (fun _ => Task.safe_pure trivial)
        fun _ => ih ((hu.trans (hv.trans hx)).sound hsound)

theorem releaseIfHeld_safe (attempts : Nat) (hsound : w.Sound) :
    (releaseIfHeld me attempts).Safe (kube (.drive me)) (fun _ _ => True) w := by
  unfold releaseIfHeld
  refine Task.Safe.bind (getConfig_safe.mono fun cfg u hu => ?_)
  exact Task.safe_ite (fun _ => Task.safe_pure trivial)
    fun _ => releaseAttempts_safe _ (hu.sound hsound)

theorem idleTime_safe (stamp : Option Stamp) :
    (idleTime stamp).Safe (kube author) (fun _ u => w.Rely u) w := by
  rcases stamp with _ | ⟨renewed | text⟩
  · exact Task.safe_pure (Rely.refl w)
  · exact Task.Safe.bind (clock_safe.mono fun now u hu => Task.safe_pure hu.1)
  · exact Task.safe_pure (Rely.refl w)

theorem forceReleaseIdle_safe (minIdle : Time) (hsound : w.Sound) :
    (forceReleaseIdle minIdle).Safe (kube .operator) (fun _ _ => True) w := by
  unfold forceReleaseIdle
  refine Task.Safe.bind (getConfig_safe.mono fun cfg u hu => ?_)
  refine Task.safe_ite (fun _ => Task.safe_pure trivial) fun _ => ?_
  refine Task.Safe.bind ((getLease_safe (hu.sound hsound)).mono ?_)
  rintro (error | ⟨status, body⟩) v -
  · exact Task.safe_pure trivial
  refine Task.safe_ite (fun _ => Task.safe_pure trivial) fun _ => ?_
  cases body with
  | none => exact Task.safe_pure trivial
  | some l =>
    refine Task.Safe.bind (parseLease_safe.mono ?_)
    rintro state x -
    refine Task.safe_ite (fun _ => Task.safe_pure trivial) fun _ => ?_
    refine Task.Safe.bind ((idleTime_safe _).mono fun idle y _ => ?_)
    refine Task.safe_ite (fun _ => Task.safe_pure trivial) fun _ => ?_
    refine Task.Safe.bind ((clearAny_safe _).mono ?_)
    rintro ⟨ok, err⟩ z -
    exact Task.safe_ite (fun _ => Task.safe_pure trivial) fun _ => Task.safe_pure trivial

theorem release_safe (holder : Option String) (hsound : w.Sound) :
    (release holder).Safe (kube .operator) (fun _ _ => True) w := by
  unfold release
  refine Task.Safe.bind (getConfig_safe.mono fun cfg u hu => ?_)
  refine Task.safe_ite (fun _ => Task.safe_pure trivial) fun _ => ?_
  cases holder with
  | none => exact (clearAny_safe _).mono fun _ _ _ => trivial
  | some holder =>
    refine Task.Safe.bind ((read_safe (hu.sound hsound)).mono ?_)
    rintro ⟨state, version⟩ v -
    refine Task.safe_ite (fun _ => Task.safe_pure trivial) fun _ => ?_
    exact (clearAny_safe _).mono fun _ _ _ => trivial

def leaseRenewInterval : Time := seconds 200

def leaseRenewRetry : Time := seconds 15

def leaseExpiryMargin : Time := seconds 120

/-- How long a drive may take its Lease for held with no renewal confirmed. -/
def leaseSafeHold : Time := seconds leaseDurationS - leaseExpiryMargin

/-- How long a holder must not have renewed before an operator may free its Lease. -/
def forceReleaseMinIdle : Time := seconds 300

/-- The locals of the renewal loop, and the two events it shares with the drive. -/
structure RenewalLoop where
  confirmed : Time
  wait : Time
  gaveUp : Bool
  leaseOk : Bool
  stopEvent : Bool
  /-- It has returned: the Lease was seen lost. -/
  ended : Bool
deriving DecidableEq

namespace RenewalLoop

def start (acquireStarted : Time) : RenewalLoop where
  confirmed := acquireStarted
  wait := leaseRenewInterval
  gaveUp := false
  leaseOk := true
  stopEvent := false
  ended := false

def lost (loop : RenewalLoop) : RenewalLoop :=
  { loop with leaseOk := false, stopEvent := true, ended := true }

def unknown (loop : RenewalLoop) (now : Time) : RenewalLoop :=
  let left := leaseSafeHold - (now - loop.confirmed)
  if left > 0 then
    { loop with leaseOk := false, wait := min leaseRenewRetry left }
  else if loop.gaveUp then
    { loop with leaseOk := false, wait := leaseRenewRetry }
  else
    { loop with leaseOk := false, wait := leaseRenewRetry, gaveUp := true, stopEvent := true }

/-- After an attempt that began at `attemptStarted`. -/
def after (loop : RenewalLoop) (attemptStarted now : Time) :
    Except LeaseUnknownError (Bool × Option String) → RenewalLoop
  | .error _ => loop.unknown now
  | .ok (false, _) => loop.lost
  | .ok (true, _) =>
    { loop with confirmed := attemptStarted, leaseOk := true, wait := leaseRenewInterval }

theorem unknown_confirmed (loop : RenewalLoop) (now : Time) :
    (loop.unknown now).confirmed = loop.confirmed := by
  simp only [unknown]
  split
  · rfl
  · split <;> rfl

theorem unknown_ended (loop : RenewalLoop) (now : Time) :
    (loop.unknown now).ended = loop.ended := by
  simp only [unknown]
  split
  · rfl
  · split <;> rfl

end RenewalLoop

inductive Job where
  | waiting
  | renewing (started : Time) (task : Kube (Except LeaseUnknownError (Bool × Option String)))
  | releasing (task : Kube Bool)

inductive Drive where
  | unborn
  /-- It holds its run's row lock and is acquiring the Lease. -/
  | acquiring (run : Nat) (started : Time)
      (task : Kube (Except LeaseUnknownError (Bool × Option String)))
  | driving (loop : RenewalLoop) (job : Job)
  | over

inductive Operator where
  | idle
  | forcing (task : Kube ForceReleaseOutcome)
  | aborting (task : Kube (Bool × Option String))

inductive RunState where
  | absent
  | planned
  | running
  | halted
  | aborted
  | succeeded
  | failed
deriving DecidableEq

def RunState.active : RunState → Bool
  | .planned | .running | .halted => true
  | .absent | .aborted | .succeeded | .failed => false

structure State where
  cluster : Cluster
  drive : String → Drive
  operator : Nat → Operator
  run : Nat → RunState
  /-- The row lock of a run is taken. -/
  locked : Nat → Bool

/-- Less than the safe hold has passed since `a`, and no clear of the drive's own landed since. -/
def OpenAt (w : Cluster) (me : String) (a : Time) : Prop :=
  w.now - a < leaseSafeHold ∧ ∀ c ∈ w.cleared, c.drive = me → c.time < a

namespace State

/-- The drive may start a node: its last acquire or renewal that succeeded began less than the
safe hold ago, and neither a loss nor its own release followed. -/
def InWindow (s : State) (me : String) : Prop :=
  ∃ loop job, s.drive me = .driving loop job ∧ loop.ended = false ∧
    OpenAt s.cluster me loop.confirmed

end State

/-- The drive has an attempt, begun at `a`, that succeeded; its answer may still be on its way. -/
def Drive.Claims : Drive → Time → Prop
  | .acquiring _ started task, a => started = a ∧ ∃ err, task = .ret (.ok (true, err))
  | .driving loop job, a =>
    (loop.ended = false ∧ loop.confirmed = a) ∨ ∃ err, job = .renewing a (.ret (.ok (true, err)))
  | .unborn, _ | .over, _ => False

namespace State

def Acting (s : State) (me : String) : Prop :=
  ∃ a, (s.drive me).Claims a ∧ OpenAt s.cluster me a

/-- A call that changes the Lease removes the name of no drive that is acting. -/
def Harmless (s : State) (w : Cluster) : Prop :=
  w.lease ≠ s.cluster.lease → ∀ l me, s.cluster.lease = some l → l.holderIdentity = some me →
    ¬ s.Acting me

def setDrive (s : State) (me : String) (d : Drive) : State :=
  { s with drive := Function.update s.drive me d }

def setOperator (s : State) (k : Nat) (o : Operator) : State :=
  { s with operator := Function.update s.operator k o }

def setRun (s : State) (r : Nat) (st : RunState) : State :=
  { s with run := Function.update s.run r st }

def setLock (s : State) (r : Nat) (b : Bool) : State :=
  { s with locked := Function.update s.locked r b }

/-- One step of anyone. `allowed` says what an operator's call may do to the Lease. -/
inductive Step (allowed : State → Cluster → Prop) (s : State) : State → Prop where
  | tick (d : Time) : 0 ≤ d →
      Step allowed s { s with cluster := { s.cluster with now := s.cluster.now + d } }
  /-- A run is planned where none is active. -/
  | plan (r : Nat) : (∀ r', (s.run r').active = false) → s.run r = .absent →
      Step allowed s (s.setRun r .planned)
  /-- Halt, Resume and what drives write of their run. -/
  | record (r : Nat) (st : RunState) : s.locked r = false → st ≠ .planned →
      Step allowed s (s.setRun r st)
  | start (pod nonce : String) (r : Nat) : s.drive (driveIdentity pod nonce) = .unborn →
      s.locked r = false → s.run r = .planned ∨ s.run r = .running →
      Step allowed s ((s.setDrive (driveIdentity pod nonce) (.acquiring r s.cluster.now
        (acquire (driveIdentity pod nonce) leaseDurationS))).setLock r true)
  | acquireCall (me : String) (r : Nat) (started : Time) (c : Call)
      (next : Reply c → Kube (Except LeaseUnknownError (Bool × Option String)))
      (reply : Reply c) (w : Cluster) :
      s.drive me = .acquiring r started (.call c next) → Does (.drive me) c s.cluster reply w →
      Step allowed s { s.setDrive me (.acquiring r started (next reply)) with cluster := w }
  | acquired (me : String) (r : Nat) (started : Time) (err : Option String) :
      s.drive me = .acquiring r started (.ret (.ok (true, err))) →
      Step allowed s (((s.setDrive me (.driving (.start started) .waiting)).setRun r
        .running).setLock r false)
  /-- The acquire failed, or its process died. -/
  | notAcquired (me : String) (r : Nat) (started : Time)
      (task : Kube (Except LeaseUnknownError (Bool × Option String))) :
      s.drive me = .acquiring r started task →
      Step allowed s ((s.setDrive me .over).setLock r false)
  | renew (me : String) (loop : RenewalLoop) : s.drive me = .driving loop .waiting →
      loop.ended = false →
      Step allowed s (s.setDrive me
        (.driving loop (.renewing s.cluster.now (renew me leaseDurationS))))
  | renewCall (me : String) (loop : RenewalLoop) (started : Time) (c : Call)
      (next : Reply c → Kube (Except LeaseUnknownError (Bool × Option String)))
      (reply : Reply c) (w : Cluster) :
      s.drive me = .driving loop (.renewing started (.call c next)) →
      Does (.drive me) c s.cluster reply w →
      Step allowed s
        { s.setDrive me (.driving loop (.renewing started (next reply))) with cluster := w }
  | renewed (me : String) (loop : RenewalLoop) (started : Time)
      (res : Except LeaseUnknownError (Bool × Option String)) :
      s.drive me = .driving loop (.renewing started (.ret res)) →
      Step allowed s (s.setDrive me (.driving (loop.after started s.cluster.now res) .waiting))
  /-- A renewal failed in a way the helpers do not map. -/
  | renewCrashed (me : String) (loop : RenewalLoop) (started : Time)
      (task : Kube (Except LeaseUnknownError (Bool × Option String))) :
      s.drive me = .driving loop (.renewing started task) →
      Step allowed s (s.setDrive me (.driving loop.lost .waiting))
  | release (me : String) (loop : RenewalLoop) (attempts : Nat) :
      s.drive me = .driving loop .waiting →
      Step allowed s (s.setDrive me (.driving loop (.releasing (releaseIfHeld me attempts))))
  | releaseCall (me : String) (loop : RenewalLoop) (c : Call) (next : Reply c → Kube Bool)
      (reply : Reply c) (w : Cluster) :
      s.drive me = .driving loop (.releasing (.call c next)) →
      Does (.drive me) c s.cluster reply w →
      Step allowed s { s.setDrive me (.driving loop (.releasing (next reply))) with cluster := w }
  | released (me : String) (loop : RenewalLoop) (res : Bool) :
      s.drive me = .driving loop (.releasing (.ret res)) →
      Step allowed s (s.setDrive me (.driving loop .waiting))
  /-- The drive returned, or its process died. -/
  | finish (me : String) (loop : RenewalLoop) (job : Job) : s.drive me = .driving loop job →
      Step allowed s (s.setDrive me .over)
  | forceRelease (k : Nat) : s.operator k = .idle →
      Step allowed s (s.setOperator k (.forcing (forceReleaseIdle forceReleaseMinIdle)))
  /-- An Abort commits; of a run still planned it then releases the Lease. -/
  | abort (k r : Nat) : s.operator k = .idle → s.locked r = false → (s.run r).active = true →
      Step allowed s ((s.setOperator k
        (if s.run r = .planned then .aborting (Upgrade.release none) else .idle)).setRun r .aborted)
  | forceCall (k : Nat) (c : Call) (next : Reply c → Kube ForceReleaseOutcome) (reply : Reply c)
      (w : Cluster) : s.operator k = .forcing (.call c next) →
      Does .operator c s.cluster reply w → allowed s w →
      Step allowed s { s.setOperator k (.forcing (next reply)) with cluster := w }
  | abortCall (k : Nat) (c : Call) (next : Reply c → Kube (Bool × Option String))
      (reply : Reply c) (w : Cluster) : s.operator k = .aborting (.call c next) →
      Does .operator c s.cluster reply w → allowed s w →
      Step allowed s { s.setOperator k (.aborting (next reply)) with cluster := w }
  | operatorDone (k : Nat) : Step allowed s (s.setOperator k .idle)
  /-- A request whose sender gave it up lands after all. -/
  | strayLands (author : Author) (r : Request) (text : String) (before after : List (Author × Request))
      (w : Cluster) : s.cluster.stray = before ++ (author, r) :: after →
      w = ({ s.cluster with stray := before ++ after }.serve author text r).1 →
      (author = .operator → allowed s w) →
      Step allowed s { s with cluster := w }

/-- Nobody has begun; the Lease is as an earlier upgrade left it. -/
structure Initial (s : State) : Prop where
  sound : s.cluster.Sound
  stray : s.cluster.stray = []
  cleared : s.cluster.cleared = []
  drive : ∀ me, s.drive me = .unborn
  operator : ∀ k, s.operator k = .idle

end State

end SpatiumDdi.Upgrade
