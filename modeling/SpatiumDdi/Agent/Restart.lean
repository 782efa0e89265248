import SpatiumDdi.Agent.LastKnownGood

/-!
The agent does not apply again the structure that broke the daemon, before its
retry: at a start where a usable last-known-good bundle has another one, and in
every poll. A start checks the quarantine by the full etag alone, so this needs the
cached bundle of the quarantined structure to have the quarantine's own etag; and a
revert needs a bundle of another structure.
-/

namespace SpatiumDdi.Agent

/-- Two structures that are known to be one. -/
def Clash (a b : Option Etag) : Prop := ∃ name, a = some name ∧ b = some name

theorem not_clash_none (b : Option Etag) : ¬Clash none b := by
  rintro ⟨name, hname, -⟩
  cases hname

/-- The apply was not of the structure barred at that moment. -/
def Event.Clear : Event → Prop
  | .applied bundle _ barred => ¬Clash barred bundle.structuralEtag
  | _ => True

/-- No apply was of the structure barred when it was made, and the loop is starting, or
not, as `phase` says. -/
structure ClearAt (phase : Option (Option Etag)) (s : State) : Prop where
  clear : ∀ event ∈ s.log, event.Clear
  starting : s.starting = phase

/-- What a hold may serve where `failed` is the structure that failed last, under the
full etag `failedEtag`: the held bundle, if neither condemned nor that very one, and
otherwise the last known good one; that one too where the held bundle fails. -/
def HoldClear (env : Env) (failedEtag failed : Option Etag) (s : State) : Prop :=
  ∀ hold, s.loop.bootHold = some hold → s.loop.bootHoldOnPrevious = false →
    (env.condemned (some hold.etag) = false → failedEtag ≠ some hold.etag →
      ∀ held, heldBundle s.disk hold.held = some held → ¬Clash failed held.structuralEtag) ∧
    ∀ prev, usablePrevious env s.disk (some hold.etag) false = some prev →
      (env.condemned (some hold.etag) = true ∨ failedEtag = some hold.etag →
        ¬Clash failed prev.1.structuralEtag) ∧
      ∀ held, heldBundle s.disk hold.held = some held →
        ¬Clash held.structuralEtag prev.1.structuralEtag

def State.HoldClear (env : Env) (s : State) : Prop :=
  Agent.HoldClear env (s.loop.quarantine.map (·.etag))
    (Quarantine.barred s.loop.quarantine (env.now s)) s

/-- What a poll has to find of a bundle it does not serve yet: where the quarantine skips
it, what the hold may serve, and where its apply fails, what a revert and the hold may. -/
def BundleClear (env : Env) (bundle : Bundle) (etag : Etag) (s : State) : Prop :=
  bundle.structuralEtag ≠ s.loop.currentStructuralEtag →
  if Quarantine.blocks s.loop.quarantine (some etag) bundle.structuralEtag (env.now s) then
    s.HoldClear env
  else
    ∀ disturbed, (env.outcome s.loop.applies).error = some disturbed →
      (disturbed = true → ∀ prev, usablePrevious env s.disk (some etag) false = some prev →
        ¬Clash bundle.structuralEtag prev.1.structuralEtag) ∧
      HoldClear env (some etag) bundle.structuralEtag s

def Call.Clear (s : State) : Call → Prop
  | .startup env => ∀ failed bundle etag, barredAtStart env s.disk = some failed →
      loadConfig s.disk = (some bundle, etag) → env.deathsFor etag = 0 →
      bundle.structuralEtag = some failed → etag = s.disk.quarantine.map (·.etag)
  | .beforeFetch env _ _ => s.HoldClear env
  | .afterFetch env (.ok bundle header) => ∀ etag, Response.etag bundle header = some etag →
      bundle.pendingApproval = false → BundleClear env bundle etag s
  | .afterFetch env _ => s.HoldClear env

/-- The runs of the agent that meet nothing else. -/
def clearRuns : Killable State Call where
  prog := Call.prog
  crash := State.crash
  ready s c := c.enabled s ∧ c.Clear s
  endures _ := True

variable {q : Option Quarantine} {etag : Etag} {structural : Option Etag} {now : Time}

theorem Quarantine.barred_record {later : Time} {a : Option Etag}
    (h : Clash (Quarantine.barred (some (Quarantine.record q etag structural now)) later) a) :
    Clash structural a := by
  obtain ⟨failed, hbarred, ha⟩ := h
  refine ⟨failed, ?_, ha⟩
  obtain ⟨-, hbarred⟩ := Option.ite_none_right_eq_some.mp hbarred
  exact hbarred

theorem Quarantine.barred_of_retryDue (h : Quarantine.retryDue q now = true) :
    Quarantine.barred q now = none := by
  cases q with
  | none => rfl
  | some q =>
    simp only [Quarantine.retryDue, decide_eq_true_eq] at h
    simp only [Quarantine.barred, if_neg (not_lt.mpr h)]

theorem Quarantine.not_clash_of_not_blocks
    (hblocks : Quarantine.blocks q (some etag) structural now = false)
    (hsame : q.isSome → Quarantine.sameStructure q (some etag) structural = true) :
    ¬Clash (Quarantine.barred q now) structural := by
  rintro ⟨failed, hbarred, rfl⟩
  cases q with
  | none => cases hbarred
  | some q =>
    obtain ⟨hearly, hbarred⟩ := Option.ite_none_right_eq_some.mp hbarred
    simp [Quarantine.blocks, hsame rfl, hearly] at hblocks

/-- The step logs nothing that is not clear. -/
def Calm (s t : State) : Prop := ∀ phase, ClearAt phase s → ClearAt phase t

/-- A calm step that leaves what a hold and a revert would serve. -/
structure Steady (s t : State) : Prop where
  calm : Calm s t
  previous : t.disk.previous = s.disk.previous
  previousEtag : t.disk.previousEtag = s.disk.previousEtag
  held : t.disk.held = s.disk.held
  bootHold : t.loop.bootHold = s.loop.bootHold
  onPrevious : t.loop.bootHoldOnPrevious = s.loop.bootHoldOnPrevious

variable {s t u : State} {env : Env} {phase : Option (Option Etag)}

section

variable (h : Steady s t)
include h

theorem Steady.trans (h' : Steady t u) : Steady s u :=
  ⟨fun phase hs => h'.calm phase (h.calm phase hs), h'.previous.trans h.previous,
    h'.previousEtag.trans h.previousEtag, h'.held.trans h.held, h'.bootHold.trans h.bootHold,
    h'.onPrevious.trans h.onPrevious⟩

theorem Steady.usablePrevious (failedEtag : Option Etag) (beforeSync : Bool) :
    usablePrevious env t.disk failedEtag beforeSync =
      usablePrevious env s.disk failedEtag beforeSync := by
  simp only [Agent.usablePrevious, loadPreviousConfig, h.previous, h.previousEtag]

theorem Steady.heldBundle (source : HeldSource) :
    heldBundle t.disk source = heldBundle s.disk source :=
  heldBundle_congr h.held source

theorem Steady.holdClear {failedEtag failed : Option Etag} (hs : HoldClear env failedEtag failed s) :
    HoldClear env failedEtag failed t := by
  intro hold hhold hprev
  rw [h.bootHold] at hhold
  rw [h.onPrevious] at hprev
  rw [h.heldBundle, h.usablePrevious]
  exact hs hold hhold hprev

end

theorem ClearAt.of_log (hs : ClearAt phase s) (hlog : t.log = s.log)
    (hstart : t.starting = s.starting) :
    ClearAt phase t :=
  ⟨hlog ▸ hs.clear, hstart.trans hs.starting⟩

theorem ClearAt.cons {event : Event} (hs : ClearAt phase s) (hevent : event.Clear)
    (hlog : t.log = event :: s.log) (hstart : t.starting = s.starting) :
    ClearAt phase t := by
  refine ⟨?_, hstart.trans hs.starting⟩
  intro other hmem
  rw [hlog] at hmem
  rcases List.mem_cons.mp hmem with rfl | hmem
  · exact hevent
  · exact hs.clear other hmem

section Calm

variable {α β : Type} {p : Act α}

theorem ClearAt.kept (hs : ClearAt phase s) (hp : Prog.Within Calm p) :
    p.wp (ClearAt phase) (fun _ => ClearAt phase) s :=
  Prog.wp_mono (fun _ ht => ht phase hs) (fun _ _ ht => ht phase hs) p (hp s)

theorem calm_pure (a : α) : Prog.Within Calm (pure a : Act α) :=
  Prog.within_pure (fun _ _ => id) a

theorem calm_bind {k : α → Act β} (hp : Prog.Within Calm p) (hk : ∀ a, Prog.Within Calm (k a)) :
    Prog.Within Calm (p >>= k) :=
  Prog.within_bind (R := Calm) (fun _ _ _ h h' phase hs => h' phase (h phase hs)) hp hk

theorem calm_modify {f : State → State} (hf : ∀ s, (f s).log = s.log)
    (hstart : ∀ s, (f s).starting = s.starting) :
    Prog.Within Calm (Prog.modify f) :=
  Prog.within_modify fun s _ hs => hs.of_log (hf s) (hstart s)

theorem calm_setLoop (f : SyncLoop → SyncLoop) : Prog.Within Calm (setLoop f) :=
  calm_modify (fun _ => rfl) fun _ => rfl

theorem calm_setDisk (f : Disk → Disk) : Prog.Within Calm (setDisk f) :=
  calm_modify (fun _ => rfl) fun _ => rfl

theorem calm_setQuarantine (q : Option Quarantine) : Prog.Within Calm (setQuarantine q) :=
  calm_modify (fun _ => rfl) fun _ => rfl

theorem calm_promote : Prog.Within Calm promote := by
  refine calm_bind (calm_setDisk _) fun _ => calm_bind (calm_setDisk _) fun _ => ?_
  refine calm_bind (Prog.within_modify fun t _ ht => ?_) fun _ =>
    calm_bind (calm_setDisk _) fun _ => calm_modify (fun _ => rfl) fun _ => rfl
  have hevent : (Event.committed t.disk.previousTmp.join t.loop.currentStructuralEtag).Clear :=
    trivial
  exact ht.cons hevent rfl rfl

theorem calm_commitConfig (etag : Etag) : Prog.Within Calm (commitConfig etag) := by
  apply Prog.within_get
  intro t
  split
  · split
    · exact calm_pure ()
    · split
      · exact calm_pure ()
      · exact calm_promote
  · exact calm_pure ()

theorem calm_endBootHold : Prog.Within Calm endBootHold := by
  apply Prog.within_get
  intro t
  split
  · exact calm_pure ()
  · exact calm_bind (calm_setLoop _) fun _ => calm_setDisk _

theorem calm_confirm (etag : Etag) : Prog.Within Calm (confirm etag) :=
  calm_bind (calm_setLoop _) fun _ =>
    calm_bind (calm_commitConfig etag) fun _ => calm_endBootHold

end Calm

section

variable (hs : ClearAt phase s)
include hs

theorem guardedApply_clear (bundle : Bundle)
    (hbundle : ¬Clash (s.barred (env.now s)) bundle.structuralEtag) :
    (guardedApply env bundle).wp (ClearAt phase)
      (fun outcome t => ClearAt phase t ∧ Steady s t ∧ t.loop.quarantine = s.loop.quarantine ∧
        outcome = env.outcome s.loop.applies) s := by
  simp only [guardedApply, Prog.wp_bind, Prog.wp_get, Prog.wp_modify, Prog.wp_pure]
  have hevent : (Event.applied bundle (env.outcome s.loop.applies).error.isNone
      (s.barred (env.now s))).Clear := hbundle
  have hdone := hs.cons (t := { s with
      loop := { s.loop with
        applies := s.loop.applies + 1
        heldBack := (env.outcome s.loop.applies).heldBack }
      log := .applied bundle (env.outcome s.loop.applies).error.isNone
        (s.barred (env.now s)) :: s.log }) hevent rfl rfl
  refine ⟨hdone, hdone, ⟨fun _ h => h.cons hevent rfl rfl, rfl, rfl, rfl, rfl, rfl⟩, ?_⟩
  exact ⟨trivial, trivial⟩

theorem setLoop_steady (f : SyncLoop → SyncLoop) (hhold : (f s.loop).bootHold = s.loop.bootHold)
    (honPrevious : (f s.loop).bootHoldOnPrevious = s.loop.bootHoldOnPrevious)
    (hquarantine : (f s.loop).quarantine = s.loop.quarantine) :
    (setLoop f).wp (ClearAt phase)
      (fun _ t => ClearAt phase t ∧ Steady s t ∧ t.loop.quarantine = s.loop.quarantine) s := by
  have hdone : ClearAt phase { s with loop := f s.loop } := hs.of_log rfl rfl
  rw [setLoop, Prog.wp_modify]
  exact ⟨hdone, hdone, ⟨fun _ h => h.of_log rfl rfl, rfl, rfl, rfl, hhold, honPrevious⟩,
    hquarantine⟩

theorem recordFailure_clear (env : Env) (etag : Etag) (structural : Option Etag) :
    (recordFailure env etag structural).wp (ClearAt phase)
      (fun _ t => Steady s t ∧ t.loop.quarantine.map (·.etag) = some etag ∧
        ∀ now a, Clash (Quarantine.barred t.loop.quarantine now) a → Clash structural a) s := by
  simp only [recordFailure, setQuarantine, Prog.wp_bind, Prog.wp_get, Prog.wp_modify]
  refine ⟨hs.of_log rfl rfl, ⟨fun _ h => h.of_log rfl rfl, rfl, rfl, rfl, rfl, rfl⟩, rfl, ?_⟩
  exact fun _ _ h => Quarantine.barred_record h

theorem bootstrapFallback_clear (failedEtag : Option Etag) (beforeSync : Bool)
    (hprev : ∀ prev, usablePrevious env s.disk failedEtag beforeSync = some prev →
      ¬Clash (s.barred (env.now s)) prev.1.structuralEtag) :
    (bootstrapFallback env failedEtag beforeSync).wp (ClearAt phase) (fun _ => ClearAt phase) s := by
  simp only [bootstrapFallback]
  rw [Prog.wp_bind, Prog.wp_get]
  split
  · exact hs.kept (calm_setLoop _)
  next prev prevEtag husable =>
    refine Prog.wp_seq ?_ _ (guardedApply_clear hs prev (hprev _ husable))
    intro outcome t ⟨ht, _⟩
    split
    · exact ht.kept (calm_setLoop _)
    · exact ht.kept (calm_bind (calm_setLoop _) fun _ => calm_setLoop _)

end

/-- What the last known good bundle has to be where a bundle applied in its place fails:
of another structure than that bundle in a poll, and than the barred one at a start. -/
def FallbackClear (phase : Option (Option Etag)) (env : Env) (s : State) (bundle : Bundle) (etag : Option Etag)
    (beforeSync : Bool) : Prop :=
  ∀ prev, usablePrevious env s.disk etag beforeSync = some prev →
    match phase with
    | none => truthy etag ≠ none ∧ ¬Clash bundle.structuralEtag prev.1.structuralEtag
    | some barred => ¬Clash barred prev.1.structuralEtag

theorem bootstrapFailed_clear (hs : ClearAt phase s) (bundle : Bundle) (etag : Option Etag)
    (fromPrevious beforeSync : Bool)
    (hfall : fromPrevious = false → FallbackClear phase env s bundle etag beforeSync) :
    (bootstrapFailed env bundle etag fromPrevious beforeSync).wp (ClearAt phase)
      (fun _ => ClearAt phase) s := by
  cases fromPrevious with
  | true =>
    rw [bootstrapFailed, if_pos rfl]
    exact hs.kept (calm_setLoop _)
  | false =>
    rw [bootstrapFailed, if_neg Bool.false_ne_true, Prog.wp_bind, recordBootFailure]
    split
    next e htruthy =>
      refine Prog.wp_post ?_ _ (recordFailure_clear hs env e bundle.structuralEtag)
      intro _ t ⟨hst, _, hbarred⟩
      apply bootstrapFallback_clear (hst.calm phase hs)
      intro prev husable hclash
      rw [hst.usablePrevious] at husable
      have hprev := hfall rfl prev husable
      rw [State.barred, (hst.calm phase hs).starting] at hclash
      cases phase with
      | none => exact hprev.2 (hbarred _ _ hclash)
      | some barred => exact hprev hclash
    next htruthy =>
      refine (Prog.wp_pure ()).mpr (bootstrapFallback_clear hs etag beforeSync ?_)
      intro prev husable hclash
      have hprev := hfall rfl prev husable
      rw [State.barred, hs.starting] at hclash
      cases phase with
      | none => exact hprev.1 htruthy
      | some barred => exact hprev hclash

theorem FallbackClear.steady (hst : Steady s t) {bundle : Bundle} {etag : Option Etag}
    {beforeSync : Bool} (h : FallbackClear phase env s bundle etag beforeSync) :
    FallbackClear phase env t bundle etag beforeSync := by
  intro prev husable
  rw [hst.usablePrevious] at husable
  exact h prev husable

theorem bootstrapApply_clear (hs : ClearAt phase s) (bundle : Bundle) (etag : Option Etag)
    (fromPrevious beforeSync : Bool)
    (hbundle : ¬Clash (s.barred (env.now s)) bundle.structuralEtag)
    (hfall : fromPrevious = false → FallbackClear phase env s bundle etag beforeSync) :
    (bootstrapApply env bundle etag fromPrevious beforeSync).wp (ClearAt phase)
      (fun _ => ClearAt phase) s := by
  rw [bootstrapApply, Prog.wp_bind]
  refine Prog.wp_post ?_ _ (guardedApply_clear hs bundle hbundle)
  rintro outcome t ⟨ht, hst, _⟩
  split
  · refine Prog.wp_seq ?_ _ (ht.kept (calm_setLoop _))
    intro _ u hu
    refine Prog.wp_ite (fun _ => (Prog.wp_pure _).mpr hu) fun _ => ?_
    exact hu.kept (calm_bind (calm_setLoop _) fun _ =>
      calm_bind (calm_commitConfig _) fun _ => calm_pure true)
  · refine Prog.wp_seq ?_ _ (bootstrapFailed_clear ht bundle etag fromPrevious beforeSync
      fun hfrom => (hfall hfrom).steady hst)
    exact fun _ u hu => (Prog.wp_pure _).mpr hu

/-- The hold may fall back to the last known good bundle where the held one fails. -/
def HeldApart (env : Env) (s : State) (hold : BootHold) : Prop :=
  ∀ prev, usablePrevious env s.disk (some hold.etag) false = some prev →
    ∀ held, heldBundle s.disk hold.held = some held → ¬Clash held.structuralEtag prev.1.structuralEtag

section

variable (hs : ClearAt none s) {failed : Option Etag}
include hs

theorem retry_clear {hold : BootHold} {held : Bundle}
    (hsome : heldBundle s.disk hold.held = some held) (hprev : HeldApart env s hold)
    (hbundle : ¬Clash (s.barred (env.now s)) held.structuralEtag) :
    (bootstrapApply env held (some hold.etag) false false >>= fun live =>
      if live then endBootHold else pure ()).wp (ClearAt none) (fun _ => ClearAt none) s := by
  refine Prog.wp_seq ?_ _ (bootstrapApply_clear hs held _ false false hbundle fun _ => ?_)
  · intro live t ht
    exact Prog.wp_ite (fun _ => ht.kept calm_endBootHold) fun _ => (Prog.wp_pure ()).mpr ht
  · intro prev husable
    exact ⟨by simp [truthy_of_ne hold.named], hprev prev husable held hsome⟩

theorem serveHeld_clear (hold : BootHold) (failedEtag : Option Etag)
    (hheld : ∀ held, heldBundle s.disk hold.held = some held → ¬Clash (Quarantine.barred s.loop.quarantine (env.now s)) held.structuralEtag)
    (hprev : HeldApart env s hold) :
    (serveHeld env hold failedEtag).wp (ClearAt none) (fun _ => ClearAt none) s := by
  simp only [serveHeld]
  rw [Prog.wp_bind, Prog.wp_get]
  split
  · exact (Prog.wp_pure ()).mpr hs
  next held hsome =>
    have hbundle : ¬Clash (s.barred (env.now s)) held.structuralEtag := by
      rw [State.barred, hs.starting]
      exact hheld held hsome
    split
    · exact retry_clear hs hsome hprev hbundle
    · refine Prog.wp_seq ?_ _ (bootstrapApply_clear hs held _ true false hbundle (fun h => by cases h))
      intro live t ht
      exact Prog.wp_ite (fun _ => ht.kept (calm_bind (calm_setLoop _) fun _ => calm_endBootHold))
        fun _ => (Prog.wp_pure ()).mpr ht

theorem retryHeld_clear (hold : BootHold)
    (hprev : HeldApart env s hold) :
    (retryHeld env hold).wp (ClearAt none) (fun _ => ClearAt none) s := by
  simp only [retryHeld]
  rw [Prog.wp_bind, Prog.wp_get]
  refine Prog.wp_ite (fun hdue => ?_) fun _ => (Prog.wp_pure ()).mpr hs
  split
  · exact (Prog.wp_pure ()).mpr hs
  next held hsome =>
    refine retry_clear hs hsome hprev ?_
    rintro ⟨failed, hbarred, _⟩
    rw [State.barred, hs.starting, Option.getD_none, Quarantine.barred_of_retryDue hdue] at hbarred
    cases hbarred

theorem servePrevious_clear (hold : BootHold) (failedEtag : Option Etag)
    (hprev : ∀ prev, usablePrevious env s.disk (some hold.etag) false = some prev → ¬Clash (Quarantine.barred s.loop.quarantine (env.now s)) prev.1.structuralEtag)
    (happart : HeldApart env s hold) :
    (servePrevious env hold failedEtag).wp (ClearAt none) (fun _ => ClearAt none) s := by
  have hretry := retryHeld_clear hs hold happart
  simp only [servePrevious]
  rw [Prog.wp_bind, Prog.wp_get]
  split
  next prev prevEtag husable =>
    refine Prog.wp_ite (fun _ => hretry) fun _ => ?_
    rw [Prog.wp_bind, setStatus, setLoop, Prog.wp_modify]
    have hreverted : ClearAt none { s with loop := { s.loop with applyStatus := .reverted } } :=
      hs.of_log rfl rfl
    refine ⟨hreverted, ?_⟩
    refine Prog.wp_seq ?_ _ (bootstrapApply_clear hreverted prev prevEtag true false ?_ (fun h => by cases h))
    · intro live t ht
      exact Prog.wp_ite (fun _ => ht.kept (calm_setLoop _)) fun _ => (Prog.wp_pure ()).mpr ht
    · rw [State.barred, hs.starting]
      exact hprev _ husable
  · exact hretry

theorem bootHoldFallback_clear
    (hbarred : ∀ a, Clash (Quarantine.barred s.loop.quarantine (env.now s)) a → Clash failed a)
    (hclear : HoldClear env (s.loop.quarantine.map (·.etag)) failed s) (failedEtag : Option Etag) :
    (bootHoldFallback env failedEtag).wp (ClearAt none) (fun _ => ClearAt none) s := by
  simp only [bootHoldFallback]
  rw [Prog.wp_bind, Prog.wp_get]
  split
  · exact (Prog.wp_pure ()).mpr hs
  next hold hhold =>
    refine Prog.wp_ite (fun _ => (Prog.wp_pure ()).mpr hs) fun honPrevious => ?_
    rw [Bool.not_eq_true] at honPrevious
    obtain ⟨hheld, hprev⟩ := hclear hold hhold honPrevious
    have happart : HeldApart env s hold := fun prev husable => (hprev prev husable).2
    refine Prog.wp_ite (fun hfresh => ?_) fun hfresh => ?_
    · simp only [Bool.and_eq_true, Bool.not_eq_true', bne_iff_ne] at hfresh
      refine serveHeld_clear hs hold failedEtag ?_ happart
      intro held hsome hclash
      exact hheld hfresh.1 hfresh.2 held hsome (hbarred _ hclash)
    · refine servePrevious_clear hs hold failedEtag ?_ happart
      intro prev husable hclash
      apply (hprev prev husable).1 _ (hbarred _ hclash)
      by_cases hcondemned : env.condemned (some hold.etag) = true
      · exact .inl hcondemned
      · right
        simpa [hcondemned] using hfresh

section

variable (hclear : s.HoldClear env)
include hclear

theorem holdClear_fallback (failedEtag : Option Etag) :
    (bootHoldFallback env failedEtag).wp (ClearAt none) (fun _ => ClearAt none) s :=
  bootHoldFallback_clear hs (fun _ h => h) hclear failedEtag

theorem bootHoldMaxWait_clear (waited : Bool) :
    (bootHoldMaxWait env waited).wp (ClearAt none) (fun _ => ClearAt none) s := by
  simp only [bootHoldMaxWait]
  rw [Prog.wp_bind, Prog.wp_get]
  split
  · exact (Prog.wp_pure ()).mpr hs
  next hold hhold =>
    refine Prog.wp_ite (fun _ => (Prog.wp_pure ()).mpr hs) fun _ => ?_
    refine Prog.wp_ite (fun _ => ?_) fun _ => (Prog.wp_pure ()).mpr hs
    refine Prog.wp_seq ?_ _ (holdClear_fallback hs hclear none)
    exact fun _ t ht => ht.kept (calm_setLoop _)

theorem beforeFetch_clear (settled : Option Etag) (waited : Bool) :
    (beforeFetch env settled waited).wp (ClearAt none) (fun _ => ClearAt none) s := by
  rw [beforeFetch, Prog.wp_bind, maybeSettle, Prog.wp_bind, Prog.wp_get]
  refine Prog.wp_ite (fun _ => ?_) fun _ =>
    (Prog.wp_pure ()).mpr (bootHoldMaxWait_clear hs hclear waited)
  have hsettled : ClearAt none { s with
      loop := { s.loop with quarantine := none }, disk := { s.disk with quarantine := none } } :=
    hs.of_log rfl rfl
  rw [setQuarantine, Prog.wp_modify]
  refine ⟨hsettled, bootHoldMaxWait_clear hsettled ?_ waited⟩
  intro hold hhold honPrevious
  refine ⟨fun _ _ _ _ => not_clash_none _, fun prev husable => ⟨fun _ => not_clash_none _, ?_⟩⟩
  exact ((hclear hold hhold honPrevious).2 prev husable).2

end

theorem handleApplyFailure_clear (etag : Etag) (structural : Option Etag) (disturbed : Bool)
    (hprev : disturbed = true → ∀ prev, usablePrevious env s.disk (some etag) false = some prev → ¬Clash structural prev.1.structuralEtag) :
    (handleApplyFailure env etag structural disturbed).wp (ClearAt none)
      (fun _ t => ClearAt none t ∧ Steady s t ∧ t.loop.quarantine.map (·.etag) = some etag ∧
        ∀ now a, Clash (Quarantine.barred t.loop.quarantine now) a → Clash structural a) s := by
  rw [handleApplyFailure, Prog.wp_bind]
  refine Prog.wp_post ?_ _ (recordFailure_clear hs env etag structural)
  intro _ t ⟨hst, hetag, hquarantine⟩
  have ht := hst.calm none hs
  refine Prog.wp_seq ?_ _ (setLoop_steady ht _ rfl rfl rfl)
  intro _ u ⟨hu, htu, hq⟩
  have hsu := hst.trans htu
  rw [← hq] at hetag hquarantine
  rw [Prog.wp_bind, Prog.wp_get]
  have hdone : ∀ v : State, ClearAt none v ∧ Steady u v ∧ v.loop.quarantine = u.loop.quarantine →
      ClearAt none v ∧ Steady s v ∧ v.loop.quarantine.map (·.etag) = some etag ∧
        ∀ now a, Clash (Quarantine.barred v.loop.quarantine now) a → Clash structural a := by
    intro v ⟨hv, huv, hqv⟩
    rw [hqv]
    exact ⟨hv, hsu.trans huv, hetag, hquarantine⟩
  split
  · exact Prog.wp_post (fun _ v hv => hdone v hv) _ (setLoop_steady hu _ rfl rfl rfl)
  next prev prevEtag husable =>
    refine Prog.wp_ite (fun _ => ?_) fun hdisturbed => ?_
    · exact Prog.wp_post (fun _ v hv => hdone v hv) _ (setLoop_steady hu _ rfl rfl rfl)
    · rw [Bool.not_eq_true, Bool.not_eq_false'] at hdisturbed
      rw [hsu.usablePrevious] at husable
      refine Prog.wp_seq ?_ _ (guardedApply_clear hu prev ?_)
      · intro outcome v ⟨hv, huv, hqv, _⟩
        split
        · refine Prog.wp_post ?_ _ (setLoop_steady hv _ rfl rfl rfl)
          exact fun _ w ⟨hw, hvw, hqw⟩ => hdone w ⟨hw, huv.trans hvw, hqw.trans hqv⟩
        · refine Prog.wp_seq ?_ _ (setLoop_steady hv _ rfl rfl rfl)
          intro _ w ⟨hw, hvw, hqw⟩
          refine Prog.wp_post ?_ _ (setLoop_steady hw _ rfl rfl rfl)
          intro _ x ⟨hx, hwx, hqx⟩
          exact hdone x ⟨hx, huv.trans (hvw.trans hwx), hqx.trans (hqw.trans hqv)⟩
      · intro hclash
        rw [State.barred, hu.starting] at hclash
        exact hprev hdisturbed _ husable (hquarantine _ _ hclash)

variable (bundle : Bundle)

theorem applyWithRevert_clear (etag : Etag)
    (hbundle : ¬Clash (Quarantine.barred s.loop.quarantine (env.now s)) bundle.structuralEtag)
    (hfailed : ∀ disturbed, (env.outcome s.loop.applies).error = some disturbed → (disturbed = true → ∀ prev, usablePrevious env s.disk (some etag) false = some prev → ¬Clash bundle.structuralEtag prev.1.structuralEtag) ∧ HoldClear env (some etag) bundle.structuralEtag s) :
    (applyWithRevert env bundle etag).wp (ClearAt none)
      (fun live t => ClearAt none t ∧ (live = false →
        HoldClear env (t.loop.quarantine.map (·.etag)) bundle.structuralEtag t ∧
        ∀ now a, Clash (Quarantine.barred t.loop.quarantine now) a →
          Clash bundle.structuralEtag a)) s := by
  rw [applyWithRevert, Prog.wp_bind]
  have hbarred : ¬Clash (s.barred (env.now s)) bundle.structuralEtag := by
    rw [State.barred, hs.starting]
    exact hbundle
  refine Prog.wp_post ?_ _ (guardedApply_clear hs bundle hbarred)
  rintro outcome t ⟨ht, hst, _, rfl⟩
  split
  next disturbed herror =>
    obtain ⟨hprev, hhold⟩ := hfailed disturbed herror
    refine Prog.wp_seq ?_ _ (handleApplyFailure_clear ht etag bundle.structuralEtag disturbed ?_)
    · rintro _ u ⟨hu, htu, hetag, hquarantine⟩
      refine (Prog.wp_pure _).mpr ⟨hu, fun _ => ⟨?_, hquarantine⟩⟩
      rw [hetag]
      exact (hst.trans htu).holdClear hhold
    · intro hdisturbed prev husable
      rw [hst.usablePrevious] at husable
      exact hprev hdisturbed prev husable
  · refine Prog.wp_seq ?_ _ (ht.kept (calm_setQuarantine none))
    intro _ u hu
    refine Prog.wp_seq ?_ _ (hu.kept (calm_commitConfig etag))
    intro _ v hv
    refine Prog.wp_seq ?_ _ (hv.kept (calm_setLoop _))
    exact fun _ w hw => (Prog.wp_pure _).mpr ⟨hw, fun h => by cases h⟩

theorem afterFailure_clear (etag : Etag)
    (hclear : HoldClear env (s.loop.quarantine.map (·.etag)) failed s)
    (hbarred : ∀ now a, Clash (Quarantine.barred s.loop.quarantine now) a → Clash failed a) :
    (afterFailure env etag).wp (ClearAt none) (fun _ => ClearAt none) s := by
  rw [afterFailure, Prog.wp_bind, Prog.wp_get]
  refine Prog.wp_ite (fun _ => ?_) fun _ => (Prog.wp_pure ()).mpr hs
  exact Prog.wp_ite (fun _ => hs.kept calm_endBootHold) fun _ =>
    bootHoldFallback_clear hs (hbarred _) hclear _

theorem settleBundle_clear (etag : Etag)
    (hsame : s.loop.quarantine.isSome → Quarantine.sameStructure s.loop.quarantine (some etag) bundle.structuralEtag = true)
    (hclear : BundleClear env bundle etag s) :
    (settleBundle env bundle etag).wp (ClearAt none) (fun _ => ClearAt none) s := by
  rw [settleBundle, Prog.wp_bind, Prog.wp_get]
  refine Prog.wp_ite (fun hnew => ?_) fun _ => hs.kept (calm_confirm etag)
  have hbundle := hclear hnew
  refine Prog.wp_ite (fun hblocks => ?_) fun hblocks => ?_
  · rw [if_pos hblocks] at hbundle
    exact holdClear_fallback hs hbundle none
  · rw [if_neg hblocks] at hbundle
    rw [Bool.not_eq_true] at hblocks
    refine Prog.wp_seq ?_ _ (applyWithRevert_clear hs bundle etag
      (Quarantine.not_clash_of_not_blocks hblocks hsame) hbundle)
    rintro live t ⟨ht, hfailed⟩
    refine Prog.wp_ite (fun _ => ?_) fun hlive => ?_
    · exact ht.kept (calm_bind (calm_setLoop _) fun _ => calm_confirm etag)
    · obtain ⟨hhold, hbarred⟩ := hfailed (Bool.eq_false_of_not_eq_true hlive)
      exact afterFailure_clear ht etag hhold hbarred

theorem saveConfig_clear (etag : Etag) :
    (saveConfig bundle etag).wp (ClearAt none)
      (fun _ t => ClearAt none t ∧ Steady s t ∧ t.loop = s.loop) s := by
  have hevent : (Event.fetched bundle etag).Clear := trivial
  simp only [saveConfig, setDisk, Prog.wp_bind, Prog.wp_modify]
  refine ⟨hs.cons hevent rfl rfl, hs.cons hevent rfl rfl, hs.cons hevent rfl rfl,
    hs.cons hevent rfl rfl, hs.cons hevent rfl rfl, ?_, trivial⟩
  exact ⟨fun _ h => h.cons hevent rfl rfl, rfl, rfl, rfl, rfl, rfl⟩

theorem acceptBundle_clear (etag : Etag) (hclear : BundleClear env bundle etag s) :
    (acceptBundle env bundle etag).wp (ClearAt none) (fun _ => ClearAt none) s := by
  have hsettle : ∀ t : State, ClearAt none t → BundleClear env bundle etag t →
      (t.loop.quarantine.isSome →
        Quarantine.sameStructure t.loop.quarantine (some etag) bundle.structuralEtag = true) →
      (saveConfig bundle etag >>= fun _ => settleBundle env bundle etag).wp (ClearAt none)
        (fun _ => ClearAt none) t := by
    intro t ht htclear htsame
    refine Prog.wp_seq ?_ _ (saveConfig_clear ht bundle etag)
    rintro _ u ⟨hu, htu, hloop⟩
    apply settleBundle_clear hu bundle etag
    · rw [hloop]
      exact htsame
    · intro hnew
      rw [hloop] at hnew
      have hbundle := htclear hnew
      rw [Env.now, hloop]
      rw [Env.now] at hbundle
      split
      next hblocks =>
        rw [if_pos hblocks] at hbundle
        have hhold := htu.holdClear hbundle
        rw [State.HoldClear, Env.now, hloop]
        exact hhold
      next hblocks =>
        rw [if_neg hblocks] at hbundle
        intro disturbed herror
        obtain ⟨hprev, hhold⟩ := hbundle disturbed herror
        refine ⟨fun hdisturbed prev husable => ?_, htu.holdClear hhold⟩
        rw [htu.usablePrevious] at husable
        exact hprev hdisturbed prev husable
  rw [acceptBundle, Prog.wp_bind, clearMoot, Prog.wp_bind, Prog.wp_get]
  refine Prog.wp_ite (fun hmoot => ?_) fun hmoot => ?_
  · simp only [Bool.and_eq_true, Bool.not_eq_true'] at hmoot
    have hblocks : Quarantine.blocks s.loop.quarantine (some etag) bundle.structuralEtag
        (env.now s) = false := by
      unfold Quarantine.blocks
      split
      · rw [hmoot.2, Bool.false_and]
      · rfl
    have hcleared : ClearAt none { s with
        loop := { s.loop with quarantine := none }, disk := { s.disk with quarantine := none } } :=
      hs.of_log rfl rfl
    rw [setQuarantine, Prog.wp_modify]
    refine ⟨hcleared, hsettle _ hcleared ?_ (fun h => by cases h)⟩
    intro hnew
    have hbundle := hclear hnew
    rw [hblocks, if_neg Bool.false_ne_true] at hbundle
    exact hbundle
  · refine (Prog.wp_pure ()).mpr (hsettle s hs hclear fun hsome => ?_)
    simpa [hsome] using hmoot

theorem afterFetch_clear (resp : Response) (hclear : (Call.afterFetch env resp).Clear s) :
    (afterFetch env resp).wp (ClearAt none) (fun _ => ClearAt none) s := by
  cases resp with
  | unreachable => exact holdClear_fallback hs hclear none
  | refused => exact holdClear_fallback hs hclear none
  | notModified => exact (Prog.wp_pure ()).mpr hs
  | ok bundle header =>
    refine Prog.wp_ite (fun _ => (Prog.wp_pure ()).mpr hs) fun hpending => ?_
    split
    · exact (Prog.wp_pure ()).mpr hs
    next etag hetag =>
      exact acceptBundle_clear hs bundle etag
        (hclear etag hetag (Bool.eq_false_of_not_eq_true hpending))

end

theorem bootstrap_clear {barred : Option Etag} (hs : ClearAt (some barred) s) (bundle : Bundle)
    (etag : Option Etag)
    (hprev : ∀ prev, usablePrevious env s.disk etag true = some prev →
      ¬Clash barred prev.1.structuralEtag)
    (hbundle : (Quarantine.blocks s.loop.quarantine etag none (env.now s) = true →
      usablePrevious env s.disk etag true = none) → ¬Clash barred bundle.structuralEtag) :
    (bootstrap env bundle etag).wp (ClearAt (some barred)) (fun _ => ClearAt (some barred)) s := by
  have hcached : (Quarantine.blocks s.loop.quarantine etag none (env.now s) = true →
      usablePrevious env s.disk etag true = none) →
      (bootstrapApply env bundle etag false true >>= fun _ => pure ()).wp
        (ClearAt (some barred)) (fun _ => ClearAt (some barred)) s := by
    intro hskip
    refine Prog.wp_seq ?_ _ (bootstrapApply_clear hs bundle etag false true ?_ fun _ => hprev)
    · exact fun _ t ht => (Prog.wp_pure ()).mpr ht
    · rw [State.barred, hs.starting]
      exact hbundle hskip
  simp only [bootstrap]
  rw [Prog.wp_bind, Prog.wp_get]
  refine Prog.wp_ite (fun hblocks => ?_) fun hblocks => hcached fun h => absurd h hblocks
  split
  next prev prevEtag husable =>
    refine Prog.wp_seq ?_ _ (setLoop_steady hs _ rfl rfl rfl)
    rintro _ t ⟨ht, _, _⟩
    refine Prog.wp_seq ?_ _ (bootstrapApply_clear ht prev prevEtag true true ?_ (fun h => by cases h))
    · exact fun _ u hu => (Prog.wp_pure ()).mpr hu
    · rw [State.barred, ht.starting]
      exact hprev _ husable
  next husable => exact hcached fun _ => husable

theorem calm_holdAtStart (bundle : Bundle) (etag : Etag) (named : etag ≠ "") :
    Prog.Within Calm (holdAtStart env bundle etag named) := by
  have hdeath : Prog.Within Calm (recordDeath env etag) := by
    apply Prog.within_get
    intro t
    split
    · exact Prog.within_get fun _ => calm_setQuarantine _
    · exact calm_pure ()
  have hhold : Prog.Within Calm (holdBundle etag) := by
    apply Prog.within_get
    intro t
    split
    · exact calm_bind (calm_setDisk _) fun _ => calm_pure false
    · split
      · exact calm_pure false
      · exact calm_bind (calm_setDisk _) fun _ => calm_bind (calm_setDisk _) fun _ => calm_pure _
  exact calm_bind hdeath fun _ => calm_bind hhold fun _ => calm_setLoop _

theorem barredAtStart_eq_some {d : Disk} {failed : Etag}
    (h : barredAtStart env d = some failed) :
    (∃ q, d.quarantine = some q ∧ q.structural = some failed ∧ env.clock 0 < q.retryAt) ∧
      ∃ prev, usablePrevious env d (loadConfig d).2 true = some prev ∧
        prev.1.structuralEtag ≠ some failed := by
  unfold barredAtStart at h
  split at h
  next barred prev prevEtag hbarred husable =>
    obtain ⟨hother, h⟩ := Option.ite_none_left_eq_some.mp h
    rw [Option.some.injEq] at h
    subst h
    refine ⟨?_, ⟨prev, prevEtag⟩, husable, hother⟩
    unfold Quarantine.barred at hbarred
    split at hbarred
    next q hq =>
      split at hbarred
      next hearly => exact ⟨q, hq, hbarred, hearly⟩
      · cases hbarred
    · cases hbarred
  · cases h

theorem startup_clear (hs : ClearAt none s) (hclear : (Call.startup env).Clear s) :
    (startup env).wp (fun t => ∃ phase, ClearAt phase t) (fun _ => ClearAt none) s := by
  have hbegin : ClearAt (some (barredAtStart env s.disk)) (s.begun env) := ⟨hs.clear, rfl⟩
  have hboot : ∀ bundle etag, loadConfig s.disk = (some bundle, etag) →
      env.deathsFor etag = 0 →
      (bootstrap env bundle etag).wp (ClearAt (some (barredAtStart env s.disk)))
        (fun _ => ClearAt (some (barredAtStart env s.disk))) (s.begun env) := by
    intro bundle etag hload hdeaths
    apply bootstrap_clear hbegin bundle etag
    · rintro prev husable ⟨failed, hbarred, hprev⟩
      obtain ⟨_, other, hother, hne⟩ := barredAtStart_eq_some hbarred
      rw [hload] at hother
      have hsame : other = prev := Option.some.inj (hother.symm.trans husable)
      exact hne (hsame ▸ hprev)
    · rintro hskip ⟨failed, hbarred, hbundle⟩
      obtain ⟨⟨q, hq, hstructural, hearly⟩, prev, husable, _⟩ := barredAtStart_eq_some hbarred
      have hetag := hclear failed bundle etag hbarred hload hdeaths hbundle
      rw [hload] at husable
      have hblocks : Quarantine.blocks s.disk.quarantine etag none (env.clock 0) = true := by
        rw [hetag, hq]
        simp [Quarantine.blocks, Quarantine.sameStructure, hearly]
      exact absurd (husable.symm.trans (hskip hblocks)) (by simp)
  have hfrom : ∀ loaded, loaded = loadConfig s.disk →
      (startFrom env loaded).wp (ClearAt (some (barredAtStart env s.disk)))
        (fun _ => ClearAt (some (barredAtStart env s.disk))) (s.begun env) := by
    rintro ⟨bundle?, etag⟩ hload
    cases bundle? with
    | none => exact (Prog.wp_pure ()).mpr hbegin
    | some bundle =>
      rw [startFrom]
      split
      · refine Prog.wp_ite (fun _ => ?_) fun hdeaths => ?_
        · exact hbegin.kept (calm_holdAtStart bundle _ _)
        · apply hboot bundle etag hload.symm
          simpa [syncFirstAfterDeaths] using hdeaths
      next htruthy =>
        apply hboot bundle etag hload.symm
        simp [Env.deathsFor, htruthy]
  rw [startup, Prog.wp_bind, Prog.wp_modify]
  refine ⟨⟨_, hbegin⟩, ?_⟩
  rw [Prog.wp_bind, Prog.wp_get, Prog.wp_bind]
  refine Prog.wp_mono (fun t ht => ⟨_, ht⟩) ?_ _ (hfrom _ rfl)
  intro _ t ht
  exact (Prog.wp_modify _ _).mpr ⟨⟨none, ht.clear, rfl⟩, ht.clear, rfl⟩

theorem call_clear (hs : ClearAt none s) (c : Call) (hready : clearRuns.ready s c) :
    c.prog.wp (fun t => ∃ phase, ClearAt phase t) (fun _ => ClearAt none) s := by
  obtain ⟨_, hclear⟩ := hready
  cases c with
  | startup env => exact startup_clear hs hclear
  | beforeFetch env settled waited =>
    exact Prog.wp_mono (fun _ ht => ⟨none, ht⟩) (fun _ _ ht => ht) _
      (beforeFetch_clear hs hclear settled waited)
  | afterFetch env resp =>
    exact Prog.wp_mono (fun _ ht => ⟨none, ht⟩) (fun _ _ ht => ht) _
      (afterFetch_clear hs resp hclear)

/-- In such a run no apply is of the structure barred when it was made. -/
theorem applied_clear {t : State} (h : clearRuns.Moment {} t) :
    ∀ event ∈ t.log, event.Clear := by
  have hinv : ClearAt none t ∨ ∃ phase, ClearAt phase t := h.invariant
    ⟨fun _ hmem => absurd hmem List.not_mem_nil, rfl⟩
    (fun s c hs hready => call_clear hs c hready)
    fun t ⟨phase, ht⟩ _ => ⟨ht.clear, rfl⟩
  rcases hinv with hrest | ⟨_, hduring⟩
  · exact hrest.clear
  · exact hduring.clear

/-- A driver that refuses every bundle before the daemon sees it. -/
def refusesAll : Env := { takesAll with outcome _ := ⟨some false, false, false⟩ }

/-- The second bundle after a change of records. -/
def bundleTwoRecords : Bundle := { bundleTwo with etag := some "e3" }

/-- The agent whose second bundle is refused, and so quarantined. -/
def refusedTwo : State := ((Call.afterFetch refusesAll (.ok bundleTwo none)).prog.run tookOne).2

/-- It fetches the change of records, and starts again. -/
def restarted : State :=
  ((Call.startup takesAll).prog.run
    ((Call.afterFetch refusesAll (.ok bundleTwoRecords none)).prog.run refusedTwo).2).2

theorem applied_clear_refusedTwo :
    (∀ event ∈ ((Call.startup takesAll).prog.run refusedTwo).2.log, event.Clear) ∧
      barredAtStart takesAll refusedTwo.disk = some "s2" := by
  have hstart : clearRuns.Reach {} started :=
    Killable.Reach.done (M := clearRuns) (Call.startup takesAll) .init ⟨trivial, fun _ _ _ hbarred => by cases hbarred⟩
  have hhold : ∀ {s : State}, s.loop.bootHold = none → ∀ env failedEtag failed,
      HoldClear env failedEtag failed s := by
    intro s hnone _ _ _ hold hsome
    rw [hnone] at hsome
    cases hsome
  have hone : clearRuns.Reach {} tookOne := by
    refine Killable.Reach.done (M := clearRuns) (Call.afterFetch takesAll (.ok bundleOne none))
      hstart ⟨by change started.up = true; decide +kernel, ?_⟩
    intro etag hetag _ _
    obtain rfl : "e1" = etag := by simpa [Response.etag, truthy, bundleOne] using hetag
    rw [if_neg (by decide +kernel)]
    intro disturbed herror
    cases herror
  have htwo : clearRuns.Reach {} refusedTwo := by
    refine Killable.Reach.done (M := clearRuns) (Call.afterFetch refusesAll (.ok bundleTwo none))
      hone ⟨by change tookOne.up = true; decide +kernel, ?_⟩
    intro etag hetag _ _
    obtain rfl : "e2" = etag := by simpa [Response.etag, truthy, bundleTwo] using hetag
    rw [if_neg (by decide +kernel)]
    intro disturbed herror
    obtain rfl : false = disturbed := by simpa [refusesAll] using herror
    exact ⟨fun h => (by cases h), hhold (by decide +kernel) _ _ _⟩
  refine ⟨applied_clear (.rest (Killable.Reach.done (M := clearRuns) (Call.startup takesAll) htwo
    ⟨trivial, ?_⟩)), by decide +kernel⟩
  intro failed bundle etag _ hload _ _
  have hcached : loadConfig refusedTwo.disk = (some bundleTwo, some "e2") := by decide +kernel
  rw [hcached, Prod.mk.injEq] at hload
  rw [← hload.2]
  decide +kernel

/-- A start applies the quarantined structure, fetched again under another etag. -/
theorem not_applied_clear_restarted :
    ¬∀ t : State, configRuns.Moment {} t → ∀ event ∈ t.log, event.Clear := by
  intro h
  have hstart : configRuns.Reach {} started :=
    Killable.Reach.done (M := configRuns) (Call.startup takesAll) .init trivial
  have hone : configRuns.Reach {} tookOne :=
    Killable.Reach.done (M := configRuns) (Call.afterFetch takesAll (.ok bundleOne none)) hstart
      (by change started.up = true; decide +kernel)
  have htwo : configRuns.Reach {} refusedTwo :=
    Killable.Reach.done (M := configRuns) (Call.afterFetch refusesAll (.ok bundleTwo none)) hone
      (by change tookOne.up = true; decide +kernel)
  have hrecords := Killable.Reach.done (M := configRuns)
    (Call.afterFetch refusesAll (.ok bundleTwoRecords none)) htwo
    (by change refusedTwo.up = true; decide +kernel)
  have hrestart : configRuns.Reach {} restarted :=
    Killable.Reach.done (M := configRuns) (Call.startup takesAll) hrecords trivial
  have happlied : .applied bundleTwoRecords true (some "s2") ∈ restarted.log := by decide +kernel
  exact h _ (.rest hrestart) _ happlied ⟨"s2", rfl, rfl⟩

end SpatiumDdi.Agent
