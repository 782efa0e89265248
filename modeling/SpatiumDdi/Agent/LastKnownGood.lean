import Mathlib.Data.List.GetD
import SpatiumDdi.Agent.SyncLoop

/-!
What `previous.json` holds: a bundle that applied, or whose structure was live when
it was committed, beside the etag it was fetched under. It holds at every moment
but between the two renames of a commit over another bundle's etag, in the runs
that are not killed there, whose starts find the cached bundle beside its own etag,
and whose fetches bring a structure and no second bundle under a held one's etag.
-/

namespace SpatiumDdi.Agent

namespace State

def Applied (s : State) (b : Bundle) : Prop := ∃ barred, .applied b true barred ∈ s.log

def Fetched (s : State) (b : Bundle) (etag : Etag) : Prop :=
  ∃ e, .fetched b e ∈ s.log ∧ readEtag e = etag

def Vouched (s : State) (b : Bundle) : Prop :=
  s.Applied b ∨ ∃ live, .committed (some b) (some live) ∈ s.log ∧ b.structuralEtag = some live

structure LastKnownGood (s : State) : Prop where
  vouched : ∀ content, s.disk.previous = some content → ∃ b, content = some b ∧ s.Vouched b
  named : ∀ b raw, s.disk.previous = some (some b) → s.disk.previousEtag = some raw →
    s.Fetched b (readEtag raw)

variable {b : Bundle} {s t : State}

theorem Applied.mono (h : s.Applied b) (hlog : s.log ⊆ t.log) : t.Applied b := by
  obtain ⟨barred, hmem⟩ := h
  exact ⟨barred, hlog hmem⟩

theorem Fetched.mono {etag : Etag} (h : s.Fetched b etag) (hlog : s.log ⊆ t.log) :
    t.Fetched b etag := by
  obtain ⟨e, hmem, he⟩ := h
  exact ⟨e, hlog hmem, he⟩

theorem Vouched.mono (h : s.Vouched b) (hlog : s.log ⊆ t.log) : t.Vouched b := by
  rcases h with happ | ⟨live, hmem, hlive⟩
  · exact .inl (happ.mono hlog)
  · exact .inr ⟨live, hlog hmem, hlive⟩

theorem LastKnownGood.mono (h : s.LastKnownGood) (hprev : t.disk.previous = s.disk.previous)
    (hetag : t.disk.previousEtag = s.disk.previousEtag) (hlog : s.log ⊆ t.log) :
    t.LastKnownGood := by
  constructor
  · intro content hc
    obtain ⟨b, hb, hv⟩ := h.vouched content (hprev ▸ hc)
    exact ⟨b, hb, hv.mono hlog⟩
  · intro b raw hc hraw
    exact (h.named b raw (hprev ▸ hc) (hetag ▸ hraw)).mono hlog

theorem LastKnownGood.of_previous (hprev : t.disk.previous = some (some b)) (hv : t.Vouched b)
    (hnamed : ∀ raw, t.disk.previousEtag = some raw → t.Fetched b (readEtag raw)) :
    t.LastKnownGood := by
  constructor
  · intro content hc
    rw [hprev, Option.some.injEq] at hc
    exact ⟨b, hc.symm, hv⟩
  · intro c raw hc hraw
    rw [hprev, Option.some.injEq, Option.some.injEq] at hc
    exact hc ▸ hnamed raw hraw

/-- The cached bundle was fetched under the etag beside it, or that etag is the last
known good one's already. -/
def Paired (s : State) : Prop :=
  ∀ b raw, s.disk.current = some (some b) → s.disk.currentEtag = some raw →
    s.Fetched b (readEtag raw) ∨ s.disk.previousEtag.map readEtag = some (readEtag raw)

/-- The bundle of a hold is the cached one, while the cache is under its etag. -/
def HoldsCurrent (s : State) : Prop :=
  ∀ hold raw b, s.loop.bootHold = some hold → s.disk.currentEtag = some raw →
    readEtag raw = hold.etag → heldBundle s.disk hold.held = some b →
    s.disk.current = some (some b)

end State

open State

/-- What a call of the config path has to find. -/
def Call.Sound (s : State) : Call → Prop
  | .startup _ => s.Paired
  | .beforeFetch .. => True
  | .afterFetch _ resp => ∀ bundle header etag, resp = .ok bundle header →
      Response.etag bundle header = some etag →
      (bundle.structuralEtag.isSome ∨ s.loop.currentStructuralEtag.isSome) ∧
      ∀ hold b, s.loop.bootHold = some hold → readEtag etag = hold.etag →
        heldBundle s.disk hold.held = some b → b = bundle

/-- Between the renames of a commit, `previous.etag` names another bundle. -/
def State.Torn (s : State) : Prop := s.midCommit = true ∧ s.disk.previousEtag ≠ none

/-- The runs of the config path, killed anywhere. -/
def configRuns : Killable State Call where
  prog := Call.prog
  crash := State.crash
  ready s c := c.enabled s
  endures _ := True

/-- The runs that meet nothing else, and are not killed over a torn pair. -/
def soundRuns : Killable State Call where
  prog := Call.prog
  crash := State.crash
  ready s c := c.enabled s ∧ c.Sound s
  endures t := ¬t.Torn

/-- What a call leaves of the files, of the hold and of the log, besides `previous`. -/
structure Frame (s t : State) : Prop where
  current : t.disk.current = s.disk.current
  currentEtag : t.disk.currentEtag = s.disk.currentEtag
  held : t.disk.held = s.disk.held
  bootHold : t.loop.bootHold = s.loop.bootHold
  up : t.up = s.up
  log : s.log ⊆ t.log

/-- A step that leaves `previous` too. -/
structure Quiet (s t : State) : Prop extends Frame s t where
  previous : t.disk.previous = s.disk.previous
  previousEtag : t.disk.previousEtag = s.disk.previousEtag
  midCommit : t.midCommit = s.midCommit

namespace Frame

variable {s t u : State}

theorem refl (s : State) : Frame s s := ⟨rfl, rfl, rfl, rfl, rfl, fun _ h => h⟩

theorem trans (h : Frame s t) (h' : Frame t u) : Frame s u :=
  ⟨h'.current.trans h.current, h'.currentEtag.trans h.currentEtag, h'.held.trans h.held,
    h'.bootHold.trans h.bootHold, h'.up.trans h.up, fun _ hmem => h'.log (h.log hmem)⟩

end Frame

namespace Quiet

variable {s t u : State}

theorem refl (s : State) : Quiet s s := ⟨Frame.refl s, rfl, rfl, rfl⟩

theorem trans (h : Quiet s t) (h' : Quiet t u) : Quiet s u :=
  ⟨h.toFrame.trans h'.toFrame, h'.previous.trans h.previous,
    h'.previousEtag.trans h.previousEtag, h'.midCommit.trans h.midCommit⟩

end Quiet

/-- What holds at every moment of a run. -/
structure During (t : State) : Prop where
  whole : t.disk.current ≠ some none
  good : ¬t.Torn → t.LastKnownGood

structure Inv (s : State) : Prop where
  whole : s.disk.current ≠ some none
  good : s.LastKnownGood
  between : s.midCommit = false
  paired : s.up = true → s.Paired
  holds : s.up = true → s.HoldsCurrent

theorem Inv.during {s : State} (h : Inv s) : During s := ⟨h.whole, fun _ => h.good⟩

theorem heldBundle_congr {d d' : Disk} (h : d'.held = d.held) (source : HeldSource) :
    heldBundle d' source = heldBundle d source := by
  cases source with
  | path => simp only [heldBundle, h]
  | parsed bundle => rfl

theorem Inv.quiet {s t : State} (h : Inv s) (hst : Quiet s t) : Inv t := by
  constructor
  · rw [hst.current]
    exact h.whole
  · exact h.good.mono hst.previous hst.previousEtag hst.log
  · rw [hst.midCommit]
    exact h.between
  · intro hup b raw hcur hetag
    rw [hst.up] at hup
    rw [hst.current] at hcur
    rw [hst.currentEtag] at hetag
    rw [hst.previousEtag]
    exact (h.paired hup b raw hcur hetag).imp_left fun hf => hf.mono hst.log
  · intro hup hold raw b hhold hetag hname hheld
    rw [hst.up] at hup
    rw [hst.bootHold] at hhold
    rw [hst.currentEtag] at hetag
    rw [hst.current]
    rw [heldBundle_congr hst.held] at hheld
    exact h.holds hup hold raw b hhold hetag hname hheld

theorem Inv.crash {t : State} (h : During t) (hend : ¬t.Torn) : Inv t.crash where
  whole := h.whole
  good := ⟨(h.good hend).vouched, (h.good hend).named⟩
  between := rfl
  paired hup := by cases hup
  holds hup := by cases hup

section Quiet

variable {α : Type} {s : State} {p : Act α}

theorem Inv.kept (h : Inv s) (hp : Prog.Within Quiet p) :
    p.wp During (fun _ t => Inv t ∧ Quiet s t) s :=
  Prog.wp_mono (fun _ ht => (h.quiet ht).during) (fun _ _ ht => ⟨h.quiet ht, ht⟩) p (hp s)

theorem quiet_pure (a : α) : Prog.Within Quiet (pure a : Act α) := Prog.within_pure Quiet.refl a

theorem quiet_bind {β : Type} {k : α → Act β} (hp : Prog.Within Quiet p)
    (hk : ∀ a, Prog.Within Quiet (k a)) : Prog.Within Quiet (p >>= k) :=
  Prog.within_bind (R := Quiet) (fun _ _ _ => Quiet.trans) hp hk

theorem quiet_setLoop {f : SyncLoop → SyncLoop} (hf : ∀ l, (f l).bootHold = l.bootHold) :
    Prog.Within Quiet (setLoop f) :=
  Prog.within_modify fun s => ⟨⟨rfl, rfl, rfl, hf s.loop, rfl, fun _ h => h⟩, rfl, rfl, rfl⟩

theorem quiet_setStatus (status : Status) : Prog.Within Quiet (setStatus status) :=
  quiet_setLoop fun _ => rfl

theorem quiet_setFingerprint (bundle : Bundle) : Prog.Within Quiet (setFingerprint bundle) :=
  quiet_setLoop fun _ => rfl

theorem quiet_reportApplied (outcome : Outcome) : Prog.Within Quiet (reportApplied outcome) := by
  apply quiet_setLoop
  intro l
  split <;> rfl

theorem quiet_setQuarantine (q : Option Quarantine) : Prog.Within Quiet (setQuarantine q) :=
  Prog.within_modify fun _ => ⟨⟨rfl, rfl, rfl, rfl, rfl, fun _ h => h⟩, rfl, rfl, rfl⟩

variable (env : Env)

theorem quiet_recordFailure (etag : Etag) (structural : Option Etag) :
    Prog.Within Quiet (recordFailure env etag structural) :=
  Prog.within_get fun _ => quiet_setQuarantine _

theorem guardedApply_spec (bundle : Bundle) (s : State) :
    (guardedApply env bundle).wp (Quiet s)
      (fun outcome t => Quiet s t ∧ (outcome.error = none → t.Applied bundle)) s := by
  simp only [guardedApply, Prog.wp_bind, Prog.wp_get, Prog.wp_modify, Prog.wp_pure]
  have hquiet : Quiet s
      { s with
        loop := { s.loop with
          applies := s.loop.applies + 1
          heldBack := (env.outcome s.loop.applies).heldBack }
        log := .applied bundle (env.outcome s.loop.applies).error.isNone
          (s.barred (env.now s)) :: s.log } :=
    ⟨⟨rfl, rfl, rfl, rfl, rfl, List.subset_cons_self _ _⟩, rfl, rfl, rfl⟩
  refine ⟨hquiet, hquiet, ?_⟩
  intro hok
  exact ⟨s.barred (env.now s), by simp [hok]⟩

theorem quiet_guardedApply (bundle : Bundle) : Prog.Within Quiet (guardedApply env bundle) :=
  fun s => Prog.wp_post (fun _ _ h => h.1) _ (guardedApply_spec env bundle s)

theorem quiet_bootstrapFallback (failedEtag : Option Etag) (beforeSync : Bool) :
    Prog.Within Quiet (bootstrapFallback env failedEtag beforeSync) := by
  apply Prog.within_get
  intro s
  split
  · exact quiet_setStatus _
  · apply quiet_bind (quiet_guardedApply env _)
    intro outcome
    split
    · exact quiet_setStatus _
    · exact quiet_bind (quiet_setFingerprint _) fun _ => quiet_setStatus _

theorem quiet_recordBootFailure (etag structural : Option Etag) :
    Prog.Within Quiet (recordBootFailure env etag structural) := by
  unfold recordBootFailure
  split
  · exact quiet_recordFailure env _ _
  · exact quiet_pure _

theorem quiet_bootstrapFailed (bundle : Bundle) (etag : Option Etag)
    (fromPrevious beforeSync : Bool) :
    Prog.Within Quiet (bootstrapFailed env bundle etag fromPrevious beforeSync) := by
  unfold bootstrapFailed
  split
  · exact quiet_setStatus _
  · exact quiet_bind (quiet_recordBootFailure env _ _) fun _ => quiet_bootstrapFallback env _ _

theorem quiet_handleApplyFailure (etag : Etag) (structural : Option Etag) (daemonDisturbed : Bool) :
    Prog.Within Quiet (handleApplyFailure env etag structural daemonDisturbed) := by
  apply quiet_bind (quiet_recordFailure env _ _)
  intro _
  refine quiet_bind (quiet_setLoop fun _ => rfl) fun _ => ?_
  apply Prog.within_get
  intro s
  split
  · exact quiet_setLoop fun _ => rfl
  · split
    · exact quiet_setStatus _
    · apply quiet_bind (quiet_guardedApply env _)
      intro outcome
      split
      · exact quiet_setLoop fun _ => rfl
      · exact quiet_bind (quiet_setLoop fun _ => rfl) fun _ => quiet_setFingerprint _

end Quiet

section Cache

variable {s : State}

theorem saveConfig_spec (h : Inv s) (bundle : Bundle) (etag : Etag)
    (hheld : ∀ hold b, s.loop.bootHold = some hold → readEtag etag = hold.etag →
      heldBundle s.disk hold.held = some b → b = bundle) :
    (saveConfig bundle etag).wp During
      (fun _ t => Inv t ∧ t.loop = s.loop ∧ t.up = s.up ∧
        t.disk.current = some (some bundle) ∧ t.disk.currentEtag = some etag) s := by
  have hgood : ∀ {t : State}, t.disk.previous = s.disk.previous →
      t.disk.previousEtag = s.disk.previousEtag →
      t.log = .fetched bundle etag :: s.log → t.LastKnownGood := by
    intro t hprev hetag hlog
    exact h.good.mono hprev hetag (hlog ▸ List.subset_cons_self _ _)
  simp only [saveConfig, setDisk, Prog.wp_bind, Prog.wp_modify]
  refine ⟨⟨h.whole, fun _ => hgood rfl rfl rfl⟩, ⟨h.whole, fun _ => hgood rfl rfl rfl⟩,
    ⟨by simp, fun _ => hgood rfl rfl rfl⟩, ⟨by simp, fun _ => hgood rfl rfl rfl⟩, ?_⟩
  refine ⟨⟨by simp, hgood rfl rfl rfl, h.between, ?_, ?_⟩, trivial, trivial, trivial, trivial⟩
  · intro _ b raw hcur hraw
    simp only [Option.some.injEq] at hcur hraw
    subst hcur hraw
    exact .inl ⟨etag, List.mem_cons_self, rfl⟩
  · intro _ hold raw b hhold hraw hname hb
    simp only [Option.some.injEq] at hraw
    subst hraw
    rw [hheld hold b hhold hname ((heldBundle_congr (d := s.disk) rfl hold.held).symm.trans hb)]

theorem promote_spec (h : Inv s) {b : Bundle} {raw : String}
    (hcur : s.disk.current = some (some b)) (hraw : s.disk.currentEtag = some raw)
    (hnamed : s.Fetched b (readEtag raw))
    (hwork : s.Applied b ∨
      ∃ live, s.loop.currentStructuralEtag = some live ∧ b.structuralEtag = some live) :
    promote.wp During (fun _ t => Inv t ∧ Frame s t ∧ t.loop = s.loop) s := by
  have hlog : s.log ⊆ .committed (some b) s.loop.currentStructuralEtag :: s.log :=
    List.subset_cons_self _ _
  have hvouched : ∀ {t : State},
      t.log = .committed (some b) s.loop.currentStructuralEtag :: s.log → t.Vouched b := by
    intro t ht
    rcases hwork with happ | ⟨live, hlive, hb⟩
    · exact .inl (happ.mono (ht ▸ hlog))
    · exact .inr ⟨live, by rw [ht, hlive]; exact List.mem_cons_self, hb⟩
  -- past the first rename the old etag, if there is one, tears the pair
  have htorn : ∀ {t : State}, t.disk.previous = some (some b) → t.midCommit = true →
      t.log = .committed (some b) s.loop.currentStructuralEtag :: s.log → ¬t.Torn →
      t.LastKnownGood := by
    intro t hprev hmid ht hend
    apply LastKnownGood.of_previous hprev (hvouched ht)
    intro raw' hraw'
    exact absurd ⟨hmid, by simp [hraw']⟩ hend
  have hdone : ∀ {t : State}, t.disk.previous = some (some b) →
      t.disk.previousEtag = some (Text.readText raw) →
      t.log = .committed (some b) s.loop.currentStructuralEtag :: s.log →
      t.LastKnownGood := by
    intro t hprev hetag ht
    apply LastKnownGood.of_previous hprev (hvouched ht)
    intro raw' hraw'
    rw [hetag, Option.some.injEq] at hraw'
    rw [← hraw', readEtag_readText]
    exact hnamed.mono (ht ▸ hlog)
  simp only [promote, setDisk, Prog.wp_bind, Prog.wp_modify]
  refine ⟨⟨h.whole, fun _ => h.good.mono rfl rfl fun _ hmem => hmem⟩,
    ⟨h.whole, fun _ => h.good.mono rfl rfl fun _ hmem => hmem⟩,
    ⟨h.whole, htorn hcur rfl (by rw [hcur]; rfl)⟩,
    ⟨h.whole, htorn hcur rfl (by rw [hcur]; rfl)⟩,
    ⟨h.whole, fun _ => hdone hcur (by rw [hraw]; rfl) (by rw [hcur]; rfl)⟩,
    ⟨h.whole, hdone hcur (by rw [hraw]; rfl) (by rw [hcur]; rfl), rfl, ?_, ?_⟩,
    ⟨rfl, rfl, rfl, rfl, rfl, List.subset_cons_self _ _⟩, trivial⟩
  · intro _ c raw' _ hraw'
    have heq : raw' = raw := by
      rw [hraw] at hraw'
      simpa using hraw'.symm
    right
    simp [hraw, heq]
  · intro hup hold raw' c hhold hraw' hname hheld
    exact h.holds hup hold raw' c hhold hraw' hname hheld

theorem commitConfig_spec (h : Inv s) (hup : s.up = true) (etag : Etag)
    (hwork : ∀ b raw, s.disk.current = some (some b) → s.disk.currentEtag = some raw →
      readEtag raw = etag → s.Applied b ∨
        ∃ live, s.loop.currentStructuralEtag = some live ∧ b.structuralEtag = some live) :
    (commitConfig etag).wp During (fun _ t => Inv t ∧ Frame s t ∧ t.loop = s.loop) s := by
  have hskip : (pure () : Act Unit).wp During (fun _ t => Inv t ∧ Frame s t ∧ t.loop = s.loop) s :=
    (Prog.wp_pure ()).mpr ⟨h, Frame.refl s, rfl⟩
  simp only [commitConfig, Prog.wp_bind, Prog.wp_get]
  split
  next content raw hcur hraw =>
    refine Prog.wp_ite (fun _ => hskip) fun hetag => Prog.wp_ite (fun _ => hskip) fun hprev => ?_
    rw [ne_eq, not_not] at hetag
    obtain ⟨b, rfl⟩ : ∃ b, content = some b := by
      cases content with
      | none => exact absurd hcur h.whole
      | some b => exact ⟨b, rfl⟩
    have hnamed : s.Fetched b (readEtag raw) := by
      rcases h.paired hup b raw hcur hraw with hf | hp
      · exact hf
      · exact absurd (hetag ▸ hp) hprev
    exact promote_spec h hcur hraw hnamed (hwork b raw hcur hraw hetag)
  · exact hskip

end Cache

section Calls

variable {s t : State}

theorem Inv.rehold (h : Inv s) (hcur : t.disk.current = s.disk.current)
    (hetag : t.disk.currentEtag = s.disk.currentEtag) (hprev : t.disk.previous = s.disk.previous)
    (hprevEtag : t.disk.previousEtag = s.disk.previousEtag) (hmid : t.midCommit = s.midCommit)
    (hup : t.up = s.up) (hlog : t.log = s.log) (hholds : t.HoldsCurrent) : Inv t := by
  have hsub : s.log ⊆ t.log := hlog ▸ fun _ hmem => hmem
  refine ⟨hcur ▸ h.whole, h.good.mono hprev hprevEtag hsub, hmid ▸ h.between, ?_,
    fun _ => hholds⟩
  intro hrun b raw hb hraw
  rw [hprevEtag]
  exact (h.paired (hup ▸ hrun) b raw (hcur ▸ hb) (hetag ▸ hraw)).imp_left fun hf => hf.mono hsub

theorem HoldsCurrent.of_none (hnone : t.loop.bootHold = none) : t.HoldsCurrent := by
  intro hold _ _ hhold
  rw [hnone] at hhold
  cases hhold

section

variable (h : Inv s)
include h

theorem endBootHold_spec : endBootHold.wp During (fun _ => Inv) s := by
  simp only [endBootHold, Prog.wp_bind, Prog.wp_get]
  split
  · exact (Prog.wp_pure ()).mpr h
  · simp only [setLoop, setDisk, Prog.wp_bind, Prog.wp_modify]
    have h₁ := h.rehold
      (t := { s with loop := { s.loop with bootHold := none, bootHoldOnPrevious := false } })
      rfl rfl rfl rfl rfl rfl rfl (HoldsCurrent.of_none rfl)
    have h₂ := h.rehold
      (t := { s with
        loop := { s.loop with bootHold := none, bootHoldOnPrevious := false }
        disk := { s.disk with held := none } })
      rfl rfl rfl rfl rfl rfl rfl (HoldsCurrent.of_none rfl)
    exact ⟨h₁.during, h₂.during, h₂⟩

section

variable (hup : s.up = true)
include hup

variable (env : Env) {hold : BootHold} (bundle : Bundle)

theorem bootstrapApply_spec (etag : Option Etag) (fromPrevious beforeSync : Bool)
    (hcache : fromPrevious = false → ∀ b raw, s.disk.current = some (some b) → s.disk.currentEtag = some raw → readEtag raw = etag.getD "" → b = bundle) :
    (bootstrapApply env bundle etag fromPrevious beforeSync).wp During (fun _ => Inv) s := by
  rw [bootstrapApply, Prog.wp_bind]
  refine Prog.wp_mono (fun _ ht => (h.quiet ht).during) ?_ _ (guardedApply_spec env bundle s)
  intro outcome t ⟨hst, happ⟩
  have ht := h.quiet hst
  cases herror : outcome.error with
  | some _ =>
    refine Prog.wp_seq ?_ _ (ht.kept (quiet_bootstrapFailed env bundle etag _ _))
    exact fun _ u hu => (Prog.wp_pure _).mpr hu.1
  | none =>
    refine Prog.wp_seq ?_ _ (ht.kept (quiet_setFingerprint bundle))
    intro _ u ⟨hu, htu⟩
    cases fromPrevious with
    | true => exact (Prog.wp_pure _).mpr hu
    | false =>
      rw [if_neg Bool.false_ne_true, Prog.wp_bind]
      refine Prog.wp_post ?_ _ (hu.kept (quiet_reportApplied outcome))
      intro _ v ⟨hv, huv⟩
      have hsv := (hst.trans htu).trans huv
      refine Prog.wp_seq (fun _ _ hw => (Prog.wp_pure _).mpr hw.1) _
        (commitConfig_spec hv (hsv.up.trans hup) (etag.getD "") ?_)
      intro b raw hcur hraw hname
      rw [hsv.current] at hcur
      rw [hsv.currentEtag] at hraw
      rw [hcache rfl b raw hcur hraw hname]
      exact .inl ((happ herror).mono fun _ hmem => huv.log (htu.log hmem))

section

variable (hhold : s.loop.bootHold = some hold)
include hhold

theorem retry_spec {bundle : Bundle} (hheld : heldBundle s.disk hold.held = some bundle) :
    (bootstrapApply env bundle (some hold.etag) false false >>= fun live =>
      if live then endBootHold else pure ()).wp During (fun _ => Inv) s := by
  refine Prog.wp_seq ?_ _ (bootstrapApply_spec h hup env bundle (some hold.etag) false false ?_)
  · intro live t ht
    exact Prog.wp_ite (fun _ => endBootHold_spec ht) fun _ => (Prog.wp_pure ()).mpr ht
  · intro _ b raw hcur hraw hname
    have hsame := h.holds hup hold raw bundle hhold hraw hname hheld
    rw [hcur] at hsame
    simpa using hsame

theorem serveHeld_spec (failedEtag : Option Etag) :
    (serveHeld env hold failedEtag).wp During (fun _ => Inv) s := by
  simp only [serveHeld, Prog.wp_bind, Prog.wp_get]
  split
  · exact (Prog.wp_pure ()).mpr h
  next bundle hheld =>
    split
    · exact retry_spec h hup env hhold hheld
    · refine Prog.wp_seq ?_ _
        (bootstrapApply_spec h hup env bundle (some hold.etag) true false (fun h => by cases h))
      intro live t ht
      refine Prog.wp_ite (fun _ => ?_) fun _ => (Prog.wp_pure ()).mpr ht
      exact Prog.wp_seq (fun _ _ hu => endBootHold_spec hu.1) _
        (ht.kept (quiet_setStatus .reverted))

theorem retryHeld_spec : (retryHeld env hold).wp During (fun _ => Inv) s := by
  simp only [retryHeld, Prog.wp_bind, Prog.wp_get]
  refine Prog.wp_ite (fun _ => ?_) fun _ => (Prog.wp_pure ()).mpr h
  split
  · exact (Prog.wp_pure ()).mpr h
  next bundle hheld => exact retry_spec h hup env hhold hheld

theorem servePrevious_spec (failedEtag : Option Etag) :
    (servePrevious env hold failedEtag).wp During (fun _ => Inv) s := by
  simp only [servePrevious, Prog.wp_bind, Prog.wp_get]
  split
  next prev prevEtag _ =>
    refine Prog.wp_ite (fun _ => retryHeld_spec h hup env hhold) fun _ => ?_
    refine Prog.wp_seq ?_ _ (h.kept (quiet_setStatus .reverted))
    rintro _ t ⟨ht, hst⟩
    refine Prog.wp_seq ?_ _
      (bootstrapApply_spec ht (hst.up.trans hup) env prev prevEtag true false (fun h => by cases h))
    intro live u hu
    refine Prog.wp_ite (fun _ => ?_) fun _ => (Prog.wp_pure ()).mpr hu
    exact Prog.wp_post (fun _ _ hv => hv.1) _ (hu.kept (quiet_setLoop fun _ => rfl))
  · exact retryHeld_spec h hup env hhold

end

theorem bootHoldFallback_spec (failedEtag : Option Etag) :
    (bootHoldFallback env failedEtag).wp During (fun _ => Inv) s := by
  simp only [bootHoldFallback, Prog.wp_bind, Prog.wp_get]
  split
  · exact (Prog.wp_pure ()).mpr h
  next hold hhold =>
    refine Prog.wp_ite (fun _ => (Prog.wp_pure ()).mpr h) fun _ => ?_
    exact Prog.wp_ite (fun _ => serveHeld_spec h hup env hhold failedEtag)
      fun _ => servePrevious_spec h hup env hhold failedEtag

theorem bootHoldMaxWait_spec (waited : Bool) :
    (bootHoldMaxWait env waited).wp During (fun _ => Inv) s := by
  simp only [bootHoldMaxWait, Prog.wp_bind, Prog.wp_get]
  split
  · exact (Prog.wp_pure ()).mpr h
  next hold hhold =>
    refine Prog.wp_ite (fun _ => (Prog.wp_pure ()).mpr h) fun _ => ?_
    refine Prog.wp_ite (fun _ => ?_) fun _ => (Prog.wp_pure ()).mpr h
    refine Prog.wp_seq ?_ _ (bootHoldFallback_spec h hup env none)
    intro _ t ht
    refine Prog.wp_post (fun _ _ hu => hu.1) _ (ht.kept (quiet_setLoop fun l => ?_))
    split <;> rfl

theorem beforeFetch_spec (settled : Option Etag) (waited : Bool) :
    (beforeFetch env settled waited).wp During (fun _ => Inv) s := by
  simp only [beforeFetch, maybeSettle, Prog.wp_bind, Prog.wp_get]
  refine Prog.wp_ite (fun _ => ?_) fun _ =>
    (Prog.wp_pure ()).mpr (bootHoldMaxWait_spec h hup env waited)
  refine Prog.wp_post ?_ _ (h.kept (quiet_setQuarantine none))
  exact fun _ t ht => bootHoldMaxWait_spec ht.1 (ht.2.up.trans hup) env waited

variable (etag : Etag)

theorem applyWithRevert_spec (hcur : s.disk.current = some (some bundle)) :
    (applyWithRevert env bundle etag).wp During
      (fun live t => Inv t ∧ t.up = true ∧
        (live = true → t.Applied bundle ∧ t.disk.current = some (some bundle))) s := by
  rw [applyWithRevert, Prog.wp_bind]
  refine Prog.wp_mono (fun _ ht => (h.quiet ht).during) ?_ _ (guardedApply_spec env bundle s)
  rintro outcome t ⟨hst, happ⟩
  have ht := h.quiet hst
  cases herror : outcome.error with
  | some daemonDisturbed =>
    refine Prog.wp_seq ?_ _ (ht.kept (quiet_handleApplyFailure env etag _ daemonDisturbed))
    rintro _ u ⟨hu, htu⟩
    exact (Prog.wp_pure _).mpr ⟨hu, (hst.trans htu).up.trans hup, fun h => by cases h⟩
  | none =>
    refine Prog.wp_seq ?_ _ (ht.kept (quiet_setQuarantine none))
    rintro _ u ⟨hu, htu⟩
    have hsu := hst.trans htu
    have happlied : u.Applied bundle := (happ herror).mono htu.log
    refine Prog.wp_seq ?_ _ (commitConfig_spec hu (hsu.up.trans hup) etag ?_)
    · rintro _ v ⟨hv, huv, _⟩
      refine Prog.wp_seq ?_ _ (hv.kept (quiet_reportApplied outcome))
      rintro _ w ⟨hw, hvw⟩
      have hsw := (hsu.toFrame.trans huv).trans hvw.toFrame
      refine (Prog.wp_pure _).mpr ⟨hw, hsw.up.trans hup, fun _ => ?_⟩
      exact ⟨happlied.mono fun _ hmem => hvw.log (huv.log hmem), hsw.current.trans hcur⟩
    · intro b raw hb _ _
      rw [hsu.current, hcur, Option.some.injEq, Option.some.injEq] at hb
      exact .inl (hb ▸ happlied)

theorem confirm_spec
    (hwork : ∀ b, s.disk.current = some (some b) → s.Applied b ∨ ∃ live, s.loop.currentStructuralEtag = some live ∧ b.structuralEtag = some live) :
    (confirm etag).wp During (fun _ => Inv) s := by
  have hstatus : ∀ l : SyncLoop,
      (if l.quarantine.isNone && l.applyStatus != .ok && !l.heldBack && !l.zonesRefused then
        { l with applyStatus := .ok } else l).currentStructuralEtag =
        l.currentStructuralEtag := by
    intro l
    split <;> rfl
  have hquiet : ∀ t : State, Quiet s t → t.loop.currentStructuralEtag =
      s.loop.currentStructuralEtag →
      (commitConfig etag >>= fun _ => endBootHold).wp During (fun _ => Inv) t := by
    intro t hst hlive
    refine Prog.wp_seq (fun _ _ hu => endBootHold_spec hu.1) _
      (commitConfig_spec (h.quiet hst) (hst.up.trans hup) etag ?_)
    intro b raw hb _ _
    rw [hst.current] at hb
    rw [hlive]
    exact (hwork b hb).imp_left fun happ => happ.mono hst.log
  rw [confirm, Prog.wp_bind, setLoop, Prog.wp_modify]
  have hst : Quiet s { s with
      loop := if s.loop.quarantine.isNone && s.loop.applyStatus != .ok && !s.loop.heldBack &&
        !s.loop.zonesRefused then { s.loop with applyStatus := .ok } else s.loop } := by
    refine ⟨⟨rfl, rfl, rfl, ?_, rfl, fun _ hmem => hmem⟩, rfl, rfl, rfl⟩
    change (ite _ _ _ : SyncLoop).bootHold = _
    split <;> rfl
  exact ⟨(h.quiet hst).during, hquiet _ hst (hstatus s.loop)⟩

theorem afterFailure_spec : (afterFailure env etag).wp During (fun _ => Inv) s := by
  simp only [afterFailure, Prog.wp_bind, Prog.wp_get]
  refine Prog.wp_ite (fun _ => ?_) fun _ => (Prog.wp_pure ()).mpr h
  exact Prog.wp_ite (fun _ => endBootHold_spec h) fun _ => bootHoldFallback_spec h hup env _

theorem settleBundle_spec (hcur : s.disk.current = some (some bundle))
    (hlive : bundle.structuralEtag.isSome ∨ s.loop.currentStructuralEtag.isSome) :
    (settleBundle env bundle etag).wp During (fun _ => Inv) s := by
  simp only [settleBundle, Prog.wp_bind, Prog.wp_get]
  refine Prog.wp_ite (fun _ => ?_) fun hsame => ?_
  · refine Prog.wp_ite (fun _ => bootHoldFallback_spec h hup env none) fun _ => ?_
    refine Prog.wp_seq ?_ _ (applyWithRevert_spec h hup env bundle etag hcur)
    rintro live t ⟨ht, htup, happ⟩
    refine Prog.wp_ite (fun htrue => ?_) fun _ => afterFailure_spec ht htup env etag
    refine Prog.wp_seq ?_ _ (ht.kept (quiet_setFingerprint bundle))
    rintro _ u ⟨hu, htu⟩
    apply confirm_spec hu (htu.up.trans htup)
    intro b hb
    obtain ⟨happlied, hsaved⟩ := happ htrue
    rw [htu.current, hsaved, Option.some.injEq, Option.some.injEq] at hb
    exact .inl (hb ▸ happlied.mono htu.log)
  · rw [ne_eq, not_not] at hsame
    apply confirm_spec h hup
    intro b hb
    rw [hcur, Option.some.injEq, Option.some.injEq] at hb
    subst hb
    rw [hsame, or_self] at hlive
    obtain ⟨live, hsome⟩ := Option.isSome_iff_exists.mp hlive
    exact .inr ⟨live, hsome, hsame.trans hsome⟩

theorem afterFetch_spec (resp : Response) (hsound : (Call.afterFetch env resp).Sound s) :
    (afterFetch env resp).wp During (fun _ => Inv) s := by
  have hclear : ∀ etag structural, (clearMoot etag structural).wp During
      (fun _ t => Inv t ∧ Quiet s t ∧
        t.loop.currentStructuralEtag = s.loop.currentStructuralEtag) s := by
    intro etag structural
    simp only [clearMoot, setQuarantine, Prog.wp_bind, Prog.wp_get]
    refine Prog.wp_ite (fun _ => ?_) fun _ => (Prog.wp_pure ()).mpr ⟨h, Quiet.refl s, rfl⟩
    rw [Prog.wp_modify]
    have hst : Quiet s { s with
        loop := { s.loop with quarantine := none }
        disk := { s.disk with quarantine := none } } :=
      ⟨⟨rfl, rfl, rfl, rfl, rfl, fun _ hmem => hmem⟩, rfl, rfl, rfl⟩
    exact ⟨(h.quiet hst).during, h.quiet hst, hst, rfl⟩
  cases resp with
  | unreachable => exact bootHoldFallback_spec h hup env none
  | refused => exact bootHoldFallback_spec h hup env none
  | notModified => exact (Prog.wp_pure ()).mpr h
  | ok bundle header =>
    refine Prog.wp_ite (fun _ => (Prog.wp_pure ()).mpr h) fun _ => ?_
    split
    · exact (Prog.wp_pure ()).mpr h
    next etag hetag =>
      obtain ⟨hlive, hheld⟩ := hsound bundle header etag rfl hetag
      rw [acceptBundle, Prog.wp_bind]
      refine Prog.wp_post ?_ _ (hclear etag bundle.structuralEtag)
      rintro _ t ⟨ht, hst, htlive⟩
      refine Prog.wp_seq ?_ _ (saveConfig_spec ht bundle etag ?_)
      · rintro _ u ⟨hu, hloop, huup, hcur, _⟩
        apply settleBundle_spec hu (huup.trans (hst.up.trans hup)) env bundle etag hcur
        rw [hloop, htlive]
        exact hlive
      · intro hold b hhold hname hb
        rw [hst.bootHold] at hhold
        rw [heldBundle_congr hst.held] at hb
        exact hheld hold b hhold hname hb

end

theorem beginBootHold_spec (hnone : s.loop.bootHold = none) (bundle : Bundle) (etag : Etag)
    (named : etag ≠ "") (deaths : Nat) (hcur : s.disk.current = some (some bundle)) :
    (beginBootHold bundle etag named deaths).wp During (fun _ => Inv) s := by
  have hfiles : ∀ file : BundleFile, Inv { s with disk := { s.disk with held := file } } :=
    fun file => h.rehold rfl rfl rfl rfl rfl rfl rfl (HoldsCurrent.of_none hnone)
  have hdone : ∀ (file : BundleFile) (held : HeldSource),
      heldBundle { s.disk with held := file } held = some bundle →
      Inv { s with
        disk := { s.disk with held := file }
        loop := { s.loop with
          bootHold := some ⟨held, etag, deaths, named⟩, applyStatus := .noPrevious } } := by
    intro file held hsource
    refine h.rehold rfl rfl rfl rfl rfl rfl rfl ?_
    intro hold raw b hhold _ _ hb
    rw [Option.some.injEq] at hhold
    rw [← hhold, hsource, Option.some.injEq] at hb
    exact hb ▸ hcur
  have hparsed : ∀ file : BundleFile, (setLoop fun l => { l with
        bootHold := some ⟨if false then .path else .parsed bundle, etag, deaths, named⟩
        applyStatus := .noPrevious }).wp During (fun _ => Inv)
      { s with disk := { s.disk with held := file } } := by
    intro file
    rw [setLoop, Prog.wp_modify]
    exact ⟨(hdone file (.parsed bundle) rfl).during, hdone file (.parsed bundle) rfl⟩
  rw [beginBootHold, holdBundle, Prog.wp_bind, Prog.wp_bind, Prog.wp_get]
  split
  · rw [Prog.wp_bind, setDisk, Prog.wp_modify]
    exact ⟨(hfiles none).during, (Prog.wp_pure _).mpr (hparsed none)⟩
  · refine Prog.wp_ite (fun _ => (Prog.wp_pure _).mpr (hparsed s.disk.held)) fun _ => ?_
    simp only [setDisk, Prog.wp_bind, Prog.wp_modify, Prog.wp_pure]
    refine ⟨(hfiles none).during, (hfiles s.disk.current).during, ?_⟩
    have hpath := hdone s.disk.current .path (by simp [heldBundle, hcur])
    have hsome : s.disk.current.isSome = true := by rw [hcur]; rfl
    rw [setLoop, Prog.wp_modify, hsome]
    exact ⟨hpath.during, hpath⟩

theorem bootstrap_spec (hup : s.up = true) (env : Env) (bundle : Bundle) (etag : Option Etag)
    (hcur : s.disk.current = some (some bundle)) :
    (bootstrap env bundle etag).wp During (fun _ => Inv) s := by
  have hcache : ∀ b raw, s.disk.current = some (some b) → s.disk.currentEtag = some raw →
      readEtag raw = etag.getD "" → b = bundle := by
    intro b raw hb _ _
    rw [hcur, Option.some.injEq, Option.some.injEq] at hb
    exact hb.symm
  have hcurrent : (bootstrapApply env bundle etag false true >>= fun _ => pure ()).wp During
      (fun _ => Inv) s := by
    refine Prog.wp_seq ?_ _
      (bootstrapApply_spec h hup env bundle etag false true fun _ => hcache)
    exact fun _ t ht => (Prog.wp_pure ()).mpr ht
  simp only [bootstrap]
  rw [Prog.wp_bind, Prog.wp_get]
  refine Prog.wp_ite (fun _ => ?_) fun _ => hcurrent
  split
  next prev prevEtag _ =>
    refine Prog.wp_seq ?_ _ (h.kept (quiet_setStatus .reverted))
    intro _ t ⟨ht, hst⟩
    refine Prog.wp_seq ?_ _
      (bootstrapApply_spec ht (hst.up.trans hup) env prev prevEtag true true nofun)
    exact fun _ u hu => (Prog.wp_pure ()).mpr hu
  · exact hcurrent

theorem holdAtStart_spec (hnone : s.loop.bootHold = none) (env : Env) (bundle : Bundle)
    (etag : Etag) (named : etag ≠ "") (hcur : s.disk.current = some (some bundle)) :
    (holdAtStart env bundle etag named).wp During (fun _ => Inv) s := by
  have hdeath : Prog.Within Quiet (recordDeath env etag) := by
    apply Prog.within_get
    intro t
    split
    · exact quiet_recordFailure env _ _
    · exact quiet_pure _
  rw [holdAtStart, Prog.wp_bind]
  refine Prog.wp_post ?_ _ (h.kept hdeath)
  intro _ t ⟨ht, hst⟩
  exact beginBootHold_spec ht (hst.bootHold.trans hnone) bundle etag named _
    (hst.current.trans hcur)

theorem startFrom_spec (hup : s.up = true) (hnone : s.loop.bootHold = none) (env : Env) :
    (startFrom env (loadConfig s.disk)).wp During (fun _ => Inv) s := by
  unfold loadConfig
  split
  next bundle hcur =>
    simp only [startFrom]
    split
    next etag _ =>
      exact Prog.wp_ite (fun _ => holdAtStart_spec h hnone env bundle etag _ hcur)
        fun _ => bootstrap_spec h hup env bundle _ hcur
    · exact bootstrap_spec h hup env bundle _ hcur
  · exact (Prog.wp_pure ()).mpr h

theorem startup_spec (env : Env) (hpaired : s.Paired) :
    (startup env).wp During (fun _ => Inv) s := by
  have hbegin : Inv (s.begun env) :=
    ⟨h.whole, h.good.mono rfl rfl fun _ hmem => hmem, h.between, fun _ => hpaired,
      fun _ => HoldsCurrent.of_none rfl⟩
  rw [startup, Prog.wp_bind, Prog.wp_modify]
  refine ⟨hbegin.during, ?_⟩
  rw [Prog.wp_bind, Prog.wp_get, Prog.wp_bind]
  have hend : ∀ t : State, Inv t → (Prog.modify fun u : State => { u with starting := none }).wp
      During (fun _ => Inv) t := by
    intro t ht
    have hquiet : Quiet t { t with starting := none } :=
      ⟨⟨rfl, rfl, rfl, rfl, rfl, fun _ hmem => hmem⟩, rfl, rfl, rfl⟩
    exact (Prog.wp_modify _ _).mpr ⟨(ht.quiet hquiet).during, ht.quiet hquiet⟩
  refine Prog.wp_post (fun _ t ht => hend t ht) _ ?_
  exact startFrom_spec hbegin rfl rfl env

theorem call_spec (c : Call) (hready : soundRuns.ready s c) :
    c.prog.wp During (fun _ => Inv) s := by
  obtain ⟨henabled, hsound⟩ := hready
  cases c with
  | startup env => exact startup_spec h env hsound
  | beforeFetch env settled waited => exact beforeFetch_spec h henabled env settled waited
  | afterFetch env resp => exact afterFetch_spec h henabled env resp hsound

end

end Calls

theorem inv_fresh : Inv {} where
  whole := nofun
  good := ⟨nofun, nofun⟩
  between := rfl
  paired hup := by cases hup
  holds hup := by cases hup

/-- At every moment of such a run, but between the renames over another bundle's etag,
the last-known-good file is what it says. -/
theorem lastKnownGood_of_moment {t : State} (h : soundRuns.Moment {} t) (hend : ¬t.Torn) :
    t.LastKnownGood := by
  have hinv := h.invariant inv_fresh (fun s c hs hready => call_spec hs c hready)
    fun t ht hkill => Inv.crash ht hkill
  rcases hinv with hrest | hduring
  · exact hrest.good
  · exact hduring.good hend

/-- A driver that takes every bundle, and a daemon that never died. -/
def takesAll : Env where
  outcome _ := ⟨none, false, false⟩
  clock _ := 0
  deaths _ := 0
  observed _ := 0
  died := none

def bundleOne : Bundle := ⟨some "e1", some "s1", false, ""⟩

def bundleTwo : Bundle := ⟨some "e2", some "s2", false, ""⟩

def started : State := ((Call.startup takesAll).prog.run {}).2

def tookOne : State := ((Call.afterFetch takesAll (.ok bundleOne none)).prog.run started).2

/-- It is killed between the renames that commit its second bundle. -/
def killedCommitting : State :=
  (((Call.afterFetch takesAll (.ok bundleTwo none)).prog.states tookOne).getD 9 {}).crash

theorem lastKnownGood_tookOne : tookOne.LastKnownGood ∧ tookOne.disk.previous.isSome := by
  have hstart : soundRuns.Reach {} started :=
    Killable.Reach.done (M := soundRuns) (Call.startup takesAll) .init ⟨trivial, nofun⟩
  have hready : soundRuns.ready started (.afterFetch takesAll (.ok bundleOne none)) := by
    refine ⟨by change started.up = true; decide +kernel, ?_⟩
    intro bundle header etag hresp _
    obtain ⟨rfl, rfl⟩ : bundleOne = bundle ∧ none = header := by simpa using hresp
    refine ⟨.inl rfl, ?_⟩
    intro hold b hhold
    exact absurd hhold (by rw [show started.loop.bootHold = none by decide +kernel]; simp)
  refine ⟨lastKnownGood_of_moment (.rest (.done _ hstart hready)) ?_, by decide +kernel⟩
  intro htorn
  exact absurd htorn.1 (by decide +kernel)

/-- Killed there, the agent keeps the new bundle beside the old one's etag. -/
theorem not_lastKnownGood_killedCommitting :
    ¬∀ t : State, configRuns.Moment {} t → t.LastKnownGood := by
  intro h
  have hstart : configRuns.Reach {} started :=
    Killable.Reach.done (M := configRuns) (Call.startup takesAll) .init trivial
  have hone : configRuns.Reach {} tookOne :=
    Killable.Reach.done (M := configRuns) (Call.afterFetch takesAll (.ok bundleOne none)) hstart
      (by change started.up = true; decide +kernel)
  have hkill : configRuns.Reach {} killedCommitting := by
    refine Killable.Reach.cut (M := configRuns) (Call.afterFetch takesAll (.ok bundleTwo none))
      hone (by change tookOne.up = true; decide +kernel) ?_ trivial
    have hlen : 9 < ((Call.afterFetch takesAll (.ok bundleTwo none)).prog.states tookOne).length :=
      by decide +kernel
    rw [List.getD_eq_getElem _ _ hlen]
    exact List.getElem_mem hlen
  obtain ⟨e, hmem, he⟩ := (h _ (.rest hkill)).named bundleTwo "e1" (by decide +kernel)
    (by decide +kernel)
  have hfetches : (killedCommitting.log.all fun
      | .fetched b e => b != bundleTwo || e == "e2"
      | _ => true) = true := by
    decide +kernel
  have htwo := List.all_eq_true.mp hfetches _ hmem
  simp only [bne_self_eq_false, Bool.false_or, beq_iff_eq] at htwo
  rw [htwo] at he
  exact absurd he (by decide +kernel)

end SpatiumDdi.Agent
