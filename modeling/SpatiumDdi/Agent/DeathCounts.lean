import SpatiumDdi.Agent.ApplyGuard

/-!
The death counts are exact: a bundle has as many as startups found it armed and were
not cut short, since it last settled. What an operation does to the record is said
once, for a return and for an end of the process alike, and every count follows
from it.
-/

namespace SpatiumDdi.Agent.ApplyGuard

theorem of_set (counts : Counts) (etag : Etag) (n : Nat) (e : Etag) :
    of (counts.set etag n) e = if e = etag then n else of counts e := by
  rw [of, Dict.get?_set]
  split <;> rfl

theorem of_erase (counts : Counts) (etag e : Etag) :
    of (counts.erase etag) e = if e = etag then 0 else of counts e := by
  rw [of, Dict.get?_erase]
  split <;> rfl

theorem of_keep_le (p : Etag → Nat → Bool) (counts : Counts) (e : Etag) :
    of (counts.keep p) e ≤ of counts e := by
  rw [of, of, Dict.get?_keep]
  cases counts.get? e with
  | none => exact Nat.le_refl _
  | some n =>
    rw [Option.filter_some]
    split
    · exact Nat.le_refl _
    · exact Nat.zero_le _

def Positive (counts : Counts) : Prop := ∀ item ∈ counts.items, 0 < item.2

variable {counts : Counts} {died etag : Etag}

section

variable (h : Positive counts)
include h

theorem Positive.keep (p : Etag → Nat → Bool) : Positive (counts.keep p) :=
  fun item hitem => h item (List.mem_of_mem_filter hitem)

theorem Positive.set (etag : Etag) (n : Nat) : Positive (counts.set etag (n + 1)) := by
  rintro ⟨e, m⟩ hmem
  rw [Dict.set, Dict.mem_setItems counts.nodup] at hmem
  split at hmem
  · subst hmem
    exact Nat.succ_pos n
  · exact h (e, m) hmem

theorem Positive.evict (died : Etag) (n : Nat) : Positive (evict died n counts) := by
  induction n generalizing counts with
  | zero => exact h
  | succ n ih =>
    rw [ApplyGuard.evict]
    split
    · split
      · exact h
      · exact ih (h.keep _)
    · exact h

theorem Positive.of_pos {e : Etag} (he : e ∈ counts.keys) : 0 < of counts e := by
  obtain ⟨n, hn⟩ := Dict.mem_keys.mp he
  rw [of, hn]
  exact h (e, n) (Dict.get?_eq_some.mp hn)

theorem Positive.keep_self : (counts.keep fun _ n => 0 < n) = counts := by
  have hitems : counts.items.filter (fun item => 0 < item.2) = counts.items := by
    rw [List.filter_eq_self]
    intro item hitem
    exact decide_eq_true (h item hitem)
  cases counts
  simp only [Dict.keep, Dict.mk.injEq]
  exact hitems

end

theorem evict_self {n : Nat} (h : counts.items.length ≤ maxTracked) :
    evict died n counts = counts := by
  cases n with
  | zero => rfl
  | succ n => rw [evict, if_neg (Nat.not_lt.mpr h)]

structure Record.Sound (r : Record) : Prop where
  armed : r.armed ≠ some ""
  deaths : Positive r.deaths
  observed : Positive r.observed

theorem named_ne (etag : Option Etag) : named etag ≠ some "" := by
  intro h
  have hne := (Option.filter_eq_some_iff.mp h).2
  simp at hne

theorem named_eq {etag : Option Etag} (h : etag ≠ some "") : named etag = etag := by
  cases etag with
  | none => rfl
  | some e => exact Option.filter_some_pos (by simpa using h)

theorem sound_load (disk : Option Marker) : (load disk).Sound := by
  cases disk with
  | none => exact ⟨by simp [load], by simp [load, Positive, Dict.empty],
      by simp [load, Positive, Dict.empty]⟩
  | some data =>
    refine ⟨named_ne _, ?_, ?_⟩ <;>
    · intro item hitem
      simpa using (List.mem_filter.mp hitem).2

theorem dict_eq_empty (h : counts.items = []) : counts = .empty := by
  cases counts
  cases h
  rfl

theorem load_save {m : Memory} (h : m.Sound) : (load m.save).toRecord = m.toRecord := by
  obtain ⟨harmed, hdeaths, hobserved⟩ := h
  rw [Memory.save]
  split
  next hempty =>
    obtain ⟨hnone, hd, ho, -⟩ := hempty
    rw [named_eq harmed] at hnone
    have hrecord : m.toRecord = ⟨m.armed, m.deaths, m.observed⟩ := rfl
    rw [hrecord, hnone, dict_eq_empty hd, dict_eq_empty ho]
    rfl
  · simp only [load, named_eq harmed, hdeaths.keep_self, hobserved.keep_self]

/-- At rest, the file holds what the memory does. -/
def State.Kept (s : State) : Prop := s.mem.Sound ∧ (load s.disk).toRecord = s.mem.toRecord

theorem kept_restart (s : State) : s.restart.Kept := ⟨sound_load s.disk, rfl⟩

/-- The record and the history after an operation, which may have been cut short. -/
inductive Outcome (r : Record) (log : List Event) : Op → Record → List Event → Prop
  | same (op : Op) : Outcome r log op r log
  | arm {etag : Etag} {raw : Option Etag} {count : Option Int} (h : named raw = some etag) :
      Outcome r log (.arm raw count) { r with armed := some etag } log
  | disarm : Outcome r log .disarm { r with armed := none } log
  | found {died : Etag} {nowCount limit : Option Int} {now : Time} (h : r.armed = some died) :
      Outcome r log (.startup nowCount limit now) r (.found died :: log)
  | counted {died : Etag} {nowCount limit : Option Int} {now : Time} (h : r.armed = some died) :
      Outcome r log (.startup nowCount limit now) (r.count died)
        (.counted died :: .found died :: log)
  | unwatched {etag : Etag} {oomKilled : Bool} {limit : Option Int} (h : r.armed = some etag) :
      Outcome r log (.daemonDied oomKilled limit) r (.watched etag :: log)
  | watched {etag : Etag} {oomKilled : Bool} {limit : Option Int} (h : r.armed = some etag) :
      Outcome r log (.daemonDied oomKilled limit) (r.watch etag) (.watched etag :: log)
  | settled {etag : Etag} (h : r.armed = some etag) :
      Outcome r log .settled (r.settle etag) (.settled etag :: log)

variable {r' r : Record} {log log' : List Event} {op : Op}

theorem Outcome.sound (hr : r.Sound) (h : Outcome r log op r' log') : r'.Sound := by
  cases h with
  | same | found | unwatched => exact hr
  | arm h => exact ⟨h ▸ named_ne _, hr.deaths, hr.observed⟩
  | disarm => exact ⟨by simp, hr.deaths, hr.observed⟩
  | counted => exact ⟨by simp [Record.count], (hr.deaths.set _ _).evict _ _, hr.observed.keep _⟩
  | watched => exact ⟨hr.armed, hr.deaths, hr.observed.set _ _⟩
  | settled => exact ⟨by simp [Record.settle], hr.deaths.keep _, hr.observed.keep _⟩

/-- A moment of an operation: what the file says, what the memory holds, and what
happened so far. -/
structure Stage (file mem : Record) (log : List Event) (s : State) : Prop where
  file : (load s.disk).toRecord = file
  mem : s.mem.toRecord = mem
  log : s.log = log

namespace Stage

variable {file mem mem' : Record} {log : List Event} {s : State}

theorem of_kept (h : s.Kept) : Stage s.mem.toRecord s.mem.toRecord s.log s := ⟨h.2, rfl, rfl⟩

section

variable (h : Stage file mem log s)
include h

theorem assign {f : Memory → Memory} (hf : (f s.mem).toRecord = mem') :
    Stage file mem' log (s.assign f) :=
  ⟨h.file, hf, h.log⟩

theorem note (event : Event) : Stage file mem (event :: log) (s.note event) :=
  ⟨h.file, h.mem, congrArg _ h.log⟩

theorem saved (hmem : mem.Sound) : Stage mem mem log s.saved := by
  refine ⟨?_, h.mem, h.log⟩
  have hload := load_save (m := s.mem) (h.mem.symm ▸ hmem)
  exact hload.trans h.mem

end

theorem kept (h : Stage mem mem log s) (hmem : mem.Sound) : s.Kept :=
  ⟨h.mem.symm ▸ hmem, h.file.trans h.mem.symm⟩

end Stage

def Meets (s : State) (op : Op) : Prop :=
  op.prog.wp (fun t => Outcome s.mem.toRecord s.log op (load t.disk).toRecord t.log)
    (fun _ t => Outcome s.mem.toRecord s.log op t.mem.toRecord t.log ∧ t.Kept) s

section

variable {r file mem : Record} {log log' : List Event} {op : Op} {t : State}

theorem Stage.cut (h : Stage file mem log' t) (ho : Outcome r log op file log') :
    Outcome r log op (load t.disk).toRecord t.log := by
  rw [h.file, h.log]
  exact ho

theorem Stage.rest (h : Stage mem mem log' t) (hr : r.Sound) (ho : Outcome r log op mem log') :
    Outcome r log op t.mem.toRecord t.log ∧ t.Kept := by
  refine ⟨?_, h.kept (ho.sound hr)⟩
  rw [h.mem, h.log]
  exact ho

end

variable (m : Memory) {steps : List Step}

theorem readOom_record (nowCount limit : Option Int) :
    (m.readOom nowCount limit).toRecord = m.toRecord := by
  simp only [Memory.readOom]
  split <;> split <;> rfl

section

variable {s : State} (hs : s.Kept)

theorem saveOomCount_stage {r : Record} {log : List Event} {t : State} (hr : r.Sound)
    (h : Stage r r log t) (before : Memory) (nowCount : Option Int) :
    (saveOomCount before nowCount).wp (Stage r r log) (fun _ => Stage r r log) t := by
  rw [saveOomCount]
  apply Prog.wp_ite
  · intro _
    simp only [ApplyGuard.assign, Prog.wp_bind, Prog.wp_modify]
    have hassign := h.assign (f := fun m => { m with oomCount := nowCount.or m.oomCount }) h.mem
    exact ⟨hassign, hassign.saved hr, hassign.saved hr⟩
  · intro _
    exact (Prog.wp_pure _).mpr h

include hs

theorem meets_startup (nowCount limit : Option Int) (now : Time) :
    Meets s (.startup nowCount limit now) := by
  have hr := hs.1
  have hrest := Stage.of_kept hs
  have hread : ∀ {log t}, Stage s.mem.toRecord s.mem.toRecord log t →
      Stage s.mem.toRecord s.mem.toRecord log (t.assign fun m => m.readOom nowCount limit) :=
    fun h => h.assign ((readOom_record _ _ _).trans h.mem)
  cases harmed : s.mem.armed with
  | none =>
    have hsame : Outcome s.mem.toRecord s.log (.startup nowCount limit now) _ _ := .same _
    simp only [Meets, Op.prog, startup, harmed, assign, Prog.wp_bind, Prog.wp_get, Prog.wp_modify]
    refine ⟨(hread hrest).cut hsame, ?_⟩
    apply Prog.wp_mono _ _ _ (saveOomCount_stage hr (hread hrest) s.mem nowCount)
    · intro t ht
      exact ht.cut hsame
    · intro _ t ht
      simp only [Prog.wp_pure]
      exact ht.rest hr hsame
  | some died =>
    have hfound : Outcome s.mem.toRecord s.log (.startup nowCount limit now) _ _ := .found harmed
    have hcounted : Outcome s.mem.toRecord s.log (.startup nowCount limit now) _ _ :=
      .counted harmed
    have hnoted := hrest.note (.found died)
    simp only [Meets, Op.prog, startup, harmed, assign, Prog.wp_bind, Prog.wp_get, Prog.wp_modify]
    refine ⟨hnoted.cut hfound, (hread hnoted).cut hfound, ?_⟩
    apply Prog.wp_mono _ _ _ (saveOomCount_stage hr (hread hnoted) s.mem nowCount)
    · intro t ht
      exact ht.cut hfound
    · intro _ t ht
      have hcount := ht.assign
        (f := fun m => { m with toRecord := m.toRecord.count died, lastDeathAt := some now })
        (congrArg (Record.count · died) ht.mem)
      have hsaved := (hcount.saved (hcounted.sound hr)).note (.counted died)
      simp only [Prog.wp_bind, Prog.wp_modify, Prog.wp_pure]
      exact ⟨hcount.cut hfound, hsaved.cut hcounted, hsaved.rest hr hcounted⟩

theorem meets_arm (raw : Option Etag) (count : Option Int) : Meets s (.arm raw count) := by
  have hr := hs.1
  have hrest := Stage.of_kept hs
  have hsame : Outcome s.mem.toRecord s.log (.arm raw count) _ _ := .same _
  rw [Meets, Op.prog, ApplyGuard.arm]
  split
  · exact (Prog.wp_pure _).mpr (hrest.rest hr hsame)
  next etag hnamed =>
    have harm : Outcome s.mem.toRecord s.log (.arm raw count) _ _ := .arm hnamed
    simp only [ApplyGuard.assign, Prog.wp_bind, Prog.wp_modify]
    have hassign := hrest.assign (f := fun m =>
      { m with armed := some etag, appliedAt := none, oomCount := count.or m.oomCount }) rfl
    have hsaved := hassign.saved (harm.sound hr)
    exact ⟨hassign.cut hsame, hsaved.cut harm, hsaved.rest hr harm⟩

theorem meets_applied (now : Time) : Meets s (.applied now) := by
  have hrest := Stage.of_kept hs
  have hsame : Outcome s.mem.toRecord s.log (.applied now) _ _ := .same _
  have hassign : Stage s.mem.toRecord s.mem.toRecord s.log _ := hrest.assign
    (f := fun m => if m.armed = none then m else { m with appliedAt := some now }) (by split <;> rfl)
  simp only [Meets, Op.prog, ApplyGuard.applied, ApplyGuard.assign, Prog.wp_modify]
  exact ⟨hassign.cut hsame, hassign.rest hs.1 hsame⟩

theorem meets_daemonDied (oomKilled : Bool) (limit : Option Int) :
    Meets s (.daemonDied oomKilled limit) := by
  have hr := hs.1
  have hrest := Stage.of_kept hs
  cases harmed : s.mem.armed with
  | none =>
    have hsame : Outcome s.mem.toRecord s.log (.daemonDied oomKilled limit) _ _ := .same _
    simp only [Meets, Op.prog, ApplyGuard.daemonDied, harmed, Prog.wp_bind, Prog.wp_get,
      Prog.wp_pure]
    exact hrest.rest hr hsame
  | some etag =>
    have hunwatched : Outcome s.mem.toRecord s.log (.daemonDied oomKilled limit) _ _ :=
      .unwatched harmed
    have hwatched : Outcome s.mem.toRecord s.log (.daemonDied oomKilled limit) _ _ :=
      .watched harmed
    simp only [Meets, Op.prog, ApplyGuard.daemonDied, harmed, assign, Prog.wp_bind, Prog.wp_get,
      Prog.wp_pure, Prog.wp_modify]
    have hnoted := hrest.note (.watched etag)
    have hassign : Stage s.mem.toRecord (s.mem.toRecord.watch etag) (.watched etag :: s.log) _ :=
      hnoted.assign (f := fun m => if oomKilled then
        { m with toRecord := m.toRecord.watch etag, oomEtag := some etag, oomEtagLimit := limit }
      else
        { m with toRecord := m.toRecord.watch etag }) (by split <;> rfl)
    have hsaved := hassign.saved (hwatched.sound hr)
    exact ⟨hnoted.cut hunwatched, hassign.cut hunwatched, hsaved.cut hwatched,
      hsaved.rest hr hwatched⟩

theorem meets_disarm : Meets s .disarm := by
  have hr := hs.1
  have hrest := Stage.of_kept hs
  have hsame : Outcome s.mem.toRecord s.log .disarm _ _ := .same _
  cases harmed : s.mem.armed with
  | none =>
    simp only [Meets, Op.prog, ApplyGuard.disarm, harmed, Prog.wp_bind, Prog.wp_get, Prog.wp_pure]
    exact hrest.rest hr hsame
  | some etag =>
    have hdisarm : Outcome s.mem.toRecord s.log .disarm _ _ := .disarm
    simp only [Meets, Op.prog, ApplyGuard.disarm, harmed, assign, Prog.wp_bind, Prog.wp_get,
      Prog.wp_modify]
    have hassign := hrest.assign
      (f := fun m => { m with armed := none, appliedAt := none }) rfl
    have hsaved := hassign.saved (hdisarm.sound hr)
    exact ⟨hassign.cut hsame, hsaved.cut hdisarm, hsaved.rest hr hdisarm⟩

theorem meets_settled : Meets s .settled := by
  have hr := hs.1
  have hrest := Stage.of_kept hs
  have hsame : Outcome s.mem.toRecord s.log .settled _ _ := .same _
  cases harmed : s.mem.armed with
  | none =>
    simp only [Meets, Op.prog, ApplyGuard.settled, harmed, Prog.wp_bind, Prog.wp_get, Prog.wp_pure]
    exact hrest.rest hr hsame
  | some etag =>
    have hsettled : Outcome s.mem.toRecord s.log .settled _ _ := .settled harmed
    simp only [Meets, Op.prog, ApplyGuard.settled, harmed, assign, Prog.wp_bind, Prog.wp_get,
      Prog.wp_pure, Prog.wp_modify]
    have hassign : Stage s.mem.toRecord (s.mem.toRecord.settle etag) s.log _ := hrest.assign
      (f := fun m => { m with toRecord := m.toRecord.settle etag, appliedAt := none }) rfl
    have hsaved := (hassign.saved (hsettled.sound hr)).note (.settled etag)
    exact ⟨hassign.cut hsame, hsaved.cut hsettled, hsaved.rest hr hsettled⟩

theorem meets (op : Op) : Meets s op := by
  cases op with
  | startup nowCount limit now => exact meets_startup hs nowCount limit now
  | arm raw count => exact meets_arm hs raw count
  | applied now => exact meets_applied hs now
  | daemonDied oomKilled limit => exact meets_daemonDied hs oomKilled limit
  | disarm => exact meets_disarm hs
  | settled => exact meets_settled hs

theorem after_outcome (step : Step) :
    Outcome s.mem.toRecord s.log step.op (s.after step).mem.toRecord (s.after step).log ∧
      (s.after step).Kept := by
  obtain ⟨hduring, hpost⟩ := (Prog.wp_iff _).mp (meets hs step.op)
  cases step with
  | returned op => exact hpost
  | ended op actions =>
    refine ⟨?_, kept_restart _⟩
    simp only [State.after, State.restart]
    cases hlast : ((op.prog.states s).take actions).getLast? with
    | none =>
      rw [Option.getD_none, hs.2]
      exact Outcome.same op
    | some t =>
      exact hduring t (List.mem_of_mem_take (List.mem_of_getLast? hlast))

end

theorem run_concat (s : State) (steps : List Step) (step : Step) :
    s.run (steps ++ [step]) = (s.run steps).after step := by
  simp [State.run]

theorem kept_run {s : State} (hs : s.Kept) (steps : List Step) : (s.run steps).Kept := by
  induction steps using List.reverseRecOn with
  | nil => exact hs
  | append_singleton steps step ih =>
    rw [run_concat]
    exact (after_outcome ih step).2

theorem kept_fresh : ({} : State).Kept := ⟨sound_load none, rfl⟩

theorem tally_cons (event : Etag → Event) (e : Etag) (ev : Event) (log : List Event) :
    tally event e (ev :: log) =
      if ev = .settled e then 0
      else if ev = event e then tally event e log + 1 else tally event e log := by
  by_cases hsettled : ev = .settled e
  · simp [tally, hsettled]
  · simp only [tally, hsettled, List.takeWhile_cons, ne_eq, not_false_eq_true, decide_true,
      if_true, if_false]
    by_cases hev : ev = event e
    · simp [hev]
    · simp [hev]

/-- The deaths are the startups that found the bundle armed and counted it. -/
structure Exact (r : Record) (log : List Event) : Prop where
  deaths : ∀ e, of r.deaths e = tally .counted e log
  nameless : tally .counted "" log = 0

theorem count_deaths (hr : r.Sound) (h : Exact r log)
    (hfew : FewDeaths (.counted died :: .found died :: log)) (e : Etag) :
    of (r.count died).deaths e = if e = died then of r.deaths died + 1 else of r.deaths e := by
  have hpos := hr.deaths.set died (of r.deaths died)
  obtain ⟨etags, hlen, hetags⟩ := hfew
  have hkeys : ∀ k ∈ (r.deaths.set died (of r.deaths died + 1)).keys, k ∈ etags := by
    intro k hk
    apply hetags
    have hk := hpos.of_pos hk
    rw [of_set] at hk
    rw [tally_cons, tally_cons, ← h.deaths]
    by_cases hdied : k = died
    · simp [hdied]
    · simpa [hdied, Ne.symm hdied] using hk
  have hfits := Nat.le_trans (Dict.length_le_of_keys hkeys) hlen
  rw [Record.count, evict_self hfits, of_set]

theorem Outcome.exact (hr : r.Sound) (ho : Outcome r log op r' log') (hfew : FewDeaths log')
    (h : Exact r log) : Exact r' log' := by
  cases ho with
  | same | arm | disarm => exact ⟨h.deaths, h.nameless⟩
  | found harmed | unwatched harmed | watched harmed =>
    constructor
    · intro e
      rw [tally_cons, if_neg (by simp), if_neg (by simp)]
      exact h.deaths e
    · rw [tally_cons, if_neg (by simp), if_neg (by simp)]
      exact h.nameless
  | counted harmed =>
    rename_i died _ _ _
    have hdied : died ≠ "" := by
      rintro rfl
      exact hr.armed harmed
    constructor
    · intro e
      rw [count_deaths hr h hfew, tally_cons, tally_cons, h.deaths, h.deaths]
      by_cases he : e = died
      · simp [he]
      · simp [he, Ne.symm]
    · simpa [tally_cons, hdied] using h.nameless
  | settled harmed =>
    rename_i settled
    constructor
    · intro e
      rw [Record.settle, of_erase, tally_cons, h.deaths]
      by_cases he : e = settled
      · simp [he]
      · simp [he, Ne.symm]
    · rw [tally_cons, if_neg (by simp : Event.settled settled ≠ .counted ""), h.nameless]
      split <;> rfl

/-- What a bundle was seen to die is at most what `daemon_died` was called for. -/
def Seen (r : Record) (log : List Event) : Prop :=
  ∀ e, of r.observed e ≤ tally .watched e log

section

variable (ho : Outcome r log op r' log')
include ho

theorem Outcome.seen (h : Seen r log) : Seen r' log' := by
  intro e
  have he := h e
  cases ho with
  | same | arm | disarm => exact he
  | found =>
    rw [tally_cons, if_neg (by simp), if_neg (by simp)]
    exact he
  | counted =>
    rw [tally_cons, if_neg (by simp), if_neg (by simp), tally_cons, if_neg (by simp),
      if_neg (by simp)]
    exact Nat.le_trans (of_keep_le _ _ e) he
  | unwatched =>
    rw [tally_cons, if_neg (by simp)]
    split
    · exact Nat.le_succ_of_le he
    · exact he
  | watched =>
    rename_i etag _ _ _
    rw [Record.watch, of_set, tally_cons]
    by_cases hetag : e = etag
    · subst hetag
      simpa using he
    · simpa [hetag, Ne.symm hetag] using he
  | settled =>
    rename_i etag _
    rw [Record.settle, of_erase, tally_cons]
    by_cases hetag : e = etag
    · simp [hetag]
    · simpa [hetag, Ne.symm hetag] using he

theorem Outcome.observed_le (hop : ∀ oomKilled limit, op ≠ .daemonDied oomKilled limit) (e : Etag) :
    of r'.observed e ≤ of r.observed e := by
  cases ho with
  | same | arm | disarm | found | unwatched => exact Nat.le_refl _
  | counted => exact of_keep_le _ _ e
  | watched => exact absurd rfl (hop _ _)
  | settled => exact of_keep_le _ _ e

theorem Outcome.unarmed (hop : ∀ raw count, op ≠ .arm raw count) (hr : r.armed = none) :
    r' = r ∧ log' = log := by
  cases ho with
  | same => exact ⟨rfl, rfl⟩
  | arm => exact absurd rfl (hop _ _)
  | disarm => exact ⟨by rw [← hr], rfl⟩
  | found h | counted h | unwatched h | watched h | settled h =>
    rw [hr] at h
    cases h

theorem Outcome.log_suffix : log <:+ log' := by
  cases ho with
  | same | arm | disarm => exact List.suffix_rfl
  | found | unwatched | watched | settled => exact List.suffix_cons _ _
  | counted => exact (List.suffix_cons _ _).trans (List.suffix_cons _ _)

end

theorem exact_run (hfew : FewAlong steps) :
    Exact (State.run {} steps).mem.toRecord (State.run {} steps).log := by
  induction steps using List.reverseRecOn with
  | nil => exact ⟨fun _ => rfl, rfl⟩
  | append_singleton steps step ih =>
    have hkept := kept_run kept_fresh steps
    have hbefore : FewAlong steps := fun before hpre =>
      hfew before (hpre.trans (List.prefix_append _ _))
    have hnow := hfew (steps ++ [step]) List.prefix_rfl
    rw [run_concat] at hnow ⊢
    exact (after_outcome hkept step).1.exact hkept.1 hnow (ih hbefore)

theorem seen_run (steps : List Step) :
    Seen (State.run {} steps).mem.toRecord (State.run {} steps).log := by
  induction steps using List.reverseRecOn with
  | nil => exact fun _ => Nat.le_refl _
  | append_singleton steps step ih =>
    rw [run_concat]
    exact (after_outcome (kept_run kept_fresh steps) step).1.seen ih

theorem unarmed_run {s : State} (hs : s.Kept) (harmed : s.mem.armed = none)
    (hop : ∀ step ∈ steps, ∀ raw count, step.op ≠ .arm raw count) :
    (s.run steps).mem.toRecord = s.mem.toRecord := by
  induction steps using List.reverseRecOn with
  | nil => rfl
  | append_singleton steps step ih =>
    have hbefore := ih fun step' hmem => hop step' (List.mem_append_left _ hmem)
    have hnone : (s.run steps).mem.armed = none := by
      rw [hbefore]
      exact harmed
    have hstep := (after_outcome (kept_run hs steps) step).1
    rw [run_concat, (hstep.unarmed (hop step (by simp)) hnone).1, hbefore]

theorem log_suffix_run (before after : List Step) :
    (State.run {} before).log <:+ (State.run {} (before ++ after)).log := by
  induction after using List.reverseRecOn with
  | nil => simp
  | append_singleton after step ih =>
    rw [← List.append_assoc, run_concat]
    exact ih.trans (after_outcome (kept_run kept_fresh _) step).1.log_suffix

theorem few_along (etags : List Etag) (hlen : etags.length ≤ maxTracked)
    (h : ∀ e, .counted e ∈ (State.run {} steps).log → e ∈ etags) : FewAlong steps := by
  rintro before ⟨after, rfl⟩
  refine ⟨etags, hlen, fun e he => h e ?_⟩
  have hmem := (List.takeWhile_sublist _).subset (List.count_pos_iff.mp he)
  exact (log_suffix_run before after).subset hmem

theorem deathsFor_some (h : etag ≠ "") : deathsFor m (some etag) = of m.deaths etag := by
  rw [deathsFor, named_eq (by simpa using h)]

theorem deathsFor_nameless : deathsFor m (some "") = 0 := rfl

theorem observedFor_some (h : etag ≠ "") : observedFor m (some etag) = of m.observed etag := by
  rw [observedFor, named_eq (by simpa using h)]

theorem deathsFor_congr {m m' : Memory} (h : m.toRecord = m'.toRecord) (etag : Option Etag) :
    deathsFor m etag = deathsFor m' etag := by
  simp only [deathsFor, h]

theorem condemned_some (etag : Etag) :
    condemned m (some etag) = true ↔ etag ≠ "" ∧ quarantineAfterDeaths ≤ of m.observed etag := by
  rw [condemned, decide_eq_true_iff]
  by_cases h : etag = ""
  · subst h
    have hzero : observedFor m (some "") = 0 := rfl
    simp [hzero, quarantineAfterDeaths]
  · rw [observedFor_some m h]
    simp [h]

theorem disarmed_after (s : State) :
    (s.after (.returned .disarm)).mem.armed = none ∧
      (s.after (.returned .disarm)).mem.deaths = s.mem.deaths := by
  have hwp : Op.disarm.prog.wp (fun _ => True)
      (fun _ t => t.mem.armed = none ∧ t.mem.deaths = s.mem.deaths) s := by
    cases harmed : s.mem.armed with
    | none =>
      simp only [Op.prog, disarm, harmed, Prog.wp_bind, Prog.wp_get, Prog.wp_pure]
      exact ⟨trivial, trivial⟩
    | some etag =>
      simp only [Op.prog, disarm, harmed, assign, Prog.wp_bind, Prog.wp_get, Prog.wp_modify]
      exact ⟨trivial, trivial, rfl, rfl⟩
  exact ((Prog.wp_iff _).mp hwp).2

/-- The counts of a run: exact while few bundles have a recorded death. -/
theorem deathsFor_exact (steps : List Step) :
    let s := State.run {} steps
    (FewAlong steps → ∀ etag, deathsFor s.mem (some etag) = tally .counted etag s.log) ∧
    (∀ etag, condemned s.mem (some etag) = true → 2 ≤ tally .watched etag s.log) ∧
    (∀ step etag, (∀ oomKilled limit, step.op ≠ .daemonDied oomKilled limit) →
      condemned (s.after step).mem (some etag) = true → condemned s.mem (some etag) = true) ∧
    ∀ later etag, (∀ step ∈ later, ∀ raw count, Step.op step ≠ .arm raw count) →
      deathsFor ((s.after (.returned .disarm)).run later).mem etag = deathsFor s.mem etag := by
  intro s
  have hkept : s.Kept := kept_run kept_fresh steps
  refine ⟨?_, ?_, ?_, ?_⟩
  · intro hfew etag
    have hexact := exact_run hfew
    by_cases hetag : etag = ""
    · rw [hetag, deathsFor_nameless, hexact.nameless]
    · rw [deathsFor_some _ hetag]
      exact hexact.deaths etag
  · intro etag hcond
    exact Nat.le_trans ((condemned_some _ _).mp hcond).2 (seen_run steps etag)
  · intro step etag hop hcond
    obtain ⟨hne, hle⟩ := (condemned_some _ _).mp hcond
    have hobserved := (after_outcome hkept step).1.observed_le hop etag
    exact (condemned_some _ _).mpr ⟨hne, Nat.le_trans hle hobserved⟩
  · intro later etag hop
    obtain ⟨harmed, hdeaths⟩ := disarmed_after s
    have hafter := (after_outcome hkept (.returned .disarm)).2
    rw [deathsFor_congr (unarmed_run hafter harmed hop)]
    simp only [deathsFor, hdeaths]

/-- Two deaths that the agent saw. -/
def watchedTwice : List Step :=
  [.returned (.arm (some "a") (some 0)), .returned (.daemonDied true none), .ended .settled 0,
    .returned (.startup none none 0), .returned (.arm (some "a") (some 0)),
    .returned (.daemonDied false none), .ended .settled 0, .returned (.startup none none 1)]

theorem deathsFor_exact_watchedTwice :
    deathsFor (State.run {} watchedTwice).mem (some "a") =
        tally .counted "a" (State.run {} watchedTwice).log ∧
      2 ≤ tally .watched "a" (State.run {} watchedTwice).log ∧
      condemned (State.run {} watchedTwice).mem (some "a") = true ∧
      deathsFor (((State.run {} watchedTwice).after (.returned .disarm)).run
          [.ended .settled 0, .returned (.startup none none 2)]).mem (some "a") =
        deathsFor (State.run {} watchedTwice).mem (some "a") := by
  obtain ⟨hexact, hwatched, hnever, hdisarm⟩ := deathsFor_exact watchedTwice
  have hlog : (State.run {} watchedTwice).log =
      [.counted "a", .found "a", .watched "a", .counted "a", .found "a", .watched "a"] := by
    decide +kernel
  have hfew : FewAlong watchedTwice := by
    apply few_along ["a"] (by decide)
    intro e he
    simpa [hlog] using he
  have hcondemned : condemned ((State.run {} watchedTwice).after (.ended .settled 0)).mem
      (some "a") = true := by
    decide +kernel
  have hbefore := hnever (.ended .settled 0) "a" (by simp [Step.op]) hcondemned
  exact ⟨hexact hfew "a", hwatched "a" hbefore, hbefore,
    hdisarm _ (some "a") (by simp [Step.op])⟩

/-- A startup that finds the bundle armed, cut between its two saves. -/
def cutStartup : List Step :=
  [.returned (.arm (some "a") (some 0)), .ended .settled 0, .ended (.startup (some 1) none 0) 4,
    .returned (.startup (some 1) none 1)]

theorem deathsFor_cutStartup :
    FewAlong cutStartup ∧ deathsFor (State.run {} cutStartup).mem (some "a") = 1 ∧
      tally .found "a" (State.run {} cutStartup).log = 2 := by
  refine ⟨few_along ["a"] (by decide) ?_, ?_, ?_⟩
  · have hlog : (State.run {} cutStartup).log = [.counted "a", .found "a", .found "a"] := by
      decide +kernel
    intro e he
    simpa [hlog] using he
  · decide +kernel
  · decide +kernel

end SpatiumDdi.Agent.ApplyGuard
