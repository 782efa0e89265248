import SpatiumDdi.Upgrade.MutexRules

/-!
At most one upgrade drive acts. Where no operator takes the Lease from a drive that is
acting, the Lease names whoever is, and so no two drives can start nodes at once. A
drive's own release removes nobody else's name in any run.
-/

namespace SpatiumDdi.Upgrade

open Cluster

variable {w w' : Cluster} {author : Author} {me text : String} {a : Time}

/-- Where the drive may still act on an attempt begun at `a`, the Lease is its own. -/
def Backed (w : Cluster) (me : String) (a : Time) : Prop := OpenAt w me a → w.Holds me a

/-- What an attempt to hold the Lease leaves at the moment it ends, in a run where `G` holds. -/
def Promised (G : Prop) (me : String) (a : Time)
    (res : Except LeaseUnknownError (Bool × Option String)) (w : Cluster) : Prop :=
  ∀ err, res = .ok (true, err) → G → Backed w me a

def Drive.Ok (G : Prop) (w : Cluster) (me : String) : Drive → Prop
  | .unborn | .over => True
  | .acquiring _ started task => me ≠ "" ∧ task.Safe (kube (.drive me)) (Promised G me started) w
  | .driving loop job =>
    me ≠ "" ∧ (loop.ended = false → G → Backed w me loop.confirmed) ∧
      match job with
      | .waiting => True
      | .renewing started task => task.Safe (kube (.drive me)) (Promised G me started) w
      | .releasing task => task.Safe (kube (.drive me)) (fun _ _ => True) w

def Operator.Ok (w : Cluster) : Operator → Prop
  | .idle => True
  | .forcing task => task.Safe (kube .operator) (fun _ _ => True) w
  | .aborting task => task.Safe (kube .operator) (fun _ _ => True) w

def OwnClears (w : Cluster) : Prop := ∀ c ∈ w.cleared, c.holder = some c.drive

/-- The invariant of a run; `G` is that its operators' calls are harmless, and only what the
Lease says of the drives rests on it. -/
structure Inv (G : Prop) (s : State) : Prop where
  sound : s.cluster.Sound
  stray : ∀ x ∈ s.cluster.stray, s.cluster.Valid x.1 x.2
  own : OwnClears s.cluster
  drive : ∀ me, (s.drive me).Ok G s.cluster me
  operator : ∀ k, (s.operator k).Ok s.cluster

variable {r : Request} {out : Cluster × Response}

theorem Cluster.Holds.served (h : w.Holds me a) (hsound : w.Sound) (hme : me ≠ "")
    (hvalid : w.Valid author r) (hserved : Served w author text r out)
    (hnow : w.now - a < leaseSafeHold) (hop : author = .operator → out.1.lease = w.lease) :
    out.1.Holds me a ∨ ∃ c ∈ out.1.cleared, c.drive = me ∧ a ≤ c.time := by
  cases hserved with
  | refused => exact Or.inl h
  | got => exact Or.inl h
  | created spec hnone =>
    obtain ⟨l, t, hl, -⟩ := h
    cases hnone.symm.trans hl
  | patched p version l hlease hmatches =>
    obtain ⟨l', t, hl', hholder, hdur, ht, hle⟩ := h
    obtain rfl : l = l' := Option.some.inj (hlease.symm.trans hl')
    cases author with
    | operator =>
      -- An operator's patch that lands gives the Lease a version of its own.
      have hsame : l.patched p w.nextVersion = l :=
        Option.some.inj ((hop rfl).trans hlease)
      have hlt := (hsound l hlease).1
      rw [← hsame] at hlt
      exact absurd hlt (lt_irrefl _)
    | drive j =>
      rcases hvalid with ⟨-, hj, hpdur, t', l₀, hp, -, hversion, hseen, hfree, hstamp⟩ |
        ⟨⟨hp, -⟩, l₀, hversion, hseen, hmine⟩
      · obtain rfl := hseen.eq_of_matches hlease hmatches hversion
        -- It is not expired for anyone, so whoever updates it read it as its own.
        have hheld : l.heldAt w.now = true := by
          have hexp : ¬ seconds leaseDurationS < w.now - t := by
            have hhold : leaseSafeHold ≤ seconds leaseDurationS := by decide
            exact not_lt.mpr (((sub_le_sub_left hle _).trans hnow.le).trans hhold)
          simp only [LeaseSpec.heldAt, LeaseSpec.expiredAt, LeaseSpec.duration, hholder, hdur, ht]
          simpa [named, orDefault, leaseDurationS, hme] using hexp
        have hjme : j = me := by
          rcases hfree with hfree | hmine
          · cases hfree.symm.trans hheld
          · exact Option.some.inj (hmine.symm.trans hholder)
        refine Or.inl ⟨_, t', rfl, ?_, ?_, ?_, hle.trans (hstamp t ht)⟩
        · simp [Lease.patched, hj, hjme]
        · simp [Lease.patched, hpdur]
        · simp [Lease.patched, hp]
      · obtain rfl := hseen.eq_of_matches hlease hmatches hversion
        have hjme : j = me := Option.some.inj (hmine.symm.trans hholder)
        refine Or.inr ⟨⟨j, l.holderIdentity, w.now⟩, ?_, hjme, ?_⟩
        · simp [Cluster.put, clearedBy, hp]
        · exact hle.trans ((hsound l hlease).2 t ht)

theorem OwnClears.served (h : OwnClears w) (hvalid : w.Valid author r)
    (hserved : Served w author text r out) : OwnClears out.1 := by
  cases hserved with
  | refused => exact h
  | got => exact h
  | created => exact h
  | patched p version l hlease hmatches =>
    intro c hc
    rcases List.mem_append.mp hc with hc | hc
    · cases author with
      | operator => cases hc
      | drive j =>
        rcases hvalid with ⟨hname, hj, -⟩ | ⟨⟨hp, -⟩, l₀, hversion, hseen, hmine⟩
        · simp [clearedBy, hj, hname] at hc
        · obtain rfl := hseen.eq_of_matches hlease hmatches hversion
          obtain rfl : c = ⟨j, l.holderIdentity, w.now⟩ := by simpa [clearedBy, hp] using hc
          exact hmine
    · exact h c hc

section

variable (h : Served w author text r out)
include h

theorem Served.now_eq : out.1.now = w.now := by
  cases h <;> rfl

theorem Served.stray_eq : out.1.stray = w.stray := by
  cases h <;> rfl

theorem Served.cleared_subset : w.cleared ⊆ out.1.cleared := by
  cases h with
  | refused => exact List.Subset.refl _
  | got => exact List.Subset.refl _
  | created => exact List.Subset.refl _
  | patched => exact List.subset_append_right _ _

end

structure Moves (G : Prop) (s : State) (w : Cluster) : Prop where
  rely : s.cluster.Rely w
  keeps : G → ∀ me a, me ≠ "" → (s.drive me).Claims a → Backed s.cluster me a → Backed w me a

variable {G : Prop} {s : State}

theorem promised_moves {me : String} {started : Time}
    {task : Kube (Except LeaseUnknownError (Bool × Option String))}
    (h : task.Safe (kube (.drive me)) (Promised G me started) s.cluster) (hme : me ≠ "")
    (hmoves : Moves G s w)
    (hclaims : ∀ err, task = .ret (.ok (true, err)) → (s.drive me).Claims started) :
    task.Safe (kube (.drive me)) (Promised G me started) w := by
  cases task with
  | call c next => exact h.rely hmoves.rely
  | ret res =>
    intro err hres hG
    exact hmoves.keeps hG me started hme (hclaims err (congrArg _ hres)) (h err hres hG)

theorem safe_moves {α : Type} {task : Kube α}
    (h : task.Safe (kube author) (fun _ _ => True) w) (hrely : w.Rely w') :
    task.Safe (kube author) (fun _ _ => True) w' := by
  cases task with
  | call c next => exact h.rely hrely
  | ret res => trivial

theorem Drive.Ok.moves (h : (s.drive me).Ok G s.cluster me) (hmoves : Moves G s w) :
    (s.drive me).Ok G w me := by
  generalize hd : s.drive me = d at h ⊢
  cases d with
  | unborn => trivial
  | «over» => trivial
  | acquiring r started task =>
    obtain ⟨hme, htask⟩ := h
    refine ⟨hme, promised_moves htask hme hmoves fun err herr => ?_⟩
    rw [hd]
    exact ⟨rfl, err, herr⟩
  | driving loop job =>
    obtain ⟨hme, hconfirmed, hjob⟩ := h
    refine ⟨hme, fun hended hG => ?_, ?_⟩
    · refine hmoves.keeps hG me _ hme ?_ (hconfirmed hended hG)
      rw [hd]
      exact Or.inl ⟨hended, rfl⟩
    · cases job with
      | waiting => trivial
      | releasing task => exact safe_moves hjob hmoves.rely
      | renewing started task =>
        refine promised_moves hjob hme hmoves fun err herr => ?_
        rw [hd]
        exact Or.inr ⟨err, congrArg _ herr⟩

variable {o : Operator}

theorem Operator.Ok.moves (h : o.Ok w) (hrely : w.Rely w') : o.Ok w' := by
  cases o with
  | idle => trivial
  | forcing task => exact safe_moves h hrely
  | aborting task => exact safe_moves h hrely

namespace Inv

section

variable (h : Inv G s)
include h

theorem setCluster (hmoves : Moves G s w) (hstray : ∀ x ∈ w.stray, w.Valid x.1 x.2)
    (hown : OwnClears w) :
    Inv G { s with cluster := w } where
  sound := hmoves.rely.sound h.sound
  stray := hstray
  own := hown
  drive me := (h.drive me).moves hmoves
  operator k := (h.operator k).moves hmoves.rely

theorem setDrive {d : Drive} (hd : d.Ok G s.cluster me) :
    Inv G (s.setDrive me d) where
  sound := h.sound
  stray := h.stray
  own := h.own
  drive j := by
    change (Function.update s.drive me d j).Ok G s.cluster j
    by_cases hj : j = me
    · subst hj
      rw [Function.update_self]
      exact hd
    · rw [Function.update_of_ne hj]
      exact h.drive j
  operator := h.operator

theorem setOperator {k : Nat} (ho : o.Ok s.cluster) :
    Inv G (s.setOperator k o) where
  sound := h.sound
  stray := h.stray
  own := h.own
  drive := h.drive
  operator j := by
    change (Function.update s.operator k o j).Ok s.cluster
    by_cases hj : j = k
    · subst hj
      rw [Function.update_self]
      exact ho
    · rw [Function.update_of_ne hj]
      exact h.operator j

theorem setRun (r : Nat) (st : RunState) : Inv G (s.setRun r st) :=
  ⟨h.sound, h.stray, h.own, h.drive, h.operator⟩

theorem setLock (r : Nat) (b : Bool) : Inv G (s.setLock r b) :=
  ⟨h.sound, h.stray, h.own, h.drive, h.operator⟩

theorem setStray {stray : List (Author × Request)} (hstray : ∀ x ∈ stray, s.cluster.Valid x.1 x.2) :
    Inv G { s with cluster := { s.cluster with stray := stray } } := by
  have hrely : s.cluster.Rely { s.cluster with stray := stray } :=
    ⟨le_rfl, le_rfl, Or.inl rfl, id⟩
  exact h.setCluster ⟨hrely, fun _ _ _ _ _ hb => hb⟩ (fun x hx => (hstray x hx).rely hrely) h.own

theorem served (hvalid : s.cluster.Valid author r) (hserved : Served s.cluster author text r out)
    (hop : author = .operator → G → s.Harmless out.1) : Inv G { s with cluster := out.1 } := by
  have hrely := hvalid.served hserved
  refine h.setCluster ⟨hrely, fun hG me a hme hclaims hbacked hopen => ?_⟩ (fun x hx => ?_)
    (h.own.served hvalid hserved)
  · have hopen' : OpenAt s.cluster me a :=
      ⟨hserved.now_eq ▸ hopen.1, fun c hc => hopen.2 c (hserved.cleared_subset hc)⟩
    have hholds := hbacked hopen'
    have hsame : author = .operator → out.1.lease = s.cluster.lease := by
      intro hauthor
      by_contra hne
      obtain ⟨l, t, hl, hholder, -⟩ := hholds
      exact hop hauthor hG hne l me hl hholder ⟨a, hclaims, hopen'⟩
    rcases hholds.served h.sound hme hvalid hserved hopen'.1 hsame with hholds' | ⟨c, hc, hme, ha⟩
    · exact hholds'
    · exact absurd (hopen.2 c hc hme) (not_lt.mpr ha)
  · rw [hserved.stray_eq] at hx
    exact (h.stray x hx).rely hrely

theorem call {c : Call} {reply : Reply c} (hvalid : c.Valid author s.cluster)
    (hdoes : Does author c s.cluster reply w) (hop : author = .operator → G → s.Harmless w) :
    Inv G { s with cluster := w } := by
  cases hdoes with
  | getConfig => exact h
  | clock => exact h
  | answered _ r text => exact h.served hvalid (s.cluster.served author text r) hop
  | failed _ r response _ =>
    refine h.setStray fun x hx => ?_
    rcases List.mem_cons.mp hx with rfl | hx
    · exact hvalid
    · exact h.stray x hx

end

theorem initial (h : s.Initial) : Inv G s where
  sound := h.sound
  stray x hx := by
    rw [h.stray] at hx
    cases hx
  own c hc := by
    rw [h.cleared] at hc
    cases hc
  drive me := by
    rw [h.drive me]
    trivial
  operator k := by
    rw [h.operator k]
    trivial

theorem tick (h : Inv G s) {d : Time} (hd : 0 ≤ d) :
    Inv G { s with cluster := { s.cluster with now := s.cluster.now + d } } := by
  have hle : s.cluster.now ≤ s.cluster.now + d := le_add_of_nonneg_right hd
  have hrely : s.cluster.Rely { s.cluster with now := s.cluster.now + d } :=
    ⟨hle, le_rfl, Or.inl rfl, fun hs l hl => ⟨(hs l hl).1, fun t ht => ((hs l hl).2 t ht).trans hle⟩⟩
  refine h.setCluster ⟨hrely, fun _ me a _ _ hbacked hopen => ?_⟩
    (fun x hx => (h.stray x hx).rely hrely) h.own
  exact hbacked ⟨(sub_le_sub_right hle a).trans_lt hopen.1, hopen.2⟩

theorem driveIdentity_ne (pod nonce : String) : driveIdentity pod nonce ≠ "" := by
  intro h
  have hlen := congrArg String.length h
  simp [driveIdentity] at hlen

theorem after {loop : RenewalLoop} {started : Time}
    {res : Except LeaseUnknownError (Bool × Option String)}
    (hconfirmed : loop.ended = false → G → Backed s.cluster me loop.confirmed)
    (hres : Promised G me started res s.cluster)
    (hended : (loop.after started s.cluster.now res).ended = false) (hG : G) :
    Backed s.cluster me (loop.after started s.cluster.now res).confirmed := by
  rcases res with error | ⟨_ | _, err⟩
  · simp only [RenewalLoop.after, RenewalLoop.unknown_ended] at hended
    simp only [RenewalLoop.after, RenewalLoop.unknown_confirmed]
    exact hconfirmed hended hG
  · cases hended
  · exact hres err rfl hG

theorem drive_ok (h : Inv G s) {d : Drive} (hd : s.drive me = d) : d.Ok G s.cluster me :=
  hd ▸ h.drive me

theorem operator_ok (h : Inv G s) {k : ℕ} (ho : s.operator k = o) : o.Ok s.cluster :=
  ho ▸ h.operator k

variable {allowed : State → Cluster → Prop}

theorem step {s' : State} (h : Inv G s) (hallowed : G → ∀ w, allowed s w → s.Harmless w)
    (hstep : State.Step allowed s s') : Inv G s' := by
  cases hstep with
  | tick d hd => exact h.tick hd
  | plan r _ _ => exact h.setRun r .planned
  | record r st _ _ => exact h.setRun r st
  | start pod nonce r _ _ _ =>
    have hme := driveIdentity_ne pod nonce
    have hnew : (Drive.acquiring r s.cluster.now (acquire (driveIdentity pod nonce)
        leaseDurationS)).Ok G s.cluster (driveIdentity pod nonce) :=
      ⟨hme, (acquire_safe hme h.sound le_rfl).mono fun _ _ hu err herr _ _ => hu.2 err herr⟩
    exact (h.setDrive hnew).setLock r true
  | acquireCall me r started c next reply w hd hdoes =>
    have hok := h.drive_ok hd
    exact (h.call hok.2.may hdoes nofun).setDrive ⟨hok.1, hok.2.reply hdoes⟩
  | acquired me r started err hd =>
    have hok := h.drive_ok hd
    have hnew : (Drive.driving (.start started) .waiting).Ok G s.cluster me :=
      ⟨hok.1, fun _ => hok.2 err rfl, trivial⟩
    exact ((h.setDrive hnew).setRun r _).setLock r false
  | notAcquired me r started task _ =>
    have hover : Drive.over.Ok G s.cluster me := trivial
    exact (h.setDrive hover).setLock r false
  | renew me loop hd _ =>
    have hok := h.drive_ok hd
    refine h.setDrive ⟨hok.1, hok.2.1, ?_⟩
    exact (renew_safe hok.1 h.sound le_rfl).mono fun res u hu err herr _ _ => hu.2 err herr
  | renewCall me loop started c next reply w hd hdoes =>
    have hok := h.drive_ok hd
    have hcall := h.call hok.2.2.may hdoes nofun
    have hok' := hcall.drive_ok hd
    exact hcall.setDrive ⟨hok.1, hok'.2.1, hok.2.2.reply hdoes⟩
  | renewed me loop started res hd =>
    have hok := h.drive_ok hd
    exact h.setDrive ⟨hok.1, after hok.2.1 hok.2.2, trivial⟩
  | renewCrashed me loop started task hd =>
    have hok := h.drive_ok hd
    exact h.setDrive ⟨hok.1, nofun, trivial⟩
  | release me loop attempts hd =>
    have hok := h.drive_ok hd
    exact h.setDrive ⟨hok.1, hok.2.1, releaseIfHeld_safe attempts h.sound⟩
  | releaseCall me loop c next reply w hd hdoes =>
    have hok := h.drive_ok hd
    have hcall := h.call hok.2.2.may hdoes nofun
    have hok' := hcall.drive_ok hd
    exact hcall.setDrive ⟨hok.1, hok'.2.1, hok.2.2.reply hdoes⟩
  | released me loop res hd =>
    have hok := h.drive_ok hd
    exact h.setDrive ⟨hok.1, hok.2.1, trivial⟩
  | finish me loop job _ => exact h.setDrive trivial
  | forceRelease k _ => exact h.setOperator (forceReleaseIdle_safe _ h.sound)
  | abort k r _ _ _ =>
    refine (h.setOperator ?_).setRun r .aborted
    split
    · exact release_safe none h.sound
    · trivial
  | forceCall k c next reply w ho hdoes hw =>
    have hok := h.operator_ok ho
    exact (h.call hok.may hdoes fun _ hG => hallowed hG w hw).setOperator (hok.reply hdoes)
  | abortCall k c next reply w ho hdoes hw =>
    have hok := h.operator_ok ho
    exact (h.call hok.may hdoes fun _ hG => hallowed hG w hw).setOperator (hok.reply hdoes)
  | operatorDone k => exact h.setOperator trivial
  | strayLands author r text before after w hstray hw hop =>
    subst hw
    have hvalid : ∀ x ∈ before ++ (author, r) :: after, s.cluster.Valid x.1 x.2 :=
      fun x hx => h.stray x (hstray ▸ hx)
    have hrest : ∀ x ∈ before ++ after, s.cluster.Valid x.1 x.2 := by
      intro x hx
      refine hvalid x ?_
      rcases List.mem_append.mp hx with hx | hx
      · exact List.mem_append_left _ hx
      · exact List.mem_append_right _ (List.mem_cons_of_mem _ hx)
    have hleft := h.setStray hrest
    refine hleft.served ?_ (Cluster.served _ author text r) fun hauthor hG => ?_
    · exact (hvalid (author, r) (by simp)).rely ⟨le_rfl, le_rfl, Or.inl rfl, id⟩
    · exact hallowed hG _ (hop hauthor)

theorem run {s' : State} (h : Inv G s) (hallowed : G → ∀ s w, allowed s w → s.Harmless w)
    (hrun : Relation.ReflTransGen (State.Step allowed) s s') : Inv G s' := by
  induction hrun with
  | refl => exact h
  | tail _ hstep ih => exact ih.step (fun hG => hallowed hG _) hstep

theorem holds (h : Inv True s) (hme : s.InWindow me) : ∃ a, s.cluster.Holds me a := by
  obtain ⟨loop, job, hd, hended, hopen⟩ := hme
  exact ⟨_, (h.drive_ok hd).2.1 hended trivial hopen⟩

theorem exclusive (h : Inv True s) {i j : String} (hi : s.InWindow i) (hj : s.InWindow j) :
    i = j := by
  obtain ⟨a, l, -, hl, hholder, -⟩ := h.holds hi
  obtain ⟨b, l', -, hl', hholder', -⟩ := h.holds hj
  obtain rfl : l = l' := Option.some.inj (hl.symm.trans hl')
  exact Option.some.inj (hholder.symm.trans hholder')

end Inv

namespace State

/-- No two drives may start a node at once. -/
def Exclusive (s : State) : Prop := ∀ i j, s.InWindow i → s.InWindow j → i = j

theorem ownClears {s₀ s : State} {allowed : State → Cluster → Prop} (hinit : s₀.Initial)
    (hrun : Relation.ReflTransGen (Step allowed) s₀ s) : OwnClears s.cluster := by
  have hinv : Inv False s₀ := Inv.initial hinit
  exact (hinv.run (fun hG => hG.elim) hrun).own

/-- A run in which no operator takes the Lease from a drive that is acting on it has one drive
acting at a time, and no drive releases another's Lease. -/
theorem exclusive_of_harmless {s₀ s : State} (hinit : s₀.Initial)
    (hrun : Relation.ReflTransGen (Step Harmless) s₀ s) :
    s.Exclusive ∧ OwnClears s.cluster := by
  have hinv : Inv True s₀ := Inv.initial hinit
  exact ⟨fun i j => (hinv.run (fun _ _ _ hw => hw) hrun).exclusive, ownClears hinit hrun⟩

open Relation (ReflTransGen)

variable {allowed : State → Cluster → Prop} {α : Type}

def withDrive (s : State) (me : String) (d : Drive) (w : Cluster) : State :=
  { s.setDrive me d with cluster := w }

def withOperator (s : State) (k : Nat) (o : Operator) (w : Cluster) : State :=
  { s.setOperator k o with cluster := w }

theorem withDrive_drive (s : State) (me : String) (d : Drive) (w : Cluster) :
    (s.withDrive me d w).drive me = d :=
  Function.update_self ..

theorem withDrive_withDrive (s : State) (me : String) (d d' : Drive) (w w' : Cluster) :
    (s.withDrive me d w).withDrive me d' w' = s.withDrive me d' w' := by
  simp [withDrive, setDrive]

theorem withDrive_self (s : State) (h : s.drive me = d) : s.withDrive me d s.cluster = s := by
  simp [withDrive, setDrive, ← h]

theorem withOperator_operator (s : State) (k : Nat) (o : Operator) (w : Cluster) :
    (s.withOperator k o w).operator k = o :=
  Function.update_self ..

theorem withOperator_withOperator (s : State) (k : Nat) (o o' : Operator) (w w' : Cluster) :
    (s.withOperator k o w).withOperator k o' w' = s.withOperator k o' w' := by
  simp [withOperator, setOperator]

theorem withOperator_self (s : State) {k : Nat} (h : s.operator k = o) :
    s.withOperator k o s.cluster = s := by
  simp [withOperator, setOperator, ← h]

/-- A party whose calls are answered at once runs its task to the end. -/
theorem runs_answered {author : Author} {f : Kube α → Cluster → State}
    (hstep : ∀ (c : Call) (next : Reply c → Kube α) (w : Cluster) (reply : Reply c) (w' : Cluster),
      Does author c w reply w' → Step allowed (f (.call c next) w) (f (next reply) w'))
    (task : Kube α) (w : Cluster) :
    ReflTransGen (Step allowed) (f task w)
      (f (.ret (answered author task w).1) (answered author task w).2) := by
  induction task generalizing w with
  | ret res => exact .refl
  | call c next ih =>
    have hgo : ∀ (reply : Reply c) (w' : Cluster), Does author c w reply w' →
        ReflTransGen (Step allowed) (f (.call c next) w)
          (f (.ret (answered author (next reply) w').1) (answered author (next reply) w').2) :=
      fun reply w' hdoes => .head (hstep c next w reply w' hdoes) (ih reply w')
    cases c with
    | getConfig => exact hgo _ _ (.getConfig _)
    | clock => exact hgo _ _ (.clock _)
    | request r => exact hgo _ _ (.answered _ r "")

theorem acquires (s : State) {pod nonce : String} {r : Nat} {err : Option String}
    (hunborn : s.drive (driveIdentity pod nonce) = .unborn) (hlocked : s.locked r = false)
    (hst : s.run r = .planned ∨ s.run r = .running)
    (hok : answered (.drive (driveIdentity pod nonce))
      (acquire (driveIdentity pod nonce) leaseDurationS) s.cluster = (.ok (true, err), w)) :
    ReflTransGen (Step allowed) s
      ((s.withDrive (driveIdentity pod nonce) (.driving (.start s.cluster.now) .waiting) w).setRun
        r .running) := by
  have hstart : Step allowed s _ := .start pod nonce r hunborn hlocked hst
  generalize driveIdentity pod nonce = me at hunborn hok hstart ⊢
  refine .head hstart ?_
  generalize hs' : (s.setDrive me (.acquiring r s.cluster.now
    (acquire me leaseDurationS))).setLock r true = s'
  have hd : s'.drive me = .acquiring r s.cluster.now (acquire me leaseDurationS) := by
    rw [← hs']
    exact Function.update_self ..
  have hcluster : s'.cluster = s.cluster := by rw [← hs']; rfl
  have hcalls : ReflTransGen (Step allowed) _ _ :=
    runs_answered (f := fun task w => s'.withDrive me (.acquiring r s.cluster.now task) w)
      (fun c next w reply w' hdoes => by
        have h : Step allowed _ (State.withDrive _ me (.acquiring r s.cluster.now (next reply)) w') :=
          .acquireCall me r _ c next reply w' (withDrive_drive s' me _ w) hdoes
        rwa [withDrive_withDrive] at h)
      (acquire me leaseDurationS) s'.cluster
  rw [withDrive_self s' hd, hcluster, hok] at hcalls
  refine hcalls.tail ?_
  have hacquired : Step allowed _ _ := .acquired me r s.cluster.now err (withDrive_drive s' me _ w)
  convert hacquired using 1
  rw [← hs']
  simp [withDrive, setDrive, setRun, setLock, ← hlocked]

theorem renew_calls (me : String) : ∃ next next' next'',
    renew me leaseDurationS = .call .getConfig next ∧ next true = .call .getConfig next' ∧
      next' true = .call (.request .get) next'' ∧
      ∀ error, next'' (.unanswered error) =
        .ret (.error ⟨"lease read unanswered: " ++ error⟩) :=
  ⟨_, _, _, rfl, rfl, rfl, fun _ => rfl⟩

variable {loop : RenewalLoop}

theorem renewal_unanswered (s : State) {d : Time} (hd : s.drive me = .driving loop .waiting)
    (hended : loop.ended = false) (hcfg : s.cluster.configured = true) (hle : 0 ≤ d) :
    ReflTransGen (Step allowed) s (s.withDrive me (.driving (loop.unknown s.cluster.now) .waiting)
      { s.cluster with
        now := s.cluster.now + d, stray := (.drive me, .get) :: s.cluster.stray }) := by
  obtain ⟨next, next', next'', hrenew, hnext, hnext', hnext''⟩ := renew_calls me
  have hconfig : Does (.drive me) .getConfig s.cluster true s.cluster := hcfg ▸ .getConfig s.cluster
  let attempt (task : Kube (Except LeaseUnknownError (Bool × Option String))) (w : Cluster) :
      State :=
    s.withDrive me (.driving loop (.renewing s.cluster.now task)) w
  have hcall : ∀ (c : Call) next (reply : Reply c) (w w' : Cluster),
      Does (.drive me) c w reply w' →
      Step allowed (attempt (.call c next) w) (attempt (next reply) w') := by
    intro c next reply w w' hdoes
    have h : Step allowed (attempt (.call c next) w) _ :=
      .renewCall me loop _ c next reply w' (withDrive_drive ..) hdoes
    simpa [attempt, withDrive, setDrive] using h
  have hbegin : Step allowed s (attempt (renew me leaseDurationS) s.cluster) :=
    .renew me loop hd hended
  rw [hrenew] at hbegin
  have hfirst := hcall _ next true _ _ hconfig
  rw [hnext] at hfirst
  have hsecond := hcall _ next' true _ _ hconfig
  rw [hnext'] at hsecond
  have hthird := hcall _ next'' _ _ _ (.failed s.cluster .get (.unanswered "") trivial)
  rw [hnext''] at hthird
  refine .head hbegin (.head hfirst (.head hsecond (.head hthird ?_)))
  have hend : ∀ res w, Step allowed (attempt (.ret res) w) ((attempt (.ret res) w).setDrive me
      (.driving (loop.after s.cluster.now w.now res) .waiting)) :=
    fun res w => .renewed me loop s.cluster.now res (withDrive_drive ..)
  refine .head (hend _ _) (.single ?_)
  have htick : ∀ s' : State, Step allowed s'
      { s' with cluster := { s'.cluster with now := s'.cluster.now + d } } := fun s' => .tick d hle
  convert htick _ using 1
  simp [attempt, withDrive, setDrive, RenewalLoop.after]

theorem renewals_unanswered (n : Nat) (s : State) (hd : s.drive me = .driving loop .waiting)
    (hended : loop.ended = false) (hcfg : s.cluster.configured = true) :
    ∃ loop' stray, ReflTransGen (Step allowed) s (s.withDrive me (.driving loop' .waiting)
        { s.cluster with now := s.cluster.now + n * leaseRenewRetry, stray := stray }) ∧
      loop'.confirmed = loop.confirmed ∧ loop'.ended = false := by
  induction n with
  | zero =>
    refine ⟨loop, s.cluster.stray, ?_, rfl, hended⟩
    simp only [Nat.cast_zero, zero_mul, add_zero, withDrive_self s hd]
    exact .refl
  | succ n ih =>
    obtain ⟨loop', stray, hrun, hconfirmed, hended'⟩ := ih
    have hnext : ReflTransGen (Step allowed) _ _ := renewal_unanswered _
      (withDrive_drive s me (.driving loop' .waiting)
        { s.cluster with now := s.cluster.now + n * leaseRenewRetry, stray := stray })
      hended' hcfg (show 0 ≤ leaseRenewRetry by decide)
    rw [withDrive_withDrive] at hnext
    have hnow : s.cluster.now + (n + 1 : ℕ) * leaseRenewRetry =
        s.cluster.now + n * leaseRenewRetry + leaseRenewRetry := by
      rw [Nat.cast_succ, add_mul, one_mul, add_assoc]
    refine ⟨loop'.unknown (s.cluster.now + n * leaseRenewRetry), (.drive me, .get) :: stray, ?_,
      (RenewalLoop.unknown_confirmed loop' _).trans hconfirmed,
      (RenewalLoop.unknown_ended loop' _).trans hended'⟩
    rw [hnow]
    exact hrun.trans hnext

theorem forceReleases (s : State) {k : Nat} {res : ForceReleaseOutcome}
    (ho : s.operator k = .idle)
    (hok : answered .operator (forceReleaseIdle forceReleaseMinIdle) s.cluster = (res, w)) :
    ReflTransGen (Step fun _ _ => True) s { s with cluster := w } := by
  have hbegin : Step (fun _ _ => True) s _ := .forceRelease k ho
  refine .head hbegin ?_
  generalize hs' : s.setOperator k (.forcing (forceReleaseIdle forceReleaseMinIdle)) = s'
  have ho' : s'.operator k = .forcing (forceReleaseIdle forceReleaseMinIdle) := by
    rw [← hs']
    exact Function.update_self ..
  have hcluster : s'.cluster = s.cluster := by rw [← hs']; rfl
  have hcalls : ReflTransGen (Step fun _ _ => True) _ _ :=
    runs_answered (f := fun task w => s'.withOperator k (.forcing task) w)
      (fun c next w reply w' hdoes => by
        have h : Step (fun _ _ => True) _ (State.withOperator _ k (.forcing (next reply)) w') :=
          .forceCall k c next reply w' (withOperator_operator s' k _ w) hdoes trivial
        rwa [withOperator_withOperator] at h)
      (forceReleaseIdle forceReleaseMinIdle) s'.cluster
  rw [withOperator_self s' ho', hcluster, hok] at hcalls
  refine hcalls.tail ?_
  have hdone : ∀ s : State, Step (fun _ _ => True) s (s.setOperator k .idle) :=
    fun _ => .operatorDone k
  convert hdone _ using 1
  rw [← hs']
  simp [withOperator, setOperator, ← ho]

theorem releases (s : State) (attempts : Nat) {res : Bool}
    (hd : s.drive me = .driving loop .waiting)
    (hok : answered (.drive me) (releaseIfHeld me attempts) s.cluster = (res, w)) :
    ReflTransGen (Step allowed) s { s with cluster := w } := by
  have hbegin : Step allowed s _ := .release me loop attempts hd
  refine .head hbegin ?_
  generalize hs' : s.setDrive me (.driving loop (.releasing (releaseIfHeld me attempts))) = s'
  have hd' : s'.drive me = .driving loop (.releasing (releaseIfHeld me attempts)) := by
    rw [← hs']
    exact Function.update_self ..
  have hcluster : s'.cluster = s.cluster := by rw [← hs']; rfl
  have hcalls : ReflTransGen (Step allowed) _ _ :=
    runs_answered (f := fun task w => s'.withDrive me (.driving loop (.releasing task)) w)
      (fun c next w reply w' hdoes => by
        have h : Step allowed _ (State.withDrive _ me (.driving loop (.releasing (next reply))) w') :=
          .releaseCall me loop c next reply w' (withDrive_drive s' me _ w) hdoes
        rwa [withDrive_withDrive] at h)
      (releaseIfHeld me attempts) s'.cluster
  rw [withDrive_self s' hd', hcluster, hok] at hcalls
  refine hcalls.tail ?_
  have hdone : Step allowed (s'.withDrive me (.driving loop (.releasing (.ret res))) w) _ :=
    .released me loop res (withDrive_drive ..)
  convert hdone using 1
  rw [← hs']
  simp [withDrive, setDrive, ← hd]

/-- Before any upgrade: no Lease, and one run planned. -/
def fresh : State where
  cluster := { now := 0, configured := true, lease := none, nextVersion := 1 }
  drive _ := .unborn
  operator _ := .idle
  run r := if r = 0 then .planned else .absent
  locked _ := false

theorem fresh_initial : fresh.Initial :=
  ⟨nofun, rfl, rfl, fun _ => rfl, fun _ => rfl⟩

def first : String := driveIdentity "worker-a" "1"

def second : String := driveIdentity "worker-b" "2"

theorem first_ne_second : first ≠ second := by decide

def leaseOf (holder : String) (t : Time) (transitions version : Nat) : Lease where
  holderIdentity := some holder
  leaseDurationSeconds := some leaseDurationS
  renewTime := some (.micro t)
  leaseTransitions := some transitions
  resourceVersion := version

def started : State :=
  (fresh.withDrive first (.driving (.start 0) .waiting)
    { now := 0, configured := true, lease := some (leaseOf first 0 1 1), nextVersion := 2 }).setRun
      0 .running

theorem fresh_started : ReflTransGen (Step allowed) fresh started :=
  acquires fresh rfl rfl (Or.inl rfl) rfl

/-- A drive releases its Lease, and the next one takes it. -/
theorem exclusive_of_harmless_handover :
    ∃ s, ReflTransGen (Step Harmless) fresh s ∧ s.InWindow second ∧ s.cluster.cleared ≠ [] ∧
      s.Exclusive ∧ OwnClears s.cluster := by
  let free : Cluster :=
    { started.cluster with
      lease := some (leaseOf "" (0 - seconds 7200) 1 2), nextVersion := 3
      cleared := [⟨first, some first, 0⟩] }
  have hfree : ReflTransGen (Step Harmless) started { started with cluster := free } :=
    @releases free first Harmless _ started 5 true rfl rfl
  let taken : Cluster := { free with lease := some (leaseOf second 0 2 3), nextVersion := 4 }
  let next : State := (State.withDrive { started with cluster := free } second
    (.driving (.start 0) .waiting) taken).setRun 0 .running
  have hnext : ReflTransGen (Step Harmless) { started with cluster := free } next :=
    acquires { started with cluster := free } rfl rfl (Or.inr rfl) rfl
  have hrun := (fresh_started.trans hfree).trans hnext
  refine ⟨next, hrun, ⟨.start 0, .waiting, rfl, rfl,
    (by decide : (0 : Time) - 0 < leaseSafeHold), ?_⟩, List.cons_ne_nil _ _,
    exclusive_of_harmless fresh_initial hrun⟩
  intro c hc hdrive
  obtain rfl : c = ⟨first, some first, 0⟩ := List.mem_singleton.mp hc
  exact absurd hdrive first_ne_second

/-- A drive loses the kubeapi; the operator takes it for dead, and a second drive starts. -/
theorem forceRelease_not_exclusive :
    ∃ s₀ s : State, s₀.Initial ∧ ReflTransGen (Step fun _ _ => True) s₀ s ∧ ¬ s.Exclusive := by
  -- From two hundred seconds on no renewal is answered.
  let late : State :=
    { started with cluster := { started.cluster with now := 0 + leaseRenewInterval } }
  have hlate : Step (fun _ _ => True) started late := .tick _ (by decide)
  have hdriving : late.drive first = .driving (.start 0) .waiting := rfl
  obtain ⟨loop, stray, hrenewals, hconfirmed, hended⟩ :=
    @renewals_unanswered first (fun _ _ => True) _ 8 late hdriving rfl rfl
  let cut : State := late.withDrive first (.driving loop .waiting)
    { late.cluster with now := late.cluster.now + (8 : ℕ) * leaseRenewRetry, stray := stray }
  -- At 320 s the Lease is idle for longer than 300 s.
  let free : Cluster :=
    { cut.cluster with
      lease := some (leaseOf "" (seconds 320 - seconds 7200) 1 2), nextVersion := 3 }
  have hfree : ReflTransGen (Step fun _ _ => True) cut { cut with cluster := free } :=
    @forceReleases free cut 0 _ rfl rfl
  let taken : Cluster :=
    { free with lease := some (leaseOf second (seconds 320) 2 3), nextVersion := 4 }
  let both : State := (State.withDrive { cut with cluster := free } second
    (.driving (.start (seconds 320)) .waiting) taken).setRun 0 .running
  have hboth : ReflTransGen (Step fun _ _ => True) { cut with cluster := free } both :=
    acquires { cut with cluster := free } rfl rfl (Or.inr rfl) rfl
  refine ⟨fresh, both, fresh_initial,
    (((fresh_started.tail hlate).trans hrenewals).trans hfree).trans hboth, fun hexcl => ?_⟩
  have hfirst : both.InWindow first := by
    refine ⟨loop, .waiting, rfl, hended, ?_⟩
    rw [hconfirmed]
    exact ⟨(by decide : seconds 320 - 0 < leaseSafeHold), nofun⟩
  have hsecond : both.InWindow second :=
    ⟨.start (seconds 320), .waiting, rfl, rfl,
      (by decide : seconds 320 - seconds 320 < leaseSafeHold), nofun⟩
  exact first_ne_second (hexcl first second hfirst hsecond)

end State

end SpatiumDdi.Upgrade
