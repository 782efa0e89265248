import SpatiumDdi.Dns.IngestRuns

/-!
Once the writer has stopped and no op is queued, a server whose report changed nothing holds what is
mirrored: nothing happened to it since it was read, and nothing to the mirror since it was posted,
but by an op that is queued still or was applied later.
-/

namespace SpatiumDdi.Dns.Ingest

variable {ι : Type} {group : List ι} {s s' : State ι} {a : Action ι} {i : ι} {k : Key}

def OpRow.Busy (t : ℕ) (row : OpRow) : Prop :=
  row.state = .queued ∨ ∃ applied, t ≤ applied ∧ row.state = .applied applied

/-- An op of the server is queued, or was applied at the time or later. -/
def Server.Busy (t : ℕ) (server : Server) : Prop := ∃ row ∈ server.ops, row.Busy t

def Busy (group : List ι) (t : ℕ) (s : State ι) : Prop := ∃ i ∈ group, (s.server i).Busy t

def Writes : Action ι → Prop
  | .writerAdds _ _ | .writerDeletes _ _ => True
  | _ => False

variable {t now : ℕ} {server server' : Server}

theorem Server.Busy.replace (h : server.Busy t) {row row' : OpRow} {rows : List OpRow}
    (hrows : Replaces server.ops row row' rows) (hstate : row.Busy t → row'.Busy t)
    (held : List IncomingRecord) : { server with held := held, ops := rows }.Busy t := by
  obtain ⟨other, hother, hbusy⟩ := h
  rcases hrows.new hother with ⟨rfl, hnew⟩ | hold
  · exact ⟨row', hnew, hstate hbusy⟩
  · exact ⟨other, hold, hbusy⟩

theorem Server.Busy.enqueue (h : server.Busy t) (ops : List LearnedOp) :
    (server.enqueue ops).Busy t := by
  obtain ⟨row, hrow, hbusy⟩ := h
  exact ⟨row, mem_enqueue.mpr (Or.inl hrow), hbusy⟩

theorem busy_of_enqueue {ops : List LearnedOp} (h : ops ≠ []) (t : ℕ) :
    (server.enqueue ops).Busy t := by
  obtain ⟨op, hop⟩ := List.exists_mem_of_ne_nil ops h
  exact ⟨_, mem_enqueue.mpr (Or.inr ⟨op, hop, rfl⟩), Or.inl rfl⟩

theorem Server.Busy.change (h : server.Busy t) (hnow : t ≤ now)
    (hchange : Changes now server a server') : server'.Busy t := by
  cases hchange with
  | adds i r => exact h
  | deletes i k => exact h
  | lands i hlanded hrows => exact h.replace hrows id _
  | acks i place hlanded hqueued hrows =>
    exact h.replace hrows (fun _ => Or.inr ⟨now, hnow, rfl⟩) server.held
  | reads i => exact h

/-- The server holds these values, or an op came after the time. -/
def Server.Follows (zone : Zone) (t : ℕ) (keys : List Key) (server : Server) : Prop :=
  (∀ k, k ∈ keys ↔ k ∈ zone.values server.held) ∨ server.Busy t

theorem Server.Follows.change {zone : Zone} {keys : List Key} (h : server.Follows zone t keys)
    (hsound : server.Sound now) (hnow : t ≤ now) (hwriter : ¬Writes a)
    (hchange : Changes now server a server') : server'.Follows zone t keys := by
  rcases h with hsame | hbusy
  · cases hchange with
    | adds i r => exact absurd trivial hwriter
    | deletes i k => exact absurd trivial hwriter
    | lands i hlanded hrows =>
      -- The op that took effect is queued until it is acknowledged.
      have hqueued := hsound.unlanded _ hrows.mem hlanded
      have hbusy : server.Busy t := ⟨_, hrows.mem, Or.inl hqueued⟩
      exact Or.inr (hbusy.replace hrows id _)
    | acks i place hlanded hqueued hrows => exact Or.inl hsame
    | reads i => exact Or.inl hsame
  · exact Or.inr (hbusy.change hnow hchange)

variable [DecidableEq ι] {before : ι → ℕ}

section Post

variable {reading : Reading}

theorem post_held (j : ι) : ((s.post group i reading).server j).held = (s.server j).held := by
  simp only [State.post, State.receive]
  split
  case isTrue hj => rw [hj]; rfl
  case isFalse =>
    split
    case isTrue => rfl
    case isFalse => rfl

theorem post_reading_self : ((s.post group i reading).server i).reading = none := by
  simp [State.post, State.receive]

variable {j : ι}

theorem post_reading_other (hj : j ≠ i) :
    ((s.post group i reading).server j).reading = (s.server j).reading := by
  simp only [State.post, State.receive, if_neg hj]
  split
  case isTrue => rfl
  case isFalse => rfl

theorem Server.Busy.post (h : (s.server j).Busy t) :
    ((s.post group i reading).server j).Busy t := by
  simp only [State.post, State.receive]
  split
  case isTrue hj =>
    subst hj
    exact h.enqueue (if (s.server j).enabled then (s.pass group j reading.records).selfOps else [])
  case isFalse =>
    split
    case isTrue => exact h.enqueue _
    case isFalse => exact h

theorem Server.Follows.post {keys : List Key} (h : (s.server j).Follows s.zone t keys) :
    ((s.post group i reading).server j).Follows s.zone t keys := by
  rcases h with hsame | hbusy
  · left
    rw [post_held]
    exact hsame
  · exact Or.inr hbusy.post

theorem post_mirrored (hseveral : Several group) (hsound : Sound s) (hi : i ∈ group)
    (reading : Reading) (t : ℕ) :
    (∀ k, k ∈ (s.post group i reading).mirrored ↔ k ∈ s.mirrored) ∨
      Busy group t (s.post group i reading) := by
  have henabled := fun j => (hsound.servers j).enabled
  obtain ⟨hmirror, -, hpeer, -, -⟩ := pass_eq hseveral henabled hi reading.records
  have hmirror' : (s.post group i reading).mirror = _ := hmirror
  by_cases hops : (s.pass group i reading.records).peerOps = []
  · left
    intro k
    rw [State.mirrored, hmirror']
    exact mirror_of_no_peerOps (hpeer.symm.trans hops) hsound.unmanaged
  · right
    obtain ⟨j, hj⟩ := peers_ne_nil hseveral henabled hi
    obtain ⟨hgroup, hother⟩ := List.mem_filter.mp hj
    refine ⟨j, hgroup, ?_⟩
    have hne : j ≠ i := by
      simp only [Bool.and_eq_true, decide_eq_true_eq] at hother
      exact hother.2
    simp only [State.post, State.receive, if_neg hne, if_pos hj]
    exact busy_of_enqueue hops t

theorem post_quiet (hseveral : Several group) (hsound : Sound s) (hi : i ∈ group)
    (hquiet : (s.pass group i reading.records).result.Quiet) (t : ℕ) :
    (∀ k, k ∈ (s.report i reading.records).current ↔ k ∈ (s.post group i reading).mirrored) ∨
      Busy group t (s.post group i reading) := by
  have henabled := fun j => (hsound.servers j).enabled
  obtain ⟨-, -, -, -, hresult⟩ := pass_eq hseveral henabled hi reading.records
  rcases post_mirrored hseveral hsound hi reading t with hmirrored | hbusy
  · by_cases hblocks : ∀ k, (s.report i reading.records).blocksCorrection k = false
    · left
      intro k
      rw [hmirrored]
      exact current_iff_mirrored (hresult.mp hquiet) hblocks hsound.unmanaged
    · right
      obtain ⟨k, hk⟩ := not_forall.mp hblocks
      rw [Bool.not_eq_false] at hk
      obtain ⟨row, hrow, hblock⟩ := List.any_eq_true.mp hk
      have hbusy : (s.server i).Busy t := by
        refine ⟨row, hrow, ?_⟩
        cases hstate : row.state with
        | queued => exact Or.inl hstate
        | applied appliedAt => simp [OpRow.blocksCorrection, hstate] at hblock
        | failed updatedAt => exact absurd hstate ((hsound.servers i).unfailed row hrow _)
      exact ⟨i, hi, hbusy.post⟩
  · exact Or.inr hbusy

end Post

/-- What a server's last report says of the mirror, and of the server once it has reported twice. -/
structure Settling (group : List ι) (before : ι → ℕ) (s : State ι) : Prop where
  sound : Sound s
  mirror : ∀ i p rest, s.posted i = p :: rest → before i ≤ rest.length → p.result.Quiet →
    (∀ k, k ∈ p.keys ↔ k ∈ s.mirrored) ∨ Busy group p.postedAt s
  reading : ∀ i reading, before i < (s.posted i).length → (s.server i).reading = some reading →
    (s.server i).Follows s.zone reading.readAt (s.zone.values reading.records)
  last : ∀ i p rest, s.posted i = p :: rest → before i < rest.length →
    (s.server i).Follows s.zone p.readAt p.keys

omit [DecidableEq ι] in
theorem Settling.start (hsound : Sound s) :
    Settling group (fun i => (s.posted i).length) s where
  sound := hsound
  mirror := by
    intro i p rest hp hlength
    rw [hp, List.length_cons] at hlength
    omega
  reading := fun i reading hlength => absurd hlength (Nat.lt_irrefl _)
  last := by
    intro i p rest hp hlength
    rw [hp, List.length_cons] at hlength
    omega

omit [DecidableEq ι] in
theorem Settling.tick (h : Settling group before s) {duration : ℕ}
    (hsound : Sound { s with now := s.now + duration }) :
    Settling group before { s with now := s.now + duration } :=
  ⟨hsound, h.mirror, h.reading, h.last⟩

theorem Settling.set (h : Settling group before s) (hsound : Sound (s.set i server))
    (hwriter : ¬Writes a) (hchange : Changes s.now (s.server i) a server) :
    Settling group before (s.set i server) where
  sound := hsound
  mirror := by
    intro j p rest hp hlength hquiet
    rcases h.mirror j p rest hp hlength hquiet with hsame | ⟨l, hl, hbusy⟩
    · exact Or.inl hsame
    · right
      refine ⟨l, hl, ?_⟩
      have hnow := (h.sound.posted j p (hp ▸ List.mem_cons_self)).1
      by_cases hli : l = i
      · subst hli
        simpa [State.set] using hbusy.change hnow hchange
      · simpa [State.set, hli] using hbusy
  reading := by
    intro j reading hlength hreading
    by_cases hji : j = i
    · subst hji
      simp only [State.set, Function.update_self] at hreading ⊢
      cases hchange with
      | reads i =>
        cases hreading
        exact Or.inl fun k => Iff.rfl
      | adds i r => exact absurd trivial hwriter
      | deletes i k => exact absurd trivial hwriter
      | lands i hlanded hrows =>
        have hreadAt := (h.sound.servers j).readAt reading hreading
        exact (h.reading j reading hlength hreading).change (h.sound.servers j) hreadAt hwriter
          (.lands i hlanded hrows)
      | acks i place hlanded hqueued hrows =>
        have hreadAt := (h.sound.servers j).readAt reading hreading
        exact (h.reading j reading hlength hreading).change (h.sound.servers j) hreadAt hwriter
          (.acks i place hlanded hqueued hrows)
    · simp only [State.set, Function.update_of_ne hji] at hreading ⊢
      exact h.reading j reading hlength hreading
  last := by
    intro j p rest hp hlength
    obtain ⟨hnow, hread, -⟩ := h.sound.posted j p (hp ▸ List.mem_cons_self)
    by_cases hji : j = i
    · subst hji
      simp only [State.set, Function.update_self]
      exact (h.last j p rest hp hlength).change (h.sound.servers j) (Nat.le_trans hread hnow)
        hwriter hchange
    · simp only [State.set, Function.update_of_ne hji]
      exact h.last j p rest hp hlength

theorem Settling.post (hseveral : Several group) (h : Settling group before s) (hi : i ∈ group)
    {reading : Reading} (hreading : (s.server i).reading = some reading)
    (hsound : Sound (s.post group i reading)) : Settling group before (s.post group i reading) where
  sound := hsound
  mirror := by
    intro j p rest hp hlength hquiet
    change Function.update s.posted i _ j = _ at hp
    by_cases hji : j = i
    · subst hji
      rw [Function.update_self] at hp
      obtain ⟨rfl, rfl⟩ := List.cons.inj hp
      exact post_quiet hseveral h.sound hi hquiet s.now
    · rw [Function.update_of_ne hji] at hp
      rcases h.mirror j p rest hp hlength hquiet with hsame | ⟨l, hl, hbusy⟩
      · rcases post_mirrored hseveral h.sound hi reading p.postedAt with hmirrored | hbusy
        · exact Or.inl fun k => (hsame k).trans (hmirrored k).symm
        · exact Or.inr hbusy
      · exact Or.inr ⟨l, hl, hbusy.post⟩
  reading := by
    intro j other hlength hother
    change before j < (Function.update s.posted i _ j).length at hlength
    by_cases hji : j = i
    · rw [hji, post_reading_self] at hother
      cases hother
    · rw [post_reading_other hji] at hother
      rw [Function.update_of_ne hji] at hlength
      exact (h.reading j other hlength hother).post
  last := by
    intro j p rest hp hlength
    change Function.update s.posted i _ j = _ at hp
    by_cases hji : j = i
    · subst hji
      rw [Function.update_self] at hp
      obtain ⟨rfl, rfl⟩ := List.cons.inj hp
      -- The reading was taken after the report before it, so after the writer stopped.
      have hfollows := h.reading j reading hlength hreading
      have hkeys : ∀ k, k ∈ (s.report j reading.records).current ↔
          k ∈ s.zone.values reading.records := fun k => mem_current
      rcases hfollows with hsame | hbusy
      · left
        intro k
        rw [post_held]
        exact (hkeys k).trans (hsame k)
      · exact Or.inr hbusy.post
    · rw [Function.update_of_ne hji] at hp
      exact (h.last j p rest hp hlength).post

theorem Settling.step (hseveral : Several group) (h : Settling group before s) (hwriter : ¬Writes a)
    (hstep : step group s a = some s') : Settling group before s' := by
  have hsound := h.sound.step hseveral hstep
  rcases step_cases hstep with ⟨duration, rfl, rfl⟩ | ⟨i, server, hchange, rfl⟩ |
    ⟨i, reading, rfl, hi, hreading, -, rfl⟩
  · exact h.tick hsound
  · exact h.set hsound hwriter hchange
  · exact h.post hseveral hi hreading hsound

def OpRow.appliedBefore (t : ℕ) (row : OpRow) : Bool :=
  match row.state with
  | .applied applied => applied + opAttributionSlack < t
  | _ => true

/-- The report changed nothing, more than the slack after the last op was applied. -/
def Posted.Settled (group : List ι) (s : State ι) (p : Posted) : Prop :=
  p.result.Quiet ∧ ∀ i ∈ group, ∀ row ∈ (s.server i).ops, row.appliedBefore p.postedAt = true

instance (p : Posted) : Decidable (p.Settled group s) := inferInstanceAs (Decidable (_ ∧ _))

/-- No op is queued, and the last two reports of each server, both of them later, settled. -/
def Rest (group : List ι) (before : ι → ℕ) (s : State ι) : Prop :=
  (∀ i ∈ group, ∀ row ∈ (s.server i).ops, row.state ≠ .queued) ∧
    ∀ i ∈ group, before i + 2 ≤ (s.posted i).length ∧ ∀ p ∈ (s.posted i).take 2, p.Settled group s

instance (before : ι → ℕ) : Decidable (Rest group before s) := inferInstanceAs (Decidable (_ ∧ _))

omit [DecidableEq ι] in
theorem not_busy {p : Posted} (hp : p.Settled group s) (ht : p.postedAt ≤ t + reportTimeout)
    (hunqueued : ∀ i ∈ group, ∀ row ∈ (s.server i).ops, row.state ≠ .queued) {i : ι}
    (hi : i ∈ group) : ¬(s.server i).Busy t := by
  rintro ⟨row, hrow, hqueued | ⟨applied, happlied, hstate⟩⟩
  · exact hunqueued i hi row hrow hqueued
  · have hbefore := hp.2 i hi row hrow
    simp only [OpRow.appliedBefore, hstate, decide_eq_true_eq] at hbefore
    have hslack : reportTimeout ≤ opAttributionSlack := by decide
    omega

omit [DecidableEq ι] in
theorem Settling.converged (h : Settling group before s) (hrest : Rest group before s)
    (hi : i ∈ group) : k ∈ s.zone.values (s.server i).held ↔ k ∈ s.mirrored := by
  obtain ⟨hunqueued, hsettled⟩ := hrest
  obtain ⟨hlength, hlast⟩ := hsettled i hi
  obtain ⟨p, rest, hposted⟩ := List.exists_cons_of_length_pos (show 0 < (s.posted i).length by omega)
  have hp : p.Settled group s := hlast p (by rw [hposted, List.take_succ_cons]; exact List.mem_cons_self)
  obtain ⟨-, -, hrecent⟩ := h.sound.posted i p (hposted ▸ List.mem_cons_self)
  have hlength' : before i < rest.length := by
    rw [hposted, List.length_cons] at hlength
    omega
  have hheld : ∀ k, k ∈ p.keys ↔ k ∈ s.zone.values (s.server i).held := by
    rcases h.last i p _ hposted hlength' with hsame | hbusy
    · exact hsame
    · exact absurd hbusy (not_busy hp hrecent hunqueued hi)
  have hmirrored : ∀ k, k ∈ p.keys ↔ k ∈ s.mirrored := by
    rcases h.mirror i p _ hposted (Nat.le_of_lt hlength') hp.1 with hsame | ⟨j, hj, hbusy⟩
    · exact hsame
    · exact absurd hbusy (not_busy hp (Nat.le_add_right _ _) hunqueued hj)
  exact (hheld k).symm.trans (hmirrored k)

theorem reported_mirrored (hseveral : Several group) {v : Key} (hsound : Sound s)
    (hundeleted : Undeleted v s) {as : List (Action ι)}
    (hwriter : ∀ a ∈ as, ∀ i, a ≠ .writerDeletes i v)
    (hrun : Runs.run (step group) s as = some s') (h : s.reported i v < s'.reported i v) :
    v ∈ s'.mirrored := by
  have hkept : Kept v (fun i => s.reported i v) s' :=
    Runs.run_of_step (C := fun _ a => ∀ i, a ≠ .writerDeletes i v)
      (fun h hC hstep => h.step hseveral hC hstep)
      ⟨hsound, hundeleted, fun _ h => absurd h (Nat.lt_irrefl _)⟩
      (.of_forall fun a ha _ => hwriter a ha) hrun
  exact hkept.mirrored i h

def dc01 : IncomingRecord := ⟨"dc01", "A", "10.0.0.5", some 1200, none, none, none, by decide⟩

/-- The first server reports the record, the second gets it, and both report twice more. -/
def learning : List (Action (Fin 2)) :=
  [.read 0, .post 0, .land 1, .ack 1 0, .tick (180 * second), .read 1, .post 1, .read 0, .post 0,
    .tick (180 * second), .read 1, .post 1, .read 0, .post 0]

/-- Before the first report: the first server has the record, the second has nothing. -/
def unreported : State (Fin 2) := start ⟨[], false⟩ fun i => if i = 0 then [dc01] else []

end SpatiumDdi.Dns.Ingest
