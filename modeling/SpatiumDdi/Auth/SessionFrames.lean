import SpatiumDdi.Auth.SessionRotation

/-!
What one step does to the rows, and what the other transactions and the log may rely on after it.
-/

namespace SpatiumDdi.Auth.Rotation

/-- What may be committed after what. -/
def Compatible (rows : List Session) : Event → Event → Prop
  | .answered _ _, .revokedLive => False
  | .answered presented _, .revokedChain named => ¬ InChain rows named presented
  | .rotated r _, .rotated r' _ => r ≠ r'
  | _, _ => True

variable {s s' : State} {presented t' : ℕ}

theorem getElem?_revoke (ids : List ℕ) (r : ℕ) :
    (s.revoke ids).rows[r]? =
      s.rows[r]?.map fun row => if r ∈ ids then { row with revoked := true } else row := by
  simp [State.revoke, List.getElem?_mapIdx]

theorem getElem?_rotate (presented : ℕ) (now : ℤ) (r : ℕ) :
    (s.rotate presented now).rows[r]? =
      if r = s.rows.length then some {}
      else s.rows[r]?.map fun row =>
        if r = presented then
          { row with revoked := true, rotatedAt := some now, rotatedToId := some s.rows.length }
        else row := by
  simp only [State.rotate, List.getElem?_append, List.length_mapIdx, List.getElem?_mapIdx]
  rcases lt_trichotomy r s.rows.length with hlt | heq | hgt
  · rw [if_pos hlt, if_neg (by omega)]
  · rw [if_neg (by omega), if_pos heq, heq, Nat.sub_self]
    rfl
  · rw [if_neg (by omega), if_neg (by omega), List.getElem?_eq_none (by simpa using by omega),
      List.getElem?_eq_none (by omega)]
    rfl

theorem extends_revoke (ids : List ℕ) :
    Extends s.rows (s.revoke ids).rows where
  length := by simp [State.revoke]
  kept := by
    intro r row hrow hrevoked
    rw [getElem?_revoke, hrow, Option.map_some]
    split
    · rw [← hrevoked]
    · rfl
  live := by
    rintro r ⟨row, hrow, hlive⟩ -
    rw [getElem?_revoke, Option.map_eq_some_iff] at hrow
    obtain ⟨old, hold, rfl⟩ := hrow
    split at hlive
    · cases hlive
    · exact ⟨old, hold, hlive⟩
  next := by
    rintro r q ⟨row, hrow, hnext⟩
    rw [getElem?_revoke, Option.map_eq_some_iff] at hrow
    obtain ⟨old, hold, rfl⟩ := hrow
    left
    split at hnext
    · exact ⟨old, hold, hnext⟩
    · exact ⟨old, hold, hnext⟩

theorem extends_rotate (hlive : Live s.rows presented) (now : ℤ) :
    Extends s.rows (s.rotate presented now).rows where
  length := by simp [State.rotate]
  kept := by
    intro r row hrow hrevoked
    have hlt := lt_of_getElem? hrow
    have hne : r ≠ presented := by
      rintro rfl
      obtain ⟨row', hrow', hlive⟩ := hlive
      rw [hrow, Option.some.injEq] at hrow'
      rw [hrow', hlive] at hrevoked
      exact Bool.false_ne_true hrevoked
    rw [getElem?_rotate, if_neg (by omega), hrow, Option.map_some, if_neg hne]
  live := by
    rintro r ⟨row, hrow, hrowLive⟩ hlt
    rw [getElem?_rotate, if_neg (by omega), Option.map_eq_some_iff] at hrow
    obtain ⟨old, hold, rfl⟩ := hrow
    split at hrowLive
    · cases hrowLive
    · exact ⟨old, hold, hrowLive⟩
  next := by
    rintro r q ⟨row, hrow, hnext⟩
    rw [getElem?_rotate] at hrow
    split at hrow
    · rw [Option.some.injEq] at hrow
      rw [← hrow] at hnext
      cases hnext
    · rw [Option.map_eq_some_iff] at hrow
      obtain ⟨old, hold, rfl⟩ := hrow
      split at hnext
      case isTrue heq =>
        rw [Option.some.injEq] at hnext
        refine Or.inr ⟨heq ▸ hlive, ?_, hnext.symm, ?_⟩
        · rintro ⟨row, hrow, hrowLive⟩
          have hlt := lt_of_getElem? hold
          rw [getElem?_rotate, if_neg (by omega), hold, Option.map_some, if_pos heq,
            Option.some.injEq] at hrow
          rw [← hrow] at hrowLive
          cases hrowLive
        · rw [← hnext]
          simp [State.rotate]
      case isFalse => exact Or.inl ⟨old, hold, hnext⟩

/-- A step of a transaction, as the others see it. -/
structure Frame (t : ℕ) (s s' : State) : Prop where
  rows : Extends s.rows s'.rows
  /-- A lock is its holder's, and so is what it locks. -/
  locked : ∀ t' r, t' ≠ t → s.owner r = some t' →
    s'.owner r = some t' ∧ s'.rows[r]? = s.rows[r]?
  txns : ∀ t', t' ≠ t → s'.txns t' = s.txns t'

variable {t : ℕ}

theorem Frame.put (h : Frame t s s') (x : Txn) : Frame t s (s'.put t x) where
  rows := h.rows
  locked := h.locked
  txns := fun t' ht => (Function.update_of_ne ht _ _).trans (h.txns t' ht)

theorem Frame.finish (h : Frame t s s') : Frame t s (s'.finish t) where
  rows := h.rows
  locked := by
    intro t' r ht howner
    obtain ⟨howner', hrow⟩ := h.locked t' r ht howner
    refine ⟨?_, hrow⟩
    have hne : s'.owner r ≠ some t := by
      rw [howner']
      exact fun heq => ht (Option.some.inj heq)
    exact (if_neg hne).trans howner'
  txns := fun t' ht => (Function.update_of_ne ht _ _).trans (h.txns t' ht)

theorem Frame.record (h : Frame t s s') (events : List Event) :
    Frame t s (s'.record events) := ⟨h.rows, h.locked, h.txns⟩

theorem Frame.refl (t : ℕ) (s : State) : Frame t s s :=
  ⟨.refl _, fun _ _ _ h => ⟨h, rfl⟩, fun _ _ => rfl⟩

variable {r : ℕ}

theorem Frame.lock (hfree : s.free t r = true) : Frame t s (s.lock t r) where
  rows := .refl _
  locked := by
    intro t' r' ht howner
    have hne : r' ≠ r := by
      rintro rfl
      rw [State.free, howner] at hfree
      exact ht (by simpa using hfree)
    exact ⟨(Function.update_of_ne hne _ _).trans howner, rfl⟩
  txns := fun _ _ => rfl

theorem Frame.revoke {ids : List ℕ} (hids : ∀ r ∈ ids, s.owner r = some t) :
    Frame t s (s.revoke ids) where
  rows := extends_revoke ids
  locked := by
    intro t' r ht howner
    refine ⟨howner, ?_⟩
    have hmem : r ∉ ids := fun hmem => ht (Option.some.inj (howner.symm.trans (hids r hmem)))
    simp [getElem?_revoke, hmem]
  txns := fun _ _ => rfl

theorem Frame.rotate {now : ℤ} (hlive : Live s.rows presented)
    (hlocked : s.owner presented = some t) (hin : ∀ r t', s.owner r = some t' → r < s.rows.length) :
    Frame t s (s.rotate presented now) where
  rows := extends_rotate hlive now
  locked := by
    intro t' r ht howner
    refine ⟨howner, ?_⟩
    have hne : r ≠ presented := by
      rintro rfl
      exact ht (Option.some.inj (howner.symm.trans hlocked))
    have hlt := hin r t' howner
    simp [getElem?_rotate, hne, Nat.ne_of_lt hlt]
  txns := fun _ _ => rfl

/-- What a transaction may rely on between two of its steps. -/
def TxnOk (s : State) (t : ℕ) : Txn → Prop
  | .refresh _ .waiting => True
  | .refresh presented (.walking _ current row _) =>
    s.owner presented = some t ∧ Reach s.rows presented current ∧
      (row.revoked = true ∨ current = presented → s.rows[current]? = some row)
  | .refresh presented (.resolved _ session) =>
    s.owner presented = some t ∧ Reach s.rows presented session ∧
      (session = presented → Live s.rows presented)
  | .revokeLive (.locking _) => True
  | .revokeLive (.updating todo matched) =>
    (∀ r ∈ matched, s.owner r = some t) ∧ ∀ r, Live s.rows r → r ∈ todo ∨ r ∈ matched
  | .revokeChain named (.following current _) => Reach s.rows named current
  | .revokeChain named (.found r) =>
    s.owner r = some t ∧ Reach s.rows named r ∧ Live s.rows r

structure LogOk (s : State) : Prop where
  live : .revokedLive ∈ s.log → ∀ r, ¬ Live s.rows r
  chain : ∀ named, .revokedChain named ∈ s.log →
    named < s.rows.length ∧ ∀ r, InChain s.rows named r → ¬ Live s.rows r
  rotated : ∀ r q, .rotated r q ∈ s.log → r < s.rows.length ∧ ¬ Live s.rows r
  order : s.log.Pairwise (Compatible s.rows)

structure Inv (s : State) : Prop where
  rows : Chained s.rows
  locks : ∀ r t, s.owner r = some t → r < s.rows.length
  txns : ∀ t x, s.txns t = some x → TxnOk s t x
  log : LogOk s

def Updating (s : State) : Prop :=
  ∃ t todo matched, s.txns t = some (.revokeLive (.updating todo matched))

theorem Live.of_getElem? {rows rows' : List Session} (h : rows'[r]? = rows[r]?)
    (hlive : Live rows r) : Live rows' r := by
  obtain ⟨row, hrow, hrowLive⟩ := hlive
  exact ⟨row, h.trans hrow, hrowLive⟩

variable {x : Txn}

theorem TxnOk.frame (hok : TxnOk s t' x) (ht : t' ≠ t) (h : Frame t s s') (hrows : Chained s.rows)
    (hgrows : Updating s → ∀ r, Live s'.rows r → Live s.rows r) (hx : s.txns t' = some x) :
    TxnOk s' t' x := by
  have hreach : ∀ {a b : ℕ}, Reach s.rows a b → Reach s'.rows a b := h.rows.reach_mono hrows
  cases x with
  | refresh presented phase =>
    cases phase with
    | waiting => trivial
    | walking now current row hops =>
      obtain ⟨howner, hpath, hrow⟩ := hok
      obtain ⟨howner', hsame⟩ := h.locked t' presented ht howner
      refine ⟨howner', hreach hpath, ?_⟩
      rintro (hrevoked | rfl)
      · exact h.rows.kept current row (hrow (Or.inl hrevoked)) hrevoked
      · exact hsame.trans (hrow (Or.inr rfl))
    | resolved now session =>
      obtain ⟨howner, hpath, hlive⟩ := hok
      obtain ⟨howner', hsame⟩ := h.locked t' presented ht howner
      exact ⟨howner', hreach hpath, fun heq => (hlive heq).of_getElem? hsame⟩
  | revokeLive phase =>
    cases phase with
    | locking todo => trivial
    | updating todo matched =>
      obtain ⟨howner, hall⟩ := hok
      refine ⟨fun r hr => (h.locked t' r ht (howner r hr)).1, fun r hr => ?_⟩
      exact hall r (hgrows ⟨t', todo, matched, hx⟩ r hr)
  | revokeChain named phase =>
    cases phase with
    | following current hops => exact hreach hok
    | found r =>
      obtain ⟨howner, hpath, hlive⟩ := hok
      obtain ⟨howner', hsame⟩ := h.locked t' r ht howner
      exact ⟨howner', hreach hpath, hlive.of_getElem? hsame⟩

theorem LogOk.frame (hlog : LogOk s) (h : Extends s.rows s'.rows) (hrows : Chained s.rows)
    (hgrows : .revokedLive ∈ s.log → ∀ r, Live s'.rows r → Live s.rows r)
    (hsame : s'.log = s.log) : LogOk s' where
  live := by
    rw [hsame]
    exact fun hmem r hr => hlog.live hmem r (hgrows hmem r hr)
  chain := by
    rw [hsame]
    intro named hmem
    obtain ⟨hlt, hdead⟩ := hlog.chain named hmem
    exact ⟨lt_of_lt_of_le hlt h.length, fun r hr => h.dead hrows hlt hdead hr⟩
  rotated := by
    rw [hsame]
    intro r q hmem
    obtain ⟨hlt, hdead⟩ := hlog.rotated r q hmem
    exact ⟨lt_of_lt_of_le hlt h.length, fun hlive => hdead (h.live r hlive hlt)⟩
  order := by
    rw [hsame]
    refine List.Pairwise.imp_of_mem (fun {newer older} _ hmem hcompatible => ?_) hlog.order
    cases newer with
    | answered presented session =>
      cases older with
      | revokedChain named =>
        obtain ⟨hlt, hdead⟩ := hlog.chain named hmem
        exact fun hin => hcompatible (h.inChain hlt hdead hin)
      | revokedLive => exact hcompatible
      | answered => trivial
      | rotated => trivial
    | rotated r q =>
      cases older with
      | rotated r' q' => exact hcompatible
      | revokedChain => trivial
      | revokedLive => trivial
      | answered => trivial
    | revokedLive => cases older <;> trivial
    | revokedChain => cases older <;> trivial

theorem LogOk.cons {e : Event} (hlog : LogOk s)
    (hlive : e = .revokedLive → ∀ r, ¬ Live s.rows r)
    (hchain : ∀ named, e = .revokedChain named →
      named < s.rows.length ∧ ∀ r, InChain s.rows named r → ¬ Live s.rows r)
    (hrotated : ∀ r q, e = .rotated r q → r < s.rows.length ∧ ¬ Live s.rows r)
    (horder : ∀ older ∈ s.log, Compatible s.rows e older) : LogOk (s.record [e]) where
  live := fun hmem => (List.mem_cons.mp hmem).elim (fun h => hlive h.symm) hlog.live
  chain := fun named hmem =>
    (List.mem_cons.mp hmem).elim (fun h => hchain named h.symm) (hlog.chain named)
  rotated := fun r q hmem =>
    (List.mem_cons.mp hmem).elim (fun h => hrotated r q h.symm) (hlog.rotated r q)
  order := List.pairwise_cons.mpr ⟨horder, hlog.order⟩

theorem Inv.of_frame (hinv : Inv s) (h : Frame t s s')
    (hgrows : Updating s → ∀ r, Live s'.rows r → Live s.rows r)
    (hlocks : ∀ r t', s'.owner r = some t' → r < s.rows.length)
    (htxn : ∀ x, s'.txns t = some x → TxnOk s' t x) (hlog : LogOk s') : Inv s' where
  rows := h.rows.chained hinv.rows
  locks := fun r t' howner => lt_of_lt_of_le (hlocks r t' howner) h.rows.length
  txns := by
    intro t' x hx
    by_cases ht : t' = t
    · subst ht
      exact htxn x hx
    · have hold : s.txns t' = some x := (h.txns t' ht).symm.trans hx
      exact (hinv.txns t' x hold).frame ht h hinv.rows hgrows hold
  log := hlog

theorem owner_of_finish (h : (s.finish t).owner r = some t') : s.owner r = some t' := by
  obtain ⟨-, h⟩ := Option.ite_none_left_eq_some.mp h
  exact h

theorem Inv.finish (hinv : Inv s) (t : ℕ) : Inv (s.finish t) := by
  apply hinv.of_frame (Frame.refl t s).finish
  · exact fun _ _ h => h
  · exact fun r t' howner => hinv.locks r t' (owner_of_finish howner)
  · intro x hx
    rw [State.finish_txns_self] at hx
    cases hx
  · exact hinv.log.frame (.refl _) hinv.rows (fun _ _ h => h) rfl

theorem Inv.put (hinv : Inv s) (hok : TxnOk s t x) : Inv (s.put t x) := by
  apply hinv.of_frame ((Frame.refl t s).put x)
  · exact fun _ _ h => h
  · exact hinv.locks
  · intro y hy
    rw [State.put_txns_self, Option.some.injEq] at hy
    exact hy ▸ hok
  · exact hinv.log.frame (.refl _) hinv.rows (fun _ _ h => h) rfl

theorem Inv.lockPut (hinv : Inv s) (hfree : s.free t r = true) (hlt : r < s.rows.length)
    (hok : TxnOk (s.lock t r) t x) : Inv ((s.lock t r).put t x) := by
  apply hinv.of_frame ((Frame.lock hfree).put x)
  · exact fun _ _ h => h
  · intro r' t' howner
    by_cases hr : r' = r
    · exact hr ▸ hlt
    · exact hinv.locks r' t' ((Function.update_of_ne hr _ _).symm.trans howner)
  · intro y hy
    rw [State.put_txns_self, Option.some.injEq] at hy
    exact hy ▸ hok
  · exact hinv.log.frame (.refl _) hinv.rows (fun _ _ h => h) rfl

end SpatiumDdi.Auth.Rotation

/-!
What a revocation that has committed leaves. A refresh holds the lock of the live row it rotates,
so a force-logout, which locks the live end of its chain, waits for it. A bulk revocation does not
lock what its `UPDATE` has not reached, and a refresh that rotates such a row meanwhile leaves a
successor the snapshot does not have.
-/

namespace SpatiumDdi.Auth.Rotation

/-- A refresh rotates while no bulk revocation is inside its `UPDATE`; and what it answers with
within the grace is live when it answers. -/
def Orderly (s : State) : Action → Prop
  | .answer t true => ∀ presented now session,
      s.txns t = some (.refresh presented (.resolved now session)) →
        if session = presented then
          ∀ t' todo matched, s.txns t' ≠ some (.revokeLive (.updating todo matched))
        else Live s.rows session
  | _ => True

def OrderlyRun (s : State) : List Action → Prop
  | [] => True
  | a :: as => Orderly s a ∧ ∀ s', step s a = some s' → OrderlyRun s' as

/-- After a revocation what it revoked is over and is not refreshed, and no session is rotated
twice. -/
structure Safe (s : State) : Prop where
  live : .revokedLive ∈ s.log → Ended s.rows fun _ => True
  chain : ∀ named, .revokedChain named ∈ s.log → Ended s.rows (InChain s.rows named)
  order : s.log.Pairwise (Compatible s.rows)

variable {s s' : State}

variable {t presented current hops r named : ℕ} {ids : List ℕ}

theorem Inv.hop (hinv : Inv s) {now : ℤ} {row : Session}
    (hok : TxnOk s t (.refresh presented (.walking now current row hops))) :
    Inv (hop s t presented now current row hops) := by
  obtain ⟨howner, hpath, hrow⟩ := hok
  cases hops with
  | zero => exact hinv.finish t
  | succ hops =>
    rw [Rotation.hop]
    split
    case isTrue hlive =>
      refine hinv.put ⟨howner, hpath, fun heq => ?_⟩
      exact heq ▸ ⟨row, hrow (Or.inr heq), hlive⟩
    case isFalse hrevoked =>
      split
      case isFalse => exact hinv.finish t
      case isTrue hgrace =>
        split
        case h_1 => exact hinv.finish t
        case h_2 next hnext =>
          split
          case h_1 => exact hinv.finish t
          case h_2 nextRow hnextRow =>
            have hcurrent := hrow (Or.inl (by simpa using hrevoked))
            exact hinv.put ⟨howner, hpath.tail ⟨row, hcurrent, hnext⟩, fun _ => hnextRow⟩

theorem Inv.rotate (hinv : Inv s) {now : ℤ} (howner : s.owner presented = some t)
    (hlive : Live s.rows presented) (hquiet : ¬ Updating s) :
    Inv (((s.rotate presented now).finish t).record
      [.answered presented s.rows.length, .rotated presented s.rows.length]) := by
  have hframe : Frame t s ((s.rotate presented now).finish t) :=
    (Frame.rotate hlive howner hinv.locks).finish
  have hnone : .revokedLive ∉ s.log := fun hmem => hinv.log.live hmem presented hlive
  have hlog : LogOk ((s.rotate presented now).finish t) :=
    hinv.log.frame hframe.rows hinv.rows (fun hmem => absurd hmem hnone) rfl
  have hdead : ¬ Live (s.rotate presented now).rows presented := by
    rintro ⟨row, hrow, hrowLive⟩
    obtain ⟨old, hold, -⟩ := id hlive
    rw [getElem?_rotate, if_neg (Nat.ne_of_lt hlive.lt), hold, Option.map_some, if_pos rfl,
      Option.some.injEq] at hrow
    rw [← hrow] at hrowLive
    cases hrowLive
  have hrotated : ∀ older ∈ s.log,
      Compatible (s.rotate presented now).rows (.rotated presented s.rows.length) older := by
    intro older hmem
    cases older with
    | rotated r q =>
      rintro rfl
      exact (hinv.log.rotated presented q hmem).2 hlive
    | answered => trivial
    | revokedLive => trivial
    | revokedChain => trivial
  have hanswered : ∀ older ∈ s.log,
      Compatible (s.rotate presented now).rows (.answered presented s.rows.length) older := by
    intro older hmem
    cases older with
    | revokedChain named =>
      obtain ⟨hlt, hchain⟩ := hinv.log.chain named hmem
      exact fun hin => hchain presented (hframe.rows.inChain hlt hchain hin) hlive
    | revokedLive => exact hnone hmem
    | answered => trivial
    | rotated => trivial
  apply hinv.of_frame ((hframe.record [.rotated presented s.rows.length]).record
    [.answered presented s.rows.length])
  · exact fun h => absurd h hquiet
  · intro r t' howner'
    exact hinv.locks r t' (owner_of_finish howner')
  · intro x hx
    exact absurd hx (by simp [State.record])
  · refine LogOk.cons (LogOk.cons hlog (by simp) (by simp) ?_ hrotated) (by simp) (by simp)
      (by simp) ?_
    · rintro r q heq
      cases heq
      exact ⟨lt_of_lt_of_le hlive.lt hframe.rows.length, hdead⟩
    · intro older hmem
      rcases List.mem_cons.mp hmem with rfl | hmem
      · trivial
      · exact hanswered older hmem

theorem Inv.answerInGrace (hinv : Inv s) {session : ℕ} (hpath : Reach s.rows presented session)
    (hlive : Live s.rows session) : Inv ((s.finish t).record [.answered presented session]) := by
  have hdone := hinv.finish t
  have horder : ∀ older ∈ s.log, Compatible s.rows (.answered presented session) older := by
    intro older hmem
    cases older with
    | revokedChain named =>
      exact fun hin => (hinv.log.chain named hmem).2 session (hin.trans hpath) hlive
    | revokedLive => exact hinv.log.live hmem session hlive
    | answered => trivial
    | rotated => trivial
  exact ⟨hdone.rows, hdone.locks, hdone.txns,
    hdone.log.cons (by simp) (by simp) (by simp) horder⟩

theorem not_live_revoke (hmem : r ∈ ids) : ¬ Live (s.revoke ids).rows r := by
  rintro ⟨row, hrow, hlive⟩
  rw [getElem?_revoke, Option.map_eq_some_iff] at hrow
  obtain ⟨old, -, rfl⟩ := hrow
  rw [if_pos hmem] at hlive
  cases hlive

theorem live_of_revoke (h : Live (s.revoke ids).rows r) : Live s.rows r := by
  have hlength : (s.revoke ids).rows.length = s.rows.length := by simp [State.revoke]
  exact (extends_revoke ids).live r h (hlength ▸ h.lt)

theorem Inv.commitRevoke (hinv : Inv s) {event : Event}
    (hframe : Frame t s ((s.revoke ids).finish t))
    (hlog : LogOk ((s.revoke ids).finish t) → LogOk (((s.revoke ids).finish t).record [event])) :
    Inv (((s.revoke ids).finish t).record [event]) := by
  apply hinv.of_frame (hframe.record [event])
  · exact fun _ _ => live_of_revoke
  · intro r t' howner'
    exact hinv.locks r t' (owner_of_finish howner')
  · intro x hx
    exact absurd hx (by simp [State.record])
  · exact hlog (hinv.log.frame hframe.rows hinv.rows (fun _ _ => live_of_revoke) rfl)

theorem Inv.commitLive (hinv : Inv s) {matched : List ℕ}
    (hok : TxnOk s t (.revokeLive (.updating [] matched))) :
    Inv (((s.revoke matched).finish t).record [.revokedLive]) := by
  obtain ⟨howner, hall⟩ := hok
  have hdead : ∀ r, ¬ Live (s.revoke matched).rows r := by
    intro r hr
    have hmem : r ∈ matched := by
      simpa using hall r (live_of_revoke hr)
    exact not_live_revoke hmem hr
  refine hinv.commitRevoke (Frame.revoke howner).finish fun hlog => ?_
  refine hlog.cons (fun _ => hdead) (by simp) (by simp) fun older _ => ?_
  cases older <;> trivial

variable {r : ℕ} {a : Action} {as : List Action}

theorem next_revoke {q : ℕ} (h : Next (s.revoke ids).rows r q) : Next s.rows r q := by
  rcases (extends_revoke ids).next r q h with hold | ⟨-, -, heq, hlt⟩
  · exact hold
  · rw [heq] at hlt
    simp [State.revoke] at hlt

theorem inChain_revoke (h : InChain (s.revoke ids).rows named r) : InChain s.rows named r :=
  h.imp (Relation.ReflTransGen.mono (fun _ _ => next_revoke) _ _)
    (Relation.ReflTransGen.mono (fun _ _ => next_revoke) _ _)

theorem Inv.commitChain (hinv : Inv s) {found : ℕ}
    (hok : TxnOk s t (.revokeChain named (.found found))) :
    Inv (((s.revoke [found]).finish t).record [.revokedChain named]) := by
  obtain ⟨howner, hpath, hlive⟩ := hok
  have hframe : Frame t s ((s.revoke [found]).finish t) :=
    (Frame.revoke (by simpa using howner)).finish
  have hnamed : named < s.rows.length := by
    rcases Relation.ReflTransGen.cases_head hpath with rfl | ⟨b, hb, -⟩
    · exact hlive.lt
    · exact hb.lt
  have hdead : ∀ r, InChain (s.revoke [found]).rows named r → ¬ Live (s.revoke [found]).rows r := by
    intro r hr hrLive
    obtain rfl : r = found :=
      InChain.eq_of_live hinv.rows hpath hlive (inChain_revoke hr) (live_of_revoke hrLive)
    exact not_live_revoke List.mem_cons_self hrLive
  refine hinv.commitRevoke hframe fun hlog => ?_
  refine hlog.cons (by simp) ?_ (by simp) fun older _ => ?_
  · intro named' heq
    cases heq
    exact ⟨lt_of_lt_of_le hnamed hframe.rows.length, hdead⟩
  · cases older <;> trivial

theorem Inv.followChain (hinv : Inv s) (hfree : s.free t current = true)
    (hpath : Reach s.rows named current) : Inv (followChain s t named current hops) := by
  cases hops with
  | zero => exact hinv.finish t
  | succ hops =>
    rw [Rotation.followChain]
    split
    case h_1 => exact hinv.finish t
    case h_2 row hrow =>
      have hlt := lt_of_getElem? hrow
      split
      case isTrue hlive =>
        exact hinv.lockPut hfree hlt ⟨Function.update_self .., hpath, row, hrow, hlive⟩
      case isFalse =>
        split
        case h_1 hnext => exact hinv.lockPut hfree hlt (hpath.tail ⟨row, hrow, hnext⟩)
        case h_2 => exact hinv.finish t

theorem mem_liveRows : r ∈ s.liveRows ↔ Live s.rows r := by
  simp only [State.liveRows, List.mem_filter, List.mem_range, State.isLive, Option.any_eq_true,
    decide_eq_true_eq]
  constructor
  · rintro ⟨-, row, hrow, hlive⟩
    exact ⟨row, hrow, hlive⟩
  · rintro ⟨row, hrow, hlive⟩
    exact ⟨lt_of_getElem? hrow, row, hrow, hlive⟩

theorem isLive_iff : s.isLive r = true ↔ Live s.rows r := by
  simp only [State.isLive, Option.any_eq_true, decide_eq_true_eq, Live]

theorem Inv.step (hinv : Inv s) (horderly : Orderly s a) (h : step s a = some s') : Inv s' := by
  cases a <;> simp only [Rotation.step] at h
  case refresh t cookie =>
    split at h
    · cases h
      exact hinv.put trivial
    · cases h
  case lockPresented t now =>
    split at h
    case h_2 => cases h
    case h_1 presented htxn =>
      obtain ⟨hfree, h⟩ := Option.ite_none_right_eq_some.mp h
      split at h
      case h_1 =>
        cases h
        exact hinv.finish t
      case h_2 row hrow =>
        cases h
        exact hinv.lockPut hfree (lt_of_getElem? hrow)
          ⟨Function.update_self .., Relation.ReflTransGen.refl, fun _ => hrow⟩
  case hop t =>
    split at h
    case h_2 => cases h
    case h_1 htxn =>
      cases h
      exact hinv.hop (hinv.txns t _ htxn)
  case answer t ok =>
    split at h
    case h_2 => cases h
    case h_1 presented now session htxn =>
      cases h
      obtain ⟨howner, hpath, hlive⟩ := hinv.txns t _ htxn
      cases ok with
      | false => exact hinv.finish t
      | true =>
        have hcond := horderly presented now session htxn
        unfold Rotation.answer
        by_cases heq : session = presented
        · rw [if_pos rfl, if_pos heq]
          rw [if_pos heq] at hcond
          refine hinv.rotate howner (hlive heq) ?_
          rintro ⟨t', todo, matched, hupdating⟩
          exact hcond t' todo matched hupdating
        · rw [if_pos rfl, if_neg heq]
          rw [if_neg heq] at hcond
          exact hinv.answerInGrace hpath hcond
  case revokeLive t =>
    split at h
    · cases h
      exact hinv.put trivial
    · cases h
  case lockLive t r =>
    split at h
    case h_2 => cases h
    case h_1 todo htxn =>
      obtain ⟨hmem, h⟩ := Option.ite_none_right_eq_some.mp h
      cases h
      cases hlive : s.isLive r with
      | true => exact hinv.lockPut hmem.2 (isLive_iff.mp hlive).lt trivial
      | false => exact hinv.put trivial
  case beginUpdate t =>
    split at h
    case h_2 => cases h
    case h_1 =>
      cases h
      exact hinv.put ⟨by simp, fun r hr => Or.inl (mem_liveRows.mpr hr)⟩
  case updateRow t r =>
    split at h
    case h_2 => cases h
    case h_1 todo matched htxn =>
      obtain ⟨hmem, h⟩ := Option.ite_none_right_eq_some.mp h
      obtain ⟨howner, hall⟩ := hinv.txns t _ htxn
      have herase : ∀ r', Live s.rows r' → r' ≠ r → r' ∈ todo.erase r ∨ r' ∈ matched :=
        fun r' hr' hne => (hall r' hr').imp_left (List.mem_erase_of_ne hne).mpr
      split at h
      case isTrue hlive =>
        cases h
        refine hinv.lockPut hmem.2 (isLive_iff.mp hlive).lt ⟨?_, fun r' hr' => ?_⟩
        · intro r' hr'
          by_cases hne : r' = r
          · exact hne ▸ Function.update_self ..
          · exact (Function.update_of_ne hne _ _).trans
              (howner r' ((List.mem_cons.mp hr').resolve_left hne))
        · by_cases hne : r' = r
          · exact Or.inr (hne ▸ List.mem_cons_self)
          · exact (herase r' hr' hne).imp_right (List.mem_cons_of_mem r)
      case isFalse hdead =>
        cases h
        refine hinv.put ⟨howner, fun r' hr' => herase r' hr' ?_⟩
        rintro rfl
        exact hdead (isLive_iff.mpr hr')
  case commitLive t =>
    split at h
    case h_2 => cases h
    case h_1 htxn =>
      cases h
      exact hinv.commitLive (hinv.txns t _ htxn)
  case revokeChain t named =>
    split at h
    · cases h
      exact hinv.put (x := .revokeChain named (.following named maxRevokeHops))
        Relation.ReflTransGen.refl
    · cases h
  case lockNext t =>
    split at h
    case h_2 => cases h
    case h_1 named current hops htxn =>
      obtain ⟨hfree, h⟩ := Option.ite_none_right_eq_some.mp h
      cases h
      exact hinv.followChain hfree (hinv.txns t _ htxn)
  case commitChain t =>
    split at h
    case h_2 => cases h
    case h_1 htxn =>
      cases h
      exact hinv.commitChain (hinv.txns t _ htxn)
  case rollback t =>
    cases h
    exact hinv.finish t

theorem Inv.run (hinv : Inv s) (horderly : OrderlyRun s as) (h : run s as = some s') : Inv s' := by
  induction as generalizing s with
  | nil =>
    cases h
    exact hinv
  | cons a as ih =>
    rw [Rotation.run, Option.bind_eq_some_iff] at h
    obtain ⟨mid, hmid, hrest⟩ := h
    exact ih (hinv.step horderly.1 hmid) (horderly.2 mid hmid) hrest

theorem Inv.start {rows : List Session} (hrows : Chained rows) : Inv (.start rows) where
  rows := hrows
  locks := fun r t h => by cases h
  txns := fun t x h => by cases h
  log := ⟨fun h _ => (List.not_mem_nil h).elim, fun _ h => (List.not_mem_nil h).elim,
    fun _ _ h => (List.not_mem_nil h).elim, List.Pairwise.nil⟩

theorem Inv.safe (hinv : Inv s) : Safe s where
  live := fun hmem =>
    Ended.of_live (fun _ _ _ _ => trivial) fun r _ => hinv.log.live hmem r
  chain := fun named hmem =>
    Ended.of_live (fun _ _ => InChain.trans) (hinv.log.chain named hmem).2
  order := hinv.log.order

theorem Inv.commitChain_others (hinv : Inv s) (h : Rotation.step s (.commitChain t) = some s') :
    ∃ named, s'.log = .revokedChain named :: s.log ∧
      ∀ r, ¬ InChain s.rows named r → s'.rows[r]? = s.rows[r]? := by
  simp only [Rotation.step] at h
  split at h
  case h_2 => cases h
  case h_1 named found htxn =>
    cases h
    obtain ⟨-, hpath, -⟩ := hinv.txns t _ htxn
    refine ⟨named, rfl, fun r hr => ?_⟩
    have hne : r ≠ found := fun heq => hr (heq ▸ Or.inl hpath)
    exact (getElem?_revoke [found] r).trans (by simp [hne])

/-- **In every run whose refreshes rotate outside the `UPDATE` of a bulk revocation, and answer
within the grace with what is live, a revocation that has committed leaves no session behind.** -/
theorem revocation_complete {rows : List Session} (hrows : Chained rows) {as : List Action}
    (horderly : OrderlyRun (.start rows) as) (h : run (.start rows) as = some s) :
    Safe s ∧ ∀ t s', step s (.commitChain t) = some s' →
      ∃ named, s'.log = .revokedChain named :: s.log ∧
        ∀ r, ¬ InChain s.rows named r → s'.rows[r]? = s.rows[r]? :=
  have hinv := (Inv.start hrows).run horderly h
  ⟨hinv.safe, fun _ _ hstep => hinv.commitChain_others hstep⟩

/-- A refresh rotates, and then every session is revoked. -/
def lateRevocation : List Action :=
  [.refresh 1 0, .lockPresented 1 0, .hop 1, .answer 1 true, .revokeLive 0, .lockLive 0 1,
    .beginUpdate 0, .updateRow 0 1, .commitLive 0]

/-- Two tabs race along the chain while the revocation looks for its live end: the first refresh
commits before the `UPDATE` takes its snapshot, the second after it. -/
def racedRevocation : List Action :=
  [.refresh 1 0, .lockPresented 1 0, .hop 1, .revokeLive 0, .answer 1 true, .refresh 2 1,
    .lockPresented 2 5, .hop 2, .lockLive 0 0, .beginUpdate 0, .answer 2 true, .updateRow 0 1,
    .commitLive 0]

theorem OrderlyRun.cons (ha : Orderly s a) (hstep : Rotation.step s a = some s')
    (hrest : OrderlyRun s' as) : OrderlyRun s (a :: as) := by
  refine ⟨ha, fun mid hmid => ?_⟩
  rw [hstep, Option.some.injEq] at hmid
  exact hmid ▸ hrest

theorem chained_single : Chained [{}] := by
  have hnone : ∀ r q, ¬ Next [{}] r q := by
    rintro r q ⟨row, hrow, hq⟩
    cases r with
    | zero =>
      cases hrow
      cases hq
    | succ r => cases hrow
  exact ⟨fun r _ q => hnone r q, fun r q h => absurd h (hnone r q)⟩

theorem revocation_complete_late :
    ∃ s, run (.start [{}]) lateRevocation = some s ∧ .revokedLive ∈ s.log ∧ s.rows.length = 2 ∧
      Safe s := by
  have horderly : OrderlyRun (.start [{}]) lateRevocation := by
    refine .cons trivial rfl (.cons trivial rfl (.cons trivial rfl (.cons ?_ rfl
      (.cons trivial rfl (.cons trivial rfl (.cons trivial rfl (.cons trivial rfl
        (.cons trivial rfl trivial))))))))
    intro presented now session htxn
    cases htxn
    rw [if_pos rfl]
    intro t' todo matched hupdating
    by_cases ht : t' = 1
    · subst ht
      cases hupdating
    · have hnone : (none : Option Txn) = some (.revokeLive (.updating todo matched)) := by
        rw [← hupdating]
        simp [hop, State.put, State.lock, State.start, Function.update_of_ne ht, maxHops]
      cases hnone
  exact ⟨_, rfl, by decide, rfl, (revocation_complete chained_single horderly rfl).1⟩

/-- The successor of the second refresh outlives the revocation. -/
theorem revocation_leaves_session :
    ∃ s, run (.start [{}]) racedRevocation = some s ∧ .revokedLive ∈ s.log ∧ Live s.rows 2 ∧
      ¬ Safe s := by
  have hlive : Live [⟨true, some 0, some 1⟩, ⟨true, some 5, some 2⟩, {}] 2 := ⟨{}, rfl, rfl⟩
  refine ⟨_, rfl, by decide, hlive, fun hsafe => ?_⟩
  exact (hsafe.live (by decide) 2 trivial).1 hlive

end SpatiumDdi.Auth.Rotation
