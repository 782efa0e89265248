import Mathlib.Data.List.Perm.Subperm
import Mathlib.Order.WellFounded
import SpatiumDdi.Dns.OpAttemptsMoves

/-!
Histories of record ops: each dispatch is charged at most once, only a spent budget fails an op, an
applied op stays applied, and the links end. What the order of a batch may change is left.
-/

namespace SpatiumDdi.Dns.OpAttempts

variable {Key : Type} [DecidableEq Key] {dispatched refused : List ℕ}

/-- The accounts of an op: it was dispatched under every number it was charged for and under the one
it is in flight with, and until it is applied each of these charges has its refusal. -/
structure Accounted (row : Row) (dispatched refused : List ℕ) : Prop where
  shipped_at : ∀ d < row.attempts, d ∈ dispatched
  shipped_now : row.state = .inFlight → row.attempts ∈ dispatched
  refused_at : row.state ≠ .applied → ∀ d < row.attempts, d ∈ refused
  spent : row.state = .failed → maxOpAttempts ≤ row.attempts

theorem Accounted.move {r r' : Row} {shipped charged : Bool} {dispatched' : List ℕ}
    {refused' : List ℕ} (h : Accounted r dispatched refused) (hmove : Move shipped charged r r')
    (hdispatched : dispatched ⊆ dispatched') (hship : shipped = true → r.attempts ∈ dispatched')
    (hrefused : refused ⊆ refused') (hcharge : charged = true → r.attempts ∈ refused') :
    Accounted r' dispatched' refused' := by
  cases hmove with
  | stay _ hstate hattempts =>
    constructor
    · intro d hd
      exact hdispatched (h.shipped_at d (hattempts ▸ hd))
    · intro hflight
      exact hattempts ▸ hdispatched (h.shipped_now (hstate ▸ hflight))
    · intro hne d hd
      exact hrefused (h.refused_at (hstate ▸ hne) d (hattempts ▸ hd))
    · intro hfailed
      exact hattempts ▸ h.spent (hstate ▸ hfailed)
  | ship hshipped hpending hstate hattempts =>
    constructor
    · intro d hd
      exact hdispatched (h.shipped_at d (hattempts ▸ hd))
    · intro _
      exact hattempts ▸ hship hshipped
    · intro _ d hd
      exact hrefused (h.refused_at (by simp [hpending]) d (hattempts ▸ hd))
    · intro hfailed
      rw [hstate] at hfailed
      cases hfailed
  | retire _ hpending hstate hattempts =>
    constructor
    · intro d hd
      exact hdispatched (h.shipped_at d (hattempts ▸ hd))
    · intro hflight
      rw [hstate] at hflight
      cases hflight
    · intro _ d hd
      exact hrefused (h.refused_at (by simp [hpending]) d (hattempts ▸ hd))
    · intro hfailed
      rw [hstate] at hfailed
      cases hfailed
  | charge _ hcharged hflight hattempts hnext =>
    -- The dispatch that is charged is the one the op was in flight with.
    have hlt : ∀ d < r'.attempts, d < r.attempts ∨ d = r.attempts := by
      intro d hd
      rw [hattempts] at hd
      exact Nat.lt_succ_iff_lt_or_eq.1 hd
    constructor
    · intro d hd
      rcases hlt d hd with hd | rfl
      · exact hdispatched (h.shipped_at d hd)
      · exact hdispatched (h.shipped_now hflight)
    · intro hflight'
      rcases hnext with ⟨hstate, -⟩ | hstate | hstate <;> rw [hstate] at hflight' <;> cases hflight'
    · intro _ d hd
      rcases hlt d hd with hd | rfl
      · exact hrefused (h.refused_at (by simp [hflight]) d hd)
      · exact hcharge hcharged
    · intro hfailed
      rcases hnext with ⟨-, hspent⟩ | hstate | hstate
      · exact hspent
      · rw [hstate] at hfailed
        cases hfailed
      · rw [hstate] at hfailed
        cases hfailed
  | settle _ hne hstate hattempts =>
    constructor
    · intro d hd
      rcases hattempts with hattempts | ⟨hflight, hattempts⟩
      · exact hdispatched (h.shipped_at d (hattempts ▸ hd))
      · rw [hattempts] at hd
        rcases Nat.lt_succ_iff_lt_or_eq.1 hd with hd | rfl
        · exact hdispatched (h.shipped_at d hd)
        · exact hdispatched (h.shipped_now hflight)
    · intro hflight
      rw [hstate] at hflight
      cases hflight
    · intro hne
      exact absurd hstate hne
    · intro hfailed
      rw [hstate] at hfailed
      cases hfailed

theorem accounted_after (past : List (Event Key)) (i : ℕ) :
    Accounted ((after past).rows i) (dispatches i past) (refusals i past) := by
  induction past with
  | nil =>
    have hrow : (after ([] : List (Event Key))).rows i = {} := rfl
    rw [hrow]
    exact ⟨by simp, by simp, by simp, by simp⟩
  | cons e past ih =>
    refine ih.move (step_move (after past) e i).1 ?_ ?_ ?_ ?_
    · rw [dispatches]
      split_ifs
      · exact List.subset_cons_self _ _
      · exact List.Subset.refl _
    · intro hship
      rw [dispatches, if_pos hship]
      exact List.mem_cons_self
    · rw [refusals]
      split_ifs
      · exact List.subset_cons_self _ _
      · exact List.Subset.refl _
    · intro hcharge
      rw [refusals, if_pos hcharge]
      exact List.mem_cons_self

theorem Accounted.attempts_le {row : Row} (h : Accounted row dispatched refused) :
    row.attempts ≤ dispatched.length := by
  have hsubset : List.range row.attempts ⊆ dispatched := by
    intro d hd
    exact h.shipped_at d (List.mem_range.1 hd)
  calc row.attempts = (List.range row.attempts).length := List.length_range.symm
    _ ≤ dispatched.length := (List.subperm_of_subset List.nodup_range hsubset).length_le

variable {s : State Key} {i : ℕ}

theorem step_applied (e : Event Key) (happlied : (s.rows i).state = .applied) :
    ((step s e).rows i).state = .applied := by
  cases (step_move s e i).1 with
  | stay _ hstate _ => rw [hstate, happlied]
  | ship _ hpending => rw [happlied] at hpending; cases hpending
  | retire _ hpending => rw [happlied] at hpending; cases hpending
  | charge _ _ hflight => rw [happlied] at hflight; cases hflight
  | settle _ _ hstate _ => exact hstate

theorem after_applied {past : List (Event Key)} (happlied : ((after past).rows i).state = .applied)
    (later : List (Event Key)) : ((after (later ++ past)).rows i).state = .applied := by
  induction later with
  | nil => exact happlied
  | cons e later ih => exact step_applied e ih

theorem acks_applied {server : ℕ} {acks : List Ack} {now : ℤ} {ack : Ack} (hack : ack ∈ acks)
    (hok : ack.ok = true) (hmine : ofServer s.ops server ack.op = true) :
    ((step s (.acks server acks now)).rows ack.op).state = .applied := by
  have hrow : (step s (.acks server acks now)).rows ack.op =
      applyAcks s.ops server now acks s.rows ack.op := rfl
  cases hfound : acks.find? (Ack.confirms ack.op) with
  | none =>
    have hnone := List.find?_eq_none.1 hfound ack hack
    simp [Ack.confirms, hok] at hnone
  | some first =>
    rw [hrow, applyAcks_of_confirmed hmine hfound]
    split_ifs with happlied
    · exact happlied
    · rfl

variable {j : ℕ}

omit [DecidableEq Key] in
theorem Follows.append {ops : List (Op Key)} (h : Follows ops i j) (op : Op Key) :
    Follows (ops ++ [op]) i j := by
  obtain ⟨a, b, ha, hb, h⟩ := h
  exact ⟨a, b, List.getElem?_append_left (List.getElem?_eq_some_iff.1 ha).1 ▸ ha,
    List.getElem?_append_left (List.getElem?_eq_some_iff.1 hb).1 ▸ hb, h⟩

theorem Follows.step (h : Follows s.ops i j) (e : Event Key) : Follows (step s e).ops i j := by
  cases e with
  | queue op => exact h.append op
  | page | acks | reset | giveBack => exact h

theorem follows_of_link (past : List (Event Key))
    (hlink : ((after past).rows i).supersededBy = some j) : Follows (after past).ops i j := by
  induction past with
  | nil => cases hlink
  | cons e past ih =>
    rcases (step_move (after past) e i).2 with hkept | ⟨k, hk, hfollows⟩
    · exact (ih (hkept ▸ hlink)).step e
    · rw [after, hk, Option.some.injEq] at hlink
      exact hlink ▸ hfollows.step e

omit [DecidableEq Key] in
theorem queuedAfter_irrefl (a : Op Key) : queuedAfter a a = false := by
  unfold queuedAfter
  cases a.seq <;> simp

omit [DecidableEq Key] in
theorem queuedAfter_trans {a b c : Op Key} (hab : queuedAfter a b = true)
    (hbc : queuedAfter b c = true) : queuedAfter a c = true := by
  unfold queuedAfter at *
  cases ha : a.seq <;> cases hb : b.seq <;> cases hc : c.seq <;>
    simp only [ha, hb, hc] at * <;> split_ifs at * <;> simp at * <;> omega

theorem wellFounded_links (past : List (Event Key)) :
    WellFounded fun j i => ((after past).rows i).supersededBy = some j := by
  let later : ℕ → ℕ := fun i =>
    ((after past).ops.filter fun b => (after past).ops[i]?.any fun a => queuedAfter b a).length
  refine Subrelation.wf (r := InvImage (· < ·) later) ?_ (InvImage.wf later Nat.lt_wfRel.wf)
  intro j i hlink
  obtain ⟨a, b, ha, hb, -, -, -, hafter⟩ := follows_of_link past hlink
  have hsub : (after past).ops.filter (queuedAfter · b) =
      ((after past).ops.filter (queuedAfter · a)).filter (queuedAfter · b) := by
    rw [List.filter_filter]
    refine List.filter_congr fun c _ => ?_
    cases hc : queuedAfter c b with
    | false => rfl
    | true => rw [queuedAfter_trans hc hafter]; rfl
  have hmem : b ∈ (after past).ops.filter (queuedAfter · a) :=
    List.mem_filter.2 ⟨List.mem_of_getElem? hb, hafter⟩
  simp only [InvImage, later, ha, hb, Option.any_some]
  rw [hsub, List.length_filter_lt_length_iff_exists]
  exact ⟨b, hmem, by simp [queuedAfter_irrefl]⟩

structure ChargedOnce (past : List (Event Key)) : Prop where
  attempts_le : ∀ i, ((after past).rows i).attempts ≤ (dispatches i past).length
  failed : ∀ i, ((after past).rows i).state = .failed →
    ∀ d < maxOpAttempts, d ∈ dispatches i past ∧ d ∈ refusals i past
  applied : ∀ later server acks now earlier, past = later ++ .acks server acks now :: earlier →
    ∀ ack ∈ acks, ack.ok = true → ofServer (after earlier).ops server ack.op = true →
      ((after past).rows ack.op).state = .applied
  order : ∀ later server acks now earlier, past = later ++ .acks server acks now :: earlier →
    ∀ acks', acks'.Perm acks →
      after (.acks server acks' now :: earlier) = after (.acks server acks now :: earlier)
  links : ∀ i j, ((after past).rows i).supersededBy = some j → Follows (after past).ops i j
  ends : WellFounded fun j i => ((after past).rows i).supersededBy = some j

/-- Every batch of the history was unambiguous in the state it met. -/
def Clear (past : List (Event Key)) : Prop :=
  ∀ later server acks now earlier, past = later ++ .acks server acks now :: earlier →
    Unambiguous (ofServer (after earlier).ops server) (after earlier).rows acks

theorem charged_once_iff (past : List (Event Key)) : ChargedOnce past ↔ Clear past := by
  constructor
  · intro h later server acks now earlier hpast
    have hsame : ∀ acks', acks'.Perm acks →
        applyAcks (after earlier).ops server now acks' (after earlier).rows =
          applyAcks (after earlier).ops server now acks (after earlier).rows := by
      intro acks' hperm
      exact congrArg State.rows (h.order later server acks now earlier hpast acks' hperm)
    exact unambiguous_of_perm hsame
  · intro hclear
    constructor
    · intro i
      exact (accounted_after past i).attempts_le
    · intro i hfailed d hd
      have hlt := Nat.lt_of_lt_of_le hd ((accounted_after past i).spent hfailed)
      exact ⟨(accounted_after past i).shipped_at d hlt,
        (accounted_after past i).refused_at (by simp [hfailed]) d hlt⟩
    · intro later server acks now earlier hpast ack hack hok hmine
      have happlied : ((after (.acks server acks now :: earlier)).rows ack.op).state = .applied :=
        acks_applied hack hok hmine
      rw [hpast]
      exact after_applied happlied later
    · intro later server acks now earlier hpast acks' hperm
      have hrows : applyAcks (after earlier).ops server now acks' (after earlier).rows =
          applyAcks (after earlier).ops server now acks (after earlier).rows :=
        applyAcks_perm (hclear later server acks now earlier hpast) hperm
      rw [after, after, step, step, hrows]
    · intro i j hlink
      exact follows_of_link past hlink
    · exact wellFounded_links past

/-- A record of one server that is shipped, taken back after five minutes and shipped again. Then
one batch brings its late `ok` and the current one. -/
def lateOk : List (Event ℕ) :=
  [.acks 0
      [{ op := 0, ok := true, dispatch := some 0 },
        { op := 0, ok := true, dispatch := some 1 }] 700,
    .page 0 [0] [] none none 400, .reset 0 360, .page 0 [0] [] none none 10,
    .queue { server := 0, rrset := some 7, createdAt := 0, seq := some 1 }]

/-- The late `ok` first leaves one attempt, the current one first leaves two. -/
theorem not_charged_once_lateOk : ¬ ChargedOnce lateOk := by
  intro h
  have horder := h.order [] 0 _ 700 _ rfl
    [{ op := 0, ok := true, dispatch := some 1 }, { op := 0, ok := true, dispatch := some 0 }]
    (List.Perm.swap _ _ _)
  have hattempts := congrArg (fun s => (s.rows 0).attempts) horder
  revert hattempts
  decide

end SpatiumDdi.Dns.OpAttempts
