import Mathlib.Algebra.BigOperators.Group.List.Basic
import Mathlib.Tactic.Linarith

/-!
`QueueEvictionEstimator` (`spatium_dhcp_agent/intake.py`): the requests evicted from Kea's packet
queue, from counters that are not read at one instant. What it reports never exceeds what was
evicted by more than a backlog that two snapshots in a row have seen.
-/

namespace SpatiumDdi.Dhcp.Intake

structure QueueEvictionEstimator where
  /-- The last upper bound, `none` without a baseline. -/
  u : Option ℤ := none
  prevL : Option ℤ := none
  prevU : ℤ := 0
  zero : ℤ := 0
  confirmed : Option ℤ := none
  reported : ℤ := 0

namespace QueueEvictionEstimator

/-- The confirmed level, with the lower bound held at two reads in a row. -/
def confirm (e : QueueEvictionEstimator) (lower : ℤ) : Option ℤ :=
  match e.prevL with
  | none => e.confirmed
  | some l =>
    let pair := min l lower
    some (match e.confirmed with
      | none => pair
      | some c => max c pair)

/-- `update`, of four counts and the last upper bound. -/
def measure (e : QueueEvictionEstimator) (u arrived socketDrop received arrivedDuring : ℤ) :
    QueueEvictionEstimator × ℤ :=
  let lower := u + arrived - socketDrop - received
  let upper := lower + arrivedDuring
  let zero := min e.zero (max e.prevU upper)
  let confirmed := (e.confirm lower).map fun c => if upper < c then upper else c
  let total := match confirmed with
    | none => 0
    | some c => max 0 (c - zero)
  let out := max 0 (total - e.reported)
  ({ u := some upper
     prevL := some lower
     prevU := upper
     zero := zero
     confirmed := confirmed
     reported := max e.reported total }, out)

def update (e : QueueEvictionEstimator) (arrived socketDrop received arrivedDuring : Option ℤ) :
    QueueEvictionEstimator × Option ℤ :=
  match arrived, socketDrop, received, arrivedDuring with
  | some arrived, some socketDrop, some received, some arrivedDuring =>
    let result :=
      match e.u with
      | some u => e.measure u arrived socketDrop received arrivedDuring
      -- the previous read is the zero point
      | none => measure { u := some 0 } 0 arrived socketDrop received arrivedDuring
    (result.1, some result.2)
  | _, _, _, _ => ({ e with u := none }, none)

end QueueEvictionEstimator

variable {Time : Type} [Preorder Time]

structure History (Time : Type) [Preorder Time] where
  arrivals : Time → ℕ
  drops : Time → ℕ
  received : Time → ℕ
  evicted : Time → ℕ
  inFlight : Time → ℕ
  arrivals_mono : Monotone arrivals
  drops_mono : Monotone drops
  received_mono : Monotone received
  evicted_mono : Monotone evicted
  balance : ∀ t, arrivals t = drops t + received t + (evicted t + inFlight t)

/-- One bucket: the instants of the two reads of the arrivals and of Kea's snapshot between them,
and the count of drops. -/
structure Read (Time : Type) where
  first : Time
  snapshot : Time
  last : Time
  drops : ℕ

namespace History

variable (H : History Time)

def lower (r : Read Time) : ℤ := H.arrivals r.first - r.drops - H.received r.snapshot

def upper (r : Read Time) : ℤ := H.arrivals r.last - r.drops - H.received r.snapshot

def level (r : Read Time) : ℤ := H.evicted r.snapshot + H.inFlight r.snapshot

structure Fair (r : Read Time) : Prop where
  lower_le : H.lower r ≤ H.level r
  le_upper : H.level r ≤ H.upper r

/-- `update` of what a bucket measures since the one before it. -/
def feed (e : QueueEvictionEstimator) (p r : Read Time) : QueueEvictionEstimator × Option ℤ :=
  e.update (some (H.arrivals r.first - H.arrivals p.last)) (some (r.drops - p.drops))
    (some (H.received r.snapshot - H.received p.snapshot))
    (some (H.arrivals r.last - H.arrivals r.first))

/-- What is returned bucket by bucket, from the bucket before the first. -/
def run (e : QueueEvictionEstimator) (p : Read Time) : List (Read Time) → List (Option ℤ)
  | [] => []
  | r :: reads => (H.feed e p r).2 :: run (H.feed e p r).1 r reads

/-- The largest backlog that two snapshots in a row have seen. -/
def backlog (p : Read Time) : List (Read Time) → ℕ
  | [] => 0
  | r :: reads => max (min (H.inFlight p.snapshot) (H.inFlight r.snapshot)) (backlog r reads)

end History

/-- How the estimator stands to the history after the bucket `p`, from the baseline `b`, where no
pair of snapshots has seen a larger backlog than `m`. -/
structure Follows (H : History Time) (b p : Read Time) (m : ℤ) (e : QueueEvictionEstimator) :
    Prop where
  u : e.u = some (H.upper p - H.upper b)
  prevU : e.prevU = H.upper p - H.upper b
  prevL : ∀ l, e.prevL = some l → l = H.lower p - H.upper b
  zero : H.evicted b.snapshot - H.upper b ≤ e.zero
  confirmed : ∀ c, e.confirmed = some c → c ≤ H.evicted p.snapshot + m - H.upper b
  reported : 0 ≤ e.reported ∧ e.reported ≤ H.evicted p.snapshot - H.evicted b.snapshot + m

variable {H : History Time} {b p r : Read Time} {m : ℤ} {e : QueueEvictionEstimator}

section

variable (h : Follows H b p m e)
include h

theorem Follows.feed_eq (r : Read Time) :
    H.feed e p r = Prod.map id some (e.measure (H.upper p - H.upper b)
      (H.arrivals r.first - H.arrivals p.last) (r.drops - p.drops)
      (H.received r.snapshot - H.received p.snapshot)
      (H.arrivals r.last - H.arrivals r.first)) := by
  rw [History.feed, QueueEvictionEstimator.update, h.u]
  rfl

theorem Follows.confirm_le (hp : H.Fair p) (hr : H.Fair r)
    (hevicted : H.evicted p.snapshot ≤ H.evicted r.snapshot) {c : ℤ}
    (hc : e.confirm (H.lower r - H.upper b) = some c) :
    c ≤ H.evicted r.snapshot + max m (min (H.inFlight p.snapshot) (H.inFlight r.snapshot)) -
      H.upper b := by
  have hlowerp := hp.lower_le
  have hlowerr := hr.lower_le
  unfold History.level at hlowerp hlowerr
  unfold QueueEvictionEstimator.confirm at hc
  split at hc
  next =>
    have := h.confirmed c hc
    omega
  next l hl =>
    have hl := h.prevL l hl
    have hc := Option.some.inj hc
    split at hc
    next => omega
    next c' hc' =>
      have := h.confirmed c' hc'
      omega

theorem Follows.feed (hp : H.Fair p) (hr : H.Fair r)
    (hbp : H.evicted b.snapshot ≤ H.evicted p.snapshot)
    (hevicted : H.evicted p.snapshot ≤ H.evicted r.snapshot) :
    ∃ v, 0 ≤ v ∧ (H.feed e p r).2 = some v ∧ (H.feed e p r).1.reported = e.reported + v ∧
      Follows H b r (max m (min (H.inFlight p.snapshot) (H.inFlight r.snapshot)))
        (H.feed e p r).1 := by
  have hlower : H.upper p - H.upper b + (H.arrivals r.first - H.arrivals p.last) -
      (r.drops - p.drops) - (H.received r.snapshot - H.received p.snapshot) =
      H.lower r - H.upper b := by
    unfold History.upper History.lower
    omega
  have hupper : H.lower r - H.upper b + (H.arrivals r.last - H.arrivals r.first) =
      H.upper r - H.upper b := by
    unfold History.upper History.lower
    omega
  have hlevel := hr.le_upper
  unfold History.level at hlevel
  have hzero := h.zero
  have hreported := h.reported
  have hbound : ∀ c, e.confirm (H.lower r - H.upper b) = some c → c ≤ H.evicted r.snapshot +
      max m (min (H.inFlight p.snapshot) (H.inFlight r.snapshot)) - H.upper b := fun c hc =>
    h.confirm_le hp hr hevicted hc
  rw [h.feed_eq]
  simp only [Prod.map, id, QueueEvictionEstimator.measure, hlower, hupper]
  refine ⟨_, le_max_left _ _, rfl, ?_, ?_⟩
  · omega
  · cases hconfirm : e.confirm (H.lower r - H.upper b) with
    | none =>
      refine ⟨rfl, rfl, ?_, ?_, ?_, ?_⟩
      · intro l hl
        exact (Option.some.inj hl).symm
      · dsimp only
        omega
      · intro c hc
        cases hc
      · dsimp only [Option.map_none]
        omega
    | some c =>
      have hc := hbound c hconfirm
      refine ⟨rfl, rfl, ?_, ?_, ?_, ?_⟩
      · intro l hl
        exact (Option.some.inj hl).symm
      · dsimp only
        omega
      · intro c' hc'
        have hc' := Option.some.inj hc'
        dsimp only at hc'
        split at hc' <;> omega
      · dsimp only [Option.map_some]
        split <;> omega

theorem Follows.run {reads : List (Read Time)} (hbp : H.evicted b.snapshot ≤ H.evicted p.snapshot)
    (hfair : ∀ r ∈ p :: reads, H.Fair r)
    (hchain : (p :: reads).IsChain fun r r' => r.snapshot ≤ r'.snapshot) :
    ∃ values : List ℤ, H.run e p reads = values.map some ∧ (∀ v ∈ values, 0 ≤ v) ∧
      e.reported + values.sum ≤ H.evicted (reads.getLastD p).snapshot - H.evicted b.snapshot +
        max m (H.backlog p reads) := by
  induction reads generalizing p m e with
  | nil =>
    refine ⟨[], rfl, nofun, ?_⟩
    have := h.reported
    simp only [List.sum_nil, List.getLastD_nil]
    omega
  | cons r reads ih =>
    obtain ⟨hp, hrest⟩ := List.forall_mem_cons.1 hfair
    obtain ⟨hle, hchain⟩ := List.isChain_cons_cons.1 hchain
    have hevicted := H.evicted_mono hle
    obtain ⟨v, hv, hout, hreported, hfollows⟩ :=
      h.feed hp (hrest r List.mem_cons_self) hbp hevicted
    obtain ⟨values, hrun, hvalues, hsum⟩ := ih hfollows (hbp.trans hevicted) hrest hchain
    refine ⟨v :: values, ?_, List.forall_mem_cons.2 ⟨hv, hvalues⟩, ?_⟩
    · rw [History.run, hout, hrun, List.map_cons]
    · rw [List.sum_cons, List.getLastD_cons, History.backlog]
      omega

end

theorem follows_baseline (hb : H.Fair b) : Follows H b b 0 { u := some 0 } := by
  have hlevel := hb.le_upper
  unfold History.level at hlevel
  refine ⟨?_, ?_, nofun, ?_, nofun, ?_⟩
  · simp
  · simp
  · dsimp only
    omega
  · simp

theorem feed_baseline (h : e.u = none) (b r : Read Time) :
    H.feed e b r = H.feed { u := some 0 } b r := by
  rw [History.feed, QueueEvictionEstimator.update, h]
  rfl

/-- What is returned since a baseline are counts, and together they are at most the evictions
since then and the largest backlog that two snapshots in a row have seen. -/
theorem queue_evictions_le (H : History Time) (e : QueueEvictionEstimator) (he : e.u = none)
    (b : Read Time) (reads : List (Read Time)) (hfair : ∀ r ∈ b :: reads, H.Fair r)
    (hchain : (b :: reads).IsChain fun r r' => r.snapshot ≤ r'.snapshot) :
    ∃ values : List ℤ, H.run e b reads = values.map some ∧ (∀ v ∈ values, 0 ≤ v) ∧
      values.sum ≤ H.evicted (reads.getLastD b).snapshot - H.evicted b.snapshot +
        H.backlog b reads := by
  have hrun : H.run e b reads = H.run { u := some 0 } b reads := by
    cases reads with
    | nil => rfl
    | cons r reads => rw [History.run, History.run, feed_baseline he]
  obtain ⟨values, hvalues, hpos, hsum⟩ :=
    (follows_baseline (hfair b List.mem_cons_self)).run le_rfl hfair hchain
  refine ⟨values, hrun.trans hvalues, hpos, ?_⟩
  simpa using hsum

/-- A queue that has lost the first two of five packets by the third instant. -/
def lostTwo : History ℕ where
  arrivals t := min (t + 2) 5
  drops _ := 0
  received t := if t < 3 then 0 else 3
  evicted t := if t < 2 then 0 else 2
  inFlight t := if t < 2 then t + 2 else if t < 3 then 2 else 0
  arrivals_mono a b hab := by dsimp only; omega
  drops_mono _ _ _ := le_rfl
  received_mono a b hab := by dsimp only; split <;> split <;> omega
  evicted_mono a b hab := by dsimp only; split <;> split <;> omega
  balance t := by split <;> split <;> omega

theorem queue_evictions_le_lostTwo :
    ∃ values : List ℤ, lostTwo.run {} ⟨0, 0, 1, 0⟩ [⟨2, 2, 2, 0⟩, ⟨3, 3, 4, 0⟩] =
      values.map some ∧ (∀ v ∈ values, 0 ≤ v) ∧ values.sum ≤ 4 := by
  have hfair : ∀ r ∈ [(⟨0, 0, 1, 0⟩ : Read ℕ), ⟨2, 2, 2, 0⟩, ⟨3, 3, 4, 0⟩], lostTwo.Fair r := by
    intro r hr
    simp only [List.mem_cons, List.not_mem_nil, or_false] at hr
    rcases hr with rfl | rfl | rfl
    all_goals exact ⟨by decide, by decide⟩
  exact queue_evictions_le lostTwo {} rfl ⟨0, 0, 1, 0⟩ [⟨2, 2, 2, 0⟩, ⟨3, 3, 4, 0⟩] hfair
    (by simp)

end SpatiumDdi.Dhcp.Intake
