import SpatiumDdi.Dns.OpCoverage

/-!
When an op that was retired or shipped is in the served body. A body read after a snapshot has every
op the snapshot covers, so a retire is right about the bundle its own render stores and a page about
the bundle it was gated to. Neither need be the bundle at the server's `bundle_watermark`: what
decides is how the served body was read.
-/

namespace SpatiumDdi.Dns.OpCoverage

variable {s s' : State}

def reflectedBy (ops : List Op) (bundle : Option Bundle) (i : ℕ) : Bool :=
  ops[i]?.all fun op => !op.kind.isRecord || bundle.any (reflects ·.body op)

def State.Delivered (s : State) (i : ℕ) : Prop := i ∈ s.retired ∨ i ∈ s.shipped

/-- Every op that was retired or shipped is in the body of the served bundle. -/
def Law (s : State) : Prop := ∀ i, s.Delivered i → reflectedBy s.ops s.served i = true

/-- A render whose bundle becomes the served one has read the zone of every op delivered before
after that op's commit. Of one whose bundle does not, the served body has the ops it retired; and so
it has what is shipped with a bundle that is not served any more. -/
def Orderly (s : State) : Action → Prop
  | .store t keepVersions => ∀ r n body retired, s.renders t = some r →
      r.phase = .rendered n body retired →
      match outcome s keepVersions (r.bundle n body) with
      | .served => ∀ i, s.Delivered i → reflectedBy s.ops (some (r.bundle n body)) i = true
      | .lost | .behind => ∀ i ∈ retired, reflectedBy s.ops s.served i = true
      | .raised => True
  | .ship t => ∀ bundle ids, s.polls t = some (.selected bundle ids) →
      (s.bundles.at? bundle.watermark).isSome = true → s.served ≠ some bundle →
      ∀ i ∈ stillPending s ids, reflectedBy s.ops s.served i = true
  | _ => True

/-- The body has every op that the snapshot covers. -/
def Sees (s : State) (n : ℕ) (body : Body) : Prop :=
  n ≤ s.dirtySeq ∧ ∀ op ∈ s.ops, op.commit ≤ n → reflects body op = true

def Covers (s : State) (n : ℕ) (ids : List ℕ) : Prop :=
  ∀ i ∈ ids, ∃ op, s.ops[i]? = some op ∧ op.commit ≤ n

def PhaseInv (s : State) : Phase → Prop
  | .started => True
  | .snapshotted n => n ≤ s.dirtySeq
  | .rendering n zones body => n ≤ s.dirtySeq ∧ (∀ op ∈ s.ops, op.commit ≤ n → op.zone ∈ zones) ∧
      ∀ z seen, body.lookup z = some seen → n ≤ seen
  | .retiring n body retired _ | .rendered n body retired => Sees s n body ∧ Covers s n retired

def PollInv (s : State) : Poll → Prop
  | .refreshed _ _ => True
  | .loaded bundle _ => Sees s bundle.snapshot bundle.body
  | .selected bundle ids => Sees s bundle.snapshot bundle.body ∧ Covers s bundle.snapshot ids

variable {n : ℕ}

theorem Covers.append {a b : List ℕ} (ha : Covers s n a) (hb : Covers s n b) :
    Covers s n (a ++ b) := by
  intro i hi
  rcases List.mem_append.mp hi with hi | hi
  · exact ha i hi
  · exact hb i hi

variable {i : ℕ} {ids : List ℕ} {bundle : Bundle} {body : Body}

theorem Covers.lt_length (h : Covers s n ids) (hi : i ∈ ids) : i < s.ops.length := by
  obtain ⟨op, hop, -⟩ := h i hi
  exact (List.getElem?_eq_some_iff.mp hop).1

theorem Sees.reflectedBy (h : Sees s n bundle.body) (hids : Covers s n ids) (hi : i ∈ ids) :
    reflectedBy s.ops (some bundle) i = true := by
  obtain ⟨op, hop, hcommit⟩ := hids i hi
  have hreflects := h.2 op (List.mem_of_getElem? hop) hcommit
  simp [OpCoverage.reflectedBy, hop, hreflects]

theorem sees_of_encoded {zones : List ℕ} (h : PhaseInv s (.rendering n zones body))
    (hall : zones.all (fun z => (body.lookup z).isSome) = true) : Sees s n body := by
  obtain ⟨hn, hzones, hreads⟩ := h
  refine ⟨hn, fun op hop hcommit => ?_⟩
  have hread := List.all_eq_true.mp hall op.zone (hzones op hop hcommit)
  obtain ⟨seen, hseen⟩ := Option.isSome_iff_exists.mp hread
  simpa [reflects, hseen] using Nat.le_trans hcommit (hreads op.zone seen hseen)

structure Grows (s s' : State) : Prop where
  dirtySeq : s.dirtySeq ≤ s'.dirtySeq
  ops : ∃ new, s'.ops = s.ops ++ new ∧ ∀ op ∈ new, s.dirtySeq < op.commit

section

variable (h : Grows s s')
include h

theorem Grows.old (hn : n ≤ s.dirtySeq) {op : Op} (hop : op ∈ s'.ops) (hcommit : op.commit ≤ n) :
    op ∈ s.ops := by
  obtain ⟨new, hnew, hlater⟩ := h.ops
  rw [hnew] at hop
  rcases List.mem_append.mp hop with hold | hop
  · exact hold
  · have := hlater op hop
    omega

theorem Grows.sees (hsees : Sees s n body) : Sees s' n body := by
  refine ⟨Nat.le_trans hsees.1 h.dirtySeq, fun op hop hcommit => ?_⟩
  exact hsees.2 op (h.old hsees.1 hop hcommit) hcommit

theorem Grows.getElem? {op : Op} (hop : s.ops[i]? = some op) : s'.ops[i]? = some op := by
  obtain ⟨new, hnew, -⟩ := h.ops
  rw [hnew, List.getElem?_append_left (List.getElem?_eq_some_iff.mp hop).1, hop]

theorem Grows.covers (hids : Covers s n ids) : Covers s' n ids := by
  intro i hi
  obtain ⟨op, hop, hcommit⟩ := hids i hi
  exact ⟨op, h.getElem? hop, hcommit⟩

theorem Grows.phase {phase : Phase} (hphase : PhaseInv s phase) : PhaseInv s' phase := by
  cases phase with
  | started => trivial
  | snapshotted n => exact Nat.le_trans hphase h.dirtySeq
  | rendering n zones body =>
    obtain ⟨hn, hzones, hreads⟩ := hphase
    refine ⟨Nat.le_trans hn h.dirtySeq, fun op hop hcommit => ?_, hreads⟩
    exact hzones op (h.old hn hop hcommit) hcommit
  | retiring n body retired after => exact ⟨h.sees hphase.1, h.covers hphase.2⟩
  | rendered n body retired => exact ⟨h.sees hphase.1, h.covers hphase.2⟩

theorem Grows.poll {p : Poll} (hp : PollInv s p) : PollInv s' p := by
  cases p with
  | refreshed watermark maintenance => trivial
  | loaded bundle maintenance => exact h.sees hp
  | selected bundle ids => exact ⟨h.sees hp.1, h.covers hp.2⟩

end

structure Inv (s : State) : Prop where
  ops : ∀ op ∈ s.ops, op.commit ≤ s.dirtySeq ∧ op.zone ∈ s.zones
  rows : ∀ row ∈ s.bundles.rows, Sees s row.snapshot row.body ∧
    ∃ w, s.watermark = some w ∧ row.watermark ≤ w
  mirror : ∀ w, s.watermark = some w → (s.bundles.at? w).isSome = true
  renders : ∀ t r, s.renders t = some r → PhaseInv s r.phase
  polls : ∀ t p, s.polls t = some p → PollInv s p
  delivered : ∀ i, s.Delivered i → i < s.ops.length

theorem Inv.start (dirtySeq : ℕ) (zones : List ℕ) :
    Inv { dirtySeq := dirtySeq, zones := zones } where
  ops := fun op h => (List.not_mem_nil h).elim
  rows := fun row h => (List.not_mem_nil h).elim
  mirror := fun w h => by cases h
  renders := fun t r h => by cases h
  polls := fun t p h => by cases h
  delivered := fun i h => by rcases h with h | h <;> cases h

theorem Inv.updateRender (h : Inv s) (t : ℕ) {holder : ℕ → Option ℕ} {r : Option Render}
    (hphase : ∀ x, r = some x → PhaseInv s x.phase) :
    Inv { s with holder := holder, renders := Function.update s.renders t r } where
  ops := h.ops
  rows := h.rows
  mirror := h.mirror
  renders := by
    intro t' r' hr'
    rcases Runs.update_some hr' with ⟨-, hnew⟩ | ⟨-, hold⟩
    · exact hphase r' hnew
    · exact h.renders t' r' hold
  polls := h.polls
  delivered := h.delivered

variable {t : ℕ} {r : Render}

section

variable (h : Inv s)
include h

theorem Inv.putRender (hphase : PhaseInv s r.phase) : Inv (s.putRender t r) :=
  h.updateRender t fun _ hr => Option.some.inj hr ▸ hphase

theorem Inv.closeRender (t : ℕ) : Inv (s.closeRender t) :=
  h.updateRender t nofun

theorem Inv.updatePoll (t : ℕ) {p : Option Poll} (hp : ∀ x, p = some x → PollInv s x) :
    Inv { s with polls := Function.update s.polls t p } where
  ops := h.ops
  rows := h.rows
  mirror := h.mirror
  renders := h.renders
  polls := by
    intro t' p' hp'
    rcases Runs.update_some hp' with ⟨-, hnew⟩ | ⟨-, hold⟩
    · exact hp p' hnew
    · exact h.polls t' p' hold
  delivered := h.delivered

theorem Inv.putPoll {p : Poll} (hp : PollInv s p) : Inv (s.putPoll t p) :=
  h.updatePoll t fun _ heq => Option.some.inj heq ▸ hp

theorem Inv.closePoll (t : ℕ) : Inv (s.closePoll t) :=
  h.updatePoll t nofun

end

variable {retired : List ℕ} {edits : List Edit} {rows : List (Op × ℕ)}

theorem Inv.deliver (h : Inv s) {shipped : List ℕ} {state : OpState}
    (hretired : ∀ i ∈ retired, i < s.ops.length) (hshipped : ∀ i ∈ shipped, i < s.ops.length) :
    Inv { s.mark ids state with retired := retired, shipped := shipped } where
  ops := h.ops
  rows := h.rows
  mirror := h.mirror
  renders := h.renders
  polls := h.polls
  delivered := by
    rintro i (hi | hi)
    · exact hretired i hi
    · exact hshipped i hi

theorem grows_write (h : step s (.write edits) = some s') : Grows s s' := by
  cases h
  refine ⟨Nat.le_succ _, _, rfl, fun op hop => ?_⟩
  obtain ⟨e, -, rfl⟩ := List.mem_map.mp hop
  exact Nat.lt_succ_self _

theorem Inv.write (h : Inv s) (hstep : step s (.write edits) = some s') : Inv s' := by
  have hgrows := grows_write hstep
  cases hstep
  constructor
  · intro op hop
    rcases List.mem_append.mp hop with hold | hnew
    · obtain ⟨hcommit, hzone⟩ := h.ops op hold
      exact ⟨Nat.le_succ_of_le hcommit, List.mem_append_left _ hzone⟩
    · obtain ⟨e, he, rfl⟩ := List.mem_map.mp hnew
      exact ⟨Nat.le_refl _, List.mem_append_right _ (List.mem_map_of_mem he)⟩
  · intro row hrow
    obtain ⟨hsees, hwatermark⟩ := h.rows row hrow
    exact ⟨hgrows.sees hsees, hwatermark⟩
  · exact h.mirror
  · exact fun t r hr => hgrows.phase (h.renders t r hr)
  · exact fun t p hp => hgrows.poll (h.polls t p hp)
  · intro i hi
    have hlt := h.delivered i hi
    rw [List.length_append]
    omega

theorem covers_of_zipIdx (h : ∀ row ∈ rows, row ∈ s.ops.zipIdx ∧ coveredBy n row.1 = true) :
    Covers s n (rows.map Prod.snd) := by
  intro i hi
  obtain ⟨⟨op, i⟩, hrow, rfl⟩ := List.mem_map.mp hi
  obtain ⟨hmem, hcovered⟩ := h _ hrow
  exact ⟨op, List.mem_zipIdx_iff_getElem?.mp hmem, by simpa [coveredBy] using hcovered⟩

theorem mem_of_mem_chunk {p : Op × ℕ → Bool} {r : Op × ℕ → Op × ℕ → Prop} [DecidableRel r] {k : ℕ}
    {row : Op × ℕ} (hrow : row ∈ ((rows.filter p).insertionSort r).take k) :
    row ∈ rows ∧ p row = true := by
  have hsorted := List.mem_of_mem_take hrow
  rw [List.mem_insertionSort] at hsorted
  exact List.mem_filter.mp hsorted

theorem covers_retirable (s : State) (t n : ℕ) (after : Option ℕ) :
    Covers s n ((retirable s t n after).map Prod.snd) := by
  apply covers_of_zipIdx
  intro row hrow
  obtain ⟨hmem, hselected⟩ := mem_of_mem_chunk hrow
  simp only [Bool.and_eq_true] at hselected
  exact ⟨hmem, hselected.1.1.2⟩

theorem covers_pageOf (s : State) (bundle : Bundle) (maintenance : Bool) (batch : ℕ)
    (backingOff : List ℕ) :
    Covers s bundle.snapshot (pageOf s bundle maintenance batch backingOff) := by
  rw [pageOf]
  split
  case isTrue => exact fun i hi => (List.not_mem_nil hi).elim
  case isFalse =>
    apply covers_of_zipIdx
    intro row hrow
    obtain ⟨hmem, hselected⟩ := mem_of_mem_chunk hrow
    simp only [Bool.and_eq_true] at hselected
    exact ⟨hmem, hselected.2⟩

theorem law_deliver (h : Law s) (hops : s'.ops = s.ops) (hserved : s'.served = s.served)
    (hids : ∀ i, s'.Delivered i ↔ s.Delivered i ∨ i ∈ ids) :
    Law s' ↔ ∀ i ∈ ids, reflectedBy s.ops s.served i = true := by
  simp only [Law, hops, hserved, hids]
  constructor
  · intro hlaw i hi
    exact hlaw i (Or.inr hi)
  · rintro hnew i (hold | hi)
    · exact h i hold
    · exact hnew i hi

theorem delivered_append :
    (i ∈ s.retired ++ retired ∨ i ∈ s.shipped) ↔ s.Delivered i ∨ i ∈ retired := by
  rw [List.mem_append, State.Delivered]
  tauto

/-- The bundles with a bundle that was put there and kept, under a mirror that names the newest. -/
def State.stored (s : State) (keep w : ℕ) (bundle : Bundle) : State :=
  { s with bundles := (s.bundles.put bundle).keepNewest keep, watermark := some w }

section Stored

variable {keep w : ℕ} {bundle : Bundle}

theorem rows_put (h : Inv s) (hsees : Sees s bundle.snapshot bundle.body)
    (hle : bundle.watermark ≤ w) (hmax : ∀ m, s.watermark = some m → m ≤ w) :
    ∀ row ∈ (s.bundles.put bundle).rows, Sees s row.snapshot row.body ∧ row.watermark ≤ w := by
  intro row hrow
  rcases Versions.mem_put hrow with rfl | hold
  · exact ⟨hsees, hle⟩
  · obtain ⟨hrowSees, m, hm, hrowLe⟩ := h.rows row hold
    exact ⟨hrowSees, Nat.le_trans hrowLe (hmax m hm)⟩

theorem served_stored (h : Inv s) (hkeep : 1 ≤ keep)
    (hsees : Sees s bundle.snapshot bundle.body) (hle : bundle.watermark ≤ w)
    (hmax : ∀ m, s.watermark = some m → m ≤ w) :
    (s.stored keep w bundle).served = (s.bundles.put bundle).at? w := by
  change ((s.bundles.put bundle).keepNewest keep).at? w = _
  apply Versions.at?_keepNewest
  apply Versions.kept_of_max hkeep
  exact fun row hrow => (rows_put h hsees hle hmax row hrow).2

theorem Inv.stored (h : Inv s) (hkeep : 1 ≤ keep) (hsees : Sees s bundle.snapshot bundle.body)
    (hle : bundle.watermark ≤ w) (hmax : ∀ m, s.watermark = some m → m ≤ w)
    (hw : w = bundle.watermark ∨ s.watermark = some w) : Inv (s.stored keep w bundle) where
  ops := h.ops
  rows := by
    intro row hrow
    obtain ⟨hrowSees, hrowLe⟩ := rows_put h hsees hle hmax row (Versions.mem_keepNewest hrow)
    exact ⟨hrowSees, w, rfl, hrowLe⟩
  mirror := by
    intro m hm
    obtain rfl : w = m := Option.some.inj hm
    have hserved := served_stored h hkeep hsees hle hmax
    change (s.stored keep w bundle).served.isSome = true
    rw [hserved]
    by_cases heq : w = bundle.watermark
    · rw [heq, Versions.at?_put_self]
      rfl
    · rw [Versions.at?_put_of_ne heq]
      exact h.mirror w (hw.resolve_left heq)
  renders := h.renders
  polls := h.polls
  delivered := h.delivered

end Stored

variable {keepVersions : ℕ}

theorem outcome_behind (h : outcome s keepVersions bundle = .behind) :
    ∃ m, s.watermark = some m ∧ bundle.watermark < m := by
  unfold outcome at h
  split at h
  case isTrue => cases h
  case isFalse =>
    split at h
    case isTrue => cases h
    case isFalse =>
      split at h
      case isTrue => cases h
      case isFalse hahead =>
        cases hm : s.watermark with
        | none => simp [hm] at hahead
        | some m => exact ⟨m, rfl, by simpa [hm] using hahead⟩

theorem outcome_served (h : outcome s keepVersions bundle = .served) :
    ∀ m, s.watermark = some m → m ≤ bundle.watermark := by
  unfold outcome at h
  split at h
  case isTrue => cases h
  case isFalse =>
    split at h
    case isTrue => cases h
    case isFalse =>
      split at h
      case isTrue hall =>
        intro m hm
        simpa [hm] using hall
      case isFalse => cases h

theorem store_spec (h : Inv s) (hlaw : Law s) (hr : s.renders t = some r)
    (hphase : r.phase = .rendered n body retired) :
    Inv (store s t keepVersions (r.bundle n body) retired) ∧
      (Law (store s t keepVersions (r.bundle n body) retired) ↔
        Orderly s (.store t keepVersions)) := by
  have hrender := h.renders t r hr
  rw [hphase] at hrender
  obtain ⟨hrenderSees, hcovers⟩ := hrender
  have hsees : Sees s (r.bundle n body).snapshot (r.bundle n body).body := hrenderSees
  have hkeep : 1 ≤ max 1 keepVersions := Nat.le_max_left 1 keepVersions
  have horderly : Orderly s (.store t keepVersions) ↔
      match outcome s keepVersions (r.bundle n body) with
      | .served => ∀ i, s.Delivered i → reflectedBy s.ops (some (r.bundle n body)) i = true
      | .lost | .behind => ∀ i ∈ retired, reflectedBy s.ops s.served i = true
      | .raised => True := by
    constructor
    · exact fun hall => hall r n body retired hr hphase
    · intro hone r' n' body' retired' hr' hphase'
      obtain rfl : r = r' := Option.some.inj (hr.symm.trans hr')
      obtain ⟨rfl, rfl, rfl⟩ := Phase.rendered.inj (hphase.symm.trans hphase')
      exact hone
  have hretired : ∀ i ∈ s.retired ++ retired, i < s.ops.length := by
    intro i hi
    rcases List.mem_append.mp hi with hold | hnew
    · exact h.delivered i (Or.inl hold)
    · exact hcovers.lt_length hnew
  have hshipped : ∀ i ∈ s.shipped, i < s.ops.length := fun i hi => h.delivered i (Or.inr hi)
  rw [horderly, store]
  cases houtcome : outcome s keepVersions (r.bundle n body) with
  | lost =>
    exact ⟨(h.deliver hretired hshipped).closeRender t,
      law_deliver hlaw rfl rfl fun i => delivered_append⟩
  | raised => exact ⟨h.closeRender t, iff_of_true hlaw trivial⟩
  | behind =>
    obtain ⟨m, hm, hlt⟩ := outcome_behind houtcome
    have hmax : ∀ m', s.watermark = some m' → m' ≤ m := by
      intro m' hm'
      exact Nat.le_of_eq (Option.some.inj (hm'.symm.trans hm))
    have hstored := h.stored hkeep hsees (Nat.le_of_lt hlt) hmax
      (Or.inr hm)
    have hserved := served_stored h hkeep hsees (Nat.le_of_lt hlt) hmax
    rw [Versions.at?_put_of_ne (Nat.ne_of_gt hlt)] at hserved
    have hsame : s.served = s.bundles.at? m := by
      rw [State.served, hm]
      rfl
    rw [← hsame] at hserved
    simp only [State.stored, ← hm] at hstored hserved
    exact ⟨(hstored.deliver hretired hshipped).closeRender t,
      law_deliver hlaw rfl hserved fun i => delivered_append⟩
  | served =>
    have hmax := outcome_served houtcome
    have hstored := h.stored hkeep hsees (Nat.le_refl _) hmax
      (Or.inl rfl)
    have hserved := served_stored h hkeep hsees (Nat.le_refl _) hmax
    rw [Versions.at?_put_self] at hserved
    refine ⟨(hstored.deliver hretired hshipped).closeRender t, ?_⟩
    constructor
    · intro hlaw' i hi
      have hreflected := hlaw' i (delivered_append.mpr (Or.inl hi))
      exact (congrArg (reflectedBy s.ops · i) hserved).symm.trans hreflected
    · intro hold i hi
      have hreflected : reflectedBy s.ops (some (r.bundle n body)) i = true := by
        rcases delivered_append.mp hi with hi | hi
        · exact hold i hi
        · exact hsees.reflectedBy hcovers hi
      exact (congrArg (reflectedBy s.ops · i) hserved).trans hreflected

theorem ship_spec (h : Inv s) (hlaw : Law s) (hp : s.polls t = some (.selected bundle ids)) :
    Inv (ship s t bundle ids) ∧ (Law (ship s t bundle ids) ↔ Orderly s (.ship t)) := by
  obtain ⟨hsees, hcovers⟩ : PollInv s (.selected bundle ids) := h.polls t _ hp
  have hpending : ∀ i ∈ stillPending s ids, i ∈ ids := fun i hi => List.mem_of_mem_filter hi
  have horderly : Orderly s (.ship t) ↔
      ((s.bundles.at? bundle.watermark).isSome = true → s.served ≠ some bundle →
        ∀ i ∈ stillPending s ids, reflectedBy s.ops s.served i = true) := by
    constructor
    · exact fun hall => hall bundle ids hp
    · intro hone bundle' ids' hp'
      obtain ⟨rfl, rfl⟩ := Poll.selected.inj (Option.some.inj (hp.symm.trans hp'))
      exact hone
  rw [horderly, ship]
  split
  case isTrue hpruned =>
    refine ⟨h.closePoll t, iff_of_true hlaw fun hsome => ?_⟩
    rw [Option.isNone_iff_eq_none] at hpruned
    rw [hpruned] at hsome
    cases hsome
  case isFalse hstored =>
    have hsome : (s.bundles.at? bundle.watermark).isSome = true := by
      simpa [Option.isSome_iff_ne_none] using hstored
    have hdelivered : ∀ i, (i ∈ s.retired ∨ i ∈ s.shipped ++ stillPending s ids) ↔
        s.Delivered i ∨ i ∈ stillPending s ids := by
      intro i
      rw [List.mem_append, State.Delivered]
      tauto
    constructor
    · refine (h.deliver (fun i hi => h.delivered i (Or.inl hi)) fun i hi => ?_).closePoll t
      rcases List.mem_append.mp hi with hold | hnew
      · exact h.delivered i (Or.inr hold)
      · exact hcovers.lt_length (hpending i hnew)
    · refine Iff.trans (law_deliver hlaw rfl rfl hdelivered) ?_
      constructor
      · exact fun hall _ _ => hall
      · intro hone i hi
        by_cases hserved : s.served = some bundle
        · rw [hserved]
          exact hsees.reflectedBy hcovers (hpending i hi)
        · exact hone hsome hserved i hi

theorem Inv.retire (h : Inv s) {after : Option ℕ} (hr : s.renders t = some r)
    (hphase : r.phase = .retiring n body retired after)
    (hstep : retire s t r n body retired after = some s') : Inv s' ∧ (Law s' ↔ Law s) := by
  have hrender := h.renders t r hr
  rw [hphase] at hrender
  obtain ⟨hsees, hcovers⟩ := hrender
  have hall := hcovers.append (covers_retirable s t n after)
  obtain ⟨-, hstep⟩ := Option.ite_none_left_eq_some.mp hstep
  cases hstep
  have hheld : ∀ holder, Inv { s with holder := holder } := fun _ =>
    ⟨h.ops, h.rows, h.mirror, h.renders, h.polls, h.delivered⟩
  refine ⟨(hheld _).putRender ?_, Iff.rfl⟩
  split
  · exact ⟨hsees, hall⟩
  · exact ⟨hsees, hall⟩

theorem Inv.step (h : Inv s) (hlaw : Law s) {a : Action} (hstep : step s a = some s') :
    Inv s' ∧ (Law s' ↔ Orderly s a) := by
  cases a <;> simp only [OpCoverage.step] at hstep
  case write edits =>
    have hgrows := grows_write hstep
    refine ⟨h.write hstep, iff_of_true ?_ trivial⟩
    cases hstep
    intro i hi
    have hlt := h.delivered i hi
    have hreflected := hlaw i hi
    rw [reflectedBy] at hreflected ⊢
    rw [List.getElem?_append_left hlt]
    exact hreflected
  case beginRender t revision hasViews maintenance =>
    split at hstep
    · cases hstep
      exact ⟨h.putRender trivial, iff_of_true hlaw trivial⟩
    · cases hstep
  case snapshot t =>
    obtain ⟨r, hr, hrest⟩ := Option.bind_eq_some_iff.mp hstep
    split at hrest
    · cases hrest
      exact ⟨h.putRender (Nat.le_refl _), iff_of_true hlaw trivial⟩
    · cases hrest
  case listZones t =>
    obtain ⟨r, hr, hrest⟩ := Option.bind_eq_some_iff.mp hstep
    have hrender := h.renders t r hr
    split at hrest
    case h_1 n hphase =>
      cases hrest
      rw [hphase] at hrender
      refine ⟨h.putRender ⟨hrender, fun op hop _ => (h.ops op hop).2, fun z seen hseen => ?_⟩,
        iff_of_true hlaw trivial⟩
      cases hseen
    case h_2 => cases hrest
  case readZones t zones =>
    obtain ⟨r, hr, hrest⟩ := Option.bind_eq_some_iff.mp hstep
    have hrender := h.renders t r hr
    split at hrest
    case h_1 n listed body hphase =>
      cases hrest
      rw [hphase] at hrender
      obtain ⟨hn, hzones, hreads⟩ := hrender
      refine ⟨h.putRender ⟨hn, hzones, fun z seen hseen => ?_⟩, iff_of_true hlaw trivial⟩
      rw [List.lookup_append, Option.or_eq_some_iff] at hseen
      rcases hseen with hold | ⟨-, hnew⟩
      · exact hreads z seen hold
      · obtain ⟨before, after, heq, -⟩ := List.lookup_eq_some_iff.mp hnew
        have hmem : (z, seen) ∈ zones.map (·, s.dirtySeq) := by simp [heq]
        obtain ⟨z', -, hpair⟩ := List.mem_map.mp hmem
        rw [← (Prod.mk.inj hpair).2]
        exact hn
    case h_2 => cases hrest
  case encoded t =>
    obtain ⟨r, hr, hrest⟩ := Option.bind_eq_some_iff.mp hstep
    have hrender := h.renders t r hr
    split at hrest
    case h_1 n zones body hphase =>
      rw [hphase] at hrender
      obtain ⟨hall, hrest⟩ := Option.ite_none_right_eq_some.mp hrest
      cases hrest
      have hsees := sees_of_encoded hrender hall
      have hnone : Covers s n [] := fun i hi => (List.not_mem_nil hi).elim
      refine ⟨h.putRender ?_, iff_of_true hlaw trivial⟩
      split
      · exact ⟨hsees, hnone⟩
      · exact ⟨hsees, hnone⟩
    case h_2 => cases hrest
  case retire t =>
    obtain ⟨r, hr, hrest⟩ := Option.bind_eq_some_iff.mp hstep
    split at hrest
    case h_1 n body retired after hphase =>
      obtain ⟨hinv, hlaw'⟩ := h.retire hr hphase hrest
      exact ⟨hinv, iff_of_true (hlaw'.mpr hlaw) trivial⟩
    case h_2 => cases hrest
  case store t keepVersions =>
    obtain ⟨r, hr, hrest⟩ := Option.bind_eq_some_iff.mp hstep
    split at hrest
    case h_1 n body retired hphase =>
      cases hrest
      exact store_spec h hlaw hr hphase
    case h_2 => cases hrest
  case rollback t =>
    cases hstep
    exact ⟨h.closeRender t, iff_of_true hlaw trivial⟩
  case refresh t maintenance =>
    split at hstep
    · cases hstep
      exact ⟨h.putPoll trivial, iff_of_true hlaw trivial⟩
    · cases hstep
  case newest t revision =>
    split at hstep
    case h_1 watermark maintenance hp =>
      obtain ⟨bundle, hbundle, hrest⟩ := Option.bind_eq_some_iff.mp hstep
      obtain ⟨w, -, hat⟩ := Option.bind_eq_some_iff.mp hbundle
      split at hrest
      · cases hrest
        exact ⟨h.putPoll (h.rows bundle (Versions.at?_some hat).1).1, iff_of_true hlaw trivial⟩
      · cases hrest
    case h_2 => cases hstep
  case page t batch backingOff =>
    split at hstep
    case h_1 bundle maintenance hp =>
      cases hstep
      have hsees : PollInv s (.loaded bundle maintenance) := h.polls t _ hp
      exact ⟨h.putPoll ⟨hsees, covers_pageOf s bundle maintenance batch backingOff⟩,
        iff_of_true hlaw trivial⟩
    case h_2 => cases hstep
  case ship t =>
    split at hstep
    case h_1 bundle ids hp =>
      split at hstep
      · cases hstep
      · cases hstep
        exact ship_spec h hlaw hp
    case h_2 => cases hstep
  case leave t =>
    cases hstep
    exact ⟨h.closePoll t, iff_of_true hlaw trivial⟩
  case settle i state =>
    split at hstep
    · cases hstep
      exact ⟨⟨h.ops, h.rows, h.mirror, h.renders, h.polls, h.delivered⟩, iff_of_true hlaw trivial⟩
    · cases hstep

/-- Two renders of a group with views at one watermark. An op commits between their snapshots; the
later one retires it and loses the store. -/
def losingRender : List Action :=
  [.beginRender 1 17 true false, .snapshot 1, .listZones 1, .readZones 1 [5], .encoded 1,
    .beginRender 2 17 true false, .write [⟨.create, 5, 0, 0, 0⟩], .snapshot 2, .listZones 2,
    .readZones 2 [5], .encoded 2, .retire 1, .retire 2, .store 1 2, .store 2 2]

end SpatiumDdi.Dns.OpCoverage
