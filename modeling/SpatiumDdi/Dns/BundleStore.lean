import Mathlib.Data.List.Nodup

/-!
The stored bundles of one DNS server: `agent_bundle_store.store` and `is_current`, the renders that
call it and the writers that mark the server dirty. Each writer's commit bumps `bundle_dirty_seq`,
so the sequence counts the changes committed, and a statement's snapshot is the count it sees. Of a
bundle what stays is its watermark, its renderer revision and what its statements saw.
-/

namespace SpatiumDdi.Dns.BundleStore

/-- A `DNSAgentBundle`. The body holds, for each statement that read an input, how many changes that
statement saw. -/
structure Bundle where
  watermark : ℕ
  revision : ℕ
  body : List ℕ

structure Bundles where
  rows : List Bundle
  unique : (rows.map Bundle.watermark).Nodup

namespace Bundles

variable (b : Bundles)

def empty : Bundles := ⟨[], List.nodup_nil⟩

def at? (w : ℕ) : Option Bundle := b.rows.find? (·.watermark = w)

/-- An INSERT, or the UPDATE in place of the row that conflicts. -/
def put (row : Bundle) : Bundles where
  rows := row :: b.rows.filter (·.watermark ≠ row.watermark)
  unique := by
    rw [List.map_cons, List.nodup_cons]
    refine ⟨?_, b.unique.sublist (List.filter_sublist.map _)⟩
    intro hmem
    obtain ⟨other, hother, heq⟩ := List.mem_map.mp hmem
    simp [heq] at hother

def newer (w : ℕ) : ℕ := (b.rows.filter fun row => w < row.watermark).length

def kept (keep w : ℕ) : Bool := b.newer w < keep

def prune (keep : ℕ) : Bundles where
  rows := b.rows.filter fun row => b.kept keep row.watermark
  unique := b.unique.sublist (List.filter_sublist.map _)

variable {b}

theorem at?_some {w : ℕ} {row : Bundle} (h : b.at? w = some row) :
    row ∈ b.rows ∧ row.watermark = w :=
  ⟨List.mem_of_find?_eq_some h, by simpa using List.find?_some h⟩

theorem at?_put (row : Bundle) (w : ℕ) :
    (b.put row).at? w = if w = row.watermark then some row else b.at? w := by
  simp only [at?, put, List.find?_cons]
  split
  case h_1 heq =>
    have hw : row.watermark = w := by simpa using heq
    rw [if_pos hw.symm]
  case h_2 hne =>
    have hw : row.watermark ≠ w := by simpa using hne
    rw [if_neg (Ne.symm hw), List.find?_filter]
    congr 1
    funext other
    by_cases hother : other.watermark = w
    · simp [hother, Ne.symm hw]
    · simp [hother]

theorem at?_prune (keep w : ℕ) :
    (b.prune keep).at? w = if b.kept keep w = true then b.at? w else none := by
  simp only [at?, prune, List.find?_filter]
  split
  case isTrue hkept =>
    congr 1
    funext row
    by_cases hrow : row.watermark = w
    · simp [hrow, hkept]
    · simp [hrow]
  case isFalse hpruned =>
    rw [List.find?_eq_none]
    intro row _ hrow
    simp only [decide_eq_true_eq] at hrow
    exact hpruned (hrow.2 ▸ hrow.1)

theorem kept_of_max {keep w : ℕ} (hkeep : 1 ≤ keep) (hmax : ∀ row ∈ b.rows, row.watermark ≤ w) :
    b.kept keep w = true := by
  have hnone : b.rows.filter (fun row => w < row.watermark) = [] := by
    rw [List.filter_eq_nil_iff]
    intro row hrow
    simpa using hmax row hrow
  rw [kept, newer, hnone]
  exact decide_eq_true hkeep

end Bundles

/-- Where `render_and_store` stands. After its insert it holds the lock of the row at its watermark:
it wrote the row, or found one there that it may not replace. -/
inductive Phase where
  | reading
  | inserted
  | lost
  deriving DecidableEq

structure Render where
  bundle : Bundle
  phase : Phase

/-- The server row, the stored bundles, who holds the lock of the bundle row at a watermark, the
renders that are open, and those whose `store` raised. -/
structure State where
  dirtySeq : ℕ
  watermark : Option ℕ := none
  revision : Option ℕ := none
  bundles : Bundles := .empty
  holder : ℕ → Option ℕ := fun _ => none
  renders : ℕ → Option Render := fun _ => none
  errors : List ℕ := []

namespace State

variable (s : State)

def isCurrent (processRevision : ℕ) : Bool :=
  s.watermark.any (s.dirtySeq ≤ ·) && s.revision.any (processRevision ≤ ·)

def put (t : ℕ) (r : Render) : State := { s with renders := Function.update s.renders t (some r) }

def close (t : ℕ) : State :=
  { s with
    holder := fun w => if s.holder w = some t then none else s.holder w
    renders := Function.update s.renders t none }

/-- The mirror columns, which only move forward. -/
def advance (bundle : Bundle) : State :=
  if s.watermark.all (· ≤ bundle.watermark) then
    { s with watermark := some bundle.watermark, revision := some bundle.revision }
  else s

/-- Whether another render in a phase holds the row at a watermark. -/
def heldBy (t : ℕ) (phase : Phase) (w : ℕ) : Bool :=
  (s.holder w).any fun t' => t' ≠ t && (s.renders t').any (·.phase = phase)

@[simp] theorem put_renders_self (t : ℕ) (r : Render) : (s.put t r).renders t = some r :=
  Function.update_self ..

@[simp] theorem close_renders_self (t : ℕ) : (s.close t).renders t = none :=
  Function.update_self ..

end State

/-- The insert of `store`. The row at the watermark has been locked by now. -/
def insert (s : State) (t : ℕ) (bundle : Bundle) : State :=
  let replaces := (s.bundles.at? bundle.watermark).all (·.revision < bundle.revision)
  { s with holder := Function.update s.holder bundle.watermark (some t) }.put t
    ⟨bundle, if replaces then .inserted else .lost⟩

/-- The rest of `store` and the commit. The server row is locked from the `UPDATE` on, so no other
`store` is between its `UPDATE` and its commit meanwhile. `none` while the prune waits for a row. -/
def finishStore (s : State) (t keepVersions : ℕ) (bundle : Bundle) : Option State :=
  let keep := max 1 keepVersions
  let stored := s.bundles.put bundle
  let pruned := stored.rows.filter fun row => !stored.kept keep row.watermark
  if pruned.any (fun row => s.heldBy t .lost row.watermark) then none
  else if pruned.any (fun row => s.heldBy t .inserted row.watermark) then
    -- That render waits for the server row, and this prune for the row it wrote: a deadlock.
    some { s.close t with errors := t :: s.errors }
  else if stored.kept keep bundle.watermark then
    some ({ s.advance bundle with bundles := stored.prune keep }.close t)
  else
    -- `assert row is not None`: the prune deleted the row that was just written.
    some { s.close t with errors := t :: s.errors }

inductive Action where
  | write
  | begin_ (t revision : ℕ)
  | read (t : ℕ)
  | insert (t : ℕ)
  | finish (t keepVersions : ℕ)
  | commitLost (t : ℕ)
  | rollback (t : ℕ)

/-- One step; `none` where it cannot be taken, a lock it waits for among them. -/
def step (s : State) : Action → Option State
  | .write => some { s with dirtySeq := s.dirtySeq + 1 }
  | .begin_ t revision =>
    match s.renders t with
    | none => some (s.put t ⟨⟨s.dirtySeq, revision, []⟩, .reading⟩)
    | some _ => none
  | .read t =>
    match s.renders t with
    | some ⟨bundle, .reading⟩ =>
      some (s.put t ⟨{ bundle with body := bundle.body ++ [s.dirtySeq] }, .reading⟩)
    | _ => none
  | .insert t =>
    match s.renders t with
    | some ⟨bundle, .reading⟩ =>
      if bundle.body ≠ [] ∧ s.holder bundle.watermark = none then some (insert s t bundle) else none
    | _ => none
  | .finish t keepVersions =>
    match s.renders t with
    | some ⟨bundle, .inserted⟩ => finishStore s t keepVersions bundle
    | _ => none
  | .commitLost t =>
    match s.renders t with
    | some ⟨_, .lost⟩ => some (s.close t)
    | _ => none
  | .rollback t => some (s.close t)

def run (s : State) : List Action → Option State
  | [] => some s
  | a :: as => (step s a).bind (run · as)

variable {s s' : State} {t keep : ℕ} {bundle row : Bundle} {as : List Action}

/-- When a store prunes, its own bundle is among the newest ones, and no row it prunes was written by
a render that is still to store. -/
def Orderly (s : State) : Action → Prop
  | .finish t keepVersions => ∀ bundle, s.renders t = some ⟨bundle, .inserted⟩ →
      let stored := s.bundles.put bundle
      stored.kept (max 1 keepVersions) bundle.watermark = true ∧
        ∀ row ∈ stored.rows, stored.kept (max 1 keepVersions) row.watermark = false →
          s.heldBy t .inserted row.watermark = false
  | _ => True

def OrderlyRun (s : State) : List Action → Prop
  | [] => True
  | a :: as => Orderly s a ∧ ∀ s', step s a = some s' → OrderlyRun s' as

/-- The bundle has every change that was committed. -/
def State.Complete (s : State) (bundle : Bundle) : Prop :=
  bundle.body ≠ [] ∧ ∀ n ∈ bundle.body, s.dirtySeq ≤ n

structure Safe (s : State) : Prop where
  current : ∀ processRevision, s.isCurrent processRevision = true →
    ∃ w bundle, s.watermark = some w ∧ s.bundles.at? w = some bundle ∧
      processRevision ≤ bundle.revision ∧ s.Complete bundle
  served : ∀ w, s.watermark = some w → (s.bundles.at? w).isSome = true
  errors : s.errors = []

structure Forward (s s' : State) : Prop where
  watermark : ∀ w, s.watermark = some w → ∃ w', s'.watermark = some w' ∧ w ≤ w'
  revision : ∀ w bundle bundle', s.bundles.at? w = some bundle →
    s'.bundles.at? w = some bundle' → bundle.revision ≤ bundle'.revision

/-- A render's statements saw what its watermark counts. -/
structure Reads (dirtySeq : ℕ) (bundle : Bundle) : Prop where
  counted : bundle.watermark ≤ dirtySeq
  seen : ∀ n ∈ bundle.body, bundle.watermark ≤ n

structure Inv (s : State) : Prop where
  rows : ∀ row ∈ s.bundles.rows, Reads s.dirtySeq row ∧ row.body ≠ [] ∧
    ∃ w, s.watermark = some w ∧ row.watermark ≤ w
  mirror : ∀ w, s.watermark = some w →
    ∃ row, s.bundles.at? w = some row ∧ s.revision = some row.revision
  reads : ∀ t r, s.renders t = some r → Reads s.dirtySeq r.bundle
  /-- The row an inserted bundle replaces is older, and stays so: its lock is held. -/
  inserted : ∀ t bundle, s.renders t = some ⟨bundle, .inserted⟩ →
    bundle.body ≠ [] ∧ s.holder bundle.watermark = some t ∧
      ∀ row, s.bundles.at? bundle.watermark = some row → row.revision < bundle.revision
  errors : s.errors = []

theorem Inv.start (dirtySeq : ℕ) : Inv { dirtySeq := dirtySeq } where
  rows := fun row h => (List.not_mem_nil h).elim
  mirror := fun w h => by cases h
  reads := fun t r h => by cases h
  inserted := fun t bundle h => by cases h
  errors := rfl

theorem Inv.safe (h : Inv s) : Safe s where
  current := by
    intro processRevision hcurrent
    simp only [State.isCurrent, Bool.and_eq_true, Option.any_eq_true, decide_eq_true_eq]
      at hcurrent
    obtain ⟨⟨w, hw, hseq⟩, r, hr, hrevision⟩ := hcurrent
    obtain ⟨row, hrow, hmirror⟩ := h.mirror w hw
    obtain ⟨hmem, rfl⟩ := Bundles.at?_some hrow
    obtain ⟨hreads, hbody, -⟩ := h.rows row hmem
    rw [hmirror, Option.some.injEq] at hr
    refine ⟨row.watermark, row, hw, hrow, hr ▸ hrevision, hbody, fun n hn => ?_⟩
    exact Nat.le_trans hseq (hreads.seen n hn)
  served := by
    intro w hw
    obtain ⟨row, hrow, -⟩ := h.mirror w hw
    rw [hrow]
    rfl
  errors := h.errors

theorem Forward.refl_of (hwatermark : s'.watermark = s.watermark)
    (hbundles : s'.bundles = s.bundles) : Forward s s' where
  watermark := fun w hw => ⟨w, hwatermark.trans hw, Nat.le_refl w⟩
  revision := by
    intro w bundle bundle' hold hnew
    rw [hbundles, hold, Option.some.injEq] at hnew
    exact hnew ▸ Nat.le_refl _

theorem Inv.put (h : Inv s) {r : Render} (hreads : Reads s.dirtySeq r.bundle)
    (hphase : r.phase = .reading) : Inv (s.put t r) where
  rows := h.rows
  mirror := h.mirror
  reads := by
    intro t' r' hr'
    by_cases ht : t' = t
    · subst ht
      rw [State.put_renders_self, Option.some.injEq] at hr'
      exact hr' ▸ hreads
    · exact h.reads t' r' ((Function.update_of_ne ht _ _).symm.trans hr')
  inserted := by
    intro t' bundle hr'
    by_cases ht : t' = t
    · subst ht
      rw [State.put_renders_self, Option.some.injEq] at hr'
      rw [hr'] at hphase
      cases hphase
    · exact h.inserted t' bundle ((Function.update_of_ne ht _ _).symm.trans hr')
  errors := h.errors

theorem Inv.close (h : Inv s) (t : ℕ) : Inv (s.close t) where
  rows := h.rows
  mirror := h.mirror
  reads := by
    intro t' r' hr'
    by_cases ht : t' = t
    · subst ht
      rw [State.close_renders_self] at hr'
      cases hr'
    · exact h.reads t' r' ((Function.update_of_ne ht _ _).symm.trans hr')
  inserted := by
    intro t' bundle hr'
    by_cases ht : t' = t
    · subst ht
      rw [State.close_renders_self] at hr'
      cases hr'
    · obtain ⟨hbody, hholder, hrow⟩ :=
        h.inserted t' bundle ((Function.update_of_ne ht _ _).symm.trans hr')
      refine ⟨hbody, ?_, hrow⟩
      have hne : s.holder bundle.watermark ≠ some t := by
        rw [hholder]
        exact fun heq => ht (Option.some.inj heq)
      exact (if_neg hne).trans hholder
  errors := h.errors

theorem Inv.insert (h : Inv s) (hr : s.renders t = some ⟨bundle, .reading⟩)
    (hbody : bundle.body ≠ []) (hfree : s.holder bundle.watermark = none) :
    Inv (insert s t bundle) where
  rows := h.rows
  mirror := h.mirror
  reads := by
    intro t' r' hr'
    by_cases ht : t' = t
    · subst ht
      rw [BundleStore.insert, State.put_renders_self, Option.some.injEq] at hr'
      rw [← hr']
      exact h.reads t' ⟨bundle, .reading⟩ hr
    · exact h.reads t' r' ((Function.update_of_ne ht _ _).symm.trans hr')
  inserted := by
    intro t' bundle' hr'
    by_cases ht : t' = t
    · subst ht
      rw [BundleStore.insert, State.put_renders_self, Option.some.injEq, Render.mk.injEq] at hr'
      obtain ⟨rfl, hphase⟩ := hr'
      refine ⟨hbody, Function.update_self .., fun row hrow => ?_⟩
      split at hphase
      case isTrue hreplaces =>
        have hold : s.bundles.at? bundle.watermark = some row := hrow
        simpa [hold] using hreplaces
      case isFalse => cases hphase
    · obtain ⟨hbody', hholder, hrow⟩ :=
        h.inserted t' bundle' ((Function.update_of_ne ht _ _).symm.trans hr')
      refine ⟨hbody', ?_, hrow⟩
      have hne : bundle'.watermark ≠ bundle.watermark := by
        intro heq
        rw [heq, hfree] at hholder
        cases hholder
      exact (Function.update_of_ne hne _ _).trans hholder
  errors := h.errors

theorem advance_spec (s : State) (bundle : Bundle) :
    ∃ m, (s.advance bundle).watermark = some m ∧ bundle.watermark ≤ m ∧
      (∀ w, s.watermark = some w → w ≤ m) ∧
      ((m = bundle.watermark ∧ (s.advance bundle).revision = some bundle.revision) ∨
        (m ≠ bundle.watermark ∧ s.watermark = some m ∧
          (s.advance bundle).revision = s.revision)) := by
  unfold State.advance
  split
  case isTrue hall =>
    refine ⟨bundle.watermark, rfl, Nat.le_refl _, fun w hw => ?_, Or.inl ⟨rfl, rfl⟩⟩
    simpa [hw] using hall
  case isFalse hbehind =>
    cases hwatermark : s.watermark with
    | none => simp [hwatermark] at hbehind
    | some m =>
      have hlt : bundle.watermark < m := by simpa [hwatermark] using hbehind
      refine ⟨m, rfl, Nat.le_of_lt hlt, fun w hw => ?_, Or.inr ⟨Nat.ne_of_gt hlt, rfl, rfl⟩⟩
      exact Nat.le_of_eq (Option.some.inj hw).symm

theorem advance_fields (s : State) (bundle : Bundle) :
    (s.advance bundle).dirtySeq = s.dirtySeq ∧ (s.advance bundle).holder = s.holder ∧
      (s.advance bundle).renders = s.renders ∧ (s.advance bundle).errors = s.errors := by
  unfold State.advance
  split
  · exact ⟨rfl, rfl, rfl, rfl⟩
  · exact ⟨rfl, rfl, rfl, rfl⟩

def State.stored (s : State) (t keep : ℕ) (bundle : Bundle) : State :=
  { s.advance bundle with bundles := (s.bundles.put bundle).prune keep }.close t

theorem mem_put {b : Bundles} {other : Bundle} (h : other ∈ (b.put row).rows) :
    other = row ∨ other ∈ b.rows :=
  (List.mem_cons.mp h).imp_right List.mem_of_mem_filter

theorem at?_stored {w : ℕ} (h : (s.stored t keep bundle).bundles.at? w = some row) :
    (w = bundle.watermark ∧ row = bundle) ∨
      (w ≠ bundle.watermark ∧ s.bundles.at? w = some row) := by
  have hprune : ((s.bundles.put bundle).prune keep).at? w = some row := h
  rw [Bundles.at?_prune] at hprune
  obtain ⟨-, hprune⟩ := Option.ite_none_right_eq_some.mp hprune
  rw [Bundles.at?_put] at hprune
  split at hprune
  case isTrue heq => exact Or.inl ⟨heq, (Option.some.inj hprune).symm⟩
  case isFalse hne => exact Or.inr ⟨hne, hprune⟩

theorem Inv.stored (h : Inv s) (hkeep : 1 ≤ keep) (hr : s.renders t = some ⟨bundle, .inserted⟩) :
    Inv (s.stored t keep bundle) := by
  obtain ⟨hdirty, hholder, hrenders, herrors⟩ := advance_fields s bundle
  obtain ⟨m, hm, hle, hmax, hmirror⟩ := advance_spec s bundle
  obtain ⟨hbody, hheld, hreplaces⟩ := h.inserted t bundle hr
  have hbound : ∀ row ∈ (s.bundles.put bundle).rows, row.watermark ≤ m := by
    intro row hrow
    rcases mem_put hrow with rfl | hold
    · exact hle
    · obtain ⟨-, -, w, hw, hrowLe⟩ := h.rows row hold
      exact Nat.le_trans hrowLe (hmax w hw)
  have hother : ∀ {t' : ℕ} {r : Render}, t' ≠ t → (s.stored t keep bundle).renders t' = some r →
      s.renders t' = some r := by
    intro t' r ht hr'
    rw [← hrenders]
    exact (Function.update_of_ne ht _ _).symm.trans hr'
  constructor
  · intro row hrow
    have hmem := List.mem_of_mem_filter hrow
    refine ⟨?_, ?_, m, hm, hbound row hmem⟩
    · change Reads (s.advance bundle).dirtySeq row
      rw [hdirty]
      rcases mem_put hmem with rfl | hold
      · exact h.reads t _ hr
      · exact (h.rows row hold).1
    · rcases mem_put hmem with rfl | hold
      · exact hbody
      · exact (h.rows row hold).2.1
  · intro w hw
    obtain rfl : m = w := Option.some.inj (hm.symm.trans hw)
    have hkept := Bundles.kept_of_max hkeep hbound
    have hat : (s.stored t keep bundle).bundles.at? m = (s.bundles.put bundle).at? m := by
      change ((s.bundles.put bundle).prune keep).at? m = _
      rw [Bundles.at?_prune, if_pos hkept]
    rcases hmirror with ⟨heq, hrevision⟩ | ⟨hne, hold, hrevision⟩
    · exact ⟨bundle, by rw [hat, Bundles.at?_put, if_pos heq], hrevision⟩
    · obtain ⟨row, hrow, hrowRevision⟩ := h.mirror m hold
      exact ⟨row, by rw [hat, Bundles.at?_put, if_neg hne, hrow], hrevision.trans hrowRevision⟩
  · intro t' r hr'
    change Reads (s.advance bundle).dirtySeq r.bundle
    rw [hdirty]
    by_cases ht : t' = t
    · subst ht
      rw [State.stored, State.close_renders_self] at hr'
      cases hr'
    · exact h.reads t' r (hother ht hr')
  · intro t' bundle' hr'
    by_cases ht : t' = t
    · subst ht
      rw [State.stored, State.close_renders_self] at hr'
      cases hr'
    · obtain ⟨hbody', hheld', hreplaces'⟩ := h.inserted t' bundle' (hother ht hr')
      refine ⟨hbody', ?_, fun row hrow => ?_⟩
      · have hne : s.holder bundle'.watermark ≠ some t := by
          rw [hheld']
          exact fun heq => ht (Option.some.inj heq)
        have hclose : (s.stored t keep bundle).holder bundle'.watermark =
            if s.holder bundle'.watermark = some t then none else s.holder bundle'.watermark := by
          simp only [State.stored, State.close, hholder]
        rw [hclose, if_neg hne, hheld']
      · rcases at?_stored hrow with ⟨heq, -⟩ | ⟨-, hold⟩
        · rw [heq, hheld] at hheld'
          exact absurd (Option.some.inj hheld').symm ht
        · exact hreplaces' row hold
  · exact herrors.trans h.errors

theorem Inv.forward_stored (h : Inv s) (hr : s.renders t = some ⟨bundle, .inserted⟩) :
    Forward s (s.stored t keep bundle) where
  watermark := by
    intro w hw
    obtain ⟨m, hm, -, hmax, -⟩ := advance_spec s bundle
    exact ⟨m, hm, hmax w hw⟩
  revision := by
    intro w old new hold hnew
    rcases at?_stored hnew with ⟨rfl, rfl⟩ | ⟨-, hsame⟩
    · exact Nat.le_of_lt ((h.inserted t _ hr).2.2 old hold)
    · rw [hold, Option.some.injEq] at hsame
      exact hsame ▸ Nat.le_refl _

theorem finishStore_eq {keepVersions : ℕ} (hr : s.renders t = some ⟨bundle, .inserted⟩)
    (horderly : Orderly s (.finish t keepVersions))
    (h : finishStore s t keepVersions bundle = some s') :
    s' = s.stored t (max 1 keepVersions) bundle := by
  obtain ⟨hkept, hfree⟩ := horderly bundle hr
  obtain ⟨-, h⟩ := Option.ite_none_left_eq_some.mp h
  split at h
  case isTrue hdeadlock =>
    obtain ⟨row, hrow, hheld⟩ := List.any_eq_true.mp hdeadlock
    obtain ⟨hmem, hpruned⟩ := List.mem_filter.mp hrow
    rw [hfree row hmem (by simpa using hpruned)] at hheld
    cases hheld
  case isFalse =>
    -- `split` took the test for the row that was just written by `hkept`.
    exact (Option.some.inj h).symm

theorem Inv.step (h : Inv s) {a : Action} (horderly : Orderly s a)
    (hstep : step s a = some s') : Inv s' ∧ Forward s s' := by
  cases a <;> simp only [BundleStore.step] at hstep
  case write =>
    cases hstep
    refine ⟨⟨?_, h.mirror, ?_, h.inserted, h.errors⟩, .refl_of rfl rfl⟩
    · intro row hrow
      obtain ⟨hreads, hrest⟩ := h.rows row hrow
      exact ⟨⟨Nat.le_succ_of_le hreads.counted, hreads.seen⟩, hrest⟩
    · intro t r hr
      have hreads := h.reads t r hr
      exact ⟨Nat.le_succ_of_le hreads.counted, hreads.seen⟩
  case begin_ t revision =>
    split at hstep
    · cases hstep
      refine ⟨h.put ⟨Nat.le_refl _, fun n hn => (List.not_mem_nil hn).elim⟩ rfl, .refl_of rfl rfl⟩
    · cases hstep
  case read t =>
    split at hstep
    case h_2 => cases hstep
    case h_1 bundle hr =>
      cases hstep
      have hreads := h.reads t _ hr
      refine ⟨h.put ⟨hreads.counted, fun n hn => ?_⟩ rfl, .refl_of rfl rfl⟩
      rcases List.mem_append.mp hn with hold | hnew
      · exact hreads.seen n hold
      · rw [List.mem_singleton.mp hnew]
        exact hreads.counted
  case insert t =>
    split at hstep
    case h_2 => cases hstep
    case h_1 bundle hr =>
      obtain ⟨hfree, hstep⟩ := Option.ite_none_right_eq_some.mp hstep
      cases hstep
      exact ⟨h.insert hr hfree.1 hfree.2, .refl_of rfl rfl⟩
  case finish t keepVersions =>
    split at hstep
    case h_2 => cases hstep
    case h_1 bundle hr =>
      rw [finishStore_eq hr horderly hstep]
      exact ⟨h.stored (Nat.le_max_left 1 keepVersions) hr, h.forward_stored hr⟩
  case commitLost t =>
    split at hstep
    case h_2 => cases hstep
    case h_1 =>
      cases hstep
      exact ⟨h.close t, .refl_of rfl rfl⟩
  case rollback t =>
    cases hstep
    exact ⟨h.close t, .refl_of rfl rfl⟩

theorem Inv.run (h : Inv s) (horderly : OrderlyRun s as) (hrun : run s as = some s') : Inv s' := by
  induction as generalizing s with
  | nil =>
    cases hrun
    exact h
  | cons a as ih =>
    rw [BundleStore.run, Option.bind_eq_some_iff] at hrun
    obtain ⟨mid, hmid, hrest⟩ := hrun
    exact ih (h.step horderly.1 hmid).1 (horderly.2 mid hmid) hrest

/-- **In every run whose stores prune neither their own bundle nor one a render is still to store,
what is current is complete and of the process's revision or newer, the served bundle is there, the
store moves forward and no store raises.** -/
theorem store_forward {dirtySeq : ℕ} {as : List Action}
    (horderly : OrderlyRun { dirtySeq := dirtySeq } as)
    (hrun : run { dirtySeq := dirtySeq } as = some s) :
    Safe s ∧ ∀ a s', Orderly s a → BundleStore.step s a = some s' → Forward s s' :=
  have h := (Inv.start dirtySeq).run horderly hrun
  ⟨h.safe, fun _ _ ha hstep => (h.step ha hstep).2⟩

theorem OrderlyRun.cons {a : Action} (ha : Orderly s a) (hstep : BundleStore.step s a = some s')
    (hrest : OrderlyRun s' as) : OrderlyRun s (a :: as) := by
  refine ⟨ha, fun mid hmid => ?_⟩
  rw [hstep, Option.some.injEq] at hmid
  exact hmid ▸ hrest

/-- A render that reads before a change and stores after the render that read it, with two versions
kept. -/
def slowRender (keepVersions : ℕ) : List Action :=
  [.write, .begin_ 1 17, .read 1, .write, .begin_ 2 17, .read 2, .insert 2, .finish 2 keepVersions,
    .insert 1, .finish 1 keepVersions]

theorem store_forward_slowRender :
    ∃ s, run { dirtySeq := 0 } (slowRender 2) = some s ∧ s.isCurrent 17 = true ∧
      s.bundles.rows.length = 2 ∧ Safe s := by
  have horderly : OrderlyRun { dirtySeq := 0 } (slowRender 2) := by
    refine .cons trivial rfl (.cons trivial rfl (.cons trivial rfl (.cons trivial rfl
      (.cons trivial rfl (.cons trivial rfl (.cons trivial rfl (.cons ?_ rfl
        (.cons trivial rfl (.cons ?_ rfl trivial)))))))))
    · intro bundle hr
      cases hr
      decide
    · intro bundle hr
      cases hr
      decide
  exact ⟨_, rfl, by decide, by decide, (store_forward horderly rfl).1⟩

/-- With one version kept the slow render's bundle is pruned by its own store, which then asserts
that it is there. -/
theorem store_raises_slowRender :
    ∃ s, run { dirtySeq := 0 } (slowRender 1) = some s ∧ s.errors = [1] ∧ ¬ Safe s := by
  refine ⟨_, rfl, by decide, fun hsafe => ?_⟩
  exact absurd hsafe.errors (by decide)

end SpatiumDdi.Dns.BundleStore
