import SpatiumDdi.Audit.Chain

/-!
Concurrent writers of the audit log. A flush takes the chain's advisory lock,
reads the last hash it can see, hashes its rows and inserts them one by one; the
lock is held until the transaction ends. Sequence numbers are drawn outside the
transaction and are lost with a rollback. The committed rows and those of the
lock's holder always form one chain, in the order of their numbers.
-/

namespace SpatiumDdi.Audit

variable {ι J : Type} [DecidableEq ι]

inductive Flush (J : Type) where
  | idle
  /-- It holds the lock and is about to read the last hash. -/
  | locked (ctx : FlushContext J) (newRows : List (StagedRow J))
  | inserting (rows : List (HashedRow J))

/-- A transaction: the rows it has inserted, which only it sees. -/
structure Writer (J : Type) where
  pending : List (AuditLog J) := []
  flush : Flush J := .idle

structure AuditState (ι J : Type) where
  committed : List (AuditLog J)
  /-- The next value of `audit_log_seq_seq`. -/
  nextSeq : Int
  /-- The holder of the advisory lock. -/
  lock : Option ι
  writer : ι → Writer J

namespace AuditState

def initial : AuditState ι J where
  committed := []
  nextSeq := 1
  lock := none
  writer := fun _ => {}

def set (s : AuditState ι J) (i : ι) (w : Writer J) : AuditState ι J :=
  { s with writer := Function.update s.writer i w }

def release (s : AuditState ι J) (i : ι) : Option ι := if s.lock = some i then none else s.lock

inductive Step (sha : String → String) (dumps : AuditPayload J → String) (s : AuditState ι J) :
    AuditState ι J → Prop where
  | lockChain (i : ι) (ctx : FlushContext J) (newRows : List (StagedRow J)) :
      (s.writer i).flush = .idle → newRows ≠ [] → s.lock = none ∨ s.lock = some i →
      Step sha dumps s
        { s.set i { s.writer i with flush := .locked ctx newRows } with lock := some i }
  | hash (i : ι) (ctx : FlushContext J) (newRows : List (StagedRow J)) :
      (s.writer i).flush = .locked ctx newRows →
      Step sha dumps s (s.set i { s.writer i with
        flush := .inserting
          (computeAuditHashes sha dumps ctx (s.committed ++ (s.writer i).pending) newRows) })
  | insert (i : ι) (row : HashedRow J) (rest : List (HashedRow J)) :
      (s.writer i).flush = .inserting (row :: rest) →
      Step sha dumps s { s.set i
        { pending := (s.writer i).pending ++ [{ row with seq := s.nextSeq }]
          flush := .inserting rest } with nextSeq := s.nextSeq + 1 }
  | flushed (i : ι) : (s.writer i).flush = .inserting [] →
      Step sha dumps s (s.set i { s.writer i with flush := .idle })
  | drawNumber : Step sha dumps s { s with nextSeq := s.nextSeq + 1 }
  | commit (i : ι) : (s.writer i).flush = .idle →
      Step sha dumps s { s.set i {} with
        committed := s.committed ++ (s.writer i).pending, lock := s.release i }
  | rollback (i : ι) : Step sha dumps s { s.set i {} with lock := s.release i }

def Reachable (sha : String → String) (dumps : AuditPayload J → String) :
    AuditState ι J → Prop :=
  Relation.ReflTransGen (Step sha dumps) initial

/-- The rows of the transaction that holds the lock. -/
def held (s : AuditState ι J) : List (AuditLog J) :=
  match s.lock with
  | none => []
  | some i => (s.writer i).pending

/-- What the transactions keep: the committed rows and the holder's are one
chain below the next number, nobody else has rows or is in a flush, and the rows
the holder is about to insert continue the chain. -/
structure Inv (sha : String → String) (dumps : AuditPayload J → String) (s : AuditState ι J) :
    Prop where
  chained : Chained sha dumps (s.committed ++ s.held)
  below : ∀ r ∈ s.committed ++ s.held, r.seq < s.nextSeq
  next : 0 < s.nextSeq
  others : ∀ i, s.lock ≠ some i → s.writer i = {}
  inserting : ∀ i rows, s.lock = some i → (s.writer i).flush = .inserting rows →
    (chain sha dumps).Linked
      ((chain sha dumps).tip none ((s.committed ++ s.held).map AuditLog.toHashedRow)) rows

variable {sha : String → String} {dumps : AuditPayload J → String} {s s' : AuditState ι J}

variable {i : ι}

omit [DecidableEq ι] in
theorem held_of_lock (h : s.lock = some i) : s.held = (s.writer i).pending := by
  simp [held, h]

theorem set_self (s : AuditState ι J) (i : ι) (w : Writer J) : (s.set i w).writer i = w :=
  Function.update_self ..

theorem set_of_ne (s : AuditState ι J) {j : ι} (w : Writer J) (h : j ≠ i) :
    (s.set i w).writer j = s.writer j :=
  Function.update_of_ne h ..

namespace Inv

theorem lock_of_ne (h : Inv sha dumps s) (hne : s.writer i ≠ {}) : s.lock = some i := by
  by_contra hlock
  exact hne (h.others i hlock)

theorem lock_of_flush (h : Inv sha dumps s) (hflush : (s.writer i).flush ≠ .idle) :
    s.lock = some i :=
  h.lock_of_ne fun he => hflush (by rw [he])

omit [DecidableEq ι] in
theorem initial : Inv sha dumps (AuditState.initial : AuditState ι J) where
  chained := ⟨List.Pairwise.nil, by simp [AuditState.initial, held], trivial⟩
  below := by simp [AuditState.initial, held]
  next := Int.one_pos
  others _ _ := rfl
  inserting _ _ hlock := by simp [AuditState.initial] at hlock

section

variable (h : Inv sha dumps s)
include h

theorem setFlush (hlock : s.lock = some i) {f : Flush J}
    (hf : ∀ rows, f = .inserting rows → (chain sha dumps).Linked ((chain sha dumps).tip none ((s.committed ++ s.held).map AuditLog.toHashedRow)) rows) :
    Inv sha dumps (s.set i { s.writer i with flush := f }) := by
  have hheld : (s.set i { s.writer i with flush := f }).held = s.held := by
    rw [held_of_lock hlock, held_of_lock (s := s.set i _) hlock, set_self]
  constructor
  · rw [hheld]
    exact h.chained
  · rw [hheld]
    exact h.below
  · exact h.next
  · intro j hj
    have hji : j ≠ i := by
      rintro rfl
      exact hj hlock
    rw [set_of_ne s _ hji]
    exact h.others j hj
  · intro j rows hj hrows
    obtain rfl : i = j := Option.some.inj (hlock.symm.trans hj)
    rw [set_self] at hrows
    rw [hheld]
    exact hf rows hrows

theorem lockChain (ctx : FlushContext J) (newRows : List (StagedRow J))
    (hlock : s.lock = none ∨ s.lock = some i) :
    Inv sha dumps
      { s.set i { s.writer i with flush := .locked ctx newRows } with lock := some i } := by
  -- A free lock means that the writer has no rows yet.
  have hheld : (s.writer i).pending = s.held := by
    rcases hlock with hlock | hlock
    · rw [h.others i (by simp [hlock])]
      simp [held, hlock]
    · exact (held_of_lock hlock).symm
  have hnew : (AuditState.held
      { s.set i { s.writer i with flush := .locked ctx newRows } with lock := some i }) =
      s.held := by
    have hself := congrArg Writer.pending
      (set_self s i { s.writer i with flush := .locked ctx newRows })
    rw [held_of_lock (i := i) rfl, ← hheld]
    exact hself
  constructor
  · rw [hnew]
    exact h.chained
  · rw [hnew]
    exact h.below
  · exact h.next
  · intro j hj
    have hji : j ≠ i := fun he => hj (by rw [he])
    refine (set_of_ne s _ hji).trans (h.others j ?_)
    rcases hlock with hlock | hlock
    · simp [hlock]
    · rw [hlock]
      exact fun he => hji (Option.some.inj he).symm
  · intro j rows hj hrows
    obtain rfl : i = j := Option.some.inj hj
    have hflush := congrArg Writer.flush
      (set_self s i { s.writer i with flush := .locked ctx newRows })
    exact absurd (hflush.symm.trans hrows) (by simp)

theorem hash {ctx : FlushContext J} {newRows : List (StagedRow J)}
    (hflush : (s.writer i).flush = .locked ctx newRows) :
    Inv sha dumps (s.set i { s.writer i with
      flush := .inserting
        (computeAuditHashes sha dumps ctx (s.committed ++ (s.writer i).pending) newRows) }) := by
  have hlock := h.lock_of_flush (i := i) (by simp [hflush])
  refine h.setFlush hlock fun rows hrows => ?_
  obtain rfl := Flush.inserting.inj hrows
  have hlast := @latestHash_eq _ sha dumps _ h.chained.sorted
  rw [held_of_lock hlock] at hlast ⊢
  rw [computeAuditHashes, hlast]
  exact linked_hashRows sha dumps _ _

theorem insert {row : HashedRow J} {rest : List (HashedRow J)}
    (hflush : (s.writer i).flush = .inserting (row :: rest)) :
    Inv sha dumps { s.set i
      { pending := (s.writer i).pending ++ [{ row with seq := s.nextSeq }]
        flush := .inserting rest } with nextSeq := s.nextSeq + 1 } := by
  have hlock := h.lock_of_flush (i := i) (by simp [hflush])
  have hlinked := h.inserting i _ hlock hflush
  obtain ⟨hprev, hown, hrest⟩ := hlinked
  have hheld : AuditState.held { s.set i
      { pending := (s.writer i).pending ++ [{ row with seq := s.nextSeq }]
        flush := .inserting rest } with nextSeq := s.nextSeq + 1 } =
      s.held ++ [{ row with seq := s.nextSeq }] := by
    have hself := congrArg Writer.pending (set_self s i
      { pending := (s.writer i).pending ++ [{ row with seq := s.nextSeq }]
        flush := .inserting rest })
    rw [held_of_lock hlock]
    refine Eq.trans (held_of_lock (i := i) ?_) hself
    exact hlock
  constructor
  · rw [hheld, ← List.append_assoc]
    refine ⟨?_, ?_, ?_⟩
    · refine List.pairwise_append.mpr ⟨h.chained.sorted, List.pairwise_singleton _ _, ?_⟩
      intro a ha b hb
      rw [List.mem_singleton.mp hb]
      exact h.below a ha
    · intro r hr
      rcases List.mem_append.mp hr with hr | hr
      · exact h.chained.pos r hr
      · rw [List.mem_singleton.mp hr]
        exact h.next
    · rw [List.map_append, HashChain.linked_append]
      exact ⟨h.chained.linked, hprev, hown, trivial⟩
  · rw [hheld, ← List.append_assoc]
    intro r hr
    rcases List.mem_append.mp hr with hr | hr
    · exact Int.lt_trans (h.below r hr) (Int.lt_succ _)
    · rw [List.mem_singleton.mp hr]
      exact Int.lt_succ _
  · exact Int.add_pos h.next Int.one_pos
  · intro j hj
    have hji : j ≠ i := by
      rintro rfl
      exact hj hlock
    exact (set_of_ne s _ hji).trans (h.others j hj)
  · intro j rows hj hrows
    obtain rfl : i = j := Option.some.inj (hlock.symm.trans hj)
    have hrows : Flush.inserting rest = Flush.inserting rows :=
      (congrArg Writer.flush (set_self s i _)).symm.trans hrows
    obtain rfl := Flush.inserting.inj hrows
    rw [hheld, ← List.append_assoc, List.map_append, HashChain.tip_append]
    exact hrest

theorem finish (i : ι) {rows : List (AuditLog J)}
    (hrows : rows = s.committed ∨ rows = s.committed ++ (s.writer i).pending) :
    Inv sha dumps { s.set i {} with committed := rows, lock := s.release i } := by
  by_cases hlock : s.lock = some i
  · have hrelease : s.release i = none := if_pos hlock
    have hheld : AuditState.held { s.set i {} with committed := rows, lock := s.release i } =
        [] := by
      simp [held, hrelease]
    have hprefix : ∃ rest, s.committed ++ s.held = rows ++ rest := by
      rcases hrows with rfl | rfl
      · exact ⟨s.held, rfl⟩
      · exact ⟨[], by rw [held_of_lock hlock, List.append_nil]⟩
    obtain ⟨rest, hrest⟩ := hprefix
    have hchained := h.chained
    have hbelow := h.below
    rw [hrest] at hchained hbelow
    constructor
    · rw [hheld, List.append_nil]
      have hlinked := hchained.linked
      rw [List.map_append, HashChain.linked_append] at hlinked
      exact ⟨(List.pairwise_append.mp hchained.sorted).1,
        fun r hr => hchained.pos r (List.mem_append_left _ hr), hlinked.1⟩
    · rw [hheld, List.append_nil]
      exact fun r hr => hbelow r (List.mem_append_left _ hr)
    · exact h.next
    · intro j hj
      by_cases hji : j = i
      · subst hji
        exact set_self s j _
      · refine (set_of_ne s _ hji).trans (h.others j ?_)
        rw [hlock]
        exact fun he => hji (Option.some.inj he).symm
    · intro j rows' hj
      rw [hrelease] at hj
      simp at hj
  · have hrelease : s.release i = s.lock := if_neg hlock
    have hempty := h.others i hlock
    obtain rfl : rows = s.committed := by
      rcases hrows with rfl | rfl
      · rfl
      · rw [hempty, List.append_nil]
    have hsame : s.set i {} = s := by
      rw [← hempty]
      unfold set
      rw [Function.update_eq_self]
    rw [hsame, hrelease]
    exact h

theorem step (hstep : Step sha dumps s s') : Inv sha dumps s' := by
  cases hstep with
  | lockChain i ctx newRows _ _ hlock => exact h.lockChain ctx newRows hlock
  | hash i ctx newRows hflush => exact h.hash hflush
  | insert i row rest hflush => exact h.insert hflush
  | flushed i hflush =>
    have hlock := h.lock_of_flush (i := i) (by simp [hflush])
    exact h.setFlush hlock fun rows hrows => by simp at hrows
  | drawNumber =>
    exact ⟨h.chained, fun r hr => Int.lt_trans (h.below r hr) (Int.lt_succ _), Int.add_pos h.next Int.one_pos, h.others,
      h.inserting⟩
  | commit i _ => exact h.finish i (Or.inr rfl)
  | rollback i => exact h.finish i (Or.inl rfl)

end

end Inv

theorem Reachable.inv (h : Reachable sha dumps s) : Inv sha dumps s := by
  induction h with
  | refl => exact .initial
  | tail _ hstep ih => exact ih.step hstep

theorem Reachable.chained (h : Reachable sha dumps s) : Chained sha dumps s.committed := by
  have hchained := h.inv.chained
  have hlinked := hchained.linked
  rw [List.map_append, HashChain.linked_append] at hlinked
  exact ⟨(List.pairwise_append.mp hchained.sorted).1,
    fun r hr => hchained.pos r (List.mem_append_left _ hr), hlinked.1⟩

/-- However the writers interleave, the verifier finds no break in what is
committed. -/
theorem verifyChain_of_reachable (h : Reachable sha dumps s) (maxRows : Option Nat)
    (startAfter : Option (AuditLog J)) (hstart : ∀ r, startAfter = some r → r ∈ s.committed)
    (chunkSize : Nat) (newest : Bool) :
    ∃ result, verifyChain sha dumps s.committed maxRows
      (startAfter.map fun r => (r.seq, r.rowHash)) chunkSize newest = some result ∧
      result.ok = true ∧ result.breaks = [] :=
  verifyChain_ok h.chained maxRows startAfter hstart chunkSize newest

def loginRow : StagedRow Unit :=
  { userDisplayName := "admin", action := "login", resourceType := "user", resourceId := "1",
    resourceDisplay := "admin" }

def loginContext : FlushContext Unit where
  uuid4 := fun _ => "row"
  now := "2026-01-01"
  requestId := none
  normaliseJsonb := id

/-- One writer adds two rows in one flush and commits. -/
theorem verifyChain_loginRows : ∃ s : AuditState Unit Unit,
    Reachable id (fun payload => payload.action) s ∧ s.committed.length = 2 ∧
    ∃ result, verifyChain id (fun payload => payload.action) s.committed none none 5000 false =
      some result ∧ result.ok = true ∧ result.breaks = [] := by
  have hstart : Reachable id (fun payload => payload.action) (initial : AuditState Unit Unit) :=
    .refl
  have hlocked := hstart.tail
    (.lockChain () loginContext [loginRow, loginRow] rfl (by simp) (Or.inl rfl))
  have hhashed := hlocked.tail (.hash () loginContext [loginRow, loginRow] rfl)
  have hone := hhashed.tail (.insert () _ _ rfl)
  have htwo := hone.tail (.insert () _ _ rfl)
  have hflushed := htwo.tail (.flushed () rfl)
  have hcommitted := hflushed.tail (.commit () rfl)
  refine ⟨_, hcommitted, rfl, verifyChain_of_reachable hcommitted none none ?_ 5000 false⟩
  simp

end AuditState

end SpatiumDdi.Audit
