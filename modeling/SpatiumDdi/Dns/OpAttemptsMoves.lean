import SpatiumDdi.Dns.OpAttemptsBatch

/-!
What one event does to the row of an op, said once (`Move`), and to its link: a link that is set
names a later op for the same server and RRset.
-/

namespace SpatiumDdi.Dns.OpAttempts

variable {Key : Type} [DecidableEq Key] {ops : List (Op Key)} {i j server : ℕ}

def ships (s : State Key) (i : ℕ) : Event Key → Bool
  | .page server selected .. =>
    decide (i ∈ selected) && ofServer s.ops server i && (s.rows i).state = .pending
  | _ => false

/-- Whether an event answers the dispatch of an op in flight by an error, a reset or a return. -/
def refusesDispatch (s : State Key) (i : ℕ) : Event Key → Bool
  | .acks server acks _ =>
    ofServer s.ops server i && (s.rows i).state = .inFlight &&
      acks.any (Ack.refuses i (s.rows i))
  | .reset server now => unacknowledged s.ops server now s.rows i
  | .giveBack server inst pollStartedAt _ =>
    dispatchedElsewhere s.ops server inst pollStartedAt s.rows i
  | _ => false

def dispatches (i : ℕ) : List (Event Key) → List ℕ
  | [] => []
  | e :: past =>
    if ships (after past) i e then ((after past).rows i).attempts :: dispatches i past
    else dispatches i past

/-- The numbers of its dispatches that were answered by an error, a reset or a return. -/
def refusals (i : ℕ) : List (Event Key) → List ℕ
  | [] => []
  | e :: past =>
    if refusesDispatch (after past) i e then ((after past).rows i).attempts :: refusals i past
    else refusals i past

/-- The op `j` is of the server and RRset of the op `i` and was queued after it. -/
def Follows (ops : List (Op Key)) (i j : ℕ) : Prop :=
  ∃ a b, ops[i]? = some a ∧ ops[j]? = some b ∧ b.server = a.server ∧ a.rrset.isSome = true ∧
    b.rrset = a.rrset ∧ queuedAfter b a = true

inductive Move (shipped refused : Bool) (r r' : Row) : Prop where
  | stay : shipped = false → r'.state = r.state → r'.attempts = r.attempts →
      Move shipped refused r r'
  | ship : shipped = true → r.state = .pending → r'.state = .inFlight →
      r'.attempts = r.attempts → Move shipped refused r r'
  | retire : shipped = false → r.state = .pending → r'.state = .superseded →
      r'.attempts = r.attempts → Move shipped refused r r'
  | charge : shipped = false → refused = true → r.state = .inFlight →
      r'.attempts = r.attempts + 1 →
      (r'.state = .failed ∧ maxOpAttempts ≤ r'.attempts ∨
        r'.state = .pending ∨ r'.state = .superseded) → Move shipped refused r r'
  | settle : shipped = false → r.state ≠ .applied → r'.state = .applied →
      (r'.attempts = r.attempts ∨ r.state = .inFlight ∧ r'.attempts = r.attempts + 1) →
      Move shipped refused r r'

def LinkKept (ops : List (Op Key)) (i : ℕ) (r r' : Row) : Prop :=
  r'.supersededBy = r.supersededBy ∨ ∃ j, r'.supersededBy = some j ∧ Follows ops i j

theorem failAttempt_move (now : ℤ) (next : Option ℕ) (message : String) {row : Row}
    (hstate : row.state = .inFlight) :
    Move false true row (failAttempt now next message row) := by
  refine .charge rfl rfl hstate ?_ ?_
  · unfold failAttempt
    cases next with
    | some j => rfl
    | none => dsimp only; split_ifs <;> rfl
  · unfold failAttempt
    cases next with
    | some j => exact .inr (.inr rfl)
    | none =>
      dsimp only
      split_ifs with hspent
      · exact .inl ⟨rfl, hspent⟩
      · exact .inr (.inl rfl)

omit [DecidableEq Key] in
theorem newer_eq_or (ops : List (Op Key)) (i j : ℕ) : newer ops i j = i ∨ newer ops i j = j := by
  unfold newer
  split
  · split_ifs
    · exact .inr rfl
    · exact .inl rfl
  · exact .inl rfl

omit [DecidableEq Key] in
theorem foldl_newer_mem (ops : List (Op Key)) (i : ℕ) (rest : List ℕ) :
    rest.foldl (newer ops) i ∈ i :: rest := by
  induction rest generalizing i with
  | nil => exact List.mem_cons_self
  | cons j rest ih =>
    have hmem := ih (newer ops i j)
    rw [List.foldl_cons]
    rcases List.mem_cons.1 hmem with hhead | htail
    · rw [hhead]
      rcases newer_eq_or ops i j with h | h <;> simp [h]
    · exact List.mem_cons_of_mem _ (List.mem_cons_of_mem _ htail)

theorem successor_follows {rows : Rows} (hsuccessor : successor ops rows i = some j) :
    Follows ops i j := by
  unfold successor at hsuccessor
  cases hop : ops[i]? with
  | none => simp [hop] at hsuccessor
  | some op =>
    simp only [hop] at hsuccessor
    split at hsuccessor
    · cases hsuccessor
    · rename_i first rest hlater
      have hmem : j ∈ first :: rest := by
        rw [← Option.some.inj hsuccessor]
        exact foldl_newer_mem ops first rest
      rw [← hlater, List.mem_filter] at hmem
      obtain ⟨-, hmem⟩ := hmem
      cases hother : ops[j]? with
      | none => simp [hother] at hmem
      | some other =>
        simp only [hother, Option.any_some, Bool.and_eq_true, decide_eq_true_eq] at hmem
        obtain ⟨⟨⟨⟨hserver, hkey⟩, hrrset⟩, -⟩, hafter⟩ := hmem
        exact ⟨op, other, hop, hother, hserver, hkey, hrrset, hafter⟩

theorem failAttempt_link (ops : List (Op Key)) (rows : Rows) (i : ℕ) (now : ℤ) (message : String)
    (row : Row) : LinkKept ops i row (failAttempt now (successor ops rows i) message row) := by
  unfold failAttempt
  cases hnext : successor ops rows i with
  | some j => exact .inr ⟨j, rfl, successor_follows hnext⟩
  | none =>
    dsimp only
    split_ifs
    · exact .inl rfl
    · exact .inl rfl

variable (s : State Key) {page : List ℕ}

theorem applyAcks_move (server : ℕ) (acks : List Ack) (now : ℤ) (i : ℕ) :
    Move false (refusesDispatch s i (.acks server acks now)) (s.rows i)
        (applyAcks s.ops server now acks s.rows i) ∧
      LinkKept s.ops i (s.rows i) (applyAcks s.ops server now acks s.rows i) := by
  cases hmine : ofServer s.ops server i with
  | false =>
    rw [applyAcks_of_not_mine hmine]
    exact ⟨.stay rfl rfl rfl, .inl rfl⟩
  | true =>
    cases hok : acks.find? (Ack.confirms i) with
    | some ack =>
      rw [applyAcks_of_confirmed hmine hok]
      by_cases happlied : (s.rows i).state = .applied
      · rw [if_pos happlied]
        exact ⟨.stay rfl rfl rfl, .inl rfl⟩
      · rw [if_neg happlied]
        refine ⟨.settle rfl happlied rfl ?_, .inl rfl⟩
        unfold Row.apply
        dsimp only
        split_ifs with hcharged
        · exact .inr ⟨by simp_all, rfl⟩
        · exact .inl rfl
    | none =>
      by_cases hstate : (s.rows i).state = .inFlight
      · cases herror : acks.find? (Ack.refuses i (s.rows i)) with
        | none =>
          rw [applyAcks_of_silent hok fun _ => herror]
          exact ⟨.stay rfl rfl rfl, .inl rfl⟩
        | some ack =>
          have hrefused : refusesDispatch s i (.acks server acks now) = true := by
            simp only [refusesDispatch, hmine, hstate, decide_true, Bool.and_self,
              Bool.true_and, List.any_eq_true]
            exact ⟨ack, List.mem_of_find?_eq_some herror, List.find?_some herror⟩
          rw [applyAcks_of_refused hmine hstate hok herror, hrefused]
          exact ⟨failAttempt_move now _ _ hstate, failAttempt_link _ _ i now _ _⟩
      · rw [applyAcks_of_silent hok fun h => absurd h hstate]
        exact ⟨.stay rfl rfl rfl, .inl rfl⟩

theorem reset_move (server : ℕ) (now : ℤ) (i : ℕ) :
    Move false (refusesDispatch s i (.reset server now)) (s.rows i)
        (resetUnacknowledgedOps s.ops server now s.rows i) ∧
      LinkKept s.ops i (s.rows i) (resetUnacknowledgedOps s.ops server now s.rows i) := by
  unfold resetUnacknowledgedOps failAttempts
  cases hstale : unacknowledged s.ops server now s.rows i with
  | false =>
    simp only [hstale, Bool.false_eq_true, if_false]
    exact ⟨.stay rfl rfl rfl, .inl rfl⟩
  | true =>
    have hstate : (s.rows i).state = .inFlight := by
      simp only [unacknowledged, Bool.and_eq_true, decide_eq_true_eq] at hstale
      exact hstale.1.2
    simp only [refusesDispatch, hstale, if_true]
    exact ⟨failAttempt_move now _ _ hstate, failAttempt_link _ _ i now _ _⟩

theorem giveBack_move (server : ℕ) (inst : String) (pollStartedAt now : ℤ) (i : ℕ) :
    Move false (refusesDispatch s i (.giveBack server inst pollStartedAt now)) (s.rows i)
        (returnOpsDispatchedElsewhere s.ops server inst pollStartedAt now s.rows i) ∧
      LinkKept s.ops i (s.rows i)
        (returnOpsDispatchedElsewhere s.ops server inst pollStartedAt now s.rows i) := by
  unfold returnOpsDispatchedElsewhere failAttempts
  cases hstale : dispatchedElsewhere s.ops server inst pollStartedAt s.rows i with
  | false =>
    simp only [hstale, Bool.false_eq_true, Bool.false_and, if_false]
    exact ⟨.stay rfl rfl rfl, .inl rfl⟩
  | true =>
    have hstate : (s.rows i).state = .inFlight := by
      simp only [dispatchedElsewhere, Bool.and_eq_true, decide_eq_true_eq] at hstale
      exact hstale.1.1.2
    have hmove := failAttempt_move now (successor s.ops s.rows i) elsewhereMessage hstate
    have hlink := failAttempt_link s.ops s.rows i now elsewhereMessage (s.rows i)
    simp only [refusesDispatch, hstale, if_true, Bool.true_and]
    -- Without its backoff the row is the same op at the same count.
    split_ifs
    · cases hmove with
      | stay h => exact ⟨.stay h ‹_› ‹_›, hlink⟩
      | ship h => cases h
      | retire h hpending => rw [hstate] at hpending; cases hpending
      | charge h hrefused hflight hattempts hnext =>
        exact ⟨.charge h hrefused hflight hattempts hnext, hlink⟩
      | settle h hne happlied hattempts => exact ⟨.settle h hne happlied hattempts, hlink⟩
    · exact ⟨hmove, hlink⟩

theorem newestShipped_follows (hpage : ∀ j ∈ page, ofServer ops server j = true)
    (hmine : ofServer ops server i = true) (hnewest : newestShipped ops page i = some j) :
    Follows ops i j := by
  unfold newestShipped at hnewest
  cases hop : ops[i]? with
  | none => simp [hop] at hnewest
  | some op =>
    simp only [hop] at hnewest
    split_ifs at hnewest with hkey
    rw [Option.filter_eq_some_iff] at hnewest
    obtain ⟨hlast, hafter⟩ := hnewest
    have hmem := List.mem_of_getLast? hlast
    rw [List.mem_filter] at hmem
    obtain ⟨hshipped, hrrset⟩ := hmem
    have hserver := hpage j hshipped
    cases hother : ops[j]? with
    | none => simp [hother] at hafter
    | some other =>
      simp only [hother, Option.any_some, decide_eq_true_eq] at hafter hrrset
      simp only [ofServer, hother, hop, Option.any_some, decide_eq_true_eq] at hserver hmine
      refine ⟨op, other, hop, hother, hserver.trans hmine.symm, ?_, hrrset, hafter⟩
      simpa [Option.isSome_iff_ne_none] using hkey

theorem supersedeBackedOffOps_cases (waiting : ℕ → Bool) (now : ℤ) (rows : Rows)
    (hpage : ∀ j ∈ page, ofServer ops server j = true)
    (hwaiting : waiting i = true → ofServer ops server i = true) :
    supersedeBackedOffOps ops page waiting now rows i = rows i ∨
      waiting i = true ∧ ∃ j, Follows ops i j ∧
        supersedeBackedOffOps ops page waiting now rows i = supersede j now (rows i) := by
  unfold supersedeBackedOffOps
  cases hnewest : newestShipped ops page i with
  | none => exact .inl rfl
  | some j =>
    dsimp only
    split_ifs with h
    · exact .inr ⟨h, j, newestShipped_follows hpage (hwaiting h) hnewest, rfl⟩
    · exact .inl rfl

theorem shipPage_move (server : ℕ) (selected waiting : List ℕ) (dispatchedTo : Option String)
    (pollStartedAt : Option ℤ) (now : ℤ) (i : ℕ) :
    Move (ships s i (.page server selected waiting dispatchedTo pollStartedAt now))
        (refusesDispatch s i (.page server selected waiting dispatchedTo pollStartedAt now))
        (s.rows i)
        ((step s (.page server selected waiting dispatchedTo pollStartedAt now)).rows i) ∧
      LinkKept s.ops i (s.rows i)
        ((step s (.page server selected waiting dispatchedTo pollStartedAt now)).rows i) := by
  have hpage : ∀ j ∈ (selected.filter (ofServer s.ops server)).filter
      fun i => (s.rows i).state = .pending, ofServer s.ops server j = true := by
    intro j hj
    exact (List.mem_filter.1 (List.mem_filter.1 hj).1).2
  have hships : ships s i (.page server selected waiting dispatchedTo pollStartedAt now) =
      decide (i ∈ (selected.filter (ofServer s.ops server)).filter
        fun i => (s.rows i).state = .pending) := by
    simp only [ships, List.mem_filter, decide_eq_true_eq]
    rw [Bool.decide_and, Bool.decide_and, Bool.decide_eq_true]
  have hwaiting : (decide (i ∈ waiting.filter (ofServer s.ops server)) &&
      (s.rows i).state = .pending && (s.rows i).nextAttemptAt.any (now < ·)) = true →
      ofServer s.ops server i = true := by
    intro h
    simp only [Bool.and_eq_true, decide_eq_true_eq, List.mem_filter] at h
    exact h.1.1.2
  have hcases := supersedeBackedOffOps_cases
    (fun i => decide (i ∈ waiting.filter (ofServer s.ops server)) &&
      (s.rows i).state = .pending && (s.rows i).nextAttemptAt.any (now < ·))
    now s.rows hpage hwaiting
  unfold step shipPage
  dsimp only
  split_ifs with hshipped
  · have hpending : (s.rows i).state = .pending := by
      simpa using (List.mem_filter.1 hshipped).2
    rw [hships, decide_eq_true hshipped]
    rcases hcases with hrow | ⟨-, j, hfollows, hrow⟩
    · rw [hrow]
      exact ⟨.ship rfl hpending rfl rfl, .inl rfl⟩
    · rw [hrow]
      exact ⟨.ship rfl hpending rfl rfl, .inr ⟨j, rfl, hfollows⟩⟩
  · rw [hships, decide_eq_false hshipped]
    rcases hcases with hrow | ⟨hbacksOff, j, hfollows, hrow⟩
    · rw [hrow]
      exact ⟨.stay rfl rfl rfl, .inl rfl⟩
    · simp only [Bool.and_eq_true, decide_eq_true_eq] at hbacksOff
      rw [hrow]
      exact ⟨.retire rfl hbacksOff.1.2 rfl rfl, .inr ⟨j, rfl, hfollows⟩⟩

theorem step_move (e : Event Key) (i : ℕ) :
    Move (ships s i e) (refusesDispatch s i e) (s.rows i) ((step s e).rows i) ∧
      LinkKept s.ops i (s.rows i) ((step s e).rows i) := by
  cases e with
  | queue op => exact ⟨.stay rfl rfl rfl, .inl rfl⟩
  | page server selected waiting dispatchedTo pollStartedAt now =>
    exact shipPage_move s server selected waiting dispatchedTo pollStartedAt now i
  | acks server acks now => exact applyAcks_move s server acks now i
  | reset server now => exact reset_move s server now i
  | giveBack server inst pollStartedAt now => exact giveBack_move s server inst pollStartedAt now i

end SpatiumDdi.Dns.OpAttempts
