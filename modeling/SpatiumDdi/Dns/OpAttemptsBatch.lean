import Mathlib.Data.List.Induction
import SpatiumDdi.Dns.OpAttempts

/-!
One batch of acks, read op by op: the first `ok` settles an op, and where there is none the first
error for its current dispatch does. From that, when the order of the entries does not matter.
-/

namespace SpatiumDdi.Dns.OpAttempts

variable {Key : Type} [DecidableEq Key]

/-- The entries that say an op was applied. -/
def Ack.confirms (i : ℕ) (ack : Ack) : Bool := ack.op = i && ack.ok

/-- The entries that charge an op in flight. -/
def Ack.refuses (i : ℕ) (row : Row) (ack : Ack) : Bool := ack.op = i && !ack.ok && ack.current row

/-- What the entries of a batch make of one row, and the failure they leave for it. -/
def verdict (now : ℤ) (acks : List Ack) (i : ℕ) (row : Row) : Row × Option String :=
  match acks.find? (Ack.confirms i) with
  | some ack => (if row.state = .applied then row else row.apply now (ack.current row), none)
  | none =>
    (row, if row.state = .inFlight then (acks.find? (Ack.refuses i row)).map Ack.error else none)

variable {ack : Ack} {i : ℕ}

theorem applyAck_of_ne (mine : ℕ → Bool) (now : ℤ) (acc : Rows × (ℕ → Option String))
    (hne : ack.op ≠ i) :
    (applyAck mine now acc ack).1 i = acc.1 i ∧ (applyAck mine now acc ack).2 i = acc.2 i := by
  obtain ⟨rows, failures⟩ := acc
  simp only [applyAck]
  split_ifs <;> simp [Function.update_of_ne hne.symm]

variable {mine : ℕ → Bool}

theorem applyAck_ok (now : ℤ) (acc : Rows × (ℕ → Option String)) (hmine : mine ack.op = true)
    (hok : ack.ok = true) :
    (applyAck mine now acc ack).1 ack.op =
        (if (acc.1 ack.op).state = .applied then acc.1 ack.op
          else (acc.1 ack.op).apply now (ack.current (acc.1 ack.op))) ∧
      (applyAck mine now acc ack).2 ack.op =
        (if (acc.1 ack.op).state = .applied then acc.2 ack.op else none) := by
  unfold applyAck
  by_cases happlied : (acc.1 ack.op).state = .applied <;> simp [hmine, hok, happlied]

theorem applyAck_error (now : ℤ) (acc : Rows × (ℕ → Option String)) (hmine : mine ack.op = true)
    (hok : ack.ok = false) :
    (applyAck mine now acc ack).1 ack.op = acc.1 ack.op ∧
      (applyAck mine now acc ack).2 ack.op =
        (if (acc.1 ack.op).state = .inFlight ∧ ack.current (acc.1 ack.op) = true then
          (acc.2 ack.op).or (some ack.error) else acc.2 ack.op) := by
  unfold applyAck
  cases hfailure : acc.2 ack.op <;>
    by_cases hstate : (acc.1 ack.op).state = .inFlight <;>
      by_cases hcurrent : ack.current (acc.1 ack.op) = true <;>
        simp [hmine, hok, hstate, hcurrent, hfailure]

theorem settleAcks_at (now : ℤ) (rows : Rows) (hmine : mine i = true) (acks : List Ack) :
    (settleAcks mine now rows acks).1 i = (verdict now acks i (rows i)).1 ∧
      (settleAcks mine now rows acks).2 i = (verdict now acks i (rows i)).2 := by
  induction acks using List.reverseRecOn with
  | nil => simp [settleAcks, verdict]
  | append_singleton acks ack ih =>
    have hstep : settleAcks mine now rows (acks ++ [ack]) =
        applyAck mine now (settleAcks mine now rows acks) ack := by
      simp [settleAcks]
    rw [hstep]
    by_cases hop : ack.op = i
    · subst hop
      cases hok : ack.ok with
      | true =>
        obtain ⟨hrow, hfailure⟩ := applyAck_ok now (settleAcks mine now rows acks) hmine hok
        rw [hrow, hfailure, ih.1, ih.2]
        -- An earlier `ok` has already made the row applied.
        cases hfound : acks.find? (Ack.confirms ack.op) with
        | some first =>
          by_cases happlied : (rows ack.op).state = .applied <;>
            simp [verdict, List.find?_append, hfound, happlied, Row.apply]
        | none =>
          by_cases happlied : (rows ack.op).state = .applied <;>
            simp [verdict, List.find?_append, hfound, happlied, Ack.confirms, hok]
      | false =>
        obtain ⟨hrow, hfailure⟩ := applyAck_error now (settleAcks mine now rows acks) hmine hok
        rw [hrow, hfailure, ih.1, ih.2]
        cases hfound : acks.find? (Ack.confirms ack.op) with
        | some first =>
          by_cases happlied : (rows ack.op).state = .applied <;>
            simp [verdict, List.find?_append, hfound, happlied, Row.apply]
        | none =>
          by_cases hstate : (rows ack.op).state = .inFlight <;>
            by_cases hcurrent : ack.current (rows ack.op) = true <;>
              cases herror : acks.find? (Ack.refuses ack.op (rows ack.op)) <;>
                simp [verdict, List.find?_append, hfound, hstate, Ack.confirms, hok, herror,
                  Ack.refuses, hcurrent]
    · obtain ⟨hrow, hfailure⟩ := applyAck_of_ne mine now (settleAcks mine now rows acks) hop
      rw [hrow, hfailure, ih.1, ih.2]
      simp [verdict, List.find?_append, Ack.confirms, Ack.refuses, hop]

theorem settleAcks_of_not_mine (now : ℤ) (rows : Rows) (hmine : mine i = false) (acks : List Ack) :
    (settleAcks mine now rows acks).1 i = rows i ∧
      (settleAcks mine now rows acks).2 i = none := by
  induction acks using List.reverseRecOn with
  | nil => simp [settleAcks]
  | append_singleton acks ack ih =>
    have hstep : settleAcks mine now rows (acks ++ [ack]) =
        applyAck mine now (settleAcks mine now rows acks) ack := by
      simp [settleAcks]
    rw [hstep]
    by_cases hop : ack.op = i
    · have hskip : applyAck mine now (settleAcks mine now rows acks) ack =
          settleAcks mine now rows acks := by
        simp [applyAck, hop, hmine]
      rw [hskip]
      exact ih
    · obtain ⟨hrow, hfailure⟩ := applyAck_of_ne mine now (settleAcks mine now rows acks) hop
      rw [hrow, hfailure]
      exact ih

/-- A batch that says one thing about each op in flight: its `ok`s are all for the current dispatch
or all for earlier ones, and where it has no `ok` the errors for the current dispatch agree. -/
structure Unambiguous (mine : ℕ → Bool) (rows : Rows) (acks : List Ack) : Prop where
  confirmed : ∀ i, mine i = true → (rows i).state = .inFlight → ∀ a ∈ acks, ∀ b ∈ acks,
    a.confirms i = true → b.confirms i = true → a.current (rows i) = b.current (rows i)
  refused : ∀ i, mine i = true → (rows i).state = .inFlight →
    (∀ a ∈ acks, a.confirms i = false) → ∀ a ∈ acks, ∀ b ∈ acks,
    a.refuses i (rows i) = true → b.refuses i (rows i) = true → a.error = b.error

theorem Row.apply_of_not_inFlight {row : Row} (hstate : row.state ≠ .inFlight) (now : ℤ)
    (b c : Bool) : row.apply now b = row.apply now c := by
  simp [Row.apply, hstate]

theorem verdict_perm {rows : Rows} {acks acks' : List Ack} (hclear : Unambiguous mine rows acks)
    (hperm : acks'.Perm acks) (hmine : mine i = true) (now : ℤ) :
    verdict now acks' i (rows i) = verdict now acks i (rows i) := by
  have hfind : ∀ p : Ack → Bool, acks'.find? p = none ↔ acks.find? p = none := by
    intro p
    simp only [List.find?_eq_none, hperm.mem_iff]
  unfold verdict
  cases hok : acks.find? (Ack.confirms i) with
  | none =>
    rw [(hfind _).2 hok]
    have hnone : ∀ a ∈ acks, a.confirms i = false := by simpa using hok
    by_cases hstate : (rows i).state = .inFlight
    · cases herror : acks.find? (Ack.refuses i (rows i)) with
      | none => simp [(hfind _).2 herror]
      | some b =>
        cases herror' : acks'.find? (Ack.refuses i (rows i)) with
        | none => simp [(hfind _).1 herror'] at herror
        | some a =>
          have hsame := hclear.refused i hmine hstate hnone a
            (hperm.mem_iff.1 (List.mem_of_find?_eq_some herror')) b
            (List.mem_of_find?_eq_some herror) (List.find?_some herror') (List.find?_some herror)
          simp [hsame]
    · simp [hstate]
  | some b =>
    cases hok' : acks'.find? (Ack.confirms i) with
    | none => simp [(hfind _).1 hok'] at hok
    | some a =>
      have happly : (rows i).apply now (a.current (rows i)) =
          (rows i).apply now (b.current (rows i)) := by
        by_cases hstate : (rows i).state = .inFlight
        · rw [hclear.confirmed i hmine hstate a
            (hperm.mem_iff.1 (List.mem_of_find?_eq_some hok')) b
            (List.mem_of_find?_eq_some hok) (List.find?_some hok') (List.find?_some hok)]
        · exact Row.apply_of_not_inFlight hstate now _ _
      simp [happly]

variable {ops : List (Op Key)} {server : ℕ} {now : ℤ} {rows : Rows} {acks : List Ack}

theorem applyAcks_perm {acks' : List Ack} (hclear : Unambiguous (ofServer ops server) rows acks)
    (hperm : acks'.Perm acks) :
    applyAcks ops server now acks' rows = applyAcks ops server now acks rows := by
  have hsettle : settleAcks (ofServer ops server) now rows acks' =
      settleAcks (ofServer ops server) now rows acks := by
    have hat : ∀ i,
        (settleAcks (ofServer ops server) now rows acks').1 i =
            (settleAcks (ofServer ops server) now rows acks).1 i ∧
          (settleAcks (ofServer ops server) now rows acks').2 i =
            (settleAcks (ofServer ops server) now rows acks).2 i := by
      intro i
      cases hmine : ofServer ops server i with
      | true =>
        have h := settleAcks_at now rows hmine acks
        have h' := settleAcks_at now rows hmine acks'
        rw [h.1, h.2, h'.1, h'.2, verdict_perm hclear hperm hmine]
        exact ⟨rfl, rfl⟩
      | false =>
        have h := settleAcks_of_not_mine now rows hmine acks
        have h' := settleAcks_of_not_mine now rows hmine acks'
        rw [h.1, h.2, h'.1, h'.2]
        exact ⟨rfl, rfl⟩
    exact Prod.ext (funext fun i => (hat i).1) (funext fun i => (hat i).2)
  unfold applyAcks
  rw [hsettle]

theorem applyAcks_of_confirmed (hmine : ofServer ops server i = true)
    (hfound : acks.find? (Ack.confirms i) = some ack) :
    applyAcks ops server now acks rows i =
      if (rows i).state = .applied then rows i
      else (rows i).apply now (ack.current (rows i)) := by
  obtain ⟨hrow, hfailure⟩ := settleAcks_at now rows hmine acks
  unfold applyAcks failAttempts
  simp only [hrow, hfailure, verdict, hfound]

theorem applyAcks_of_refused (hmine : ofServer ops server i = true)
    (hstate : (rows i).state = .inFlight) (hnone : acks.find? (Ack.confirms i) = none)
    (hfound : acks.find? (Ack.refuses i (rows i)) = some ack) :
    applyAcks ops server now acks rows i =
      failAttempt now (successor ops (settleAcks (ofServer ops server) now rows acks).1 i)
        ack.error (rows i) := by
  obtain ⟨hrow, hfailure⟩ := settleAcks_at now rows hmine acks
  have hverdict : verdict now acks i (rows i) = (rows i, some ack.error) := by
    simp [verdict, hnone, hstate, hfound]
  rw [hverdict] at hrow hfailure
  unfold applyAcks failAttempts
  simp only [hrow, hfailure]

theorem applyAcks_of_silent (hnone : acks.find? (Ack.confirms i) = none)
    (hquiet : (rows i).state = .inFlight → acks.find? (Ack.refuses i (rows i)) = none) :
    applyAcks ops server now acks rows i = rows i := by
  unfold applyAcks failAttempts
  cases hmine : ofServer ops server i with
  | true =>
    obtain ⟨hrow, hfailure⟩ := settleAcks_at now rows hmine acks
    have hverdict : verdict now acks i (rows i) = (rows i, none) := by
      by_cases hstate : (rows i).state = .inFlight
      · simp [verdict, hnone, hstate, hquiet hstate]
      · simp [verdict, hnone, hstate]
    rw [hverdict] at hrow hfailure
    simp only [hrow, hfailure]
  | false =>
    obtain ⟨hrow, hfailure⟩ := settleAcks_of_not_mine now rows hmine acks
    simp only [hrow, hfailure]

theorem applyAcks_of_not_mine (hmine : ofServer ops server i = false) :
    applyAcks ops server now acks rows i = rows i := by
  obtain ⟨hrow, hfailure⟩ := settleAcks_of_not_mine now rows hmine acks
  unfold applyAcks failAttempts
  simp only [hrow, hfailure]

theorem failAttempt_lastError (now : ℤ) (next : Option ℕ) (message : String) (row : Row) :
    (failAttempt now next message row).lastError = some message := by
  unfold failAttempt
  cases next with
  | some j => rfl
  | none => dsimp only; split_ifs <;> rfl

theorem find?_cons_of_perm {p : Ack → Bool} (rest : List Ack) (hp : p ack = true) :
    (ack :: rest).find? p = some ack := by
  simp [hp]

theorem unambiguous_of_perm
    (hsame : ∀ acks', acks'.Perm acks →
      applyAcks ops server now acks' rows = applyAcks ops server now acks rows) :
    Unambiguous (ofServer ops server) rows acks := by
  have hfirst : ∀ a ∈ acks, ∀ i, applyAcks ops server now (a :: acks.erase a) rows i =
      applyAcks ops server now acks rows i := by
    intro a ha i
    exact congrFun (hsame _ (List.perm_cons_erase ha).symm) i
  constructor
  · intro i hmine hstate a ha b hb hoka hokb
    have hrow := (hfirst a ha i).trans (hfirst b hb i).symm
    rw [applyAcks_of_confirmed hmine (find?_cons_of_perm _ hoka),
      applyAcks_of_confirmed hmine (find?_cons_of_perm _ hokb)] at hrow
    have hattempts := congrArg Row.attempts hrow
    cases hca : a.current (rows i) <;> cases hcb : b.current (rows i) <;>
      simp [Row.apply, hstate, hca, hcb] at hattempts ⊢
  · intro i hmine hstate hnone a ha b hb hera herb
    have hrow := (hfirst a ha i).trans (hfirst b hb i).symm
    have hnone' : ∀ c ∈ acks, (c :: acks.erase c).find? (Ack.confirms i) = none := by
      intro c hc
      rw [List.find?_eq_none]
      intro d hd
      simp [hnone d ((List.perm_cons_erase hc).mem_iff.2 hd)]
    rw [applyAcks_of_refused hmine hstate (hnone' a ha) (find?_cons_of_perm _ hera),
      applyAcks_of_refused hmine hstate (hnone' b hb) (find?_cons_of_perm _ herb)] at hrow
    have herror := congrArg Row.lastError hrow
    rw [failAttempt_lastError, failAttempt_lastError] at herror
    exact Option.some.inj herror

end SpatiumDdi.Dns.OpAttempts
