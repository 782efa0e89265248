import SpatiumDdi.Approvals.ChangeRequests

/-!
Two-person approval: `apply()` is committed at most once and an outcome is not rewritten, as long as
no failed approval takes the approval of another call by the same approver for its own.
-/

namespace SpatiumDdi.Approvals

variable {s s' : State}

def applied (log : List Event) : List ℕ :=
  log.filterMap fun
    | .commit (some c) _ => some c
    | _ => none

theorem applied_commit (c : ℕ) (audits : List Audit) (log : List Event) :
    applied (.commit (some c) audits :: log) = c :: applied log := rfl

/-- A call that re-locks the row before its own `apply()` was committed does not find an approval of
its approver that still has to be executed. -/
def Orderly (s : State) : Action → Prop
  | .relock c => ∀ approver, s.calls c = some ⟨approver, .relocking false⟩ →
      ¬ (s.row.state = .approved ∧ s.row.decidedBy = some approver ∧ s.row.executedAt = false)
  | _ => True

def OrderlyRun (s : State) : List Action → Prop
  | [] => True
  | a :: as => Orderly s a ∧ ∀ s', step s a = some s' → OrderlyRun s' as

structure Safe (s : State) : Prop where
  once : (applied s.log).length ≤ 1
  /-- The commit has one approval in it, of an approver who did not request. -/
  audited : ∀ c audits, .commit (some c) audits ∈ s.log →
    ∃ approver requester, (s.calls c).map Call.approver = some approver ∧
      s.row.requestedBy = some requester ∧ approver ≠ requester ∧
      audits.filter (·.action = .approved) = [⟨.approved, some approver⟩]
  failed : s.row.state = .failed → ∀ c ∈ applied s.log, .returned c ∉ s.log
  pending : s.row.state = .pending → applied s.log = []

/-- The approval of the call is committed and not executed. -/
def Owns (s : State) (c : ℕ) (approver : User) : Prop :=
  (s.row.state = .approved ∧ s.row.decidedBy = some approver ∧ s.row.executedAt = false) ∧
    c ∈ applied s.log

def CallOk (s : State) (c : ℕ) (call : Call) : Prop :=
  match call.phase with
  | .started | .relocking false | .ended => True
  | .locked => s.owner = some c ∧ s.row.state = .pending
  | .checked | .applying => s.owner = some c ∧ s.row.state = .pending ∧
      ∃ requester, s.row.requestedBy = some requester ∧ call.approver ≠ requester
  | .committed | .relocking true => Owns s c call.approver ∧ .returned c ∉ s.log
  | .returned => Owns s c call.approver

structure Inv (s : State) : Prop where
  calls : ∀ c call, s.calls c = some call → CallOk s c call
  once : (applied s.log).length ≤ 1
  audited : ∀ c audits, .commit (some c) audits ∈ s.log →
    ∃ approver requester, (s.calls c).map Call.approver = some approver ∧
      s.row.requestedBy = some requester ∧ approver ≠ requester ∧
      audits.filter (·.action = .approved) = [⟨.approved, some approver⟩]
  returned : ∀ c, .returned c ∈ s.log →
    c ∈ applied s.log ∧ (s.row.state = .approved ∨ s.row.state = .executed)
  pending : s.row.state = .pending → applied s.log = []
  unexecuted : s.row.state = .pending → s.row.executedAt = false

theorem Inv.safe (h : Inv s) : Safe s where
  once := h.once
  audited := h.audited
  failed := by
    intro hfailed c _ hreturned
    rcases (h.returned c hreturned).2 with hstate | hstate
    · rw [hfailed] at hstate
      cases hstate
    · rw [hfailed] at hstate
      cases hstate
  pending := h.pending

theorem Inv.queued (requestedBy : Option User) : Inv (.queued requestedBy) where
  calls := fun c call h => by cases h
  once := Nat.zero_le 1
  audited := fun c audits h => (List.not_mem_nil h).elim
  returned := fun c h => (List.not_mem_nil h).elim
  pending := fun _ => rfl
  unexecuted := fun _ => rfl

/-- A call that relies on nothing in the row. -/
def Phase.quiet : Phase → Prop
  | .started | .relocking false | .ended => True
  | _ => False

variable {c : ℕ} {call : Call}

theorem CallOk.of_quiet (h : call.phase.quiet) : CallOk s c call := by
  obtain ⟨approver, phase⟩ := call
  cases phase with
  | started => trivial
  | ended => trivial
  | relocking applied =>
    cases applied with
    | false => trivial
    | true => exact h.elim
  | locked => exact h.elim
  | checked => exact h.elim
  | applying => exact h.elim
  | committed => exact h.elim
  | returned => exact h.elim

variable {d : ℕ}

theorem Inv.quiet_of_pending (h : Inv s) (hpending : s.row.state = .pending)
    (hd : s.calls d = some call) (howner : s.owner ≠ some d) : call.phase.quiet := by
  have hok := h.calls d call hd
  obtain ⟨approver, phase⟩ := call
  have hne : s.row.state ≠ .approved := by
    rw [hpending]
    exact Status.noConfusion
  cases phase with
  | started => trivial
  | ended => trivial
  | relocking applied =>
    cases applied with
    | false => trivial
    | true => exact absurd hok.1.1.1 hne
  | locked => exact absurd hok.1 howner
  | checked => exact absurd hok.1 howner
  | applying => exact absurd hok.1 howner
  | committed => exact absurd hok.1.1.1 hne
  | returned => exact absurd hok.1.1 hne

theorem eq_of_mem_applied {log : List Event} (honce : (applied log).length ≤ 1)
    (hc : c ∈ applied log) (hd : d ∈ applied log) : c = d := by
  cases hlog : applied log with
  | nil =>
    rw [hlog] at hc
    cases hc
  | cons e rest =>
    rw [hlog] at honce hc hd
    have hnil : rest = [] := List.length_eq_zero_iff.mp (by simpa using honce)
    rw [hnil, List.mem_singleton] at hc hd
    rw [hc, hd]

variable {approver : User} {p phase : Phase} {owner apply_ : Option ℕ}

theorem Inv.quiet_of_owns (h : Inv s) (howns : Owns s c approver) (hd : s.calls d = some call)
    (hne : d ≠ c) : call.phase.quiet := by
  have hok := h.calls d call hd
  obtain ⟨other, phase⟩ := call
  have hpending : s.row.state ≠ .pending := by
    rw [howns.1.1]
    exact Status.noConfusion
  have hsame : ∀ {u : User}, Owns s d u → False := fun hother =>
    hne (eq_of_mem_applied h.once hother.2 howns.2)
  cases phase with
  | started => trivial
  | ended => trivial
  | relocking applied =>
    cases applied with
    | false => trivial
    | true => exact (hsame hok.1).elim
  | locked => exact absurd hok.2 hpending
  | checked => exact absurd hok.2.1 hpending
  | applying => exact absurd hok.2.1 hpending
  | committed => exact (hsame hok.1).elim
  | returned => exact (hsame hok).elim

theorem CallOk.same (h : CallOk s c call) (hrow : s'.row = s.row) (hlog : s'.log = s.log)
    (howner : s.owner = some c → s'.owner = some c) : CallOk s' c call := by
  obtain ⟨approver, phase⟩ := call
  cases phase with
  | started => trivial
  | ended => trivial
  | relocking applied =>
    cases applied with
    | false => trivial
    | true => exact ⟨⟨hrow ▸ h.1.1, hlog ▸ h.1.2⟩, hlog ▸ h.2⟩
  | locked => exact ⟨howner h.1, hrow ▸ h.2⟩
  | checked => exact ⟨howner h.1, hrow ▸ h.2.1, hrow ▸ h.2.2⟩
  | applying => exact ⟨howner h.1, hrow ▸ h.2.1, hrow ▸ h.2.2⟩
  | committed => exact ⟨⟨hrow ▸ h.1.1, hlog ▸ h.1.2⟩, hlog ▸ h.2⟩
  | returned => exact ⟨hrow ▸ h.1, hlog ▸ h.2⟩

theorem Inv.move (h : Inv s) (hc : ∀ call, s.calls c = some call → call.approver = approver)
    (howner : ∀ d, d ≠ c → s.owner = some d → owner = some d)
    (hok : CallOk { s with owner := owner } c ⟨approver, p⟩) :
    Inv ({ s with owner := owner }.put c ⟨approver, p⟩) where
  calls := by
    intro d call hd
    by_cases hne : d = c
    · subst hne
      rw [State.put_calls_self, Option.some.injEq] at hd
      exact hd ▸ hok
    · have hold : s.calls d = some call := (Function.update_of_ne hne _ _).symm.trans hd
      exact (h.calls d call hold).same rfl rfl (howner d hne)
  once := h.once
  audited := by
    intro d audits hmem
    obtain ⟨approver', requester, hcall, hrest⟩ := h.audited d audits hmem
    refine ⟨approver', requester, ?_, hrest⟩
    by_cases hne : d = c
    · subst hne
      obtain ⟨call, hold, rfl⟩ := Option.map_eq_some_iff.mp hcall
      rw [State.put_calls_self, Option.map_some, hc call hold]
    · have hsame : Function.update s.calls c (some ⟨approver, p⟩) d = s.calls d :=
        Function.update_of_ne hne _ _
      exact (congrArg _ hsame).trans hcall
  returned := h.returned
  pending := h.pending
  unexecuted := h.unexecuted

variable {audits : List Audit} {row : ChangeRequest}

section

variable (h : Inv s)
include h

theorem Inv.of_commit (hlog : s'.log = .commit apply_ audits :: s.log)
    (hrequested : s'.row.requestedBy = s.row.requestedBy) (hstate : s'.row.state ≠ .pending)
    (happrovers : ∀ d, (s'.calls d).map Call.approver = (s.calls d).map Call.approver)
    (hcalls : ∀ d call, s'.calls d = some call → CallOk s' d call)
    (happly : ∀ c, apply_ = some c → applied s.log = [] ∧ ∃ approver requester, (s.calls c).map Call.approver = some approver ∧ s.row.requestedBy = some requester ∧ approver ≠ requester ∧ audits.filter (·.action = .approved) = [⟨.approved, some approver⟩])
    (hreturned : ∀ c, .returned c ∈ s.log → s'.row.state = .approved ∨ s'.row.state = .executed) :
    Inv s' where
  calls := hcalls
  once := by
    rw [hlog]
    cases apply_ with
    | none => exact h.once
    | some c =>
      have hnil := (happly c rfl).1
      rw [applied_commit, hnil]
      exact Nat.le_refl 1
  audited := by
    intro d audits' hmem
    rw [hlog] at hmem
    rw [happrovers, hrequested]
    rcases List.mem_cons.mp hmem with heq | hmem
    · cases heq
      exact (happly d rfl).2
    · exact h.audited d audits' hmem
  returned := by
    intro d hmem
    rw [hlog] at hmem
    have hold : .returned d ∈ s.log := (List.mem_cons.mp hmem).resolve_left Event.noConfusion
    refine ⟨?_, hreturned d hold⟩
    rw [hlog]
    have happlied := (h.returned d hold).1
    cases apply_ with
    | none => exact happlied
    | some c => exact List.mem_cons_of_mem c happlied
  pending := fun hpending => absurd hpending hstate
  unexecuted := fun hpending => absurd hpending hstate

theorem Inv.finish (hc : s.calls c = some call) : Inv (s.finish c call.approver) := by
  refine h.move (p := .ended) (fun call' hc' => ?_) (fun d hne howner => ?_) trivial
  · rw [hc, Option.some.injEq] at hc'
    rw [hc']
  · have hother : s.owner ≠ some c := by
      rw [howner]
      exact fun heq => hne (Option.some.inj heq)
    rw [if_neg hother]
    exact howner

section

variable (hc : (s.calls c).map Call.approver = some approver)
include hc

theorem Inv.commitPending (hpending : s.row.state = .pending)
    (howner : s.owner = none ∨ s.owner = some c) (hrequested : row.requestedBy = s.row.requestedBy)
    (hstate : row.state ≠ .pending)
    (happly : apply_ = none ∨ (apply_ = some c ∧ (∃ requester, s.row.requestedBy = some requester ∧ approver ≠ requester) ∧ audits.filter (·.action = .approved) = [⟨.approved, some approver⟩]))
    (hok : CallOk { s.commit row apply_ audits with owner := owner } c ⟨approver, p⟩) :
    Inv ({ s.commit row apply_ audits with owner := owner }.put c ⟨approver, p⟩) := by
  have hnone : applied s.log = [] := h.pending hpending
  refine h.of_commit rfl hrequested hstate ?_ ?_ ?_ ?_
  · intro d
    by_cases hne : d = c
    · subst hne
      rw [State.put_calls_self, hc, Option.map_some]
    · exact congrArg _ (Function.update_of_ne hne _ _)
  · intro d call hd
    by_cases hne : d = c
    · subst hne
      rw [State.put_calls_self, Option.some.injEq] at hd
      exact hd ▸ hok
    · have hold : s.calls d = some call := (Function.update_of_ne hne _ _).symm.trans hd
      refine CallOk.of_quiet (h.quiet_of_pending hpending hold ?_)
      rcases howner with hfree | hmine
      · rw [hfree]
        exact (Option.some_ne_none d).symm
      · rw [hmine]
        exact fun heq => hne (Option.some.inj heq).symm
  · intro d hd
    rcases happly with hnone' | ⟨hsome, ⟨requester, hrequester, hne⟩, haudits⟩
    · rw [hnone'] at hd
      cases hd
    · rw [hsome, Option.some.injEq] at hd
      subst hd
      exact ⟨hnone, approver, requester, hc, hrequester, hne, haudits⟩
  · intro d hmem
    have happlied := (h.returned d hmem).1
    rw [hnone] at happlied
    exact (List.not_mem_nil happlied).elim

theorem Inv.commitOwned (howns : Owns s c approver)
    (hrequested : row.requestedBy = s.row.requestedBy)
    (hstate : row.state = .executed ∨ row.state = .failed ∧ .returned c ∉ s.log) :
    Inv ((s.commit row none audits).finish c approver) := by
  refine h.of_commit rfl hrequested ?_ ?_ ?_ ?_ ?_
  · rcases hstate with hexecuted | ⟨hfailed, -⟩
    · exact fun heq => Status.noConfusion (hexecuted.symm.trans heq)
    · exact fun heq => Status.noConfusion (hfailed.symm.trans heq)
  · intro d
    by_cases hne : d = c
    · subst hne
      rw [State.finish, State.put_calls_self, hc, Option.map_some]
    · exact congrArg _ (Function.update_of_ne hne _ _)
  · intro d call hd
    by_cases hne : d = c
    · subst hne
      rw [State.finish, State.put_calls_self, Option.some.injEq] at hd
      exact hd ▸ trivial
    · have hold : s.calls d = some call := (Function.update_of_ne hne _ _).symm.trans hd
      exact CallOk.of_quiet (h.quiet_of_owns howns hold hne)
  · intro d hd
    cases hd
  · intro d hmem
    rcases hstate with hexecuted | ⟨-, hnot⟩
    · exact Or.inr hexecuted
    · have heq := eq_of_mem_applied h.once (h.returned d hmem).1 howns.2
      exact absurd (heq ▸ hmem) hnot

end

theorem Inv.relock {committed : Bool} (hc : s.calls c = some ⟨approver, .relocking committed⟩)
    (hfree : s.owner = none) (horderly : Orderly s (.relock c)) : Inv (relock s c approver) := by
  have hmap : (s.calls c).map Call.approver = some approver := by rw [hc]; rfl
  unfold Approvals.relock
  split
  case isTrue hpending =>
    exact h.commitPending (p := .ended) hmap hpending (Or.inl hfree) rfl Status.noConfusion
      (Or.inl rfl) trivial
  case isFalse =>
    split
    case isTrue hown =>
      cases committed with
      | false => exact absurd hown (horderly approver hc)
      | true =>
        obtain ⟨howns, hreturned⟩ := h.calls c _ hc
        exact h.commitOwned hmap howns rfl (Or.inr ⟨rfl, hreturned⟩)
    case isFalse => exact h.finish hc

theorem Inv.applyReturned (hc : s.calls c = some ⟨approver, .committed⟩) :
    Inv ({ s with log := .returned c :: s.log }.put c ⟨approver, .returned⟩) where
  calls := by
    obtain ⟨howns, -⟩ := h.calls c _ hc
    intro d call hd
    by_cases hne : d = c
    · subst hne
      rw [State.put_calls_self, Option.some.injEq] at hd
      exact hd ▸ howns
    · have hold : s.calls d = some call := (Function.update_of_ne hne _ _).symm.trans hd
      exact CallOk.of_quiet (h.quiet_of_owns howns hold hne)
  once := h.once
  audited := by
    intro d audits hmem
    obtain ⟨approver', requester, hcall, hrest⟩ :=
      h.audited d audits ((List.mem_cons.mp hmem).resolve_left Event.noConfusion)
    refine ⟨approver', requester, ?_, hrest⟩
    by_cases hne : d = c
    · subst hne
      rw [hc] at hcall
      rw [State.put_calls_self]
      exact hcall
    · have hsame : Function.update s.calls c (some ⟨approver, .returned⟩) d = s.calls d :=
        Function.update_of_ne hne _ _
      exact (congrArg _ hsame).trans hcall
  returned := by
    obtain ⟨howns, -⟩ := h.calls c _ hc
    intro d hmem
    rcases List.mem_cons.mp hmem with heq | hmem
    · cases heq
      exact ⟨howns.2, Or.inl howns.1.1⟩
    · exact h.returned d hmem
  pending := h.pending
  unexecuted := h.unexecuted

end

variable {a : Action} {audit : Audit} {as : List Action}

theorem Inv.approveStep (h : Inv s) (hc : s.calls c = some ⟨approver, phase⟩) (ha : a.call = some c)
    (horderly : Orderly s a) (hstep : approveStep s c approver phase a = some s') : Inv s' := by
  have hmap : (s.calls c).map Call.approver = some approver := by rw [hc]; rfl
  have hsame : ∀ call, s.calls c = some call → call.approver = approver := by
    intro call hcall
    rw [hc, Option.some.injEq] at hcall
    rw [← hcall]
  have hok := h.calls c _ hc
  have hkept : ∀ d, d ≠ c → s.owner = some d →
      (if s.owner = some c then none else s.owner) = some d := by
    intro d hne howner
    have hother : s.owner ≠ some c := fun heq => hne (Option.some.inj (howner.symm.trans heq))
    rw [if_neg hother]
    exact howner
  unfold Approvals.approveStep at hstep
  split at hstep
  case h_1 =>
    obtain ⟨hfree, hstep⟩ := Option.ite_none_right_eq_some.mp hstep
    split at hstep
    case isFalse =>
      cases hstep
      exact h.finish hc
    case isTrue hpending =>
      cases hstep
      refine h.move hsame (fun d _ howner => ?_) ⟨rfl, hpending⟩
      rw [hfree] at howner
      cases howner
  case h_2 =>
    cases hstep
    exact h.commitPending (p := .ended) hmap hok.2 (Or.inr hok.1) rfl Status.noConfusion
      (Or.inl rfl) trivial
  case h_3 =>
    split at hstep
    case h_1 =>
      cases hstep
      exact h.finish hc
    case h_2 requester hrequester =>
      split at hstep
      case isTrue =>
        cases hstep
        exact h.finish hc
      case isFalse hne =>
        cases hstep
        exact h.move hsame (fun _ _ howner => howner) ⟨hok.1, hok.2, requester, hrequester, hne⟩
  case h_4 =>
    cases hstep
    exact h.finish hc
  case h_5 =>
    cases hstep
    exact h.finish hc
  case h_6 =>
    cases hstep
    exact h.commitPending (p := .ended) hmap hok.2.1 (Or.inr hok.1) rfl Status.noConfusion
      (Or.inl rfl) trivial
  case h_7 =>
    cases hstep
    exact h.move hsame hkept trivial
  case h_8 =>
    cases hstep
    exact h.move hsame (fun _ _ howner => howner) hok
  case h_9 =>
    cases hstep
    have hnot : Event.returned c ∉ s.log := by
      intro hmem
      have happlied := (h.returned c hmem).1
      rw [h.pending hok.2.1] at happlied
      exact List.not_mem_nil happlied
    refine h.commitPending hmap hok.2.1 (Or.inr hok.1) rfl Status.noConfusion
      (Or.inr ⟨rfl, hok.2.2, rfl⟩) ⟨⟨⟨rfl, rfl, ?_⟩, List.mem_cons_self⟩, ?_⟩
    · exact h.unexecuted hok.2.1
    · exact fun hmem => hnot ((List.mem_cons.mp hmem).resolve_left Event.noConfusion)
  case h_10 =>
    cases hstep
    exact h.commitPending (p := .ended) hmap hok.2.1 (Or.inr hok.1) rfl Status.noConfusion
      (Or.inr ⟨rfl, hok.2.2, rfl⟩) trivial
  case h_11 =>
    split at hstep
    · cases hstep
      exact h.finish hc
    · cases hstep
      exact h.move hsame hkept trivial
  case h_12 =>
    cases hstep
    exact h.applyReturned hc
  case h_13 =>
    split at hstep
    · cases hstep
      exact h.finish hc
    · cases hstep
      exact h.move hsame (fun _ _ howner => howner) hok
  case h_14 =>
    obtain ⟨hfree, hstep⟩ := Option.ite_none_right_eq_some.mp hstep
    cases hstep
    cases ha
    exact h.relock hc hfree horderly
  case h_15 =>
    obtain ⟨-, hstep⟩ := Option.ite_none_right_eq_some.mp hstep
    cases hstep
    exact h.commitOwned hmap hok rfl (Or.inl rfl)
  case h_16 =>
    cases hstep
    exact h.finish hc
  case h_17 => cases hstep

theorem Inv.settle (h : Inv s) (hstep : settle s row audit = some s')
    (hrequested : row.requestedBy = s.row.requestedBy) (hstate : row.state ≠ .pending) :
    Inv s' := by
  obtain ⟨hcond, hstep⟩ := Option.ite_none_right_eq_some.mp hstep
  obtain ⟨hfree, hpending⟩ := hcond
  cases hstep
  refine h.of_commit rfl hrequested hstate (fun _ => rfl) ?_ ?_ ?_
  · intro d call hd
    refine CallOk.of_quiet (h.quiet_of_pending hpending hd ?_)
    rw [hfree]
    exact (Option.some_ne_none d).symm
  · intro d hd
    cases hd
  · intro d hmem
    have happlied := (h.returned d hmem).1
    rw [h.pending hpending] at happlied
    exact (List.not_mem_nil happlied).elim

theorem Inv.step (h : Inv s) (horderly : Orderly s a) (hstep : step s a = some s') : Inv s' := by
  unfold Approvals.step at hstep
  split at hstep
  case h_1 c approver =>
    split at hstep
    case h_1 hc =>
      cases hstep
      refine h.move (fun call hcall => ?_) (fun _ _ howner => howner) trivial
      rw [hc] at hcall
      cases hcall
    case h_2 => cases hstep
  case h_2 user =>
    split at hstep
    · cases hstep
    · exact h.settle hstep rfl Status.noConfusion
  case h_3 => exact h.settle hstep rfl Status.noConfusion
  case h_4 => exact h.settle hstep rfl Status.noConfusion
  case h_5 =>
    split at hstep
    case h_1 => cases hstep
    case h_2 c ha =>
      split at hstep
      case h_1 => cases hstep
      case h_2 call hc => exact h.approveStep hc ha horderly hstep

theorem Inv.quiet_of_terminal (h : Inv s) (hterminal : s.row.state.terminal = true)
    (hc : s.calls c = some call) : call.phase.quiet := by
  have hok := h.calls c call hc
  obtain ⟨approver, phase⟩ := call
  have hpending : s.row.state ≠ .pending := by
    intro heq
    rw [heq] at hterminal
    cases hterminal
  have happroved : s.row.state ≠ .approved := by
    intro heq
    rw [heq] at hterminal
    cases hterminal
  cases phase with
  | started => trivial
  | ended => trivial
  | relocking committed =>
    cases committed with
    | false => trivial
    | true => exact absurd hok.1.1.1 happroved
  | locked => exact absurd hok.2 hpending
  | checked => exact absurd hok.2.1 hpending
  | applying => exact absurd hok.2.1 hpending
  | committed => exact absurd hok.1.1.1 happroved
  | returned => exact absurd hok.1.1 happroved

theorem relock_row (hterminal : s.row.state.terminal = true) :
    (relock s c approver).row = s.row := by
  unfold relock
  split
  case isTrue hpending =>
    rw [hpending] at hterminal
    cases hterminal
  case isFalse =>
    split
    case isTrue hown =>
      rw [hown.1] at hterminal
      cases hterminal
    case isFalse => rfl

theorem approveStep_row (hquiet : phase.quiet) (hterminal : s.row.state.terminal = true)
    (hstep : approveStep s c approver phase a = some s') : s'.row = s.row := by
  cases phase with
  | started =>
    cases a with
    | lock d =>
      obtain ⟨-, hstep⟩ := Option.ite_none_right_eq_some.mp hstep
      split at hstep
      · cases hstep
        rfl
      · cases hstep
        rfl
    | die d =>
      cases hstep
      rfl
    | _ => cases hstep
  | ended =>
    cases a with
    | die d =>
      cases hstep
      rfl
    | _ => cases hstep
  | relocking committed =>
    cases a with
    | relock d =>
      obtain ⟨-, hstep⟩ := Option.ite_none_right_eq_some.mp hstep
      cases hstep
      exact relock_row hterminal
    | die d =>
      cases hstep
      rfl
    | _ => cases hstep
  | locked => exact hquiet.elim
  | checked => exact hquiet.elim
  | applying => exact hquiet.elim
  | committed => exact hquiet.elim
  | returned => exact hquiet.elim

theorem settle_pending (hstep : settle s row audit = some s') : s.row.state = .pending := by
  obtain ⟨hcond, hstep⟩ := Option.ite_none_right_eq_some.mp hstep
  exact hcond.2

theorem Inv.absorbing (h : Inv s) (hstep : Approvals.step s a = some s')
    (hterminal : s.row.state.terminal = true) : s'.row.state = s.row.state := by
  have hdecided : s.row.state ≠ .pending := by
    intro heq
    rw [heq] at hterminal
    cases hterminal
  unfold Approvals.step at hstep
  split at hstep
  case h_1 =>
    split at hstep
    case h_1 =>
      cases hstep
      rfl
    case h_2 => cases hstep
  case h_2 =>
    split at hstep
    · cases hstep
    · exact absurd (settle_pending hstep) hdecided
  case h_3 => exact absurd (settle_pending hstep) hdecided
  case h_4 => exact absurd (settle_pending hstep) hdecided
  case h_5 =>
    split at hstep
    case h_1 => cases hstep
    case h_2 =>
      split at hstep
      case h_1 => cases hstep
      case h_2 call hc =>
        rw [approveStep_row (h.quiet_of_terminal hterminal hc) hterminal hstep]

theorem Inv.run (h : Inv s) (horderly : OrderlyRun s as) (hrun : run s as = some s') : Inv s' := by
  induction as generalizing s with
  | nil =>
    cases hrun
    exact h
  | cons a as ih =>
    rw [Approvals.run, Option.bind_eq_some_iff] at hrun
    obtain ⟨mid, hmid, hrest⟩ := hrun
    exact ih (h.step horderly.1 hmid) (horderly.2 mid hmid) hrest

/-- **In every run in which no failed call takes another call's approval for its own, `apply()` is
committed once at most, with the approval of another user than the requester in the same commit; an
outcome stays; a request fails only where no `apply()` was committed and returned; and one whose
`apply()` was committed is not pending.** -/
theorem approval_once {requestedBy : Option User} {as : List Action}
    (horderly : OrderlyRun (.queued requestedBy) as)
    (hrun : run (.queued requestedBy) as = some s) :
    Safe s ∧ ∀ a s', Approvals.step s a = some s' →
      s.row.state.terminal = true → s'.row.state = s.row.state :=
  have h := (Inv.queued requestedBy).run horderly hrun
  ⟨h.safe, fun _ _ hstep hterminal => h.absorbing hstep hterminal⟩

theorem OrderlyRun.cons (ha : Orderly s a) (hstep : Approvals.step s a = some s')
    (hrest : OrderlyRun s' as) : OrderlyRun s (a :: as) := by
  refine ⟨ha, fun mid hmid => ?_⟩
  rw [hstep, Option.some.injEq] at hmid
  exact hmid ▸ hrest

/-- One call fails at its preview and another of the same approver is executed; the first re-locks
the row after that. -/
def failedThenExecuted : List Action :=
  [.approve 1 7, .approve 2 7, .lock 1, .check 1, .stale 1, .lock 2, .check 2, .begin_ 2,
    .applyCommit 2, .applyReturn 2, .finish 2, .relock 1]

theorem approval_once_executed :
    ∃ s, run (.queued (some 3)) failedThenExecuted = some s ∧ s.row.state = .executed ∧
      Safe s := by
  have horderly : OrderlyRun (.queued (some 3)) failedThenExecuted := by
    refine .cons trivial rfl (.cons trivial rfl (.cons trivial rfl (.cons trivial rfl
      (.cons trivial rfl (.cons trivial rfl (.cons trivial rfl (.cons trivial rfl
        (.cons trivial rfl (.cons trivial rfl (.cons trivial rfl (.cons ?_ rfl trivial)))))))))))
    intro approver _ hown
    cases hown.1
  exact ⟨_, rfl, rfl, (approval_once horderly rfl).1⟩

/-- The same two calls, the first re-locking the row between the other's `apply()` and its stamp. -/
def failedBeforeStamp : List Action :=
  [.approve 1 7, .approve 2 7, .lock 1, .check 1, .stale 1, .lock 2, .check 2, .begin_ 2,
    .applyCommit 2, .applyReturn 2, .relock 1]

/-- The request ends `failed` though its `apply()` was committed and returned, and then is rewritten
to `executed`. -/
theorem approval_fails_executed :
    ∃ s s', run (.queued (some 3)) failedBeforeStamp = some s ∧ s.row.state = .failed ∧
      ¬ Safe s ∧ Approvals.step s (.finish 2) = some s' ∧ s'.row.state = .executed := by
  refine ⟨_, _, rfl, rfl, fun hsafe => ?_, rfl, rfl⟩
  exact hsafe.failed rfl 2 (by decide) (by decide)

end SpatiumDdi.Approvals
