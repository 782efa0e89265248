import Mathlib.Data.List.Perm.Subperm
import SpatiumDdi.Agent.InstanceOwnership

/-!
Ownership over a history. What an event does to the row is said once, and the row knows every
process that has polled as long as few are displaced: so a displaced one waits until the owner is
gone.
-/

namespace SpatiumDdi.Agent.Ownership

variable {row row' : Row} {e : Event} {past history : List Event}

structure SameOwner (row row' : Row) : Prop where
  agentInstance : row'.agentInstance = row.agentInstance
  seenAt : row'.seenAt = row.seenAt
  displaced : row'.displaced = row.displaced

theorem sameOwner_recordRefusal (row : Row) (now : ℤ) (clientIp : Option String) :
    SameOwner row (recordRefusal row now clientIp) := by
  unfold recordRefusal
  constructor <;> dsimp only <;> split <;> split <;> rfl

inductive Step (row row' : Row) : Event → Prop
  | registered (inst : Option Instance) (now : ℤ) (clientIp : Option String)
      (same : SameOwner row row') : Step row row' (.register inst now clientIp)
  | fresh (inst : Instance) (now : ℤ) (clientIp : Option String) (same : SameOwner row row')
      (owns : row.agentInstance = some inst)
      (seen : ∃ seen, row.seenAt = some seen ∧ now - seen < seenRefresh) :
      Step row row' (.poll inst now clientIp)
  | stamped (inst : Instance) (now : ℤ) (clientIp : Option String)
      (owns : row.agentInstance = none ∨ row.agentInstance = some inst)
      (agentInstance : row'.agentInstance = some inst) (seenAt : row'.seenAt = some now)
      (displaced : row'.displaced = row.displaced) : Step row row' (.poll inst now clientIp)
  | refused (inst : Instance) (now : ℤ) (clientIp : Option String) (same : SameOwner row row')
      (owner : ∃ owner, row.agentInstance = some owner ∧ owner ≠ inst)
      (displaced : inst ∈ row.displaced) : Step row row' (.poll inst now clientIp)
  | tookOver (inst : Instance) (now : ℤ) (clientIp : Option String) (owner : Instance)
      (owns : row.agentInstance = some owner) (ne : owner ≠ inst)
      (free : inst ∈ row.displaced → ownerLive row now = false)
      (agentInstance : row'.agentInstance = some inst) (seenAt : row'.seenAt = some now)
      (displaced : row'.displaced = lastOf displacedKeep
        (row.displaced.filter (fun d => d ≠ inst ∧ d ≠ owner) ++ [owner])) :
      Step row row' (.poll inst now clientIp)

theorem step_apply (row : Row) (e : Event) : Step row (e.apply row) e := by
  cases e with
  | register inst now clientIp =>
    refine .registered inst now clientIp ?_
    unfold Event.apply refuseRegistration
    cases inst with
    | none => exact ⟨rfl, rfl, rfl⟩
    | some inst =>
      dsimp only
      split
      · exact sameOwner_recordRefusal row now clientIp
      · exact ⟨rfl, rfl, rfl⟩
  | poll inst now clientIp =>
    unfold Event.apply claimPoll
    by_cases hfresh : row.agentInstance = some inst ∧
        (row.seenAt.any fun seen => now - seen < seenRefresh) = true
    · simp only [if_pos hfresh]
      obtain ⟨hown, hseen⟩ := hfresh
      rw [Option.any_eq_true] at hseen
      obtain ⟨seen, hseen, hnow⟩ := hseen
      exact .fresh inst now clientIp ⟨rfl, rfl, rfl⟩ hown
        ⟨seen, hseen, of_decide_eq_true hnow⟩
    simp only [if_neg hfresh]
    cases howner : row.agentInstance with
    | none => exact .stamped inst now clientIp (.inl howner) rfl rfl rfl
    | some owner =>
      by_cases hself : owner = inst
      · simp only [if_pos hself]
        exact .stamped inst now clientIp (.inr (hself ▸ howner)) rfl rfl rfl
      simp only [if_neg hself]
      by_cases hrefused : inst ∈ row.displaced ∧ ownerLive row now = true
      · simp only [if_pos hrefused]
        exact .refused inst now clientIp (sameOwner_recordRefusal row now clientIp)
          ⟨owner, howner, hself⟩ hrefused.1
      · simp only [if_neg hrefused]
        refine .tookOver inst now clientIp owner howner hself (fun hmem => ?_) rfl rfl rfl
        exact eq_false_of_ne_true fun hlive => hrefused ⟨hmem, hlive⟩

theorem handovers_of_same
    (h : (rowAfter (e :: past)).agentInstance = (rowAfter past).agentInstance) :
    handovers (e :: past) = handovers past := by
  rw [handovers, h]
  cases (rowAfter past).agentInstance with
  | none => rfl
  | some owner => exact if_pos rfl

theorem handovers_of_none (h : (rowAfter past).agentInstance = none) :
    handovers (e :: past) = handovers past := by
  rw [handovers, h]

variable {inst owner : Instance}

theorem handovers_of_ne (h : (rowAfter past).agentInstance = some owner)
    (h' : (rowAfter (e :: past)).agentInstance = some inst) (hne : owner ≠ inst) :
    handovers (e :: past) = (owner, inst) :: handovers past := by
  rw [handovers, h, h']
  exact if_neg hne

theorem handovers_tail (e : Event) (past : List Event) :
    handovers (e :: past) = handovers past ∨ ∃ h, handovers (e :: past) = h :: handovers past := by
  rw [handovers]
  split
  · split
    · exact .inl rfl
    · exact .inr ⟨_, rfl⟩
  · exact .inl rfl

/-- A history whose clock does not go back, and in which few processes are displaced. -/
structure Orderly (history : List Event) : Prop where
  clock : Clock history
  few : (everDisplaced history).length ≤ displacedKeep

theorem everDisplaced_subset (e : Event) (past : List Event) :
    everDisplaced past ⊆ everDisplaced (e :: past) := by
  intro d hd
  rw [everDisplaced, List.mem_dedup] at hd ⊢
  rcases handovers_tail e past with h | ⟨first, h⟩
  · rwa [h]
  · rw [h]
    exact List.mem_cons_of_mem _ hd

theorem Orderly.tail (h : Orderly (e :: past)) : Orderly past where
  clock := h.clock.of_cons
  few := le_trans ((List.nodup_dedup _).subperm (everDisplaced_subset e past)).length_le h.few

theorem Orderly.suffix (h : Orderly history) (hpast : past <:+ history) : Orderly past := by
  obtain ⟨later, rfl⟩ := hpast
  induction later with
  | nil => exact h
  | cons e later ih => exact ih h.tail

variable {time : ℤ}

theorem PollAt.cons (h : PollAt past inst time) (e : Event) : PollAt (e :: past) inst time := by
  obtain ⟨clientIp, hmem⟩ := h
  exact ⟨clientIp, List.mem_cons_of_mem _ hmem⟩

theorem pollAt_cons (h : PollAt (e :: past) inst time) :
    (∃ clientIp, e = .poll inst time clientIp) ∨ PollAt past inst time := by
  obtain ⟨clientIp, hmem⟩ := h
  rcases List.mem_cons.mp hmem with heq | hmem
  · exact .inl ⟨clientIp, heq.symm⟩
  · exact .inr ⟨clientIp, hmem⟩

theorem PollAt.le (hclock : Clock (e :: past)) (h : PollAt past inst time) : time ≤ e.now := by
  obtain ⟨clientIp, hmem⟩ := h
  exact (List.pairwise_cons.mp hclock).1 _ hmem

/-- What the row knows of the history: the owner, who polled last at most a refresh after it was
seen, and every other process that has polled. -/
structure Known (past : List Event) : Prop where
  ownerApart : ∀ owner, (rowAfter past).agentInstance = some owner →
    owner ∉ (rowAfter past).displaced
  nodup : (rowAfter past).displaced.Nodup
  unowned : (rowAfter past).agentInstance = none → (rowAfter past).displaced = []
  polled : ∀ inst time, PollAt past inst time →
    (rowAfter past).agentInstance = some inst ∨ inst ∈ (rowAfter past).displaced
  ownerPolled : ∀ owner, (rowAfter past).agentInstance = some owner →
    ∃ time, PollAt past owner time
  once : ∀ inst ∈ (rowAfter past).displaced, inst ∈ everDisplaced past
  seen : ∀ owner, (rowAfter past).agentInstance = some owner →
    ∃ seen, (rowAfter past).seenAt = some seen ∧
      ∀ time, PollAt past owner time → time - seen < seenRefresh
  handed : ∀ h ∈ handovers past,
    (∃ time, PollAt past h.1 time) ∧ ∃ time, PollAt past h.2 time

theorem known_nil : Known [] where
  ownerApart := nofun
  nodup := List.nodup_nil
  unowned _ := rfl
  polled := by
    rintro inst time ⟨_, hmem⟩
    cases hmem
  ownerPolled := nofun
  once := nofun
  seen := nofun
  handed := nofun

/-- An event that leaves the owner and the displaced as they are, and of whose process the row
knows. -/
theorem Known.same (h : Known past) (hsame : SameOwner (rowAfter past) (rowAfter (e :: past)))
    (hpolled : ∀ inst now clientIp, e = .poll inst now clientIp →
      (rowAfter past).agentInstance = some inst ∨ inst ∈ (rowAfter past).displaced)
    (hseen : ∀ inst now clientIp, e = .poll inst now clientIp →
      (rowAfter past).agentInstance = some inst →
      ∃ seen, (rowAfter past).seenAt = some seen ∧ now - seen < seenRefresh) :
    Known (e :: past) where
  ownerApart owner howner := by
    rw [hsame.agentInstance] at howner
    rw [hsame.displaced]
    exact h.ownerApart owner howner
  nodup := by
    rw [hsame.displaced]
    exact h.nodup
  unowned hnone := by
    rw [hsame.agentInstance] at hnone
    rw [hsame.displaced]
    exact h.unowned hnone
  polled inst time hpoll := by
    rw [hsame.agentInstance, hsame.displaced]
    rcases pollAt_cons hpoll with ⟨clientIp, rfl⟩ | hpoll
    · exact hpolled inst time clientIp rfl
    · exact h.polled inst time hpoll
  ownerPolled owner howner := by
    rw [hsame.agentInstance] at howner
    obtain ⟨time, hpoll⟩ := h.ownerPolled owner howner
    exact ⟨time, hpoll.cons e⟩
  once inst hinst := by
    rw [hsame.displaced] at hinst
    exact everDisplaced_subset e past (h.once inst hinst)
  seen owner howner := by
    rw [hsame.agentInstance] at howner
    obtain ⟨seen, hseenAt, hall⟩ := h.seen owner howner
    refine ⟨seen, hsame.seenAt.trans hseenAt, fun time hpoll => ?_⟩
    rcases pollAt_cons hpoll with ⟨clientIp, rfl⟩ | hpoll
    · obtain ⟨seen', hseenAt', hlt⟩ := hseen owner time clientIp rfl howner
      rwa [Option.some.inj (hseenAt.symm.trans hseenAt')]
    · exact hall time hpoll
  handed pair hpair := by
    rw [handovers_of_same hsame.agentInstance] at hpair
    obtain ⟨⟨time, hpoll⟩, time', hpoll'⟩ := h.handed pair hpair
    exact ⟨⟨time, hpoll.cons e⟩, time', hpoll'.cons e⟩

variable {clientIp : Option String} {now : ℤ}

theorem seen_of_stamp (hclock : Clock (.poll inst now clientIp :: past)) (owner : Instance)
    (time : ℤ) (hpoll : PollAt (.poll inst now clientIp :: past) owner time) :
    time - now < seenRefresh := by
  have hle : time ≤ now := by
    rcases pollAt_cons hpoll with ⟨_, heq⟩ | hpoll
    · cases heq
      exact Int.le_refl _
    · exact hpoll.le hclock
  have hpos : 0 < seenRefresh := by decide
  omega

theorem Known.stamp (h : Known past) (hclock : Clock (.poll inst now clientIp :: past))
    (howns : (rowAfter past).agentInstance = none ∨ (rowAfter past).agentInstance = some inst)
    (hagent : (rowAfter (.poll inst now clientIp :: past)).agentInstance = some inst)
    (hseenAt : (rowAfter (.poll inst now clientIp :: past)).seenAt = some now)
    (hdisplaced : (rowAfter (.poll inst now clientIp :: past)).displaced = (rowAfter past).displaced) :
    Known (.poll inst now clientIp :: past) where
  ownerApart owner howner := by
    rw [hdisplaced]
    obtain rfl : inst = owner := Option.some.inj (hagent.symm.trans howner)
    rcases howns with hnone | hself
    · rw [h.unowned hnone]
      exact List.not_mem_nil
    · exact h.ownerApart inst hself
  nodup := by
    rw [hdisplaced]
    exact h.nodup
  unowned hnone := by
    rw [hagent] at hnone
    cases hnone
  polled other time hpoll := by
    rw [hagent, hdisplaced]
    rcases pollAt_cons hpoll with ⟨_, heq⟩ | hpoll
    · cases heq
      exact .inl rfl
    · rcases h.polled other time hpoll with hother | hother
      · rcases howns with hnone | hself
        · rw [hnone] at hother
          cases hother
        · exact .inl (hself.symm.trans hother)
      · exact .inr hother
  ownerPolled owner howner := by
    obtain rfl : inst = owner := Option.some.inj (hagent.symm.trans howner)
    exact ⟨now, clientIp, List.mem_cons_self⟩
  once other hother := by
    rw [hdisplaced] at hother
    exact everDisplaced_subset _ past (h.once other hother)
  seen owner _ := ⟨now, hseenAt, seen_of_stamp hclock owner⟩
  handed pair hpair := by
    have hsame : handovers (.poll inst now clientIp :: past) = handovers past := by
      rcases howns with hnone | hself
      · exact handovers_of_none hnone
      · exact handovers_of_same (hagent.trans hself.symm)
    rw [hsame] at hpair
    obtain ⟨⟨time, hpoll⟩, time', hpoll'⟩ := h.handed pair hpair
    exact ⟨⟨time, hpoll.cons _⟩, time', hpoll'.cons _⟩

theorem lastOf_eq {α : Type} {n : ℕ} {l : List α} (h : l.length ≤ n) : lastOf n l = l := by
  rw [lastOf, Nat.sub_eq_zero_of_le h, List.drop_zero]

theorem Known.takeOver (h : Known past) (horderly : Orderly (.poll inst now clientIp :: past))
    (howns : (rowAfter past).agentInstance = some owner) (hne : owner ≠ inst)
    (hagent : (rowAfter (.poll inst now clientIp :: past)).agentInstance = some inst)
    (hseenAt : (rowAfter (.poll inst now clientIp :: past)).seenAt = some now)
    (hdisplaced : (rowAfter (.poll inst now clientIp :: past)).displaced = lastOf displacedKeep ((rowAfter past).displaced.filter (fun d => d ≠ inst ∧ d ≠ owner) ++ [owner])) :
    Known (.poll inst now clientIp :: past) := by
  have htaken := handovers_of_ne howns hagent hne
  have hmem : ∀ d, d ∈ (rowAfter past).displaced.filter (fun d => d ≠ inst ∧ d ≠ owner) ++
      [owner] ↔ (d ∈ (rowAfter past).displaced ∧ d ≠ inst) ∨ d = owner := by
    intro d
    simp only [List.mem_append, List.mem_filter, decide_eq_true_eq, List.mem_singleton]
    tauto
  have hnodup : ((rowAfter past).displaced.filter (fun d => d ≠ inst ∧ d ≠ owner) ++
      [owner]).Nodup := by
    refine List.nodup_append.mpr ⟨h.nodup.filter _, List.nodup_singleton owner, ?_⟩
    rintro d hd owner' howner rfl
    rw [List.mem_singleton.mp howner] at hd
    exact (of_decide_eq_true (List.mem_filter.mp hd).2).2 rfl
  have hever : ∀ d, ((d ∈ (rowAfter past).displaced ∧ d ≠ inst) ∨ d = owner) →
      d ∈ everDisplaced (.poll inst now clientIp :: past) := by
    rintro d (⟨hd, -⟩ | rfl)
    · exact everDisplaced_subset _ past (h.once d hd)
    · rw [everDisplaced, List.mem_dedup, htaken]
      exact List.mem_cons_self
  -- What is displaced is few, so the list keeps it all.
  have hkept : (rowAfter (.poll inst now clientIp :: past)).displaced =
      (rowAfter past).displaced.filter (fun d => d ≠ inst ∧ d ≠ owner) ++ [owner] := by
    rw [hdisplaced]
    apply lastOf_eq
    exact le_trans (hnodup.subperm fun d hd => hever d ((hmem d).mp hd)).length_le horderly.few
  constructor
  · intro owner' howner'
    obtain rfl : inst = owner' := Option.some.inj (hagent.symm.trans howner')
    rw [hkept, hmem]
    rintro (⟨-, hself⟩ | heq)
    · exact hself rfl
    · exact hne heq.symm
  · rw [hkept]
    exact hnodup
  · intro hnone
    rw [hagent] at hnone
    cases hnone
  · intro other time hpoll
    rw [hagent, hkept, hmem]
    by_cases hself : inst = other
    · exact .inl (congrArg some hself)
    rcases pollAt_cons hpoll with ⟨_, heq⟩ | hpoll
    · cases heq
      exact absurd rfl hself
    rcases h.polled other time hpoll with hother | hother
    · exact .inr (.inr (Option.some.inj (hother.symm.trans howns)))
    · exact .inr (.inl ⟨hother, fun heq => hself heq.symm⟩)
  · intro owner' howner'
    obtain rfl : inst = owner' := Option.some.inj (hagent.symm.trans howner')
    exact ⟨now, clientIp, List.mem_cons_self⟩
  · intro d hd
    rw [hkept, hmem] at hd
    exact hever d hd
  · intro owner' _
    exact ⟨now, hseenAt, seen_of_stamp horderly.clock owner'⟩
  · intro pair hpair
    rw [htaken] at hpair
    rcases List.mem_cons.mp hpair with rfl | hpair
    · obtain ⟨time, hpoll⟩ := h.ownerPolled owner howns
      exact ⟨⟨time, hpoll.cons _⟩, now, clientIp, List.mem_cons_self⟩
    · obtain ⟨⟨time, hpoll⟩, time', hpoll'⟩ := h.handed pair hpair
      exact ⟨⟨time, hpoll.cons _⟩, time', hpoll'.cons _⟩

theorem Known.cons (h : Known past) (horderly : Orderly (e :: past)) : Known (e :: past) := by
  cases step_apply (rowAfter past) e with
  | registered inst now clientIp same => exact h.same same nofun nofun
  | fresh inst now clientIp same owns seen =>
    refine h.same same ?_ ?_
    · rintro _ _ _ ⟨⟩
      exact .inl owns
    · rintro _ _ _ ⟨⟩ _
      exact seen
  | stamped inst now clientIp owns agentInstance seenAt displaced =>
    exact h.stamp horderly.clock owns agentInstance seenAt displaced
  | refused inst now clientIp same owner displaced =>
    refine h.same same ?_ ?_
    · rintro _ _ _ ⟨⟩
      exact .inr displaced
    · rintro _ _ _ ⟨⟩ hself
      obtain ⟨owner, howner, hne⟩ := owner
      exact absurd (Option.some.inj (howner.symm.trans hself)) hne
  | tookOver inst now clientIp owner owns ne free agentInstance seenAt displaced =>
    exact h.takeOver horderly owns ne agentInstance seenAt displaced

theorem Orderly.known (h : Orderly history) : Known history := by
  induction history with
  | nil => exact known_nil
  | cons e past ih => exact (ih h.tail).cons h

theorem newcomer_owns (h : Known past) (horderly : Orderly (.poll inst now clientIp :: past))
    (hnew : ∀ time, ¬ PollAt past inst time) :
    (rowAfter (.poll inst now clientIp :: past)).agentInstance = some inst := by
  have hapart : inst ∉ (rowAfter past).displaced := by
    intro hmem
    have hever := h.once inst hmem
    rw [everDisplaced, List.mem_dedup] at hever
    obtain ⟨pair, hpair, rfl⟩ := List.mem_map.mp hever
    obtain ⟨⟨time, hpoll⟩, -⟩ := h.handed pair hpair
    exact hnew time hpoll
  cases step_apply (rowAfter past) (.poll inst now clientIp) with
  | fresh _ _ _ same owns => exact same.agentInstance.trans owns
  | stamped _ _ _ _ agentInstance => exact agentInstance
  | refused _ _ _ _ _ displaced => exact absurd displaced hapart
  | tookOver _ _ _ _ _ _ _ agentInstance => exact agentInstance

theorem owner_gone (h : Known past) (hever : inst ∈ everDisplaced past)
    (hnot : (rowAfter past).agentInstance ≠ some inst)
    (howns : (rowAfter (e :: past)).agentInstance = some inst) :
    ∃ seen, (rowAfter past).seenAt = some seen ∧ ownerGoneAfter < e.now - seen := by
  rw [everDisplaced, List.mem_dedup] at hever
  obtain ⟨pair, hpair, rfl⟩ := List.mem_map.mp hever
  obtain ⟨⟨time, hpoll⟩, -⟩ := h.handed pair hpair
  have hdisplaced := (h.polled pair.1 time hpoll).resolve_left hnot
  cases step_apply (rowAfter past) e with
  | registered _ _ _ same => exact absurd (same.agentInstance.symm.trans howns) hnot
  | fresh _ _ _ same => exact absurd (same.agentInstance.symm.trans howns) hnot
  | refused _ _ _ same => exact absurd (same.agentInstance.symm.trans howns) hnot
  | stamped inst _ _ owns agentInstance =>
    obtain rfl : inst = pair.1 := Option.some.inj (agentInstance.symm.trans howns)
    rcases owns with hnone | hself
    · rw [h.unowned hnone] at hdisplaced
      cases hdisplaced
    · exact absurd hself hnot
  | tookOver inst now _ owner owns _ free agentInstance =>
    obtain rfl : inst = pair.1 := Option.some.inj (agentInstance.symm.trans howns)
    obtain ⟨seen, hseen, -⟩ := h.seen owner owns
    refine ⟨seen, hseen, ?_⟩
    have hgone := free hdisplaced
    rw [ownerLive, owns, hseen] at hgone
    simp only [Option.isSome_some, Option.any_some, Bool.true_and, decide_eq_false_iff_not] at hgone
    exact Int.not_le.mp hgone

theorem not_polled_of_handover (h : Known past)
    (hkeeps : ∃ time, PollAt past owner time ∧ now - time ≤ ownerGoneAfter - seenRefresh)
    (howns : (rowAfter past).agentInstance = some owner) (hne : owner ≠ inst)
    (hfree : inst ∈ (rowAfter past).displaced → ownerLive (rowAfter past) now = false) (time : ℤ) :
    ¬ PollAt past inst time := by
  intro hpoll
  obtain ⟨last, hlast, hrecent⟩ := hkeeps
  obtain ⟨seen, hseen, hall⟩ := h.seen owner howns
  have hlate := hall last hlast
  have hdisplaced := (h.polled inst time hpoll).resolve_left fun hself =>
    hne (Option.some.inj (howns.symm.trans hself))
  have hgone := hfree hdisplaced
  have hlive : ownerLive (rowAfter past) now = true := by
    rw [ownerLive, howns, hseen]
    simp only [Option.isSome_some, Option.any_some, Bool.true_and, decide_eq_true_eq]
    omega
  rw [hlive] at hgone
  cases hgone

theorem KeepsPolling.tail (h : KeepsPolling (e :: past) inst) :
    KeepsPolling past inst := fun e' past' hsuffix =>
  h e' past' (hsuffix.trans (List.suffix_cons e past))

theorem handover_once {a b : Instance} (horderly : Orderly history)
    (ha : KeepsPolling history a) (hb : KeepsPolling history b) :
    (handoversBetween history a b).length ≤ 1 := by
  unfold handoversBetween
  induction history with
  | nil => exact Nat.zero_le 1
  | cons e past ih =>
    have htail := ih horderly.tail ha.tail hb.tail
    have hknown := horderly.tail.known
    cases step_apply (rowAfter past) e with
    | registered _ _ _ same =>
      rwa [handovers_of_same same.agentInstance]
    | fresh _ _ _ same => rwa [handovers_of_same same.agentInstance]
    | refused _ _ _ same => rwa [handovers_of_same same.agentInstance]
    | stamped inst _ _ owns agentInstance =>
      rcases owns with hnone | hself
      · rwa [handovers_of_none hnone]
      · rwa [handovers_of_same (agentInstance.trans hself.symm)]
    | tookOver inst now clientIp owner owns ne free agentInstance =>
      rw [handovers_of_ne owns agentInstance ne]
      by_cases hpair : (owner, inst) = (a, b) ∨ (owner, inst) = (b, a)
      · -- The new owner polls for the first time, so it was in no handover before.
        have hkeeps : KeepsPolling (.poll inst now clientIp :: past) owner := by
          rcases hpair with heq | heq <;> cases heq
          · exact ha
          · exact hb
        have hfirst := not_polled_of_handover hknown
          (hkeeps _ past (List.suffix_refl _) (hknown.ownerPolled owner owns)) owns ne free
        have hnone : (handovers past).filter (fun pair => pair = (a, b) ∨ pair = (b, a)) = [] := by
          rw [List.filter_eq_nil_iff]
          intro pair hmem hbetween
          obtain ⟨⟨time, hpoll⟩, time', hpoll'⟩ := hknown.handed pair hmem
          rcases hpair with heq | heq <;> cases heq <;>
            rcases of_decide_eq_true hbetween with rfl | rfl
          · exact hfirst _ hpoll'
          · exact hfirst _ hpoll
          · exact hfirst _ hpoll
          · exact hfirst _ hpoll'
        simp only [List.filter_cons, decide_eq_true hpair, if_true, hnone]
        exact Nat.le_refl 1
      · simpa only [List.filter_cons, decide_eq_false hpair, Bool.false_eq_true, if_false]
          using htail

/-- Ownership in a history whose clock does not go back and in which no more processes are
displaced than the row remembers. -/
theorem ownership_settled (hclock : Clock history)
    (hfew : (everDisplaced history).length ≤ displacedKeep) : Settled history := by
  have horderly : Orderly history := ⟨hclock, hfew⟩
  constructor
  · intro past hpast
    exact (horderly.suffix hpast).known.ownerApart
  · intro past hpast
    exact (horderly.suffix hpast).known.nodup
  · intro inst now clientIp past hpast hnew
    have h := horderly.suffix hpast
    exact newcomer_owns h.tail.known h hnew
  · intro e past inst hpast hever hnot howns
    exact owner_gone (horderly.suffix hpast).tail.known hever hnot howns
  · intro a b _ ha hb
    exact handover_once horderly ha hb
  · intro inst now clientIp past _ hrefused
    rw [refuseRegistration, if_pos hrefused]

/-- A clone takes the row over, the other process is refused, and takes it back when the clone has
been silent for long enough. -/
def cloneHistory : List Event :=
  [.poll "first" (seconds 400) none, .register (some "first") (seconds 60) none,
    .poll "clone" (seconds 40) none, .poll "first" (seconds 35) none,
    .poll "clone" (seconds 30) none, .poll "first" 0 none]

theorem ownership_settled_clone : Settled cloneHistory :=
  ownership_settled (by unfold Clock; decide) (by decide)

end SpatiumDdi.Agent.Ownership
