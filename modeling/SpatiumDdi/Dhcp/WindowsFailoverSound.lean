import SpatiumDdi.Dhcp.WindowsFailover

/-!
What a verdict says. Each is decided by the holders as a set and by who shares a unit with whom,
and the safe ones leave no address that two holders hand out without a relationship between them.
-/

namespace SpatiumDdi.Dhcp.WindowsFailover

theorem holds_cut {exStart exEnd : ℕ} {span : ℕ × ℕ} (x : ℕ) :
    Spans.Holds (cut exStart exEnd span) x ↔
      (span.1 ≤ x ∧ x ≤ span.2) ∧ ¬ (exStart ≤ x ∧ x ≤ exEnd) := by
  unfold cut
  split
  next hout =>
    rw [Spans.holds_cons]
    simp only [Spans.not_holds_nil, or_false]
    omega
  next hin =>
    rw [Spans.Holds]
    by_cases hlow : span.1 < exStart <;> by_cases hhigh : exEnd < span.2 <;>
      simp only [hlow, hhigh, if_true, if_false, List.cons_append, List.nil_append,
        List.mem_cons, List.not_mem_nil, or_false, exists_eq_or_imp, exists_eq_left, false_and,
        exists_false, false_iff] <;> omega

theorem holds_exclude (ranges : Ranges) (exStart exEnd x : ℕ) :
    Spans.Holds (ranges.exclude exStart exEnd).val x ↔
      Spans.Holds ranges.val x ∧ ¬ (exStart ≤ x ∧ x ≤ exEnd) := by
  have hflat : Spans.Holds (ranges.val.flatMap (cut exStart exEnd)) x ↔
      ∃ span ∈ ranges.val, Spans.Holds (cut exStart exEnd span) x := by
    simp only [Spans.Holds, List.mem_flatMap]
    constructor
    · rintro ⟨part, ⟨span, hspan, hpart⟩, hx⟩
      exact ⟨span, hspan, part, hpart, hx⟩
    · rintro ⟨span, hspan, part, hpart, hx⟩
      exact ⟨part, ⟨span, hspan, hpart⟩, hx⟩
  refine hflat.trans ⟨?_, ?_⟩
  · rintro ⟨span, hspan, hx⟩
    obtain ⟨hin, hout⟩ := (holds_cut x).mp hx
    exact ⟨⟨span, hspan, hin⟩, hout⟩
  · rintro ⟨⟨span, hspan, hin⟩, hout⟩
    exact ⟨span, hspan, (holds_cut x).mpr ⟨hin, hout⟩⟩

def NotExcluded (exclusions : List (List (List Char))) (x : ℕ) : Prop :=
  ∀ ex ∈ exclusions, ∀ exStart exEnd, readExclusion ex = some (exStart, exEnd) →
    ¬ (exStart ≤ x ∧ x ≤ exEnd)

theorem holds_excludeNext (ranges : Ranges) (ex : List (List Char)) (x : ℕ) :
    Spans.Holds (excludeNext ranges ex).val x ↔
      Spans.Holds ranges.val x ∧ NotExcluded [ex] x := by
  unfold excludeNext NotExcluded
  rw [List.forall_mem_singleton]
  cases hread : readExclusion ex with
  | none => simp
  | some bounds =>
    dsimp only
    rw [holds_exclude]
    refine and_congr_right fun _ => ⟨?_, fun h => h _ _ rfl⟩
    rintro hout exStart exEnd heq
    rw [Option.some.inj heq] at hout
    exact hout

theorem holds_foldl_excludeNext (exclusions : List (List (List Char))) (ranges : Ranges) (x : ℕ) :
    Spans.Holds (exclusions.foldl excludeNext ranges).val x ↔
      Spans.Holds ranges.val x ∧ NotExcluded exclusions x := by
  induction exclusions generalizing ranges with
  | nil => exact ⟨fun h => ⟨h, nofun⟩, And.left⟩
  | cons ex exclusions ih =>
    rw [List.foldl_cons, ih, holds_excludeNext, and_assoc]
    unfold NotExcluded
    rw [List.forall_mem_singleton, List.forall_mem_cons]

theorem holds_effectiveRanges {startIp endIp : List Char} {exclusions : List (List (List Char))}
    {ranges : Ranges} (h : effectiveRanges startIp endIp exclusions = some ranges) :
    ∃ lo hi, ipInt startIp = some lo ∧ ipInt endIp = some hi ∧
      ∀ x, Spans.Holds ranges.val x ↔ (lo ≤ x ∧ x ≤ hi) ∧ NotExcluded exclusions x := by
  unfold effectiveRanges at h
  split at h
  next lo hi hlo hhi =>
    split at h
    next hle =>
      refine ⟨lo, hi, hlo, hhi, fun x => ?_⟩
      rw [← Option.some.inj h]
      have hsort := Spans.holds_perm (x := x) (List.perm_insertionSort Spans.pairOrder
        (exclusions.foldl excludeNext ⟨[(lo, hi)], List.forall_mem_singleton.mpr hle⟩).val)
      refine hsort.trans ((holds_foldl_excludeNext exclusions _ x).trans ?_)
      rw [Spans.holds_cons]
      simp only [Spans.not_holds_nil, or_false]
    next => cases h
  next => cases h

def Share (a b : Ranges) : Prop := ∃ x, Spans.Holds a.val x ∧ Spans.Holds b.val x

theorem rangesOverlap_iff {a b : List (ℕ × ℕ)} (ha : ∀ span ∈ a, span.1 ≤ span.2)
    (hb : ∀ span ∈ b, span.1 ≤ span.2) :
    rangesOverlap a b = true ↔ ∃ x, Spans.Holds a x ∧ Spans.Holds b x := by
  simp only [rangesOverlap, List.any_eq_true, Bool.and_eq_true, decide_eq_true_iff]
  constructor
  · rintro ⟨p, hp, q, hq, hlow, hhigh⟩
    have hp' := ha p hp
    have hq' := hb q hq
    exact ⟨max p.1 q.1, ⟨p, hp, by omega⟩, q, hq, by omega⟩
  · rintro ⟨x, ⟨p, hp, hpx⟩, q, hq, hqx⟩
    exact ⟨p, hp, q, hq, by omega⟩

theorem unitRanges_cons (h : Holder) (unit : List Holder) :
    unitRanges (h :: unit) =
      h.ranges.bind fun ranges => (unitRanges unit).map (ranges.val ++ ·) := by
  rw [unitRanges, List.mapM_cons]
  cases hranges : h.ranges with
  | none => rfl
  | some ranges =>
    rw [unitRanges]
    cases List.mapM (fun h : Holder => h.ranges.map Subtype.val) unit <;> rfl

theorem unitRanges_isSome (unit : List Holder) :
    (unitRanges unit).isSome = true ↔ ∀ h ∈ unit, h.ranges ≠ none := by
  induction unit with
  | nil => exact ⟨fun _ => nofun, fun _ => rfl⟩
  | cons h unit ih =>
    rw [unitRanges_cons, List.forall_mem_cons, ← ih]
    cases h.ranges with
    | none => simp
    | some ranges => simp

variable {unit : List Holder}

theorem holds_unitRanges {spans : List (ℕ × ℕ)} (h : unitRanges unit = some spans) :
    (∀ span ∈ spans, span.1 ≤ span.2) ∧ ∀ x, Spans.Holds spans x ↔
      ∃ a ∈ unit, ∃ ranges, a.ranges = some ranges ∧ Spans.Holds ranges.val x := by
  induction unit generalizing spans with
  | nil =>
    rw [← Option.some.inj h]
    exact ⟨nofun, fun x => by simp⟩
  | cons a unit ih =>
    rw [unitRanges_cons] at h
    obtain ⟨ranges, hranges, h⟩ := Option.bind_eq_some_iff.mp h
    obtain ⟨more, hmore, rfl⟩ := Option.map_eq_some_iff.mp h
    obtain ⟨hle, hholds⟩ := ih hmore
    refine ⟨List.forall_mem_append.mpr ⟨ranges.property, hle⟩, fun x => ?_⟩
    have happend : Spans.Holds (ranges.val ++ more) x ↔
        Spans.Holds ranges.val x ∨ Spans.Holds more x := by
      simp only [Spans.Holds, List.mem_append, or_and_right, exists_or]
    rw [happend, hholds]
    simp only [List.mem_cons, exists_eq_or_imp, hranges, Option.some.injEq, exists_eq_left']

variable (lower : String → String) (members : List Member) (holders : List Holder)

/-- All ranges are known, and holders of different units share no address. -/
def Split : Prop :=
  (∀ h ∈ holders, h.ranges ≠ none) ∧ ∀ a ∈ holders, ∀ b ∈ holders,
    ¬ SameUnit lower members holders a b → ∀ ra rb, a.ranges = some ra → b.ranges = some rb →
      ¬ Share ra rb

def Coupled : Prop :=
  holders.length = 2 ∧ ∀ a ∈ holders, ∀ b ∈ holders, SameUnit lower members holders a b

open Classical in
/-- The verdict as the holders decide it, whatever their order. -/
noncomputable def judge : Verdict :=
  if holders.length = 0 then .notOnWindows
  else if holders.length = 1 then
    if ∃ h ∈ holders, h.relationship ≠ none then .failoverOneSided else .single
  else if Coupled lower members holders then .failover
  else if ∃ h ∈ holders, h.failoverKnown = false then .unknown
  else if Split lower members holders then .splitScope
  else .uncoordinated

variable {lower members holders} {a b : Holder}

section

variable (hnodup : holders.Nodup)
include hnodup

theorem units_disjoint : (units lower holders members).Pairwise List.Disjoint :=
  (List.nodup_flatten.mp ((flatten_units hnodup).nodup_iff.mpr hnodup)).2

section

variable (hunit : unit ∈ units lower holders members)
include hunit

theorem mem_holders_of_unit (ha : a ∈ unit) : a ∈ holders :=
  (flatten_units hnodup).mem_iff.mp (List.mem_flatten.mpr ⟨unit, hunit, ha⟩)

theorem unit_length_le : unit.length ≤ 2 := by
  rw [units_eq hnodup] at hunit
  obtain ⟨comp, _, hsplit⟩ := List.mem_flatMap.mp hunit
  rw [splitComponent] at hsplit
  split at hsplit
  next hlength =>
    rw [List.mem_singleton.mp hsplit]
    exact hlength
  next =>
    obtain ⟨a, _, rfl⟩ := List.mem_map.mp hsplit
    exact Nat.le_succ 1

end

theorem units_length_le_one
    (hsame : ∀ a ∈ holders, ∀ b ∈ holders, SameUnit lower members holders a b) :
    (units lower holders members).length ≤ 1 := by
  by_contra hlength
  match hunits : units lower holders members with
  | [] =>
    rw [hunits] at hlength
    exact hlength (Nat.zero_le 1)
  | [_] =>
    rw [hunits] at hlength
    exact hlength (Nat.le_refl 1)
  | u :: v :: rest =>
    have hu : u ∈ units lower holders members := by
      rw [hunits]
      exact List.mem_cons_self
    have hv : v ∈ units lower holders members := by
      rw [hunits]
      exact List.mem_cons_of_mem _ List.mem_cons_self
    obtain ⟨a, ha⟩ := List.exists_mem_of_ne_nil _ (unit_ne_nil hnodup hu)
    obtain ⟨b, hb⟩ := List.exists_mem_of_ne_nil _ (unit_ne_nil hnodup hv)
    have hbh := mem_holders_of_unit hnodup hv hb
    have hbu := (mem_unit hnodup hu ha b).mpr
      ⟨hbh, hsame a (mem_holders_of_unit hnodup hu ha) b hbh⟩
    have hpairwise := @units_disjoint lower members holders hnodup
    rw [hunits] at hpairwise
    exact List.rel_of_pairwise_cons hpairwise List.mem_cons_self hbu hb

end

def Apart (u v : List Holder) : Prop :=
  ∀ a ∈ u, ∀ b ∈ v, ∀ ra rb, a.ranges = some ra → b.ranges = some rb → ¬ Share ra rb

instance : Std.Symm Apart where
  symm := by
    rintro u v h b hb a ha rb ra hrb hra ⟨x, hxb, hxa⟩
    exact h a ha b hb ra rb hra hrb ⟨x, hxa, hxb⟩

theorem rangesOverlap_units {u v : List Holder} (hu : (unitRanges u).isSome = true)
    (hv : (unitRanges v).isSome = true) :
    rangesOverlap ((unitRanges u).getD []) ((unitRanges v).getD []) = false ↔ Apart u v := by
  obtain ⟨su, hsu⟩ := Option.isSome_iff_exists.mp hu
  obtain ⟨sv, hsv⟩ := Option.isSome_iff_exists.mp hv
  obtain ⟨hule, huholds⟩ := holds_unitRanges hsu
  obtain ⟨hvle, hvholds⟩ := holds_unitRanges hsv
  rw [hsu, hsv, Option.getD_some, Option.getD_some, ← Bool.not_eq_true, rangesOverlap_iff hule hvle]
  constructor
  · rintro hnone a ha b hb ra rb hra hrb ⟨x, hxa, hxb⟩
    exact hnone ⟨x, (huholds x).mpr ⟨a, ha, ra, hra, hxa⟩, (hvholds x).mpr ⟨b, hb, rb, hrb, hxb⟩⟩
  · rintro hapart ⟨x, hxu, hxv⟩
    obtain ⟨a, ha, ra, hra, hxa⟩ := (huholds x).mp hxu
    obtain ⟨b, hb, rb, hrb, hxb⟩ := (hvholds x).mp hxv
    exact hapart a ha b hb ra rb hra hrb ⟨x, hxa, hxb⟩

theorem disjointUnits_iff (hnodup : holders.Nodup) :
    disjointUnits (units lower holders members) = true ↔ Split lower members holders := by
  have hunits : (∀ u ∈ units lower holders members, (unitRanges u).isSome = true) ↔
      ∀ h ∈ holders, h.ranges ≠ none := by
    constructor
    · intro hknown h hh
      obtain ⟨u, hu, hhu⟩ := @exists_unit lower members holders hnodup h hh
      exact (unitRanges_isSome u).mp (hknown u hu) h hhu
    · intro hall u hu
      exact (unitRanges_isSome u).mpr fun h hh => hall h (mem_holders_of_unit hnodup hu hh)
  rw [disjointUnits, Bool.and_eq_true, List.all_map, List.all_eq_true, decide_eq_true_iff,
    List.pairwise_map, Split, ← hunits]
  refine and_congr_right fun hknown => ?_
  have hapart : (units lower holders members).Pairwise
        (fun u v => rangesOverlap ((unitRanges u).getD []) ((unitRanges v).getD []) = false) ↔
      (units lower holders members).Pairwise Apart :=
    ⟨fun h => h.imp_of_mem fun hu hv => (rangesOverlap_units (hknown _ hu) (hknown _ hv)).mp,
      fun h => h.imp_of_mem fun hu hv => (rangesOverlap_units (hknown _ hu) (hknown _ hv)).mpr⟩
  rw [hapart]
  constructor
  · intro hpairwise a ha b hb hab
    obtain ⟨u, hu, hau⟩ := @exists_unit lower members holders hnodup a ha
    obtain ⟨v, hv, hbv⟩ := @exists_unit lower members holders hnodup b hb
    have huv : u ≠ v := by
      rintro rfl
      exact hab ((mem_unit hnodup hu hau b).mp hbv).2
    exact hpairwise.forall hu hv huv a hau b hbv
  · intro hsplit
    refine (units_disjoint hnodup).imp_of_mem fun {u v} hu hv hdisjoint a ha b hb => ?_
    refine hsplit a (mem_holders_of_unit hnodup hu ha) b (mem_holders_of_unit hnodup hv hb) ?_
    intro hsame
    have hbu := (mem_unit hnodup hu ha b).mpr ⟨mem_holders_of_unit hnodup hv hb, hsame⟩
    exact hdisjoint hbu hb

theorem coupled_of_units (hnodup : holders.Nodup) (hunits : units lower holders members = [[a, b]]) :
    Coupled lower members holders := by
  have hperm := @flatten_units lower members holders hnodup
  rw [hunits] at hperm
  have hunit : [a, b] ∈ units lower holders members := by
    rw [hunits]
    exact List.mem_cons_self
  refine ⟨hperm.length_eq.symm, fun x hx y hy => ?_⟩
  exact ((mem_unit hnodup hunit (hperm.mem_iff.mpr hx) y).mp (hperm.mem_iff.mpr hy)).2

theorem classify_units : (classifyServing lower holders members).units =
    units lower holders members := by
  cases holders with
  | nil => rfl
  | cons h holders =>
    unfold classifyServing
    dsimp only
    split
    next hunits => exact hunits.symm
    next only rest _ hunits =>
      rw [hunits, loneServing]
      split <;> rfl
    next =>
      rw [apartServing]
      split
      · rfl
      · split <;> rfl

theorem exists_only_unit (hnodup : holders.Nodup) (hne : holders ≠ [])
    (hsame : ∀ a ∈ holders, ∀ b ∈ holders, SameUnit lower members holders a b) :
    ∃ only rest, units lower holders members = [only :: rest] := by
  have hlength := units_length_le_one hnodup hsame
  have hperm := @flatten_units lower members holders hnodup
  match hunits : units lower holders members with
  | [] =>
    rw [hunits] at hperm
    exact absurd (List.nil_perm.mp hperm) hne
  | [[]] =>
    have hnil := unit_ne_nil hnodup (hunits ▸ List.mem_singleton_self [])
    exact absurd rfl hnil
  | [only :: rest] => exact ⟨only, rest, rfl⟩
  | _ :: _ :: _ =>
    rw [hunits] at hlength
    exact absurd hlength (Nat.not_succ_le_self _ ∘ Nat.le_trans (Nat.le_add_left 2 _))

theorem loneServing_verdict (units : List (List Holder)) (only : Holder) :
    (loneServing lower [only] members units only).verdict = judge lower members [only] := by
  have hzero : ¬ [only].length = 0 := Nat.one_ne_zero
  have hone : [only].length = 1 := rfl
  rw [judge, if_neg hzero, if_pos hone, loneServing]
  cases hrel : only.relationship with
  | none =>
    rw [if_neg]
    rintro ⟨h, hh, hsome⟩
    rw [List.mem_singleton.mp hh] at hsome
    exact hsome hrel
  | some rel =>
    rw [if_pos ⟨only, List.mem_singleton_self only, by rw [hrel]; exact Option.some_ne_none rel⟩]

theorem apartServing_verdict (hnodup : holders.Nodup) (hne : holders ≠ [])
    (hsame : ¬ ∀ a ∈ holders, ∀ b ∈ holders, SameUnit lower members holders a b) :
    (apartServing holders (units lower holders members)).verdict = judge lower members holders := by
  have hzero : ¬ holders.length = 0 := fun h => hne (List.length_eq_zero_iff.mp h)
  have hone : ¬ holders.length = 1 := by
    intro h
    obtain ⟨only, rfl⟩ := List.length_eq_one_iff.mp h
    refine hsame fun a ha b hb => .inl ?_
    rw [List.mem_singleton.mp ha, List.mem_singleton.mp hb]
  rw [judge, if_neg hzero, if_neg hone, if_neg fun h : Coupled lower members holders => hsame h.2,
    apartServing]
  by_cases hunknown : ∃ h ∈ holders, h.failoverKnown = false
  · rw [if_pos hunknown, if_pos (by simpa using hunknown)]
  · rw [if_neg hunknown, if_neg (by simpa using hunknown)]
    by_cases hsplit : Split lower members holders
    · rw [if_pos hsplit, if_pos ((disjointUnits_iff hnodup).mpr hsplit)]
    · rw [if_neg hsplit, if_neg (mt (disjointUnits_iff hnodup).mp hsplit)]

theorem verdict_eq (hnodup : holders.Nodup) :
    (classifyServing lower holders members).verdict = judge lower members holders := by
  have hperm := @flatten_units lower members holders hnodup
  unfold classifyServing
  split
  next => exact (if_pos rfl).symm
  next hne =>
    split
    next x y hunits =>
      have hcoupled := coupled_of_units hnodup hunits
      have hzero : ¬ holders.length = 0 := by
        rw [hcoupled.1]
        decide
      have hone : ¬ holders.length = 1 := by
        rw [hcoupled.1]
        decide
      rw [judge, if_neg hzero, if_neg hone, if_pos hcoupled]
      rfl
    next only rest hpair hunits =>
      have hunit : only :: rest ∈ units lower holders members := by
        rw [hunits]
        exact List.mem_cons_self
      have hlength := unit_length_le hnodup hunit
      have hrest : rest = [] := by
        match rest with
        | [] => rfl
        | [z] => exact absurd rfl (hpair z)
        | _ :: _ :: _ =>
          exact absurd hlength (Nat.not_succ_le_self _ ∘ Nat.le_trans (Nat.le_add_left 3 _))
      rw [hunits, hrest] at hperm
      have honly : holders = [only] := List.perm_singleton.mp hperm.symm
      rw [honly]
      exact loneServing_verdict [only :: rest] only
    next hpair hlone =>
      refine apartServing_verdict hnodup hne fun hsame => ?_
      obtain ⟨only, rest, hunits⟩ := exists_only_unit hnodup hne hsame
      exact hlone only rest hunits

section Orders

variable {members' : List Member} {holders' : List Holder}

theorem partnerMember_perm (h : members.Perm members') (rel : Relationship) :
    partnerMember lower rel members = partnerMember lower rel members' := by
  have hfilter := h.filter (partnerMatches lower (rel.partnerServer.getD ""))
  have hone : ∀ {l l' : List Member}, l.Perm l' → ∀ hit, l = [hit] → l' = [hit] := by
    rintro l l' hperm hit rfl
    exact List.perm_singleton.mp hperm.symm
  unfold partnerMember
  split
  next hit heq => rw [hone hfilter hit heq]
  next hnone =>
    split
    next hit heq => exact absurd (hone hfilter.symm hit heq) (hnone hit)
    next => rfl

theorem paired_perm (h : members.Perm members') (a b : Holder) :
    paired lower a b members = paired lower a b members' := by
  have hpoints : ∀ x y, pointsElsewhere lower x y members = pointsElsewhere lower x y members' := by
    intro x y
    unfold pointsElsewhere
    rw [show (fun rel => partnerMember lower rel members) =
      fun rel => partnerMember lower rel members' from funext fun rel => partnerMember_perm h rel]
  unfold paired
  rw [hpoints a b, hpoints b a]

theorem sameUnit_perm (hholders : holders.Perm holders') (hmembers : members.Perm members') :
    SameUnit lower members holders = SameUnit lower members' holders' := by
  have hlinked : Linked lower members holders = Linked lower members' holders' := by
    unfold Linked
    simp only [hholders.mem_iff, paired_perm hmembers]
  funext a b
  unfold SameUnit
  simp only [hlinked, hholders.mem_iff]

theorem judge_perm (hholders : holders.Perm holders') (hmembers : members.Perm members') :
    judge lower members holders = judge lower members' holders' := by
  have hcoupled : Coupled lower members holders = Coupled lower members' holders' := by
    unfold Coupled
    simp only [hholders.mem_iff, hholders.length_eq, sameUnit_perm hholders hmembers]
  have hsplit : Split lower members holders = Split lower members' holders' := by
    unfold Split
    simp only [hholders.mem_iff, sameUnit_perm hholders hmembers]
  unfold judge
  rw [hcoupled, hsplit, hholders.length_eq]
  simp only [hholders.mem_iff]

end Orders

def blocks (units : List (List Holder)) : Set (Set Holder) :=
  {block | ∃ unit ∈ units, block = {a | a ∈ unit}}

theorem blocks_units (hnodup : holders.Nodup) :
    blocks (units lower holders members) =
      {block | ∃ a ∈ holders, block = {b | b ∈ holders ∧ SameUnit lower members holders a b}} := by
  ext block
  constructor
  · rintro ⟨unit, hunit, rfl⟩
    obtain ⟨a, ha⟩ := List.exists_mem_of_ne_nil _ (unit_ne_nil hnodup hunit)
    exact ⟨a, mem_holders_of_unit hnodup hunit ha, Set.ext (mem_unit hnodup hunit ha)⟩
  · rintro ⟨a, ha, rfl⟩
    obtain ⟨unit, hunit, hau⟩ := @exists_unit lower members holders hnodup a ha
    exact ⟨unit, hunit, (Set.ext (mem_unit hnodup hunit hau)).symm⟩

theorem nodup_of_servers (h : (holders.map fun x => x.member.serverId).Nodup) : holders.Nodup :=
  h.of_map _

theorem apart_of_safe (hsafe : judge lower members holders ∈ safeVerdicts) (ha : a ∈ holders)
    (hb : b ∈ holders) (hab : a ≠ b) :
    paired lower a b members = true ∨
      ∃ ra rb, a.ranges = some ra ∧ b.ranges = some rb ∧ ¬ Share ra rb := by
  unfold judge at hsafe
  split at hsafe
  next hlength =>
    rw [List.length_eq_zero_iff.mp hlength] at ha
    cases ha
  next =>
    split at hsafe
    next hlength =>
      obtain ⟨only, rfl⟩ := List.length_eq_one_iff.mp hlength
      rw [List.mem_singleton.mp ha, List.mem_singleton.mp hb] at hab
      exact absurd rfl hab
    next =>
      split at hsafe
      next hcoupled => exact .inl (paired_of_sameUnit (hcoupled.2 a ha b hb) hab)
      next =>
        split at hsafe
        next => exact absurd hsafe (by decide)
        next =>
          split at hsafe
          next hsplit =>
            by_cases hsame : SameUnit lower members holders a b
            · exact .inl (paired_of_sameUnit hsame hab)
            · obtain ⟨ra, hra⟩ := Option.ne_none_iff_exists'.mp (hsplit.1 a ha)
              obtain ⟨rb, hrb⟩ := Option.ne_none_iff_exists'.mp (hsplit.1 b hb)
              exact .inr ⟨ra, rb, hra, hrb, hsplit.2 a ha b hb hsame ra rb hra hrb⟩
          next => exact absurd hsafe (by decide)

/-- What `uncoordinated` says of the ranges of two holders. -/
def Clash (a b : Holder) : Prop :=
  a.ranges = none ∨ b.ranges = none ∨ ∃ ra rb, a.ranges = some ra ∧ b.ranges = some rb ∧ Share ra rb

theorem exists_other_unit (hnodup : holders.Nodup) (hlength : 2 ≤ holders.length)
    (hcoupled : ¬ Coupled lower members holders) (ha : a ∈ holders) :
    ∃ b ∈ holders, ¬ SameUnit lower members holders a b := by
  by_contra hnone
  push Not at hnone
  obtain ⟨unit, hunit, hau⟩ := @exists_unit lower members holders hnodup a ha
  have hmem : ∀ b ∈ holders, b ∈ unit := fun b hb =>
    (mem_unit hnodup hunit hau b).mpr ⟨hb, hnone b hb⟩
  have hle := (hnodup.subperm hmem).length_le
  refine hcoupled ⟨Nat.le_antisymm (Nat.le_trans hle (unit_length_le hnodup hunit)) hlength, ?_⟩
  exact fun x hx y hy => ((mem_unit hnodup hunit (hmem x hx) y).mp (hmem y hy)).2

theorem clash_of_uncoordinated (hnodup : holders.Nodup)
    (h : judge lower members holders = .uncoordinated) :
    (∀ a ∈ holders, a.failoverKnown = true) ∧
      ∃ a ∈ holders, ∃ b ∈ holders, ¬ SameUnit lower members holders a b ∧ Clash a b := by
  unfold judge at h
  split at h
  next => cases h
  next hzero =>
    split at h
    next => split at h <;> cases h
    next hone =>
      split at h
      next => cases h
      next hcoupled =>
        split at h
        next => cases h
        next hknown =>
          split at h
          next => cases h
          next hsplit =>
            push Not at hknown
            refine ⟨fun a ha => Bool.of_not_eq_false (hknown a ha), ?_⟩
            have hlength : 2 ≤ holders.length := by omega
            rw [Split, not_and_or] at hsplit
            rcases hsplit with hnone | hshare
            · push Not at hnone
              obtain ⟨a, ha, hnone⟩ := hnone
              obtain ⟨b, hb, hother⟩ := exists_other_unit hnodup hlength hcoupled ha
              exact ⟨a, ha, b, hb, hother, .inl hnone⟩
            · push Not at hshare
              obtain ⟨a, ha, b, hb, hother, ra, rb, hra, hrb, hshare⟩ := hshare
              exact ⟨a, ha, b, hb, hother, .inr (.inr ⟨ra, rb, hra, hrb, hshare⟩)⟩

theorem judge_of_unknown (h : ∃ a ∈ holders, a.failoverKnown = false) :
    judge lower members holders ≠ .splitScope ∧ judge lower members holders ≠ .uncoordinated := by
  unfold judge
  rw [if_pos h]
  constructor <;> intro heq <;> split at heq <;> try cases heq
  all_goals
    split at heq
    next => split at heq <;> cases heq
    next => split at heq <;> cases heq

/-- A safe verdict leaves no address to two holders without a relationship between them, an
`uncoordinated` one names two that clash, an unknown failover state gives neither it nor a split
scope, and neither the verdict nor the partition depends on an order. -/
theorem classify_serving_sound (lower : String → String) (holders : List Holder)
    (members : List Member) (hservers : (holders.map fun a => a.member.serverId).Nodup) :
    ((classifyServing lower holders members).verdict ∈ safeVerdicts →
        ∀ a ∈ holders, ∀ b ∈ holders, a ≠ b → paired lower a b members = true ∨
          ∃ ra rb, a.ranges = some ra ∧ b.ranges = some rb ∧ ¬ Share ra rb) ∧
      ((classifyServing lower holders members).verdict = .uncoordinated →
        (∀ a ∈ holders, a.failoverKnown = true) ∧ ∃ a ∈ holders, ∃ b ∈ holders,
          (∀ unit ∈ (classifyServing lower holders members).units, a ∈ unit → b ∉ unit) ∧
            Clash a b) ∧
      ((∃ a ∈ holders, a.failoverKnown = false) →
        (classifyServing lower holders members).verdict ≠ .splitScope ∧
          (classifyServing lower holders members).verdict ≠ .uncoordinated) ∧
      (∀ holders' members', holders.Perm holders' → members.Perm members' →
        (classifyServing lower holders members).verdict =
            (classifyServing lower holders' members').verdict ∧
          blocks (classifyServing lower holders members).units =
            blocks (classifyServing lower holders' members').units) ∧
      ∀ startIp endIp exclusions ranges, effectiveRanges startIp endIp exclusions = some ranges →
        ∃ lo hi, ipInt startIp = some lo ∧ ipInt endIp = some hi ∧
          ∀ x, Spans.Holds ranges.val x ↔ (lo ≤ x ∧ x ≤ hi) ∧ NotExcluded exclusions x := by
  have hnodup := nodup_of_servers hservers
  rw [verdict_eq hnodup, classify_units]
  refine ⟨fun hsafe a ha b hb hab => apart_of_safe hsafe ha hb hab, fun h => ?_,
    judge_of_unknown, fun holders' members' hholders hmembers => ?_,
    fun _ _ _ _ => holds_effectiveRanges⟩
  · obtain ⟨hknown, a, ha, b, hb, hother, hclash⟩ := clash_of_uncoordinated hnodup h
    refine ⟨hknown, a, ha, b, hb, fun unit hunit hau hbu => ?_, hclash⟩
    exact hother ((mem_unit hnodup hunit hau b).mp hbu).2
  · have hnodup' := hholders.nodup_iff.mp hnodup
    rw [verdict_eq hnodup', classify_units, blocks_units hnodup, blocks_units hnodup',
      judge_perm hholders hmembers, sameUnit_perm hholders hmembers]
    simp only [hholders.mem_iff, true_and]

/-- A member that holds a scope from `10.0.0.10` to `10.0.0.200`, without what is excluded. -/
def holderOf (serverId : ℕ) (name : String) (relationship : Option Relationship)
    (exclusions : List (List (List Char))) : Holder :=
  ⟨⟨serverId, name, name ++ ".example.com"⟩, some true, relationship, true, none,
    effectiveRanges "10.0.0.10".toList "10.0.0.200".toList exclusions, none⟩

def first : Holder :=
  holderOf 1 "a" (some ⟨some "pair", some "B.example.com.", none, none⟩)
    [["10.0.0.100".toList, "10.0.0.200".toList]]

def second : Holder :=
  holderOf 2 "b" (some ⟨some "pair", some "a", none, none⟩)
    [["10.0.0.100".toList, "10.0.0.200".toList]]

def third : Holder := holderOf 3 "c" none [["10.0.0.10".toList, "10.0.0.99".toList]]

/-- A pair and a third server that has the rest of the range. -/
theorem classify_serving_sound_pairAndThird :
    paired Text.asciiLower first third [first.member, second.member, third.member] = true ∨
      ∃ ra rb, first.ranges = some ra ∧ third.ranges = some rb ∧ ¬ Share ra rb := by
  have hservers : ([first, second, third].map fun a => a.member.serverId).Nodup := by decide
  have hsound := classify_serving_sound Text.asciiLower [first, second, third]
    [first.member, second.member, third.member] hservers
  have hthird : third ∈ [first, second, third] :=
    List.mem_cons_of_mem _ (List.mem_cons_of_mem _ List.mem_cons_self)
  have hne : first ≠ third := fun h =>
    absurd (congrArg (fun a : Holder => a.member.serverId) h) (by decide)
  exact hsound.1 (by decide +kernel) first List.mem_cons_self third hthird hne

end SpatiumDdi.Dhcp.WindowsFailover
