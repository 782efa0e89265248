import SpatiumDdi.Dns.BlocklistPool

/-!
What a feed's exceptions open. A zone is read as BIND serves it and as Technitium does
(`agent/dns/spatium_dns_agent/drivers`): RPZ owners of which the closest decides, and flat sets of
blocked and allowed names that take every name under them along.
-/

namespace SpatiumDdi.Dns.Blocklist

variable {Id : Type} [DecidableEq Id]

def covers (n x : Name) : Bool := x = n || (ancestors x).contains n

/-- What the owner `d` says, and the owner `*.d`. An entry equal to an exception is dropped. -/
def ownerBlocks (zone : List Entry × List Name) (d : Name) : Option Bool :=
  if zone.2.contains d then some false
  else if zone.1.any fun e => e.domain = d then some true else none

def wildcardBlocks (zone : List Entry × List Name) (d : Name) : Option Bool :=
  if zone.2.contains d then some false
  else if zone.1.any fun e => e.domain = d && e.isWildcard then some true else none

/-- Whether BIND blocks a name: the closest owner decides, and none lets it pass. -/
def bindBlocks (zone : List Entry × List Name) (x : Name) : Bool :=
  ((ownerBlocks zone x).or ((ancestors x).findSome? (wildcardBlocks zone))).getD false

/-- Whether Technitium blocks a name. An entry blocks what is under it, wildcard or not
(`_blocking_payload`), and an exception allows it. -/
def technitiumBlocks (zone : List Entry × List Name) (x : Name) : Bool :=
  (zone.1.any fun e => covers e.domain x) && !zone.2.any fun n => covers n x

/-- What blocks a name without a list blocks it with the list too, or the list has an operator's
exception for the name. -/
def Keeps (blocks : List Entry × List Name → Name → Bool) (lower : Name → Name) (T : Tables Id)
    (lists : List Id) (bl : Id) : Prop :=
  ∀ x, blocks (collectLists lower T (lists.filter fun other => other ≠ bl)) x = true →
    blocks (collectLists lower T lists) x = true ∨
      ∃ n, { domain := n, source := .manual } ∈ T.exceptions bl ∧ covers n x = true

structure CarvesOutOwn (lower : Name → Name) (T : Tables Id) (lists : List Id) (bl : Id) :
    Prop where
  bind : Keeps bindBlocks lower T lists bl
  technitium : Keeps technitiumBlocks lower T lists bl
  pooled : ∀ n, n ∈ exceptionDomains lower T lists ↔
    Exempts T lists .manual n ∨
      ∃ feed ∈ lists, T.enabled feed = true ∧
        { domain := n, source := .feed } ∈ T.exceptions feed ∧ CarvesOwn T lists feed n

/-- No other list has an entry above a name that the feed carves out, unless an operator's exception
covers the name. -/
def NothingAbove (T : Tables Id) (lists : List Id) (bl : Id) : Prop :=
  ∀ n, { domain := n, source := .feed } ∈ T.exceptions bl → CarvesOwn T lists bl n →
    (∃ m, Exempts T lists .manual m ∧ covers m n = true) ∨
      ∀ other ∈ lists, T.enabled other = true → other ≠ bl → ∀ e ∈ T.entries other,
        e.domain ∉ ancestors n

variable {n x : Name}

theorem covers_iff : covers n x = true ↔ n ∈ x :: ancestors x := by
  rw [covers, Bool.or_eq_true, decide_eq_true_eq, List.contains_iff_mem, List.mem_cons, eq_comm]

theorem covers_trans {m : Name} (hm : covers m n = true) (hn : covers n x = true) :
    covers m x = true := by
  rw [covers_iff, List.mem_cons] at *
  rcases hn with rfl | hn
  · exact hm
  · rcases hm with rfl | hm
    · exact .inr hn
    · exact .inr (ancestors_trans hm hn)

section
variable {lower : Name → Name} {T : Tables Id} (hcanonical : Canonical lower T) {lists : List Id}
  {bl : Id}
include hcanonical

variable {e : Entry}

omit [DecidableEq Id] in
theorem mem_entries [DecidableEq Id] {lists : List Id} :
    e ∈ (collectLists lower T lists).1 ↔
      ∃ other ∈ lists, T.enabled other = true ∧ e ∈ T.entries other := by
  simp only [collectLists, List.mem_flatMap, List.mem_filter, List.mem_map]
  constructor
  · rintro ⟨other, ⟨hother, hon⟩, e, he, rfl⟩
    rw [hcanonical.entries other e he]
    exact ⟨other, hother, hon, he⟩
  · rintro ⟨other, hother, hon, he⟩
    exact ⟨other, ⟨hother, hon⟩, e, he, by rw [hcanonical.entries other e he]⟩

theorem mem_entries_without :
    e ∈ (collectLists lower T (lists.filter fun other => other ≠ bl)).1 ↔
      ∃ other ∈ lists, other ≠ bl ∧ T.enabled other = true ∧ e ∈ T.entries other := by
  simp only [mem_entries hcanonical, List.mem_filter, decide_eq_true_eq, and_assoc]

theorem entries_subset (he : e ∈ (collectLists lower T (lists.filter fun other => other ≠ bl)).1) :
    e ∈ (collectLists lower T lists).1 := by
  obtain ⟨other, hother, -, hon, he⟩ := (mem_entries_without hcanonical).1 he
  exact (mem_entries hcanonical).2 ⟨other, hother, hon, he⟩

theorem exception_cases (bl : Id) (hn : n ∈ exceptionDomains lower T lists) :
    n ∈ exceptionDomains lower T (lists.filter fun other => other ≠ bl) ∨
      { domain := n, source := .manual } ∈ T.exceptions bl ∨
      { domain := n, source := .feed } ∈ T.exceptions bl ∧ CarvesOwn T lists bl n := by
  rcases (mem_exceptionDomains hcanonical).1 hn with ⟨other, hother, hon, hx⟩ | hfeed
  · by_cases hne : other = bl
    · exact .inr (.inl (hne ▸ hx))
    · exact .inl ((mem_exceptionDomains hcanonical).2
        (.inl ⟨other, List.mem_filter.2 ⟨hother, decide_eq_true hne⟩, hon, hx⟩))
  · obtain ⟨other, hother, hon, hx, hcarves⟩ := hfeed
    by_cases hne : other = bl
    · exact .inr (.inr ⟨hne ▸ hx, hne ▸ hcarves⟩)
    · refine .inl ((mem_exceptionDomains hcanonical).2 (.inr ⟨other,
        List.mem_filter.2 ⟨hother, decide_eq_true hne⟩, hon, hx, hcarves.1, ?_⟩))
      intro third hthird
      exact hcarves.2 third (List.mem_filter.1 hthird).1

theorem CarvesOwn.apart (h : CarvesOwn T lists bl n)
    (he : e ∈ (collectLists lower T (lists.filter fun other => other ≠ bl)).1) :
    e.domain ≠ n ∧ (e.isWildcard = true → e.domain ∉ ancestors n) ∧ n ∉ ancestors e.domain := by
  obtain ⟨other, hother, hne, hon, he⟩ := (mem_entries_without hcanonical).1 he
  exact h.2 other hother hon hne e he

variable {d a : Name} {zone : List Entry × List Name} {before after : List Name}

omit hcanonical [DecidableEq Id] in
theorem ownerBlocks_true :
    ownerBlocks zone d = some true ↔ d ∉ zone.2 ∧ ∃ e ∈ zone.1, e.domain = d := by
  unfold ownerBlocks
  cases hexcept : zone.2.contains d <;> cases hentry : (zone.1.any fun e => e.domain = d) <;>
    simp_all

omit hcanonical [DecidableEq Id] in
theorem ownerBlocks_false : ownerBlocks zone d = some false ↔ d ∈ zone.2 := by
  unfold ownerBlocks
  cases hexcept : zone.2.contains d <;> cases hentry : (zone.1.any fun e => e.domain = d) <;>
    simp_all

omit hcanonical [DecidableEq Id] in
theorem wildcardBlocks_true :
    wildcardBlocks zone d = some true ↔
      d ∉ zone.2 ∧ ∃ e ∈ zone.1, e.domain = d ∧ e.isWildcard = true := by
  unfold wildcardBlocks
  cases hexcept : zone.2.contains d <;>
    cases hentry : (zone.1.any fun e => e.domain = d && e.isWildcard) <;> simp_all

omit hcanonical [DecidableEq Id] in
theorem wildcardBlocks_false : wildcardBlocks zone d = some false ↔ d ∈ zone.2 := by
  unfold wildcardBlocks
  cases hexcept : zone.2.contains d <;>
    cases hentry : (zone.1.any fun e => e.domain = d && e.isWildcard) <;> simp_all

omit hcanonical [DecidableEq Id] in
theorem findSome?_of_closest {f : Name → Option Bool} (hbefore : ∀ b ∈ before, f b ≠ some false)
    (ha : f a = some true) : (before ++ a :: after).findSome? f = some true := by
  induction before with
  | nil => simp [ha]
  | cons b before ih =>
    have hb := hbefore b List.mem_cons_self
    have hrest := ih fun c hc => hbefore c (List.mem_cons_of_mem _ hc)
    rw [List.cons_append, List.findSome?_cons]
    cases hfb : f b with
    | none => exact hrest
    | some verdict =>
      cases verdict with
      | true => rfl
      | false => exact absurd hfb hb

omit hcanonical [DecidableEq Id] in
theorem bindBlocks_cases (hblocks : bindBlocks zone x = true) :
    ownerBlocks zone x = some true ∨
      ownerBlocks zone x = none ∧ ∃ before a after, ancestors x = before ++ a :: after ∧
        wildcardBlocks zone a = some true ∧ ∀ b ∈ before, wildcardBlocks zone b = none := by
  unfold bindBlocks at hblocks
  cases howner : ownerBlocks zone x with
  | some verdict =>
    simp only [howner, Option.some_or, Option.getD_some] at hblocks
    exact .inl (by rw [hblocks])
  | none =>
    simp only [howner, Option.none_or] at hblocks
    cases hfind : (ancestors x).findSome? (wildcardBlocks zone) with
    | none => simp [hfind] at hblocks
    | some verdict =>
      rw [hfind, Option.getD_some] at hblocks
      subst hblocks
      exact .inr ⟨rfl, List.findSome?_eq_some_iff.1 hfind⟩

omit hcanonical [DecidableEq Id] in
theorem bindBlocks_of_closest (howner : x ∉ zone.2)
    (hancestors : ancestors x = before ++ a :: after) (ha : wildcardBlocks zone a = some true)
    (hbefore : ∀ b ∈ before, b ∉ zone.2) : bindBlocks zone x = true := by
  have hclosest : (ancestors x).findSome? (wildcardBlocks zone) = some true := by
    rw [hancestors]
    exact findSome?_of_closest (fun b hb h => hbefore b hb (wildcardBlocks_false.1 h)) ha
  unfold bindBlocks
  cases hx : ownerBlocks zone x with
  | none => rw [hclosest]; rfl
  | some verdict =>
    cases verdict with
    | true => rfl
    | false => exact absurd (ownerBlocks_false.1 hx) howner

theorem bind_keeps : Keeps bindBlocks lower T lists bl := by
  intro x hblocks
  by_cases hmanual : ∃ n, { domain := n, source := .manual } ∈ T.exceptions bl ∧ covers n x = true
  · exact .inr hmanual
  · refine .inl ?_
    set without := collectLists lower T (lists.filter fun other => other ≠ bl)
    -- An exception at the name or above it is no new one, or the feed carves it out.
    have hnew : ∀ b ∈ x :: ancestors x, b ∉ without.2 → b ∈ (collectLists lower T lists).2 →
        CarvesOwn T lists bl b := by
      intro b hb hnot hexcept
      rcases exception_cases hcanonical bl hexcept with h | h | h
      · exact absurd h hnot
      · exact absurd ⟨b, h, covers_iff.2 hb⟩ hmanual
      · exact h.2
    rcases bindBlocks_cases hblocks with howner | hclosest
    · obtain ⟨hnot, e, he, hdomain⟩ := ownerBlocks_true.1 howner
      have hall : ownerBlocks (collectLists lower T lists) x = some true := by
        refine ownerBlocks_true.2 ⟨?_, e, entries_subset hcanonical he, hdomain⟩
        intro hx
        exact ((hnew x List.mem_cons_self hnot hx).apart hcanonical he).1 hdomain
      rw [bindBlocks, hall]
      rfl
    · obtain ⟨howner, before, a, after, hancestors, ha, hbefore⟩ := hclosest
      obtain ⟨hnot, e, he, rfl, hwild⟩ := wildcardBlocks_true.1 ha
      have hmem : e.domain ∈ ancestors x := by simp [hancestors]
      have hpairwise := pairwise_ancestors x
      rw [hancestors, List.pairwise_append] at hpairwise
      refine bindBlocks_of_closest ?_ hancestors
        (wildcardBlocks_true.2 ⟨?_, e, entries_subset hcanonical he, rfl, hwild⟩) ?_
      · intro hx
        have hnot' : x ∉ without.2 := fun h => by simp [ownerBlocks_false.2 h] at howner
        exact ((hnew x List.mem_cons_self hnot' hx).apart hcanonical he).2.1 hwild hmem
      · intro hx
        exact ((hnew _ (List.mem_cons_of_mem _ hmem) hnot hx).apart hcanonical he).1 rfl
      · intro b hb hx
        have hnot' : b ∉ without.2 := fun h => by
          simpa [wildcardBlocks_false.2 h] using hbefore b hb
        have hcarves := hnew b (by simp [hancestors, hb]) hnot' hx
        exact (hcarves.apart hcanonical he).2.1 hwild
          (hpairwise.2.2 b hb e.domain List.mem_cons_self)

omit hcanonical [DecidableEq Id] in
theorem technitiumBlocks_iff :
    technitiumBlocks zone x = true ↔
      (∃ e ∈ zone.1, covers e.domain x = true) ∧ ∀ n ∈ zone.2, covers n x = false := by
  simp [technitiumBlocks]

theorem technitium_keeps_iff (hbl : bl ∈ lists) (hon : T.enabled bl = true) :
    Keeps technitiumBlocks lower T lists bl ↔ NothingAbove T lists bl := by
  constructor
  · intro hkeeps n hfeed hcarves
    by_contra hnot
    rw [not_or] at hnot
    obtain ⟨hmanual, habove⟩ := hnot
    obtain ⟨other, hother, hon', hne, e, he, hdomain⟩ :
        ∃ other ∈ lists, T.enabled other = true ∧ other ≠ bl ∧ ∃ e ∈ T.entries other,
          e.domain ∈ ancestors n := by
      by_contra hnone
      exact habove fun other hother hon' hne e he hdomain =>
        hnone ⟨other, hother, hon', hne, e, he, hdomain⟩
    have hin : e ∈ (collectLists lower T (lists.filter fun other => other ≠ bl)).1 :=
      (mem_entries_without hcanonical).2 ⟨other, hother, hne, hon', he⟩
    -- Nothing the other lists except covers the name.
    have hblocks : technitiumBlocks
        (collectLists lower T (lists.filter fun other => other ≠ bl)) n = true := by
      refine technitiumBlocks_iff.2 ⟨⟨e, hin, covers_iff.2 (List.mem_cons_of_mem _ hdomain)⟩, ?_⟩
      intro m hm
      rw [Bool.eq_false_iff]
      intro hcovers
      rcases (mem_exceptionDomains hcanonical).1 hm with ⟨third, hthird, hx⟩ | hpooled
      · exact hmanual ⟨m, ⟨third, (List.mem_filter.1 hthird).1, hx⟩, hcovers⟩
      · obtain ⟨third, hthird, hon'', -, ⟨w, hw, hwild, hover⟩, -⟩ := hpooled
        obtain ⟨hthird, hne'⟩ := List.mem_filter.1 hthird
        have hwildcard : w.domain ∈ ancestors n := by
          rcases List.mem_cons.1 (covers_iff.1 hcovers) with rfl | hm
          · exact hover
          · exact ancestors_trans hover hm
        exact (hcarves.2 third hthird hon'' (by simpa using hne') w hw).2.1 hwild hwildcard
    rcases hkeeps n hblocks with hall | ⟨m, hm, hcovers⟩
    · have hexcept : n ∈ (collectLists lower T lists).2 :=
        (mem_exceptionDomains hcanonical).2 (.inr ⟨bl, hbl, hon, hfeed, hcarves⟩)
      have hself := (technitiumBlocks_iff.1 hall).2 n hexcept
      simp [covers] at hself
    · exact hmanual ⟨m, ⟨bl, hbl, hon, hm⟩, hcovers⟩
  · intro hclear x hblocks
    by_cases hmanual : ∃ n, { domain := n, source := .manual } ∈ T.exceptions bl ∧ covers n x = true
    · exact .inr hmanual
    · refine .inl (technitiumBlocks_iff.2 ?_)
      obtain ⟨⟨e, he, hcovers⟩, hexcept⟩ := technitiumBlocks_iff.1 hblocks
      refine ⟨⟨e, entries_subset hcanonical he, hcovers⟩, ?_⟩
      intro n hn
      rw [Bool.eq_false_iff]
      intro hcovers'
      rcases exception_cases hcanonical bl hn with h | h | ⟨hfeed, hcarves⟩
      · rw [hexcept n h] at hcovers'
        cases hcovers'
      · exact hmanual ⟨n, h, hcovers'⟩
      · obtain ⟨hne, -, hunder⟩ := hcarves.apart hcanonical he
        have hchain := covers_chain (covers_iff.1 hcovers) (covers_iff.1 hcovers')
        rcases hchain with heq | hbelow | habove
        · exact hne heq
        · exact hunder hbelow
        · rcases hclear n hfeed hcarves with ⟨m, ⟨third, hthird, hon', hm⟩, hmn⟩ | hnothing
          · have hmx := covers_trans hmn hcovers'
            by_cases hthird' : third = bl
            · exact hmanual ⟨m, hthird' ▸ hm, hmx⟩
            · have hin : m ∈ exceptionDomains lower T (lists.filter fun other => other ≠ bl) :=
                (mem_exceptionDomains hcanonical).2
                  (.inl ⟨third, List.mem_filter.2 ⟨hthird, decide_eq_true hthird'⟩, hon', hm⟩)
              rw [hexcept m hin] at hmx
              cases hmx
          · obtain ⟨other, hother, hne', hon', he⟩ := (mem_entries_without hcanonical).1 he
            exact hnothing other hother hon' hne' e he habove

end

/-- A feed carves out of its own blocks only, exactly where no other list has an entry above a name
that it carves out. -/
theorem carves_out_own_iff {lower : Name → Name} {T : Tables Id} (hcanonical : Canonical lower T)
    {lists : List Id} {bl : Id} (hbl : bl ∈ lists) (hon : T.enabled bl = true) :
    CarvesOutOwn lower T lists bl ↔ NothingAbove T lists bl := by
  constructor
  · intro h
    exact (technitium_keeps_iff hcanonical hbl hon).1 h.technitium
  · intro h
    exact ⟨bind_keeps hcanonical, (technitium_keeps_iff hcanonical hbl hon).2 h,
      fun n => mem_exceptionDomains hcanonical⟩

/-- A feed blocks everything under `p` but `n.p`, and another list has `p` itself. -/
def exactAbove : Tables ℕ where
  enabled _ := true
  entries
    | 0 => [{ domain := ['p'], isWildcard := true }]
    | _ => [{ domain := ['p'], isWildcard := false }]
  exceptions
    | 0 => [{ domain := ['n', '.', 'p'], source := .feed }]
    | _ => []

/-- On Technitium the other list alone blocks `n.p`, and with the feed nothing does. -/
theorem not_carves_out_own_exactAbove : ¬ CarvesOutOwn id exactAbove [0, 1] 0 := by
  intro h
  rcases h.technitium ['n', '.', 'p'] (by decide) with hblocks | ⟨n, hn, -⟩
  · revert hblocks
    decide
  · simp [exactAbove] at hn

/-- A feed and its carve-out with no other list. -/
theorem carves_out_own_alone : CarvesOutOwn id exactAbove [0] 0 := by
  refine (carves_out_own_iff ⟨fun _ _ _ => rfl, ?_⟩ (by decide) rfl).2 ?_
  · intro bl x hx
    refine ⟨rfl, ?_⟩
    cases bl with
    | zero =>
      rw [List.mem_singleton.1 hx]
      decide
    | succ bl => cases hx
  · intro n _ _
    refine .inr fun other hother _ hne => ?_
    exact absurd (List.mem_singleton.1 hother) hne

end SpatiumDdi.Dns.Blocklist
