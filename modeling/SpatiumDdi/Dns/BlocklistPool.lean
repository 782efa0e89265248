import SpatiumDdi.Dns.BlocklistExceptions

/-!
Which names the exceptions of a zone are: the operator's, and those of a feed that no other list
blocks, or blocks a name under.
-/

namespace SpatiumDdi.Dns.Blocklist

variable {Id : Type} [DecidableEq Id]

def Exempts (T : Tables Id) (lists : List Id) (source : Source) (n : Name) : Prop :=
  ∃ bl ∈ lists, T.enabled bl = true ∧ { domain := n, source := source } ∈ T.exceptions bl

/-- A wildcard of the list is above the name, and no other list that is on has an entry at the name
or under it, or a wildcard above it. -/
def CarvesOwn (T : Tables Id) (lists : List Id) (bl : Id) (n : Name) : Prop :=
  (∃ e ∈ T.entries bl, e.isWildcard = true ∧ e.domain ∈ ancestors n) ∧
    ∀ other ∈ lists, T.enabled other = true → other ≠ bl → ∀ e ∈ T.entries other,
      e.domain ≠ n ∧ (e.isWildcard = true → e.domain ∉ ancestors n) ∧ n ∉ ancestors e.domain

structure Canonical (lower : Name → Name) (T : Tables Id) : Prop where
  entries : ∀ bl, ∀ e ∈ T.entries bl, lower e.domain = e.domain
  exceptions : ∀ bl, ∀ x ∈ T.exceptions bl,
    lower x.domain = x.domain ∧ Text.rstripDotsChars x.domain = x.domain

variable {lower : Name → Name} {T : Tables Id} (hcanonical : Canonical lower T)
include hcanonical

variable {bl : Id} {n : Name}

omit [DecidableEq Id] in
theorem mem_feedNames :
    n ∈ feedNames lower T bl ↔ { domain := n, source := .feed } ∈ T.exceptions bl := by
  unfold feedNames
  simp only [List.mem_map, List.mem_filter, decide_eq_true_eq]
  constructor
  · rintro ⟨⟨d, source⟩, ⟨hx, rfl⟩, rfl⟩
    obtain ⟨hlower, hdots⟩ := hcanonical.exceptions bl _ hx
    rw [hlower, hdots]
    exact hx
  · intro hx
    obtain ⟨hlower, hdots⟩ := hcanonical.exceptions bl _ hx
    refine ⟨_, ⟨hx, rfl⟩, ?_⟩
    rw [hlower, hdots]

omit [DecidableEq Id] in
theorem mem_candidates {feed : Id → List Name} :
    n ∈ candidates lower T feed bl ↔
      n ∈ feed bl ∧ ∃ e ∈ T.entries bl, e.isWildcard = true ∧ e.domain ∈ ancestors n := by
  unfold candidates
  simp only [List.mem_filter, List.any_eq_true, List.contains_eq_mem, decide_eq_true_eq,
    List.mem_map, Bool.and_eq_true]
  refine and_congr_right fun hn => ?_
  constructor
  · rintro ⟨_, ha, e, ⟨he, hwild, -⟩, rfl⟩
    rw [hcanonical.entries bl e he] at ha
    exact ⟨e, he, hwild, ha⟩
  · rintro ⟨e, he, hwild, ha⟩
    exact ⟨e.domain, ha, e, ⟨he, hwild, List.mem_flatMap.2 ⟨n, hn, ha⟩⟩,
      hcanonical.entries bl e he⟩

theorem mem_carvedNames {enabled : List Id} {names : List Name} :
    n ∈ carvedNames lower T enabled names bl ↔
      n ∈ names ∧ ∀ other ∈ enabled, other ≠ bl → ∀ e ∈ T.entries other,
        e.domain ≠ n ∧ (e.isWildcard = true → e.domain ∉ ancestors n) ∧ n ∉ ancestors e.domain := by
  unfold carvedNames
  dsimp only
  have hmem : ∀ e, e ∈ (enabled.filter fun other => other ≠ bl).flatMap T.entries ↔
      ∃ other ∈ enabled, other ≠ bl ∧ e ∈ T.entries other := by
    intro e
    simp [and_assoc]
  have hlower : ∀ e ∈ (enabled.filter fun other => other ≠ bl).flatMap T.entries,
      lower e.domain = e.domain := by
    intro e he
    obtain ⟨other, -, -, he⟩ := (hmem e).1 he
    exact hcanonical.entries other e he
  split_ifs with hempty
  · refine ⟨fun hn => ⟨hn, ?_⟩, fun h => h.1⟩
    intro other hother hne
    have hmem' : other ∈ enabled.filter fun other => other ≠ bl :=
      List.mem_filter.2 ⟨hother, decide_eq_true hne⟩
    rw [List.isEmpty_iff.1 hempty] at hmem'
    cases hmem'
  · have hsplit : (∀ other ∈ enabled, other ≠ bl → ∀ e ∈ T.entries other,
        e.domain ≠ n ∧ (e.isWildcard = true → e.domain ∉ ancestors n) ∧
          n ∉ ancestors e.domain) ↔
        ∀ e ∈ (enabled.filter fun other => other ≠ bl).flatMap T.entries,
          e.domain ≠ n ∧ (e.isWildcard = true → e.domain ∉ ancestors n) ∧
            n ∉ ancestors e.domain := by
      constructor
      · intro h e he
        obtain ⟨other, hother, hne, he⟩ := (hmem e).1 he
        exact h other hother hne e he
      · intro h other hother hne e he
        exact h e ((hmem e).2 ⟨other, hother, hne, he⟩)
    rw [hsplit]
    generalize (enabled.filter fun other => other ≠ bl).flatMap T.entries = entries at hlower
    simp only [List.mem_filter, Bool.and_eq_true, Bool.not_eq_true', List.any_eq_false,
      List.contains_eq_mem, decide_eq_true_eq, decide_eq_false_iff_not, List.mem_map, not_exists,
      not_and, List.any_eq_true, List.mem_append, List.mem_flatMap, List.isSuffixOf_iff_suffix]
    constructor
    · rintro ⟨⟨hn, hexact, hwild⟩, hunder⟩
      refine ⟨hn, fun e he => ⟨?_, ?_, ?_⟩⟩
      · intro heq
        exact hexact e ⟨he, .inl (heq ▸ hn)⟩ ((hlower e he).trans heq)
      · intro hw ha
        exact hwild e.domain ha e ⟨⟨he, .inr ⟨n, hn, ha⟩⟩, hw⟩ (hlower e he)
      · intro ha
        refine hunder e.domain ⟨e, ⟨he, underPattern n, ⟨n, ⟨hn, hexact, hwild⟩, rfl⟩,
          like_underPattern.2 ha⟩, hlower e he⟩ ?_
        obtain ⟨lead, hlead⟩ := mem_ancestors.1 ha
        exact ⟨lead, hlead.symm⟩
    · rintro ⟨hn, h⟩
      refine ⟨⟨hn, ?_, ?_⟩, ?_⟩
      · rintro e ⟨he, -⟩ heq
        exact (h e he).1 ((hlower e he).symm.trans heq)
      · rintro a ha e ⟨⟨he, -⟩, hw⟩ heq
        rw [hlower e he] at heq
        exact (h e he).2.1 hw (heq ▸ ha)
      · rintro u ⟨e, ⟨he, -⟩, heq⟩ ⟨lead, hlead⟩
        rw [hlower e he] at heq
        exact (h e he).2.2 (mem_ancestors.2 ⟨lead, heq.trans hlead.symm⟩)

theorem mem_exceptionDomains {lists : List Id} :
    n ∈ exceptionDomains lower T lists ↔
      Exempts T lists .manual n ∨
        ∃ bl ∈ lists, T.enabled bl = true ∧ { domain := n, source := .feed } ∈ T.exceptions bl ∧
          CarvesOwn T lists bl n := by
  unfold exceptionDomains pooledFeedExceptions
  rw [List.mem_append]
  refine or_congr ?_ ?_
  · simp only [List.mem_map, List.mem_filter, List.mem_flatMap, decide_eq_true_eq]
    constructor
    · rintro ⟨⟨d, source⟩, ⟨⟨bl, ⟨hbl, hon⟩, hx⟩, hsource⟩, rfl⟩
      have hmanual : source = .manual := by
        cases source with
        | manual => rfl
        | feed => exact absurd rfl hsource
      subst hmanual
      rw [(hcanonical.exceptions bl _ hx).1]
      exact ⟨bl, hbl, hon, hx⟩
    · rintro ⟨bl, hbl, hon, hx⟩
      exact ⟨_, ⟨⟨bl, ⟨hbl, hon⟩, hx⟩, by simp⟩, (hcanonical.exceptions bl _ hx).1⟩
  · rw [List.mem_flatMap]
    simp only [mem_carvedNames hcanonical, mem_candidates hcanonical, mem_feedNames hcanonical,
      List.mem_filter, CarvesOwn]
    constructor
    · rintro ⟨bl, ⟨hbl, hon⟩, ⟨hx, hown⟩, hothers⟩
      exact ⟨bl, hbl, hon, hx, hown, fun other hother hon' => hothers other ⟨hother, hon'⟩⟩
    · rintro ⟨bl, hbl, hon, hx, hown, hothers⟩
      exact ⟨bl, ⟨hbl, hon⟩, ⟨hx, hown⟩, fun other hother => hothers other hother.1 hother.2⟩

end SpatiumDdi.Dns.Blocklist
