import Mathlib.Data.Fintype.EquivFin
import SpatiumDdi.Auth.Permissions
import SpatiumDdi.Lib.Authority

/-!
Introspected grants against enforced grants.

`effective_grants` intersects the RBAC triples with the token's grants as patterns,
`user_has_permission` evaluates both on the request. Without a token the two agree. With
one, an RBAC triple is shown only when a token grant is at least as broad as it in action
and type, so what an RBAC entry and a narrower token grant allow together is enforced
and may be missing from the list.
-/

namespace SpatiumDdi.Auth

/-- An action, a resource type and the id of one instance. -/
abbrev Request : Type := String × String × String

def Permission.Admits (p : Permission) (r : Request) : Prop :=
  p.allows r.1 r.2.1 (some r.2.2)

theorem exists_fresh (avoid : List String) : ∃ s, s ∉ avoid := by
  have hinj : Function.Injective fun n => String.ofList (List.replicate n 'x') := by
    intro m n h
    simpa using congrArg String.length h
  have : Infinite String := Infinite.of_injective _ hinj
  obtain ⟨s, hs⟩ := Infinite.exists_notMem_finset avoid.toFinset
  exact ⟨s, by simpa using hs⟩

def generic (fresh granted : String) : String := if granted = "*" then fresh else granted

theorem actionMatches_generic (fresh granted : String) :
    actionMatches granted (generic fresh granted) := by
  by_cases h : granted = "*" <;> simp [generic, h, actionMatches]

theorem resourceTypeMatches_generic (fresh granted : String) :
    resourceTypeMatches granted (generic fresh granted) := by
  by_cases h : granted = "*" <;> simp [generic, h, resourceTypeMatches]

variable {p fresh q g r : String}

theorem actionMatches_of_generic (hq : fresh ≠ q) (hadmin : fresh ∉ adminImplies)
    (h : actionMatches q (generic fresh p)) : actionMatches q p := by
  by_cases hp : p = "*"
  · simp only [generic, hp, if_true, actionMatches, Bool.or_eq_true, Bool.and_eq_true,
      beq_iff_eq, List.contains_iff_mem] at h ⊢
    grind
  · simpa [generic, hp] using h

theorem resourceTypeMatches_of_generic (hq : fresh ≠ q)
    (h : resourceTypeMatches q (generic fresh p)) : resourceTypeMatches q p := by
  by_cases hp : p = "*"
  · simp only [generic, hp, if_true, resourceTypeMatches, Bool.or_eq_true, beq_iff_eq] at h ⊢
    grind
  · simpa [generic, hp] using h

/-- The request that only patterns at least as broad as `p` allow. -/
def Permission.generic (p : Permission) (fresh : String) : Request :=
  (Auth.generic fresh p.action, Auth.generic fresh p.resourceType,
    p.resourceId.scope.getD fresh)

theorem Permission.admits_generic (p : Permission) (fresh : String) :
    p.Admits (p.generic fresh) := by
  refine Permission.allows_iff.mpr
    ⟨actionMatches_generic _ _, resourceTypeMatches_generic _ _, ?_⟩
  cases h : p.resourceId.isAny <;>
    simp [Permission.generic, resourceIdMatches_iff, ResourceId.scope, h]

theorem Permission.allows_of_generic {q p : Permission}
    (hfresh : fresh ∉ adminImplies ++ [q.action, q.resourceType, q.resourceId.text])
    (h : q.Admits (p.generic fresh)) : q.allows p.action p.resourceType p.resourceId.scope := by
  simp only [List.mem_append, List.mem_cons, List.not_mem_nil, or_false, not_or] at hfresh
  obtain ⟨hadmin, hqa, hqt, hqi⟩ := hfresh
  obtain ⟨haction, htype, hid⟩ := Permission.allows_iff.mp h
  refine Permission.allows_iff.mpr ⟨actionMatches_of_generic hqa hadmin haction,
    resourceTypeMatches_of_generic hqt htype, ?_⟩
  cases hscope : p.resourceId.scope with
  | some s => simpa [Permission.generic, hscope] using hid
  | none =>
    rcases resourceIdMatches_iff.mp hid with hany | heq
    · exact resourceIdMatches_iff.mpr (.inl hany)
    · simp only [Permission.generic, hscope, Option.getD_none, Option.some.injEq] at heq
      exact absurd heq hqi

theorem covers_iff {q p : Permission} : Authority.Covers Permission.Admits q p ↔
    q.allows p.action p.resourceType p.resourceId.scope := by
  constructor
  · intro hcov
    obtain ⟨fresh, hfresh⟩ :=
      exists_fresh (adminImplies ++ [q.action, q.resourceType, q.resourceId.text])
    exact Permission.allows_of_generic hfresh (hcov _ (p.admits_generic fresh))
  · intro h r hr
    exact Permission.allows_trans h hr

theorem exists_generic (qs : List Permission) (p : Permission) :
    ∃ r, Authority.Generic Permission.Admits qs p r := by
  obtain ⟨fresh, hfresh⟩ := exists_fresh
    (adminImplies ++ qs.flatMap fun q => [q.action, q.resourceType, q.resourceId.text])
  refine ⟨p.generic fresh, p.admits_generic fresh, fun q hq h => ?_⟩
  apply covers_iff.mpr
  refine Permission.allows_of_generic (fun hmem => ?_) h
  apply hfresh
  rcases List.mem_append.mp hmem with hadmin | hown
  · exact List.mem_append_left _ hadmin
  · exact List.mem_append_right _ (List.mem_flatMap.mpr ⟨q, hq, hown⟩)

theorem subset_iff {ps qs : List Permission} :
    (∀ r, (∃ p ∈ ps, p.Admits r) → ∃ q ∈ qs, q.Admits r) ↔
      ∀ p ∈ ps, ∃ q ∈ qs, q.allows p.action p.resourceType p.resourceId.scope := by
  rw [Authority.subset_iff_covers _ fun p _ => exists_generic qs p]
  simp only [covers_iff]

def overlapActions (p g : String) : List String :=
  if tokenActionMatches g p then [p]
  else if actionMatches p g then
    if g == "write" || g == "delete" then [g, "read"] else [g]
  else []

def overlapTypes (p g : String) : List String :=
  if resourceTypeMatches g p then [p]
  else if resourceTypeMatches p g then [g]
  else []

def overlapIds (p g : ResourceId) : List (Option String) :=
  if p.isAny then [g.scope]
  else if resourceIdMatches g p.scope then [p.scope]
  else []

/-- The patterns that together allow what both the entry and the token grant allow. -/
def overlaps (p g : Permission) : List Triple :=
  (overlapActions p.action g.action).flatMap fun action =>
    (overlapTypes p.resourceType g.resourceType).flatMap fun resourceType =>
      (overlapIds p.resourceId g.resourceId).map fun rid => ⟨action, resourceType, rid⟩

variable {a : String}

theorem exists_overlapActions :
    (∃ m ∈ overlapActions p g, actionMatches m a) ↔
      actionMatches p a ∧ tokenActionMatches g a := by
  constructor
  · rintro ⟨m, hm, ha⟩
    have hboth : actionMatches p m ∧ tokenActionMatches g m := by
      simp only [overlapActions] at hm
      split at hm
      · rename_i hg
        obtain rfl := List.mem_singleton.mp hm
        exact ⟨actionMatches_self m, hg⟩
      · split at hm
        · rename_i hp
          simp only [tokenActionMatches, actionMatches, adminImplies, Bool.or_eq_true,
            Bool.and_eq_true, beq_iff_eq, List.contains_iff_mem, List.mem_cons,
            List.not_mem_nil, or_false] at *
          grind
        · simp at hm
    exact ⟨actionMatches_trans hboth.1 ha, tokenActionMatches_trans hboth.2 ha⟩
  · rintro ⟨hp, hg⟩
    simp only [overlapActions]
    split
    · exact ⟨p, by simp, hp⟩
    · simp only [tokenActionMatches, actionMatches, adminImplies, Bool.or_eq_true,
        Bool.and_eq_true, beq_iff_eq, List.contains_iff_mem, List.mem_cons,
        List.not_mem_nil, or_false] at *
      grind

variable {t : String}

theorem exists_overlapTypes :
    (∃ m ∈ overlapTypes p g, resourceTypeMatches m t) ↔
      resourceTypeMatches p t ∧ resourceTypeMatches g t := by
  simp only [overlapTypes, resourceTypeMatches, Bool.or_eq_true, beq_iff_eq]
  grind

variable {rid : Option String}

theorem exists_overlapIds {p g : ResourceId} :
    (∃ m ∈ overlapIds p g, resourceIdMatches (.ofRid m) rid) ↔
      resourceIdMatches p rid ∧ resourceIdMatches g rid := by
  cases hp : p.isAny
  · by_cases hg : resourceIdMatches g p.scope
    · simp only [overlapIds, hp, hg, Bool.false_eq_true, if_false, if_true,
        List.mem_singleton, exists_eq_left, resourceIdMatches_ofRid_scope]
      exact ⟨fun h => ⟨h, resourceIdMatches_trans hg h⟩, And.left⟩
    · simp only [overlapIds, hp, hg, Bool.false_eq_true, if_false, List.not_mem_nil,
        false_and, exists_false, false_iff, not_and]
      intro h h'
      have hrid : rid = some p.text := by simpa [resourceIdMatches_iff, hp] using h
      apply hg
      simpa [ResourceId.scope, hp, ← hrid] using h'
  · have hany : resourceIdMatches p rid := resourceIdMatches_iff.mpr (.inl hp)
    simp only [overlapIds, hp, if_true, List.mem_singleton, exists_eq_left,
      resourceIdMatches_ofRid_scope, hany, true_and]

variable {s : String} {m : Triple}

theorem overlaps_ne {p g : Permission} (hm : m ∈ overlaps p g) (hs : m.resourceId = some s) :
    s ≠ "" ∧ s ≠ "*" := by
  simp only [overlaps, List.mem_flatMap, List.mem_map] at hm
  obtain ⟨a, -, t, -, rid, hrid, rfl⟩ := hm
  simp only at hs
  subst hs
  simp only [overlapIds] at hrid
  split at hrid
  · exact ResourceId.scope_ne (List.mem_singleton.mp hrid).symm
  · split at hrid
    · exact ResourceId.scope_ne (List.mem_singleton.mp hrid).symm
    · simp at hrid

theorem exists_overlaps {p g : Permission} :
    (∃ m ∈ overlaps p g, m.entry.allows a t rid) ↔
      p.allows a t rid ∧ g.tokenCovers a t ∧ resourceIdMatches g.resourceId rid := by
  have hsplit : (∃ m ∈ overlaps p g, m.entry.allows a t rid) ↔
      (∃ m ∈ overlapActions p.action g.action, actionMatches m a) ∧
        (∃ m ∈ overlapTypes p.resourceType g.resourceType, resourceTypeMatches m t) ∧
        ∃ m ∈ overlapIds p.resourceId g.resourceId, resourceIdMatches (.ofRid m) rid := by
    simp only [overlaps, List.mem_flatMap, List.mem_map, Permission.allows_iff, Triple.entry]
    constructor
    · rintro ⟨m, ⟨x, hx, y, hy, z, hz, rfl⟩, hxa, hyt, hzr⟩
      exact ⟨⟨x, hx, hxa⟩, ⟨y, hy, hyt⟩, ⟨z, hz, hzr⟩⟩
    · rintro ⟨⟨x, hx, hxa⟩, ⟨y, hy, hyt⟩, ⟨z, hz, hzr⟩⟩
      exact ⟨_, ⟨x, hx, y, hy, z, hz, rfl⟩, hxa, hyt, hzr⟩
  rw [hsplit, exists_overlapActions, exists_overlapTypes, exists_overlapIds,
    Permission.allows_iff, Permission.tokenCovers, Bool.and_eq_true]
  tauto

theorem Triple.scope_entry (hm : ∀ s, m.resourceId = some s → s ≠ "" ∧ s ≠ "*") :
    m.entry.resourceId.scope = m.resourceId := by
  cases h : m.resourceId with
  | none => simp [Triple.entry, h, ResourceId.ofRid, ResourceId.scope, ResourceId.isAny]
  | some s =>
    simp [Triple.entry, h, ResourceId.ofRid, ResourceId.scope, ResourceId.isAny,
      ResourceId.text, hm s h]

variable {τ : Triple} {user : User} {grants : List Entry}

theorem permTriple_ne {e : Entry} (h : permTriple e = some τ) (hs : τ.resourceId = some s) :
    s ≠ "" ∧ s ≠ "*" := by
  cases e with
  | dict p =>
    obtain rfl := Option.some.inj h
    exact tripleRid_ne hs
  | malformed => simp [permTriple] at h
  | notDict =>
    obtain rfl := Option.some.inj h
    simp at hs

def shownTriples (user : User) : List Triple :=
  if (tokenGrantsFor user).isEmpty then rbacTriples user
  else (rbacTriples user).flatMap (narrowTriple (tokenGrantsFor user))

theorem mem_effectiveGrants (hactive : user.isActive) {p : Permission} :
    p ∈ effectiveGrants user ↔ ∃ τ ∈ shownTriples user, τ.entry = p := by
  cases h : (tokenGrantsFor user).isEmpty <;>
    simp [effectiveGrants, hactive, shownTriples, h]

theorem exists_narrowTriple (hτ : ∀ s, τ.resourceId = some s → s ≠ "" ∧ s ≠ "*") :
    (∃ σ ∈ narrowTriple grants τ, σ.entry.allows a t rid) ↔
      τ.entry.allows a t rid ∧ ∃ g, .dict g ∈ grants ∧
        g.tokenCovers τ.action τ.resourceType ∧ resourceIdMatches g.resourceId rid := by
  cases hrid : τ.resourceId with
  | some s =>
    have hsame (h : τ.entry.allows a t rid) : rid = some s := by
      obtain ⟨-, -, hid⟩ := Permission.allows_iff.mp h
      simpa [hrid] using (resourceIdMatches_ofRid hτ).mp hid
    simp only [narrowTriple, hrid]
    by_cases hallow : tokenGrantsAllow grants τ.action τ.resourceType (some s)
    · simp only [hallow, if_true, List.mem_singleton, exists_eq_left]
      constructor
      · intro h
        rw [hsame h]
        rw [tokenGrantsAllow_iff] at hallow
        obtain ⟨g, hg, hcov, hnone | hid⟩ := hallow
        · simp at hnone
        · exact ⟨by rwa [← hsame h], g, hg, hcov, hid⟩
      · exact And.left
    · simp only [hallow, Bool.false_eq_true, if_false, List.not_mem_nil, false_and,
        exists_false, false_iff, not_and]
      rintro h ⟨g, hg, hcov, hid⟩
      apply hallow
      rw [tokenGrantsAllow_iff]
      exact ⟨g, hg, hcov, .inr (hsame h ▸ hid)⟩
  | none =>
    simp only [narrowTriple, hrid, List.mem_filterMap]
    constructor
    · rintro ⟨σ, ⟨e, he, hσ⟩, hall⟩
      cases e with
      | malformed => simp at hσ
      | notDict => simp at hσ
      | dict g =>
        simp only [Option.ite_none_right_eq_some, Option.some.injEq] at hσ
        obtain ⟨hcov, rfl⟩ := hσ
        obtain ⟨ha, ht, hid⟩ := Permission.allows_iff.mp hall
        refine ⟨Permission.allows_iff.mpr ⟨ha, ht, ?_⟩, g, he, hcov,
          resourceIdMatches_ofRid_scope.mp hid⟩
        simp [Triple.entry, hrid, ResourceId.ofRid, resourceIdMatches_iff, ResourceId.isAny]
    · rintro ⟨hall, g, hg, hcov, hid⟩
      obtain ⟨ha, ht, -⟩ := Permission.allows_iff.mp hall
      refine ⟨{ τ with resourceId := g.resourceId.scope }, ⟨.dict g, hg, ?_⟩, ?_⟩
      · simp [hcov]
      · exact Permission.allows_iff.mpr ⟨ha, ht, resourceIdMatches_ofRid_scope.mpr hid⟩

/-- The instances an any-instance triple of the action and type is shown for: all of
them without a token, else what each covering token grant is bound to. -/
def shownScopes (user : User) (action resourceType : String) : List (Option String) :=
  if (tokenGrantsFor user).isEmpty then [none]
  else
    (tokenGrantsFor user).filterMap fun e =>
      match e with
      | .dict g =>
        if g.tokenCovers action resourceType then some g.resourceId.scope else none
      | _ => none

/-- The exact condition. The first half can only fail for an element of a role's list
that is no dict, or whose id is neither null nor a string; the second fails when an RBAC
entry and a token grant overlap in a pattern that lies inside no RBAC triple the token
covers in action and type. -/
structure IntrospectionExact (user : User) : Prop where
  shown_held : ∀ e ∈ rbacEntries user, ∀ τ, permTriple e = some τ → τ.resourceId = none →
    ∀ rid ∈ shownScopes user τ.action τ.resourceType,
      ∃ e' ∈ rbacEntries user, e'.allows τ.action τ.resourceType rid
  overlap_shown : ∀ p, .dict p ∈ rbacEntries user → ∀ g, .dict g ∈ tokenGrantsFor user →
    ∀ m ∈ overlaps p g, ∃ e ∈ rbacEntries user, ∃ τ, permTriple e = some τ ∧
      τ.entry.allows m.action m.resourceType m.resourceId ∧
      ∃ g', .dict g' ∈ tokenGrantsFor user ∧ g'.tokenCovers τ.action τ.resourceType ∧
        resourceIdMatches g'.resourceId m.resourceId

theorem exists_shown :
    (∃ τ ∈ shownTriples user, τ.entry.allows a t rid) ↔
      ∃ e ∈ rbacEntries user, ∃ τ, permTriple e = some τ ∧ τ.entry.allows a t rid ∧
        (tokenGrantsFor user = [] ∨ ∃ g, .dict g ∈ tokenGrantsFor user ∧
          g.tokenCovers τ.action τ.resourceType ∧ resourceIdMatches g.resourceId rid) := by
  by_cases htoken : tokenGrantsFor user = []
  · simp only [shownTriples, htoken, List.isEmpty_nil, if_true, mem_rbacTriples, true_or,
      and_true]
    constructor
    · rintro ⟨τ, ⟨e, he, hτ⟩, hall⟩
      exact ⟨e, he, τ, hτ, hall⟩
    · rintro ⟨e, he, τ, hτ, hall⟩
      exact ⟨τ, ⟨e, he, hτ⟩, hall⟩
  · have hempty : (tokenGrantsFor user).isEmpty = false := by simpa using htoken
    simp only [shownTriples, hempty, Bool.false_eq_true, if_false, htoken, false_or,
      List.mem_flatMap, mem_rbacTriples]
    constructor
    · rintro ⟨σ, ⟨τ, ⟨e, he, hτ⟩, hσ⟩, hall⟩
      obtain ⟨hall', hg⟩ :=
        (exists_narrowTriple fun _ => permTriple_ne hτ).mp ⟨σ, hσ, hall⟩
      exact ⟨e, he, τ, hτ, hall', hg⟩
    · rintro ⟨e, he, τ, hτ, hall, hg⟩
      obtain ⟨σ, hσ, hall'⟩ :=
        (exists_narrowTriple fun _ => permTriple_ne hτ).mpr ⟨hall, hg⟩
      exact ⟨σ, ⟨τ, ⟨e, he, hτ⟩, hσ⟩, hall'⟩

theorem shownTriples_ne (hτ : τ ∈ shownTriples user) (hs : τ.resourceId = some s) :
    s ≠ "" ∧ s ≠ "*" := by
  simp only [shownTriples] at hτ
  split at hτ
  · obtain ⟨e, -, he⟩ := mem_rbacTriples.mp hτ
    exact permTriple_ne he hs
  · obtain ⟨σ, hσ, hτσ⟩ := List.mem_flatMap.mp hτ
    obtain ⟨e, -, he⟩ := mem_rbacTriples.mp hσ
    simp only [narrowTriple] at hτσ
    split at hτσ
    · split at hτσ
      · obtain rfl := List.mem_singleton.mp hτσ
        exact permTriple_ne he hs
      · simp at hτσ
    · obtain ⟨g, -, hg⟩ := List.mem_filterMap.mp hτσ
      split at hg
      · simp only [Option.ite_none_right_eq_some, Option.some.injEq] at hg
        obtain ⟨-, rfl⟩ := hg
        exact ResourceId.scope_ne hs
      · simp at hg

def rbacPermissions (user : User) : List Permission :=
  (rbacEntries user).filterMap fun e =>
    match e with
    | .dict p => some p
    | _ => none

@[simp] theorem mem_rbacPermissions {p : Permission} :
    p ∈ rbacPermissions user ↔ .dict p ∈ rbacEntries user := by
  simp only [rbacPermissions, List.mem_filterMap]
  constructor
  · rintro ⟨e, he, hp⟩
    cases e with
    | dict q =>
      obtain rfl := Option.some.inj hp
      exact he
    | malformed => simp at hp
    | notDict => simp at hp
  · intro hp
    exact ⟨.dict p, hp, rfl⟩

theorem exists_rbacPermissions :
    (∃ p ∈ rbacPermissions user, p.allows a t rid) ↔
      ∃ e ∈ rbacEntries user, e.allows a t rid := by
  simp only [mem_rbacPermissions, Entry.allows_iff]
  constructor
  · rintro ⟨p, hp, hall⟩
    exact ⟨.dict p, hp, p, rfl, hall⟩
  · rintro ⟨e, he, p, rfl, hall⟩
    exact ⟨p, he, hall⟩

theorem mem_shownScopes :
    rid ∈ shownScopes user a t ↔ (tokenGrantsFor user = [] ∧ rid = none) ∨
      ∃ g, .dict g ∈ tokenGrantsFor user ∧ g.tokenCovers a t ∧ g.resourceId.scope = rid := by
  by_cases htoken : tokenGrantsFor user = []
  · simp [shownScopes, htoken]
  · have hempty : (tokenGrantsFor user).isEmpty = false := by simpa using htoken
    simp only [shownScopes, hempty, Bool.false_eq_true, if_false, List.mem_filterMap, htoken,
      false_and, false_or]
    constructor
    · rintro ⟨e, he, hrid⟩
      cases e with
      | dict g =>
        simp only [Option.ite_none_right_eq_some, Option.some.injEq] at hrid
        exact ⟨g, he, hrid.1, hrid.2⟩
      | malformed => simp at hrid
      | notDict => simp at hrid
    · rintro ⟨g, hg, hcov, rfl⟩
      exact ⟨.dict g, hg, by simp [hcov]⟩

theorem permTriple_scoped {e : Entry} (h : permTriple e = some τ) (hs : τ.resourceId = some s) :
    e.allows τ.action τ.resourceType (some s) := by
  cases e with
  | dict p =>
    obtain rfl := Option.some.inj h
    rcases tripleRid_eq p.resourceId with hnone | hscope
    · exact absurd (hnone.symm.trans hs) (by simp)
    · apply Permission.allows_iff.mpr
      refine ⟨actionMatches_self _, resourceTypeMatches_self _, ?_⟩
      rw [← hs]
      exact hscope ▸ resourceIdMatches_scope p.resourceId
  | malformed => simp [permTriple] at h
  | notDict =>
    obtain rfl := Option.some.inj h
    simp at hs

theorem mem_narrowTriple {σ : Triple} :
    σ ∈ narrowTriple grants τ ↔
      ((∃ s, τ.resourceId = some s) ∧ σ = τ ∧
        tokenGrantsAllow grants τ.action τ.resourceType τ.resourceId) ∨
      (τ.resourceId = none ∧ ∃ g, .dict g ∈ grants ∧
        g.tokenCovers τ.action τ.resourceType ∧
          σ = { τ with resourceId := g.resourceId.scope }) := by
  cases hrid : τ.resourceId with
  | some s =>
    simp only [narrowTriple, hrid]
    split <;> simp_all
  | none =>
    simp only [narrowTriple, hrid, List.mem_filterMap]
    constructor
    · rintro ⟨e, he, hσ⟩
      cases e with
      | dict g =>
        simp only [Option.ite_none_right_eq_some, Option.some.injEq] at hσ
        exact .inr ⟨trivial, g, he, hσ.1, hσ.2.symm⟩
      | malformed => simp at hσ
      | notDict => simp at hσ
    · rintro (⟨⟨s, hs⟩, -⟩ | ⟨-, g, hg, hcov, rfl⟩)
      · simp at hs
      · exact ⟨.dict g, hg, by simp [hcov]⟩

theorem shown_subset_iff :
    (∀ a t r, (∃ τ ∈ shownTriples user, τ.entry.allows a t (some r)) →
        userRbacAllows user a t (some r) true) ↔
      ∀ e ∈ rbacEntries user, ∀ τ, permTriple e = some τ → τ.resourceId = none →
        ∀ rid ∈ shownScopes user τ.action τ.resourceType,
          ∃ e' ∈ rbacEntries user, e'.allows τ.action τ.resourceType rid := by
  have hpatterns : (∀ a t r, (∃ τ ∈ shownTriples user, τ.entry.allows a t (some r)) →
        userRbacAllows user a t (some r) true) ↔
      ∀ τ ∈ shownTriples user, ∃ e ∈ rbacEntries user,
        e.allows τ.action τ.resourceType τ.resourceId := by
    have h := @subset_iff ((shownTriples user).map Triple.entry) (rbacPermissions user)
    simp only [Permission.Admits, Prod.forall, List.mem_map, exists_exists_and_eq_and,
      forall_exists_index, and_imp, forall_apply_eq_imp_iff₂, exists_rbacPermissions] at h
    simp only [userRbacAllows_iff, forall_exists_index, and_imp]
    rw [h]
    refine forall₂_congr fun τ hτ => ?_
    rw [Triple.scope_entry fun _ => shownTriples_ne hτ]
    rfl
  rw [hpatterns]
  constructor
  · intro h e he τ hτ hnone rid hrid
    rcases mem_shownScopes.mp hrid with ⟨htoken, rfl⟩ | ⟨g, hg, hcov, rfl⟩
    · have hshown : τ ∈ shownTriples user := by
        simpa [shownTriples, htoken] using mem_rbacTriples.mpr ⟨e, he, hτ⟩
      simpa [hnone] using h τ hshown
    · have htoken : (tokenGrantsFor user).isEmpty = false := by
        simpa using List.ne_nil_of_mem hg
      refine h { τ with resourceId := g.resourceId.scope } ?_
      simp only [shownTriples, htoken, Bool.false_eq_true, if_false]
      exact List.mem_flatMap.mpr ⟨τ, mem_rbacTriples.mpr ⟨e, he, hτ⟩,
        mem_narrowTriple.mpr (.inr ⟨hnone, g, hg, hcov, rfl⟩)⟩
  · intro h τ hτ
    by_cases htoken : tokenGrantsFor user = []
    · obtain ⟨e, he, hperm⟩ : ∃ e ∈ rbacEntries user, permTriple e = some τ := by
        simpa [shownTriples, htoken, mem_rbacTriples] using hτ
      cases hrid : τ.resourceId with
      | some s => exact ⟨e, he, permTriple_scoped hperm hrid⟩
      | none => exact h e he τ hperm hrid none (mem_shownScopes.mpr (.inl ⟨htoken, rfl⟩))
    · obtain ⟨σ, hσ, hnarrow⟩ : ∃ σ ∈ rbacTriples user,
          τ ∈ narrowTriple (tokenGrantsFor user) σ := by
        simpa [shownTriples, htoken] using hτ
      obtain ⟨e, he, hperm⟩ := mem_rbacTriples.mp hσ
      rcases mem_narrowTriple.mp hnarrow with ⟨⟨s, hs⟩, rfl, -⟩ | ⟨hnone, g, hg, hcov, rfl⟩
      · exact ⟨e, he, hs ▸ permTriple_scoped hperm hs⟩
      · exact h e he σ hperm hnone _ (mem_shownScopes.mpr (.inr ⟨g, hg, hcov, rfl⟩))

theorem tokenAllows_of_shown (h : ∃ τ ∈ shownTriples user, τ.entry.allows a t (some r)) :
    tokenGrantsFor user = [] ∨ tokenGrantsAllow (tokenGrantsFor user) a t (some r) := by
  obtain ⟨e, -, τ, -, hall, hempty | ⟨g, hg, hcov, hid⟩⟩ := exists_shown.mp h
  · exact .inl hempty
  · right
    obtain ⟨haction, htype, -⟩ := Permission.allows_iff.mp hall
    simp only [Permission.tokenCovers, Bool.and_eq_true] at hcov
    refine tokenGrantsAllow_iff.mpr ⟨g, hg, ?_, .inr hid⟩
    simp only [Permission.tokenCovers, Bool.and_eq_true]
    exact ⟨tokenActionMatches_trans hcov.1 haction, resourceTypeMatches_trans hcov.2 htype⟩

theorem shown_of_allowed (htoken : tokenGrantsFor user = [])
    (h : userRbacAllows user a t (some r) true) :
    ∃ τ ∈ shownTriples user, τ.entry.allows a t (some r) := by
  obtain ⟨e, he, hall⟩ := userRbacAllows_iff.mp h
  obtain ⟨p, rfl, hp⟩ := Entry.allows_iff.mp hall
  refine exists_shown.mpr ⟨_, he, _, rfl, ?_, .inl htoken⟩
  obtain ⟨haction, htype, hid⟩ := Permission.allows_iff.mp hp
  refine Permission.allows_iff.mpr ⟨haction, htype, ?_⟩
  apply (resourceIdMatches_ofRid fun _ => tripleRid_ne).mpr
  rcases tripleRid_eq p.resourceId with hnone | hscope
  · exact .inl hnone
  · simp only [hscope]
    exact (resourceIdMatches_ofRid fun _ => ResourceId.scope_ne).mp
      (resourceIdMatches_ofRid_scope.mpr hid)

theorem allowed_subset_iff :
    (∀ a t r, userRbacAllows user a t (some r) true →
        tokenGrantsAllow (tokenGrantsFor user) a t (some r) →
          ∃ τ ∈ shownTriples user, τ.entry.allows a t (some r)) ↔
      ∀ p, .dict p ∈ rbacEntries user → ∀ g, .dict g ∈ tokenGrantsFor user →
        ∀ m ∈ overlaps p g,
          ∃ τ ∈ shownTriples user, τ.entry.allows m.action m.resourceType m.resourceId := by
  constructor
  · intro h p hp g hg m hm
    obtain ⟨r, hr, honly⟩ := exists_generic ((shownTriples user).map Triple.entry) m.entry
    obtain ⟨hrbac, hcov, hid⟩ := exists_overlaps.mp ⟨m, hm, hr⟩
    obtain ⟨τ, hτ, hall⟩ := h _ _ _ (userRbacAllows_iff.mpr ⟨_, hp, hrbac⟩)
      (tokenGrantsAllow_iff.mpr ⟨g, hg, hcov, .inr hid⟩)
    have hcovers := covers_iff.mp (honly τ.entry (List.mem_map_of_mem hτ) hall)
    rw [Triple.scope_entry fun _ => overlaps_ne hm] at hcovers
    exact ⟨τ, hτ, hcovers⟩
  · intro h a t r hrbac htok
    obtain ⟨e, he, hall⟩ := userRbacAllows_iff.mp hrbac
    obtain ⟨p, rfl, hp⟩ := Entry.allows_iff.mp hall
    obtain ⟨g, hg, hcov, hnone | hid⟩ := tokenGrantsAllow_iff.mp htok
    · simp at hnone
    obtain ⟨m, hm, hmall⟩ := exists_overlaps.mpr ⟨hp, hcov, hid⟩
    obtain ⟨τ, hτ, hτm⟩ := h p he g hg m hm
    refine ⟨τ, hτ, Permission.allows_trans ?_ hmall⟩
    rw [Triple.scope_entry fun _ => overlaps_ne hm]
    exact hτm

/-- The list answers every request as enforcement does exactly for the users whose
entries and token grants meet the condition. -/
theorem effectiveGrants_eq_enforced_iff (user : User) :
    (∀ a t r, (effectiveGrants user).any (fun p => p.allows a t (some r)) =
        userHasPermission user a t (some r)) ↔
      (user.isActive → IntrospectionExact user) := by
  cases hactive : user.isActive
  · simp [effectiveGrants, userHasPermission, hactive]
  have hshown (a t r : String) :
      (effectiveGrants user).any (fun p => p.allows a t (some r)) ↔
        ∃ τ ∈ shownTriples user, τ.entry.allows a t (some r) := by
    simp only [List.any_eq_true, mem_effectiveGrants hactive, exists_exists_and_eq_and]
  have hsplit : (∀ a t r, (effectiveGrants user).any (fun p => p.allows a t (some r)) =
        userHasPermission user a t (some r)) ↔
      (∀ a t r, (∃ τ ∈ shownTriples user, τ.entry.allows a t (some r)) →
          userRbacAllows user a t (some r) true) ∧
        ∀ a t r, userRbacAllows user a t (some r) true →
          (tokenGrantsFor user = [] ∨ tokenGrantsAllow (tokenGrantsFor user) a t (some r)) →
            ∃ τ ∈ shownTriples user, τ.entry.allows a t (some r) := by
    constructor
    · intro h
      constructor
      · intro a t r hs
        have hperm := userHasPermission_iff.mp (h a t r ▸ (hshown a t r).mpr hs)
        exact hperm.2.1
      · intro a t r hr ht
        apply (hshown a t r).mp
        rw [h a t r]
        exact userHasPermission_iff.mpr ⟨hactive, hr, ht⟩
    · rintro ⟨hleft, hright⟩ a t r
      rw [Bool.eq_iff_iff]
      constructor
      · intro hany
        have hs := (hshown a t r).mp hany
        exact userHasPermission_iff.mpr ⟨hactive, hleft a t r hs, tokenAllows_of_shown hs⟩
      · intro hperm
        obtain ⟨-, hr, ht⟩ := userHasPermission_iff.mp hperm
        exact (hshown a t r).mpr (hright a t r hr ht)
  rw [hsplit, shown_subset_iff]
  simp only [true_implies]
  by_cases htoken : tokenGrantsFor user = []
  · constructor
    · intro h
      exact ⟨h.1, fun p _ g hg => by simp [htoken] at hg⟩
    · intro h
      exact ⟨h.shown_held, fun a t r hr _ => shown_of_allowed htoken hr⟩
  · simp only [htoken, false_or]
    rw [allowed_subset_iff]
    simp only [exists_shown, htoken, false_or]
    exact ⟨fun h => ⟨h.1, h.2⟩, fun h => ⟨h.shown_held, h.overlap_shown⟩⟩

/-- A legacy superadmin with a token bound to writing one subnet: the list is empty, and
the write is allowed. -/
def boundSuperadmin : User where
  isActive := true
  isSuperadmin := true
  groups := []
  timeBoundGrants := []
  apiTokenResourceGrants := [.dict ⟨"write", "subnet", .str "S"⟩]

theorem not_shown_boundSuperadmin :
    ¬ ∀ user : User, user.isActive → ∀ a t r,
      (effectiveGrants user).any (fun p => p.allows a t (some r)) =
        userHasPermission user a t (some r) := by
  intro h
  have hclaim := h boundSuperadmin rfl "write" "subnet" "S"
  exact absurd hclaim (by decide +kernel)

end SpatiumDdi.Auth
