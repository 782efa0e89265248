import Mathlib.Data.String.Basic
import Mathlib.Data.List.Dedup
import Mathlib.Data.List.Sort

/-!
The permission helpers of `app/core/permissions.py`.

A permission is an `(action, resource_type, resource_id)` entry of a role's JSON
list, of a time-bound grant row or of an API token's resource grants. Enforcement
(`user_has_permission`) asks whether some entry matches a request; introspection
(`effective_grants`) lists the triples a caller resolves to; the privilege ceiling
(`caller_can_grant`) decides which entries a caller may hand on.

JSON lists are read as they come: an element may be no dict at all, or a dict whose
action or resource type is no string.
-/

namespace SpatiumDdi.Auth

def adminImplies : List String := ["read", "write", "delete", "admin"]

def actionMatches (granted requested : String) : Bool :=
  granted == "*" || granted == requested ||
    (granted == "admin" && adminImplies.contains requested)

def resourceTypeMatches (granted requested : String) : Bool :=
  granted == "*" || granted == requested

/-- The `resource_id` of an entry: missing or null, a string, or another JSON value,
of which the code compares the text `str()` makes of it. -/
inductive ResourceId
  | null
  | str (s : String)
  | other (text : String) (h : text ≠ "" ∧ text ≠ "*")

namespace ResourceId

/-- Granted on any instance: null, `""` or `"*"`. -/
def isAny : ResourceId → Bool
  | null => true
  | str s => s == "" || s == "*"
  | other _ _ => false

/-- `str(resource_id)` of an id that names an instance. -/
def text : ResourceId → String
  | null => "None"
  | str s => s
  | other text _ => text

/-- The instance the id names, if it names one. -/
def scope (i : ResourceId) : Option String :=
  if i.isAny then none else some i.text

end ResourceId

/-- `_resource_id_matches`: a scoped grant never matches an unscoped request. -/
def resourceIdMatches (granted : ResourceId) (requested : Option String) : Bool :=
  if granted.isAny then true
  else
    match requested with
    | none => false
    | some rid => granted.text == rid

structure Permission where
  action : String
  resourceType : String
  resourceId : ResourceId

inductive Entry
  | dict (p : Permission)
  /-- A dict whose action or resource type is not a string. -/
  | malformed
  | notDict

namespace Entry

def isDict : Entry → Bool
  | notDict => false
  | _ => true

end Entry

/-- The three tests every permission loop makes of an entry. -/
def Permission.allows (p : Permission) (action resourceType : String)
    (reqRid : Option String) : Bool :=
  actionMatches p.action action && resourceTypeMatches p.resourceType resourceType &&
    resourceIdMatches p.resourceId reqRid

/-- An element that is no dict is skipped; a dict with a non-string action or type
equals no request. -/
def Entry.allows (e : Entry) (action resourceType : String) (reqRid : Option String) :
    Bool :=
  match e with
  | dict p => p.allows action resourceType reqRid
  | malformed => false
  | notDict => false

structure Role where
  permissions : List Entry

structure Group where
  roles : List Role

/-- What the auth dependency leaves on the request's user: the row, its groups with
their roles, the live time-bound grants and the API token's resource grants (empty for
a session). -/
structure User where
  isActive : Bool
  isSuperadmin : Bool
  groups : List Group
  timeBoundGrants : List Permission
  apiTokenResourceGrants : List Entry

def tokenGrantsFor (user : User) : List Entry :=
  user.apiTokenResourceGrants.filter Entry.isDict

/-- A token grant of an action also covers reading, when it is `write` or `delete`. -/
def tokenActionMatches (granted requested : String) : Bool :=
  actionMatches granted requested ||
    (requested == "read" && (granted == "write" || granted == "delete"))

def Permission.tokenCovers (g : Permission) (action resourceType : String) : Bool :=
  tokenActionMatches g.action action && resourceTypeMatches g.resourceType resourceType

def tokenGrantsAllow (grants : List Entry) (action resourceType : String)
    (reqRid : Option String) : Bool :=
  grants.any fun e =>
    match e with
    | .dict g =>
      g.tokenCovers action resourceType &&
        (reqRid.isNone || resourceIdMatches g.resourceId reqRid)
    | _ => false

def userRbacAllows (user : User) (action resourceType : String) (reqRid : Option String)
    (includeTimeBound : Bool) : Bool :=
  user.isSuperadmin ||
    (user.groups.any fun group => group.roles.any fun role =>
      role.permissions.any fun perm => perm.allows action resourceType reqRid) ||
    (includeTimeBound &&
      user.timeBoundGrants.any fun grant => grant.allows action resourceType reqRid)

def userHasPermission (user : User) (action resourceType : String)
    (resourceId : Option String) : Bool :=
  if !user.isActive then false
  else if !userRbacAllows user action resourceType resourceId true then false
  else if !(tokenGrantsFor user).isEmpty &&
      !tokenGrantsAllow (tokenGrantsFor user) action resourceType resourceId then false
  else true

def isEffectiveSuperadmin (user : User) : Bool :=
  if user.isSuperadmin && (tokenGrantsFor user).isEmpty then true
  else userHasPermission user "*" "*" none

/-- A normalised `(action, resource_type, resource_id)`; `none` is any instance. -/
structure Triple where
  action : String
  resourceType : String
  resourceId : Option String
  deriving DecidableEq

/-- `resource_id if isinstance(resource_id, str) and resource_id not in ("", "*") else
None`. -/
def tripleRid : ResourceId → Option String
  | .str s => if s == "" || s == "*" then none else some s
  | _ => none

/-- `_perm_triple`. An element that is no dict has none of the three attributes, so the
defaults `""`, `""`, `None` stand in for them. -/
def permTriple : Entry → Option Triple
  | .dict p => some ⟨p.action, p.resourceType, tripleRid p.resourceId⟩
  | .malformed => none
  | .notDict => some ⟨"", "", none⟩

/-- The narrowing of one RBAC triple by the token's grants: a scoped triple is kept when
the token permits that instance, an any-instance one is replaced by one triple for each
grant that covers its action and type. -/
def narrowTriple (tokenGrants : List Entry) (triple : Triple) : List Triple :=
  match triple.resourceId with
  | some rid =>
    if tokenGrantsAllow tokenGrants triple.action triple.resourceType (some rid) then
      [triple]
    else []
  | none =>
    tokenGrants.filterMap fun e =>
      match e with
      | .dict g =>
        if g.tokenCovers triple.action triple.resourceType then
          some { triple with resourceId := g.resourceId.scope }
        else none
      | _ => none

/-- The set of triples of `effective_grants` before the token narrows it. -/
def rbacTriples (user : User) : List Triple :=
  let wildcard : List Triple := if user.isSuperadmin then [⟨"*", "*", none⟩] else []
  let roles : List Triple := user.groups.flatMap fun group =>
    group.roles.flatMap fun role => role.permissions.filterMap permTriple
  let timeBound : List Triple := user.timeBoundGrants.filterMap fun grant =>
    permTriple (.dict grant)
  (wildcard ++ roles ++ timeBound).dedup

/-- The id a triple's third component stands for. -/
def ResourceId.ofRid : Option String → ResourceId
  | none => .null
  | some rid => .str rid

/-- The dict `effective_grants` returns for a triple. -/
def Triple.entry (t : Triple) : Permission :=
  { action := t.action
    resourceType := t.resourceType
    resourceId := .ofRid t.resourceId }

def Triple.sortKey (t : Triple) : List String :=
  [t.resourceType, t.action, t.resourceId.getD ""]

def effectiveGrants (user : User) : List Permission :=
  if !user.isActive then []
  else
    let tokenGrants := tokenGrantsFor user
    let triples :=
      if tokenGrants.isEmpty then rbacTriples user
      else ((rbacTriples user).flatMap (narrowTriple tokenGrants)).dedup
    (triples.insertionSort fun a b => a.sortKey ≤ b.sortKey).map Triple.entry

def callerCanGrant (user : User) (perms : List Entry) : Bool :=
  if isEffectiveSuperadmin user then true
  else
    perms.all fun perm =>
      match permTriple perm with
      | none => false
      | some triple =>
        if triple.action == "*" || triple.resourceType == "*" then false
        else if !userHasPermission user triple.action triple.resourceType
            triple.resourceId then false
        else userRbacAllows user triple.action triple.resourceType triple.resourceId false

variable {a b c : String}

theorem actionMatches_trans (h : actionMatches a b) (h' : actionMatches b c) :
    actionMatches a c := by
  simp only [actionMatches, adminImplies, Bool.or_eq_true, Bool.and_eq_true, beq_iff_eq,
    List.contains_iff_mem, List.mem_cons, List.not_mem_nil, or_false] at *
  grind

@[simp] theorem actionMatches_self (a : String) : actionMatches a a := by
  simp [actionMatches]

theorem resourceTypeMatches_trans (h : resourceTypeMatches a b) (h' : resourceTypeMatches b c) :
    resourceTypeMatches a c := by
  simp only [resourceTypeMatches, Bool.or_eq_true, beq_iff_eq] at *
  grind

@[simp] theorem resourceTypeMatches_self (a : String) : resourceTypeMatches a a := by
  simp [resourceTypeMatches]

theorem tokenActionMatches_trans (h : tokenActionMatches a b) (h' : actionMatches b c) :
    tokenActionMatches a c := by
  simp only [tokenActionMatches, actionMatches, adminImplies, Bool.or_eq_true,
    Bool.and_eq_true, beq_iff_eq, List.contains_iff_mem, List.mem_cons, List.not_mem_nil,
    or_false] at *
  grind

variable {i : ResourceId} {rid : Option String}

theorem resourceIdMatches_iff : resourceIdMatches i rid ↔ i.isAny ∨ rid = some i.text := by
  cases rid with
  | none => simp [resourceIdMatches]
  | some r => cases hany : i.isAny <;> simp [resourceIdMatches, hany, eq_comm (a := r)]

@[simp] theorem resourceIdMatches_scope (i : ResourceId) : resourceIdMatches i i.scope := by
  cases h : i.isAny <;> simp [resourceIdMatches_iff, ResourceId.scope, h]

theorem resourceIdMatches_trans {j : ResourceId} (h : resourceIdMatches i j.scope)
    (h' : resourceIdMatches j rid) : resourceIdMatches i rid := by
  simp only [resourceIdMatches_iff, ResourceId.scope] at *
  grind

theorem ResourceId.scope_ne {s : String} (h : i.scope = some s) : s ≠ "" ∧ s ≠ "*" := by
  cases i with
  | null => simp [ResourceId.scope, ResourceId.isAny] at h
  | str t =>
    simp only [ResourceId.scope, ResourceId.isAny, ResourceId.text] at h
    grind
  | other t ht =>
    simp only [ResourceId.scope, ResourceId.isAny, ResourceId.text] at h
    grind

theorem tripleRid_eq (i : ResourceId) : tripleRid i = none ∨ tripleRid i = i.scope := by
  cases i with
  | str s => right; simp [tripleRid, ResourceId.scope, ResourceId.isAny, ResourceId.text]
  | null => exact .inl rfl
  | other t ht => exact .inl rfl

theorem resourceIdMatches_ofRid {o : Option String} (ho : ∀ s, o = some s → s ≠ "" ∧ s ≠ "*") :
    resourceIdMatches (.ofRid o) rid ↔ o = none ∨ rid = o := by
  cases o with
  | none => simp [resourceIdMatches_iff, ResourceId.ofRid, ResourceId.isAny]
  | some s =>
    simp [resourceIdMatches_iff, ResourceId.ofRid, ResourceId.isAny, ResourceId.text, ho s rfl]

theorem resourceIdMatches_ofRid_scope :
    resourceIdMatches (.ofRid i.scope) rid ↔ resourceIdMatches i rid := by
  rw [resourceIdMatches_ofRid fun _ => ResourceId.scope_ne, resourceIdMatches_iff]
  cases h : i.isAny <;> simp [ResourceId.scope, h]

theorem tripleRid_ne {s : String} (h : tripleRid i = some s) : s ≠ "" ∧ s ≠ "*" := by
  rcases tripleRid_eq i with hnone | hscope
  · simp [hnone] at h
  · exact ResourceId.scope_ne (hscope.symm.trans h)

variable {t : String} {user : User}

theorem Permission.allows_iff {p : Permission} :
    p.allows a t rid ↔ actionMatches p.action a ∧ resourceTypeMatches p.resourceType t ∧
      resourceIdMatches p.resourceId rid := by
  simp [Permission.allows, and_assoc]

theorem Permission.allows_trans {q p : Permission}
    (h : q.allows p.action p.resourceType p.resourceId.scope) (h' : p.allows a t rid) :
    q.allows a t rid := by
  rw [Permission.allows_iff] at *
  obtain ⟨haction, htype, hid⟩ := h
  obtain ⟨haction', htype', hid'⟩ := h'
  exact ⟨actionMatches_trans haction haction', resourceTypeMatches_trans htype htype',
    resourceIdMatches_trans hid hid'⟩

/-- Every entry the RBAC verdict reads, the legacy flag standing for a wildcard. -/
def rbacEntries (user : User) : List Entry :=
  (if user.isSuperadmin then [.dict ⟨"*", "*", .null⟩] else []) ++
    (user.groups.flatMap fun group => group.roles.flatMap Role.permissions) ++
    user.timeBoundGrants.map .dict

theorem Entry.allows_iff {e : Entry} : e.allows a t rid ↔ ∃ p, e = .dict p ∧ p.allows a t rid := by
  cases e <;> simp [Entry.allows]

theorem userRbacAllows_iff :
    userRbacAllows user a t rid true ↔ ∃ e ∈ rbacEntries user, e.allows a t rid := by
  have hwild : Entry.allows (.dict ⟨"*", "*", .null⟩) a t rid := by
    simp [Entry.allows, Permission.allows, actionMatches, resourceTypeMatches,
      resourceIdMatches, ResourceId.isAny]
  cases hs : user.isSuperadmin
  · simp only [userRbacAllows, rbacEntries, hs, Bool.false_or, Bool.true_and,
      Bool.or_eq_true, List.any_eq_true, Bool.false_eq_true, if_false, List.nil_append,
      List.mem_append, List.mem_flatMap, List.mem_map, or_and_right, exists_or]
    constructor
    · rintro (⟨g, hg, r, hr, e, he, hall⟩ | ⟨p, hp, hall⟩)
      · exact .inl ⟨e, ⟨g, hg, r, hr, he⟩, hall⟩
      · exact .inr ⟨.dict p, ⟨p, hp, rfl⟩, hall⟩
    · rintro (⟨e, ⟨g, hg, r, hr, he⟩, hall⟩ | ⟨e, ⟨p, hp, rfl⟩, hall⟩)
      · exact .inl ⟨g, hg, r, hr, e, he, hall⟩
      · exact .inr ⟨p, hp, hall⟩
  · simp only [userRbacAllows, rbacEntries, hs, Bool.true_or, if_true, true_iff]
    exact ⟨_, by simp, hwild⟩

theorem mem_rbacTriples {τ : Triple} :
    τ ∈ rbacTriples user ↔ ∃ e ∈ rbacEntries user, permTriple e = some τ := by
  have hwild : (∃ e ∈ (if user.isSuperadmin then [Entry.dict ⟨"*", "*", .null⟩] else []),
      permTriple e = some τ) ↔
        τ ∈ (if user.isSuperadmin then [(⟨"*", "*", none⟩ : Triple)] else []) := by
    cases user.isSuperadmin <;> simp [permTriple, tripleRid, eq_comm (b := τ)]
  simp only [rbacTriples, List.mem_dedup, rbacEntries, List.mem_append, or_and_right,
    exists_or, hwild, List.mem_flatMap, List.mem_filterMap, List.mem_map]
  constructor
  · rintro ((h | ⟨g, hg, r, hr, e, he, hτ⟩) | ⟨p, hp, hτ⟩)
    · exact .inl (.inl h)
    · exact .inl (.inr ⟨e, ⟨g, hg, r, hr, he⟩, hτ⟩)
    · exact .inr ⟨.dict p, ⟨p, hp, rfl⟩, hτ⟩
  · rintro ((h | ⟨e, ⟨g, hg, r, hr, he⟩, hτ⟩) | ⟨e, ⟨p, hp, rfl⟩, hτ⟩)
    · exact .inl (.inl h)
    · exact .inl (.inr ⟨g, hg, r, hr, e, he, hτ⟩)
    · exact .inr ⟨p, hp, hτ⟩

theorem tokenGrantsAllow_iff {grants : List Entry} :
    tokenGrantsAllow grants a t rid ↔ ∃ g, .dict g ∈ grants ∧ g.tokenCovers a t ∧
      (rid = none ∨ resourceIdMatches g.resourceId rid) := by
  rw [tokenGrantsAllow, List.any_eq_true]
  constructor
  · rintro ⟨e, he, hall⟩
    cases e with
    | dict g => exact ⟨g, he, by simpa using hall⟩
    | malformed => simp at hall
    | notDict => simp at hall
  · rintro ⟨g, hg, hall⟩
    exact ⟨.dict g, hg, by simpa using hall⟩

theorem userHasPermission_iff :
    userHasPermission user a t rid ↔ user.isActive ∧ userRbacAllows user a t rid true ∧
      (tokenGrantsFor user = [] ∨ tokenGrantsAllow (tokenGrantsFor user) a t rid) := by
  cases hactive : user.isActive <;>
    cases hrbac : userRbacAllows user a t rid true <;>
    cases htoken : tokenGrantsAllow (tokenGrantsFor user) a t rid <;>
    simp [userHasPermission, hactive, hrbac, htoken]

end SpatiumDdi.Auth
