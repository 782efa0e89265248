import SpatiumDdi.Auth.Permissions
import SpatiumDdi.Lib.Authority

/-!
Roles, groups and memberships, and the requests of the roles and groups routers that
change them. Each request is bounded by the privilege ceiling of its caller. Two further
guards of the routers, that an active superadmin remains and that the caller's step-up
passes, can only refuse a request; a call carries their verdicts.
-/

namespace SpatiumDdi.Auth

def validActions : List String := ["read", "write", "delete", "admin", "approve", "*"]

structure PermissionEntry where
  action : String
  resourceType : String
  resourceId : Option String
  valid_action : action ∈ validActions
  nonempty : resourceType ≠ ""

def PermissionEntry.entry (p : PermissionEntry) : Entry :=
  .dict ⟨p.action, p.resourceType, .ofRid p.resourceId⟩

/-- `_perm_list_to_dicts`: an empty resource id is dropped. -/
def permListToDicts (perms : List PermissionEntry) : List Entry :=
  perms.map fun p =>
    .dict ⟨p.action, p.resourceType,
      if p.resourceId = some "" then .null else .ofRid p.resourceId⟩

structure Account where
  id : Nat
  isActive : Bool
  isSuperadmin : Bool
  deriving DecidableEq

structure RoleRow where
  id : Nat
  name : String
  isBuiltin : Bool
  permissions : List Entry

structure GroupRow where
  id : Nat
  name : String
  roleIds : List Nat
  userIds : List Nat

structure Directory where
  accounts : List Account
  roles : List RoleRow
  groups : List GroupRow

/-- One request: who sends it, with which credential and which live time-bound grants,
the live grants of each group, and the verdicts of the two other guards. -/
structure Call where
  actor : Account
  apiTokenResourceGrants : List Entry
  timeBoundGrants : List Permission
  groupGrants : Nat → List Permission
  superadminRemains : Bool
  stepupPassed : Bool

namespace Directory

def rolesOf (d : Directory) (g : GroupRow) : List RoleRow :=
  d.roles.filter fun r => g.roleIds.contains r.id

def user (d : Directory) (account : Account) (timeBound : List Permission)
    (token : List Entry) : User where
  isActive := account.isActive
  isSuperadmin := account.isSuperadmin
  groups := (d.groups.filter fun g => g.userIds.contains account.id).map fun g =>
    ⟨(d.rolesOf g).map fun r => ⟨r.permissions⟩⟩
  timeBoundGrants := timeBound
  apiTokenResourceGrants := token

def caller (d : Directory) (c : Call) : User :=
  d.user c.actor c.timeBoundGrants c.apiTokenResourceGrants

/-- What an account holds through static roles alone. -/
def heldStatically (d : Directory) (account : Account) (action resourceType : String)
    (rid : Option String) : Bool :=
  userRbacAllows (d.user account [] []) action resourceType rid false

def freshRole (d : Directory) (id : Nat) : Bool :=
  !(d.roles.any fun r => r.id == id) && !d.groups.any fun g => g.roleIds.contains id

def resolveRoles (d : Directory) (roleIds : List Nat) : Option (List RoleRow) :=
  let roles := d.roles.filter fun r => roleIds.contains r.id
  if roles.length = roleIds.dedup.length then some roles else none

def resolveUsers (d : Directory) (userIds : List Nat) : Option (List Account) :=
  let users := d.accounts.filter fun u => userIds.contains u.id
  if users.length = userIds.dedup.length then some users else none

def rolePermissions (roles : List RoleRow) : List Entry :=
  roles.flatMap fun r => r.permissions.filter Entry.isDict

/-- `_enforce_ceiling` of the groups router. -/
def withinCeiling (d : Directory) (c : Call) (roles : List RoleRow)
    (extra : List Permission) : Bool :=
  callerCanGrant (d.caller c) (rolePermissions roles ++ extra.map .dict)

def createRole (d : Directory) (c : Call) (id : Nat) (name : String)
    (permissions : List PermissionEntry) : Option Directory := do
  guard (userHasPermission (d.caller c) "admin" "role" none)
  guard (!d.roles.any fun r => r.name == name)
  guard (callerCanGrant (d.caller c) (permissions.map PermissionEntry.entry))
  guard (d.freshRole id)
  return { d with roles := d.roles ++ [⟨id, name, false, permListToDicts permissions⟩] }

/-- The permissions `update_role` leaves on the role. The ceiling covers what it carries
now (whoever could not have granted it cannot take it away) and what it will. -/
def updatedPermissions (d : Directory) (c : Call) (r : RoleRow) :
    Option (List PermissionEntry) → Option (List Entry)
  | none => some r.permissions
  | some new =>
    if callerCanGrant (d.caller c) (r.permissions ++ new.map PermissionEntry.entry) &&
        c.superadminRemains && c.stepupPassed then
      some (permListToDicts new)
    else none

def updateRole (d : Directory) (c : Call) (roleId : Nat) (name : Option String)
    (permissions : Option (List PermissionEntry)) : Option Directory := do
  guard (userHasPermission (d.caller c) "admin" "role" none)
  let r ← d.roles.find? fun r => r.id == roleId
  guard (!r.isBuiltin)
  guard (name == some r.name || !d.roles.any fun q => q.id != r.id && name == some q.name)
  let carried ← d.updatedPermissions c r permissions
  return { d with
    roles := d.roles.map fun q =>
      if q.id = roleId then { r with name := name.getD r.name, permissions := carried }
      else q }

def deleteRole (d : Directory) (c : Call) (roleId : Nat) : Option Directory := do
  guard (userHasPermission (d.caller c) "admin" "role" none)
  let r ← d.roles.find? fun r => r.id == roleId
  guard (!r.isBuiltin)
  guard (callerCanGrant (d.caller c) r.permissions)
  guard c.superadminRemains
  return { d with
    roles := d.roles.filter fun q => q.id != roleId
    groups := d.groups.map fun g =>
      { g with roleIds := g.roleIds.filter fun i => i != roleId } }

def cloneRole (d : Directory) (c : Call) (id roleId : Nat) (name : String) :
    Option Directory := do
  guard (userHasPermission (d.caller c) "admin" "role" none)
  let src ← d.roles.find? fun r => r.id == roleId
  guard (!d.roles.any fun r => r.name == name)
  guard (callerCanGrant (d.caller c) src.permissions)
  guard (d.freshRole id)
  return { d with roles := d.roles ++ [⟨id, name, false, src.permissions⟩] }

/-- `create_group`: every role is newly attached and every member newly added. -/
def createGroup (d : Directory) (c : Call) (id : Nat) (name : String)
    (roleIds userIds : List Nat) : Option Directory := do
  guard (userHasPermission (d.caller c) "admin" "group" none)
  guard (!d.groups.any fun g => g.name == name)
  let roles ← d.resolveRoles roleIds
  guard (d.withinCeiling c roles [])
  let users ← d.resolveUsers userIds
  guard c.stepupPassed
  guard (!d.groups.any fun g => g.id == id)
  return { d with
    groups := d.groups ++ [⟨id, name, roles.map RoleRow.id, users.map Account.id⟩] }

/-- The roles an edit of a group's role set attaches or detaches. -/
def changedRoles (d : Directory) (g : GroupRow) (newRoles : List RoleRow) : List RoleRow :=
  (newRoles.filter fun r => !g.roleIds.contains r.id) ++
    (d.rolesOf g).filter fun r => !(newRoles.map RoleRow.id).contains r.id

/-- The roles a membership change is bounded by: those the group carries and those the
same edit attaches. -/
def rolesHeld (d : Directory) (g : GroupRow) (newRoles : Option (List RoleRow)) :
    List RoleRow :=
  d.rolesOf g ++
    match newRoles with
    | none => []
    | some roles => roles.filter fun r => !g.roleIds.contains r.id

def sameMembers (newUsers : List Account) (g : GroupRow) : Bool :=
  ((newUsers.map Account.id).all fun i => g.userIds.contains i) &&
    g.userIds.all fun i => (newUsers.map Account.id).contains i

def newRoles (d : Directory) : Option (List Nat) → Option (Option (List RoleRow))
  | none => some none
  | some ids => (d.resolveRoles ids).map some

def newUsers (d : Directory) : Option (List Nat) → Option (Option (List Account))
  | none => some none
  | some ids => (d.resolveUsers ids).map some

def updateGroup (d : Directory) (c : Call) (groupId : Nat) (name : Option String)
    (roleIds userIds : Option (List Nat)) : Option Directory := do
  guard (userHasPermission (d.caller c) "admin" "group" none)
  let g ← d.groups.find? fun g => g.id == groupId
  guard (name == some g.name || !d.groups.any fun h => h.id != g.id && name == some h.name)
  let newRoles ← d.newRoles roleIds
  let newUsers ← d.newUsers userIds
  guard (newRoles.all fun roles => d.withinCeiling c (d.changedRoles g roles) [])
  guard (newUsers.all fun users => sameMembers users g ||
    d.withinCeiling c (d.rolesHeld g newRoles) (c.groupGrants g.id))
  guard (c.superadminRemains && c.stepupPassed)
  return { d with
    groups := d.groups.map fun h =>
      if h.id = groupId then
        { g with
          name := name.getD g.name
          roleIds := (newRoles.map fun roles => roles.map RoleRow.id).getD g.roleIds
          userIds := (newUsers.map fun users => users.map Account.id).getD g.userIds }
      else h }

def deleteGroup (d : Directory) (c : Call) (groupId : Nat) : Option Directory := do
  guard (userHasPermission (d.caller c) "admin" "group" none)
  let g ← d.groups.find? fun g => g.id == groupId
  guard (d.withinCeiling c (d.rolesOf g) (c.groupGrants g.id))
  guard c.superadminRemains
  return { d with groups := d.groups.filter fun h => h.id != groupId }

end Directory

inductive Edit
  | createRole (id : Nat) (name : String) (permissions : List PermissionEntry)
  | updateRole (roleId : Nat) (name : Option String)
      (permissions : Option (List PermissionEntry))
  | deleteRole (roleId : Nat)
  | cloneRole (id roleId : Nat) (name : String)
  | createGroup (id : Nat) (name : String) (roleIds userIds : List Nat)
  | updateGroup (groupId : Nat) (name : Option String) (roleIds userIds : Option (List Nat))
  | deleteGroup (groupId : Nat)

/-- What an accepted request makes of the directory. -/
def Directory.apply (d : Directory) (c : Call) : Edit → Option Directory
  | .createRole id name permissions => d.createRole c id name permissions
  | .updateRole roleId name permissions => d.updateRole c roleId name permissions
  | .deleteRole roleId => d.deleteRole c roleId
  | .cloneRole id roleId name => d.cloneRole c id roleId name
  | .createGroup id name roleIds userIds => d.createGroup c id name roleIds userIds
  | .updateGroup groupId name roleIds userIds => d.updateGroup c groupId name roleIds userIds
  | .deleteGroup groupId => d.deleteGroup c groupId

end SpatiumDdi.Auth

/-!
The privilege ceiling: what a caller may hand on is what the caller holds through
static roles, except for a caller who is a superadmin through a time-bound grant alone.
Where no such caller acts, no run of role and membership edits gives anybody a static
permission that none of the callers held at its start.
-/

namespace SpatiumDdi.Auth

/-- An effective superadmin through a live time-bound grant and not through a role. -/
def temporarySuperadmin (user : User) : Bool :=
  userHasPermission user "*" "*" none && !userRbacAllows user "*" "*" none false

variable {user : User}

theorem isEffectiveSuperadmin_eq (h : user.isSuperadmin = false) :
    isEffectiveSuperadmin user = userHasPermission user "*" "*" none := by
  simp [isEffectiveSuperadmin, h]

variable {a t : String} {rid : Option String}

theorem userRbacAllows_static_iff (h : user.isSuperadmin = false) :
    userRbacAllows user a t rid false ↔ ∃ g ∈ user.groups, ∃ r ∈ g.roles,
      ∃ e ∈ r.permissions, e.allows a t rid := by
  simp [userRbacAllows, h]

variable {e : Entry}

theorem Entry.allows_of_wildcard (h : e.allows "*" "*" none) (a t : String) (rid : Option String) :
    e.allows a t rid := by
  obtain ⟨p, rfl, hp⟩ := Entry.allows_iff.mp h
  obtain ⟨ha, ht, hid⟩ := Permission.allows_iff.mp hp
  apply Permission.allows_iff.mpr
  refine ⟨actionMatches_trans ha ?_, resourceTypeMatches_trans ht ?_, ?_⟩
  · simp [actionMatches]
  · simp [resourceTypeMatches]
  · have hany : p.resourceId.isAny := by simpa [resourceIdMatches_iff] using hid
    exact resourceIdMatches_iff.mpr (.inl hany)

theorem static_of_wildcard (h : user.isSuperadmin = false)
    (hwild : userRbacAllows user "*" "*" none false) (a t : String) (rid : Option String) :
    userRbacAllows user a t rid false := by
  obtain ⟨g, hg, r, hr, e, he, hall⟩ := (userRbacAllows_static_iff h).mp hwild
  exact (userRbacAllows_static_iff h).mpr
    ⟨g, hg, r, hr, e, he, Entry.allows_of_wildcard hall a t rid⟩

theorem Entry.allows_of_permTriple {e' : Entry} {τ : Triple} (hτ : permTriple e = some τ)
    (h : e'.allows τ.action τ.resourceType τ.resourceId) (hall : e.allows a t rid) :
    e'.allows a t rid := by
  obtain ⟨p, rfl, hp⟩ := Entry.allows_iff.mp hall
  obtain rfl := Option.some.inj hτ
  obtain ⟨q, rfl, hq⟩ := Entry.allows_iff.mp h
  obtain ⟨ha, ht, hid⟩ := Permission.allows_iff.mp hq
  refine Permission.allows_trans (Permission.allows_iff.mpr ⟨ha, ht, ?_⟩) hp
  rcases tripleRid_eq p.resourceId with hnone | hscope
  · have hany : q.resourceId.isAny := by simpa [resourceIdMatches_iff, hnone] using hid
    exact resourceIdMatches_iff.mpr (.inl hany)
  · rwa [hscope] at hid

theorem static_of_callerCanGrant (hlegacy : user.isSuperadmin = false)
    (hstatic : temporarySuperadmin user = false) {perms : List Entry}
    (h : callerCanGrant user perms) (he : e ∈ perms) (hall : e.allows a t rid) :
    userRbacAllows user a t rid false := by
  rw [callerCanGrant, isEffectiveSuperadmin_eq hlegacy] at h
  by_cases hsuper : userHasPermission user "*" "*" none
  · apply static_of_wildcard hlegacy
    simpa [temporarySuperadmin, hsuper] using hstatic
  · simp only [hsuper, Bool.false_eq_true, if_false, List.all_eq_true] at h
    have hentry := h e he
    cases hτ : permTriple e with
    | none => simp [hτ] at hentry
    | some τ =>
      simp only [hτ, Bool.if_false_left, Bool.and_eq_true] at hentry
      obtain ⟨g, hg, r, hr, e', he', hheld⟩ :=
        (userRbacAllows_static_iff hlegacy).mp hentry.2.2
      exact (userRbacAllows_static_iff hlegacy).mpr
        ⟨g, hg, r, hr, e', he', Entry.allows_of_permTriple hτ hheld hall⟩

theorem ceiling_iff (hlegacy : user.isSuperadmin = false) :
    (∀ perms, callerCanGrant user perms → ∀ e ∈ perms, ∀ a t rid, e.allows a t rid →
        userRbacAllows user a t rid false) ↔ temporarySuperadmin user = false := by
  constructor
  · intro h
    by_contra htemp
    simp only [Bool.not_eq_false, temporarySuperadmin, Bool.and_eq_true,
      Bool.not_eq_true'] at htemp
    have hgrant : callerCanGrant user [.dict ⟨"*", "*", .null⟩] := by
      simp [callerCanGrant, isEffectiveSuperadmin_eq hlegacy, htemp.1]
    have hheld := h _ hgrant (.dict ⟨"*", "*", .null⟩) (by simp) "*" "*" none (by decide)
    simp [htemp.2] at hheld
  · intro hstatic perms h e he a t rid
    exact static_of_callerCanGrant hlegacy hstatic h he

namespace Directory

/-- What static roles give an account without the legacy flag. -/
def Holds (d : Directory) (v : Account) (p : String × String × Option String) : Prop :=
  ∃ g ∈ d.groups, v.id ∈ g.userIds ∧ ∃ r ∈ d.roles, r.id ∈ g.roleIds ∧
    ∃ e ∈ r.permissions, e.allows p.1 p.2.1 p.2.2

variable {d : Directory}

theorem userRbacAllows_user_iff {v : Account} (hv : v.isSuperadmin = false)
    {timeBound : List Permission} {token : List Entry} :
    userRbacAllows (d.user v timeBound token) a t rid false ↔ d.Holds v (a, t, rid) := by
  rw [userRbacAllows_static_iff hv]
  simp only [user, rolesOf, Holds, List.mem_map, List.mem_filter, List.contains_iff_mem,
    exists_exists_and_eq_and]
  constructor
  · rintro ⟨g, ⟨hg, hv⟩, r, ⟨hr, hrg⟩, he⟩
    exact ⟨g, hg, hv, r, hr, hrg, he⟩
  · rintro ⟨g, hg, hv, r, hr, hrg, he⟩
    exact ⟨g, ⟨hg, hv⟩, r, ⟨hr, hrg⟩, he⟩

theorem heldStatically_iff {v : Account} (hv : v.isSuperadmin = false) :
    d.heldStatically v a t rid ↔ d.Holds v (a, t, rid) :=
  userRbacAllows_user_iff hv

/-- After an edit an account holds only what it or the caller held. -/
def Handed (d d' : Directory) (actor : Account) : Prop :=
  ∀ v p, d'.Holds v p → d.Holds v p ∨ d.Holds actor p

def Bounded (d : Directory) (c : Call) : Prop :=
  ∀ perms, callerCanGrant (d.caller c) perms → ∀ e ∈ perms, ∀ p : String × String × Option String,
    e.allows p.1 p.2.1 p.2.2 → d.Holds c.actor p

variable {c : Call}

theorem bounded_of_static (hlegacy : c.actor.isSuperadmin = false)
    (hstatic : temporarySuperadmin (d.caller c) = false) : d.Bounded c := by
  intro perms hgrant e he p hall
  exact (userRbacAllows_user_iff hlegacy).mp
    (static_of_callerCanGrant hlegacy hstatic hgrant he hall)

variable {r : RoleRow} {roles : List RoleRow}

theorem holds_of_withinCeiling (hc : d.Bounded c) {extra : List Permission}
    (h : d.withinCeiling c roles extra) (hr : r ∈ roles) (he : e ∈ r.permissions)
    {p : String × String × Option String} (hall : e.allows p.1 p.2.1 p.2.2) :
    d.Holds c.actor p := by
  refine hc _ h e (List.mem_append_left _ ?_) p hall
  obtain ⟨q, rfl, -⟩ := Entry.allows_iff.mp hall
  exact List.mem_flatMap.mpr ⟨r, hr, List.mem_filter.mpr ⟨he, rfl⟩⟩

variable {id : Nat} {g : GroupRow}

theorem not_mem_roleIds_of_fresh (h : d.freshRole id) (hg : g ∈ d.groups) : id ∉ g.roleIds := by
  simp only [freshRole, Bool.and_eq_true, Bool.not_eq_true', List.any_eq_false] at h
  simpa using h.2 g hg

theorem handed_of_newRole (h : d.freshRole r.id) (actor : Account) :
    d.Handed { d with roles := d.roles ++ [r] } actor := by
  rintro v p ⟨g, hg, hv, q, hq, hqg, hall⟩
  rcases List.mem_append.mp hq with hold | hnew
  · exact .inl ⟨g, hg, hv, q, hold, hqg, hall⟩
  · obtain rfl := List.mem_singleton.mp hnew
    exact absurd hqg (not_mem_roleIds_of_fresh h hg)

variable {d' : Directory} {name : String}

theorem handed_createRole {permissions : List PermissionEntry}
    (h : d.createRole c id name permissions = some d') : d.Handed d' c.actor := by
  simp only [createRole, Option.bind_eq_bind, Option.bind_eq_some_iff, Option.guard_eq_some',
    Option.pure_def, Option.some.injEq] at h
  obtain ⟨-, -, -, -, -, -, -, hfresh, rfl⟩ := h
  exact handed_of_newRole (r := ⟨id, name, false, permListToDicts permissions⟩) hfresh _

variable {roleId groupId : Nat}

theorem handed_cloneRole (h : d.cloneRole c id roleId name = some d') : d.Handed d' c.actor := by
  simp only [cloneRole, Option.bind_eq_bind, Option.bind_eq_some_iff, Option.guard_eq_some',
    Option.pure_def, Option.some.injEq] at h
  obtain ⟨-, -, src, -, -, -, -, -, -, hfresh, rfl⟩ := h
  exact handed_of_newRole (r := ⟨id, name, false, src.permissions⟩) hfresh _

theorem exists_entry_of_permListToDicts {perms : List PermissionEntry}
    (he : e ∈ permListToDicts perms) (hall : e.allows a t rid) :
    ∃ e' ∈ perms.map PermissionEntry.entry, e'.allows a t rid := by
  simp only [permListToDicts, List.mem_map] at he
  obtain ⟨q, hq, rfl⟩ := he
  refine ⟨q.entry, List.mem_map_of_mem hq, ?_⟩
  by_cases hempty : q.resourceId = some ""
  · obtain ⟨ha, ht, -⟩ := Permission.allows_iff.mp hall
    apply Permission.allows_iff.mpr
    refine ⟨ha, ht, ?_⟩
    simp [hempty, ResourceId.ofRid, resourceIdMatches_iff, ResourceId.isAny]
  · simpa [PermissionEntry.entry, hempty] using hall

theorem handed_updateRole (hc : d.Bounded c) {name : Option String}
    {permissions : Option (List PermissionEntry)}
    (h : d.updateRole c roleId name permissions = some d') : d.Handed d' c.actor := by
  simp only [updateRole, Option.bind_eq_bind, Option.bind_eq_some_iff, Option.guard_eq_some',
    Option.pure_def, Option.some.injEq] at h
  obtain ⟨-, -, r, hfind, -, -, -, -, carried, hcarried, rfl⟩ := h
  rintro v p ⟨g, hg, hv, q', hq', hqg, e, he, hall⟩
  obtain ⟨q, hq, rfl⟩ := List.mem_map.mp hq'
  by_cases hid : q.id = roleId
  · simp only [hid, if_true] at hqg he
    cases permissions with
    | none =>
      -- A rename: the role carries what it carried.
      obtain rfl := Option.some.inj hcarried
      exact .inl ⟨g, hg, hv, r, List.mem_of_find?_eq_some hfind, hqg, e, he, hall⟩
    | some new =>
      simp only [updatedPermissions, Option.ite_none_right_eq_some, Option.some.injEq,
        Bool.and_eq_true, and_assoc] at hcarried
      obtain ⟨hgrant, -, -, rfl⟩ := hcarried
      obtain ⟨e', he', hall'⟩ := exists_entry_of_permListToDicts he hall
      exact .inr (hc _ hgrant e' (List.mem_append_right _ he') p hall')
  · simp only [hid, if_false] at hqg he
    exact .inl ⟨g, hg, hv, q, hq, hqg, e, he, hall⟩

theorem handed_deleteRole (h : d.deleteRole c roleId = some d') : d.Handed d' c.actor := by
  simp only [deleteRole, Option.bind_eq_bind, Option.bind_eq_some_iff, Option.guard_eq_some',
    Option.pure_def, Option.some.injEq] at h
  obtain ⟨-, -, -, -, -, -, -, -, -, -, rfl⟩ := h
  rintro v p ⟨g', hg', hv, q, hq, hqg, he⟩
  obtain ⟨g, hg, rfl⟩ := List.mem_map.mp hg'
  exact .inl ⟨g, hg, hv, q, (List.mem_filter.mp hq).1, (List.mem_filter.mp hqg).1, he⟩

theorem mem_of_resolveRoles {ids : List Nat} (h : d.resolveRoles ids = some roles)
    (hr : r ∈ d.roles) : r ∈ roles ↔ r.id ∈ roles.map RoleRow.id := by
  simp only [resolveRoles, Option.ite_none_right_eq_some, Option.some.injEq] at h
  obtain ⟨-, rfl⟩ := h
  constructor
  · exact List.mem_map_of_mem
  · intro hid
    obtain ⟨q, hq, hqr⟩ := List.mem_map.mp hid
    have hmem := (List.mem_filter.mp hq).2
    exact List.mem_filter.mpr ⟨hr, hqr ▸ hmem⟩

theorem handed_createGroup (hc : d.Bounded c) {roleIds userIds : List Nat}
    (h : d.createGroup c id name roleIds userIds = some d') : d.Handed d' c.actor := by
  simp only [createGroup, Option.bind_eq_bind, Option.bind_eq_some_iff, Option.guard_eq_some',
    Option.pure_def, Option.some.injEq] at h
  obtain ⟨-, -, -, -, roles, hroles, -, hceil, users, -, -, -, -, -, rfl⟩ := h
  rintro v p ⟨g, hg, hv, q, hq, hqg, e, he, hall⟩
  rcases List.mem_append.mp hg with hold | hnew
  · exact .inl ⟨g, hold, hv, q, hq, hqg, e, he, hall⟩
  · obtain rfl := List.mem_singleton.mp hnew
    exact .inr (holds_of_withinCeiling hc hceil ((mem_of_resolveRoles hroles hq).mpr hqg)
      he hall)

theorem mem_of_attached {roleIds : Option (List Nat)} {newRoles : Option (List RoleRow)}
    (h : d.newRoles roleIds = some newRoles) (hr : r ∈ d.roles)
    (hid : r.id ∈ (newRoles.map fun roles => roles.map RoleRow.id).getD g.roleIds)
    (hold : r.id ∉ g.roleIds) :
    ∃ roles, newRoles = some roles ∧ r ∈ roles.filter fun q => !g.roleIds.contains q.id := by
  cases roleIds with
  | none =>
    obtain rfl := Option.some.inj h
    exact absurd hid hold
  | some ids =>
    simp only [Directory.newRoles, Option.map_eq_some_iff] at h
    obtain ⟨roles, hroles, rfl⟩ := h
    refine ⟨roles, rfl, List.mem_filter.mpr ⟨?_, by simpa using hold⟩⟩
    exact (mem_of_resolveRoles hroles hr).mpr hid

theorem not_sameMembers {users : List Account} {i : Nat} (hi : i ∈ users.map Account.id)
    (hold : i ∉ g.userIds) : sameMembers users g = false := by
  rw [sameMembers, Bool.and_eq_false_iff]
  left
  rw [List.all_eq_false]
  exact ⟨i, hi, by simpa using hold⟩

theorem handed_updateGroup (hc : d.Bounded c) {name : Option String}
    {roleIds userIds : Option (List Nat)}
    (h : d.updateGroup c groupId name roleIds userIds = some d') : d.Handed d' c.actor := by
  simp only [updateGroup, Option.bind_eq_bind, Option.bind_eq_some_iff, Option.guard_eq_some',
    Option.pure_def, Option.some.injEq] at h
  obtain ⟨-, -, g, hfind, -, -, newRoles, hroles, newUsers, -, -, hrolesCeil, -, husersCeil,
    -, -, rfl⟩ := h
  rintro v p ⟨g', hg', hv, r, hr, hrg, e, he, hall⟩
  obtain ⟨k, hk, rfl⟩ := List.mem_map.mp hg'
  by_cases hid : k.id = groupId
  swap
  · simp only [hid, if_false] at hv hrg
    exact .inl ⟨k, hk, hv, r, hr, hrg, e, he, hall⟩
  simp only [hid, if_true] at hv hrg
  have hg := List.mem_of_find?_eq_some hfind
  by_cases hmember : v.id ∈ g.userIds
  · by_cases hrole : r.id ∈ g.roleIds
    · exact .inl ⟨g, hg, hmember, r, hr, hrole, e, he, hall⟩
    · -- The edit attaches the role, so the caller could grant it.
      obtain ⟨roles, rfl, hattached⟩ := mem_of_attached hroles hr hrg hrole
      have hceil : d.withinCeiling c (d.changedRoles g roles) [] := by simpa using hrolesCeil
      exact .inr (holds_of_withinCeiling hc hceil (List.mem_append_left _ hattached) he hall)
  · -- The edit adds the member, so the caller could grant every role the group ends with.
    cases newUsers with
    | none => exact absurd hv hmember
    | some users =>
      have hceil : d.withinCeiling c (d.rolesHeld g newRoles) (c.groupGrants g.id) := by
        have hnot : sameMembers users g = false := not_sameMembers hv hmember
        simpa [hnot] using husersCeil
      refine .inr (holds_of_withinCeiling hc hceil ?_ he hall)
      by_cases hrole : r.id ∈ g.roleIds
      · apply List.mem_append_left
        exact List.mem_filter.mpr ⟨hr, by simpa using hrole⟩
      · obtain ⟨roles, rfl, hattached⟩ := mem_of_attached hroles hr hrg hrole
        exact List.mem_append_right _ hattached

theorem handed_deleteGroup (h : d.deleteGroup c groupId = some d') : d.Handed d' c.actor := by
  simp only [deleteGroup, Option.bind_eq_bind, Option.bind_eq_some_iff, Option.guard_eq_some',
    Option.pure_def, Option.some.injEq] at h
  obtain ⟨-, -, -, -, -, -, -, -, rfl⟩ := h
  rintro v p ⟨g, hg, hv, q, hq, hqg, he⟩
  exact .inl ⟨g, (List.mem_filter.mp hg).1, hv, q, hq, hqg, he⟩

theorem handed_apply (hc : d.Bounded c) {edit : Edit} (h : d.apply c edit = some d') :
    d.Handed d' c.actor := by
  cases edit with
  | createRole => exact handed_createRole h
  | updateRole => exact handed_updateRole hc h
  | deleteRole => exact handed_deleteRole h
  | cloneRole => exact handed_cloneRole h
  | createGroup => exact handed_createGroup hc h
  | updateGroup => exact handed_updateGroup hc h
  | deleteGroup => exact handed_deleteGroup h

/-- An accepted request of one of the accounts, whose caller is no temporary
superadmin. -/
def Step (among : Account → Prop) (d d' : Directory) : Prop :=
  ∃ c edit, among c.actor ∧ temporarySuperadmin (d.caller c) = false ∧
    d.apply c edit = some d'

/-- The ceiling of one caller and what it gives over whole runs. For any accounts without
the legacy flag, in any run of their accepted edits in which none of them acts as a
temporary superadmin, nobody among them holds statically at the end what none of them
held statically at the start. -/
theorem privilege_ceiling (among : Account → Prop)
    (hamong : ∀ v, among v → v.isSuperadmin = false) :
    (∀ user : User, user.isSuperadmin = false →
      ((∀ perms, callerCanGrant user perms → ∀ e ∈ perms, ∀ a t rid, e.allows a t rid →
          userRbacAllows user a t rid false) ↔ temporarySuperadmin user = false)) ∧
    ∀ d d' : Directory, Relation.ReflTransGen (Step among) d d' →
      ∀ v, among v → ∀ a t rid, d'.heldStatically v a t rid →
        ∃ w, among w ∧ d.heldStatically w a t rid := by
  refine ⟨fun user => ceiling_iff, fun d d' hrun v hv a t rid hheld => ?_⟩
  have hstep : ∀ s s', Step among s s' → Authority.NothingGained Holds among s s' := by
    rintro s s' ⟨c, edit, hactor, hstatic, happly⟩
    have hbounded := bounded_of_static (hamong _ hactor) hstatic
    exact Authority.nothingGained_of_actor _ _ hactor
      fun v _ p hp => handed_apply hbounded happly v p hp
  obtain ⟨w, hw, hholds⟩ := Authority.nothingGained_of_run _ _ hstep hrun v hv (a, t, rid)
    ((heldStatically_iff (hamong v hv)).mp hheld)
  exact ⟨w, hw, (heldStatically_iff (hamong w hw)).mpr hholds⟩

/-- A delegate who may edit roles and groups, and a newcomer in no group. -/
def delegated : Directory where
  accounts := [⟨1, true, false⟩, ⟨2, true, false⟩]
  roles := [⟨1, "delegate", false, [.dict ⟨"admin", "role", .null⟩,
    .dict ⟨"admin", "group", .null⟩, .dict ⟨"write", "subnet", .null⟩]⟩]
  groups := [⟨1, "delegates", [1], [1]⟩]

/-- The delegate's request, without token and without time-bound grants. -/
def delegateCall : Call where
  actor := ⟨1, true, false⟩
  apiTokenResourceGrants := []
  timeBoundGrants := []
  groupGrants := fun _ => []
  superadminRemains := true
  stepupPassed := true

theorem privilege_ceiling_delegated : ∃ d',
    Relation.ReflTransGen (Step (· ∈ delegated.accounts)) delegated d' ∧
      d'.heldStatically ⟨2, true, false⟩ "write" "subnet" none ∧
      ∃ w, w ∈ delegated.accounts ∧ delegated.heldStatically w "write" "subnet" none := by
  let entry : PermissionEntry := ⟨"write", "subnet", none, by decide, by decide⟩
  obtain ⟨d₁, h₁⟩ := Option.isSome_iff_exists.mp
    (show (delegated.apply delegateCall (.createRole 2 "writers" [entry])).isSome by decide)
  obtain ⟨d₂, h₂⟩ := Option.isSome_iff_exists.mp
    (show (d₁.apply delegateCall (.createGroup 2 "writers" [2] [2])).isSome by
      obtain rfl := Option.some.inj h₁
      decide)
  have hrun : Relation.ReflTransGen (Step (· ∈ delegated.accounts)) delegated d₂ := by
    refine .tail (.single ⟨delegateCall, _, ?_, ?_, h₁⟩) ⟨delegateCall, _, ?_, ?_, h₂⟩
    · decide
    · decide
    · decide
    · obtain rfl := Option.some.inj h₁
      decide
  have hheld : d₂.heldStatically ⟨2, true, false⟩ "write" "subnet" none := by
    obtain rfl := Option.some.inj h₁
    obtain rfl := Option.some.inj h₂
    decide
  have hceiling := (privilege_ceiling (· ∈ delegated.accounts) (by decide)).2 delegated d₂ hrun
  exact ⟨d₂, hrun, hheld, hceiling _ (by decide) _ _ _ hheld⟩

end Directory

/-- A user without any role, with a live time-bound wildcard grant. -/
def timeBoundWildcard : User where
  isActive := true
  isSuperadmin := false
  groups := []
  timeBoundGrants := [⟨"*", "*", .null⟩]
  apiTokenResourceGrants := []

theorem not_ceiling_timeBoundWildcard :
    ¬ ∀ user : User, user.isSuperadmin = false →
      ∀ perms, callerCanGrant user perms → ∀ e ∈ perms, ∀ a t rid, e.allows a t rid →
        userRbacAllows user a t rid false := by
  intro h
  have hheld := h timeBoundWildcard rfl [.dict ⟨"write", "subnet", .null⟩]
    (by decide) _ (List.mem_singleton_self _) "write" "subnet" none (by decide)
  exact absurd hheld (by decide)

end SpatiumDdi.Auth
