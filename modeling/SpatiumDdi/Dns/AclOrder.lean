import Mathlib.Data.String.Basic
import SpatiumDdi.Dns.MatchList
import SpatiumDdi.Lib.DepthFirst

/-!
The order that a group's ACLs are rendered in (`order_acls_for_render`). BIND reads them from the
top, so each stands after the ones that it refers to.
-/

namespace SpatiumDdi.Dns.MatchList

open Ipaddress DepthFirst

structure AclEntry where
  value : Chars
  negate : Bool

structure Acl where
  name : Chars
  entries : List AclEntry

/-- `AclCycleError`, with the names that its message joins. -/
structure AclCycleError where
  name : Chars
  loop : List Chars

def AclCycleError.message (e : AclCycleError) : Chars :=
  "ACL '".toList ++ e.name ++ "' references itself through ".toList ++
    " → ".toList.intercalate e.loop ++
    (". BIND cannot resolve a circular ACL, and the whole server group's config " ++
      "would be refused.").toList

def byName (acls : List Acl) (name : Chars) : Option Acl := acls.reverse.find? (·.name = name)

def refs (acls : List Acl) (name : Chars) : List Chars :=
  match byName acls name with
  | none => []
  | some acl =>
    (acl.entries.filterMap fun entry => isNameReference entry.value).filter fun target =>
      (byName acls target).isSome

def sortedNames (acls : List Acl) : List Chars :=
  (acls.map (·.name)).dedup.insertionSort (· ≤ ·)

/-- How `order_acls_for_render` fails: the search never runs out of its fuel. -/
inductive Failure where
  | cycle (e : AclCycleError)
  | fuel

def orderAclsForRender (acls : List Acl) : Except Failure (List Acl) :=
  match order (refs acls) (sortedNames acls) with
  | .ok names => .ok (names.filterMap (byName acls))
  | .error (.cycle name path) =>
    .error (.cycle ⟨name, path.drop (path.idxOf name) ++ [name]⟩)
  | .error .fuel => .error .fuel

def RefersTo (acls : List Acl) (a b : Acl) : Prop :=
  a ∈ acls ∧ b ∈ acls ∧ ∃ entry ∈ a.entries, isNameReference entry.value = some b.name

variable {acls acls' : List Acl} {a b : Acl} {x y : Chars}

theorem byName_eq_some (h : (acls.map (·.name)).Nodup) :
    byName acls x = some a ↔ a ∈ acls ∧ a.name = x := by
  constructor
  · intro hfind
    exact ⟨List.mem_reverse.mp (List.mem_of_find?_eq_some hfind),
      by simpa using List.find?_some hfind⟩
  · rintro ⟨ha, rfl⟩
    cases hfind : byName acls a.name with
    | none => exact absurd (List.find?_eq_none.mp hfind a (List.mem_reverse.mpr ha)) (by simp)
    | some b =>
      have hb : b ∈ acls := List.mem_reverse.mp (List.mem_of_find?_eq_some hfind)
      have hname : b.name = a.name := by simpa using List.find?_some hfind
      rw [List.inj_on_of_nodup_map h hb ha hname]

theorem isSome_byName (h : (acls.map (·.name)).Nodup) :
    (byName acls x).isSome ↔ ∃ a ∈ acls, a.name = x := by
  rw [Option.isSome_iff_exists]
  exact exists_congr fun a => byName_eq_some h

theorem mem_sortedNames : x ∈ sortedNames acls ↔ ∃ a ∈ acls, a.name = x := by
  rw [sortedNames, (List.perm_insertionSort _ _).mem_iff, List.mem_dedup, List.mem_map]

theorem nodup_sortedNames (acls : List Acl) : (sortedNames acls).Nodup :=
  (List.perm_insertionSort _ _).nodup_iff.mpr (List.nodup_dedup _)

theorem perm_sortedNames (h : (acls.map (·.name)).Nodup) :
    (sortedNames acls).Perm (acls.map (·.name)) := by
  rw [sortedNames, h.dedup]
  exact List.perm_insertionSort _ _

theorem byName_perm (h : (acls.map (·.name)).Nodup) (hperm : acls'.Perm acls) :
    byName acls' = byName acls := by
  have h' : (acls'.map (·.name)).Nodup := (hperm.map _).nodup_iff.mpr h
  funext x
  apply Option.ext
  intro a
  rw [byName_eq_some h, byName_eq_some h', hperm.mem_iff]

theorem sortedNames_perm (hperm : acls'.Perm acls) : sortedNames acls' = sortedNames acls := by
  have hdedup : ((acls'.map (·.name)).dedup).Perm ((acls.map (·.name)).dedup) :=
    (hperm.map _).dedup
  refine List.Perm.eq_of_pairwise' (List.pairwise_insertionSort _ _)
    (List.pairwise_insertionSort _ _) ?_
  exact ((List.perm_insertionSort _ _).trans hdedup).trans (List.perm_insertionSort _ _).symm

section

variable (h : (acls.map (·.name)).Nodup)
include h

theorem mem_refs (ha : a ∈ acls) : y ∈ refs acls a.name ↔ ∃ b, RefersTo acls a b ∧ b.name = y := by
  rw [refs, (byName_eq_some h).mpr ⟨ha, rfl⟩]
  simp only [List.mem_filter, List.mem_filterMap, isSome_byName h]
  constructor
  · rintro ⟨⟨entry, hentry, hname⟩, b, hb, rfl⟩
    exact ⟨b, ⟨ha, hb, entry, hentry, hname⟩, rfl⟩
  · rintro ⟨b, ⟨-, hb, entry, hentry, hname⟩, rfl⟩
    exact ⟨⟨entry, hentry, hname⟩, b, hb, rfl⟩

theorem refs_closed : ∀ x ∈ sortedNames acls, ∀ y ∈ refs acls x, y ∈ sortedNames acls := by
  intro x hx y hy
  obtain ⟨a, ha, rfl⟩ := mem_sortedNames.mp hx
  obtain ⟨b, hb, rfl⟩ := (mem_refs h ha).mp hy
  exact mem_sortedNames.mpr ⟨b, hb.2.1, rfl⟩

theorem transGen_of_names (hxy : Relation.TransGen (Refers (refs acls)) x y) (ha : a ∈ acls)
    (hx : a.name = x) : ∃ b ∈ acls, b.name = y ∧ Relation.TransGen (RefersTo acls) a b := by
  subst hx
  induction hxy with
  | single hxy =>
    obtain ⟨b, hb, rfl⟩ := (mem_refs h ha).mp hxy
    exact ⟨b, hb.2.1, rfl, .single hb⟩
  | tail _ hyz ih =>
    obtain ⟨b, hb, rfl, hab⟩ := ih
    obtain ⟨c, hc, rfl⟩ := (mem_refs h hb).mp hyz
    exact ⟨c, hc.2.1, rfl, hab.tail hc⟩

theorem cyclic_iff :
    (∃ x ∈ sortedNames acls, Relation.TransGen (Refers (refs acls)) x x) ↔
      ∃ a, Relation.TransGen (RefersTo acls) a a := by
  constructor
  · rintro ⟨x, hx, hcycle⟩
    obtain ⟨a, ha, rfl⟩ := mem_sortedNames.mp hx
    obtain ⟨b, hb, hname, hab⟩ := transGen_of_names h hcycle ha rfl
    rw [List.inj_on_of_nodup_map h hb ha hname] at hab
    exact ⟨a, hab⟩
  · rintro ⟨a, hcycle⟩
    obtain ⟨b, hab, -⟩ := Relation.TransGen.head'_iff.mp hcycle
    exact ⟨a.name, mem_sortedNames.mpr ⟨a, hab.1, rfl⟩,
      hcycle.lift (·.name) fun a b hab => (mem_refs h hab.1).mpr ⟨b, hab, rfl⟩⟩

theorem filterMap_byName {out : List Acl} (hmem : ∀ a ∈ out, a ∈ acls) :
    (out.map (·.name)).filterMap (byName acls) = out := by
  induction out with
  | nil => rfl
  | cons a out ih =>
    rw [List.map_cons, List.filterMap_cons,
      (byName_eq_some h).mpr ⟨hmem a List.mem_cons_self, rfl⟩,
      ih fun b hb => hmem b (List.mem_cons_of_mem _ hb)]

end

theorem exists_acls {names : List Chars} (h : ∀ x ∈ names, ∃ a ∈ acls, a.name = x) :
    ∃ out : List Acl, out.map (·.name) = names ∧ ∀ a ∈ out, a ∈ acls := by
  induction names with
  | nil => exact ⟨[], rfl, fun _ ha => (List.not_mem_nil ha).elim⟩
  | cons x names ih =>
    obtain ⟨a, ha, hname⟩ := h x List.mem_cons_self
    obtain ⟨out, hout, hmem⟩ := ih fun y hy => h y (List.mem_cons_of_mem _ hy)
    refine ⟨a :: out, by rw [List.map_cons, hname, hout], fun b hb => ?_⟩
    rcases List.mem_cons.mp hb with rfl | hb
    · exact ha
    · exact hmem b hb

theorem orderAclsForRender_spec (h : (acls.map (·.name)).Nodup) :
    (∃ out, orderAclsForRender acls = .ok out ∧ out.Perm acls ∧ Respects (RefersTo acls) out) ∨
      ∃ e, orderAclsForRender acls = .error (.cycle e) ∧
        ∃ a, Relation.TransGen (RefersTo acls) a a := by
  rcases order_spec (nodup_sortedNames acls) (refs_closed h) with
    ⟨names, hok, hperm, hrespects⟩ | ⟨x, path, herror, hx, hcycle⟩
  · obtain ⟨out, rfl, hmem⟩ := exists_acls fun x hx => mem_sortedNames.mp (hperm.mem_iff.mp hx)
    have hnames : (out.map (·.name)).Perm (acls.map (·.name)) := hperm.trans (perm_sortedNames h)
    have hnodup : out.Nodup := (hnames.nodup_iff.mpr h).of_map _
    refine .inl ⟨out, by rw [orderAclsForRender, hok]; exact congrArg _ (filterMap_byName h hmem),
      (List.perm_ext_iff_of_nodup hnodup (h.of_map _)).mpr fun a => ⟨hmem a, fun ha => ?_⟩, ?_⟩
    · obtain ⟨b, hb, hname⟩ := List.mem_map.mp
        (hnames.mem_iff.mpr (List.mem_map.mpr ⟨a, ha, rfl⟩))
      rwa [← List.inj_on_of_nodup_map h (hmem b hb) ha hname]
    · intro pre b post hout a hba
      have hsplit : out.map (·.name) = pre.map (·.name) ++ b.name :: post.map (·.name) := by
        rw [hout, List.map_append, List.map_cons]
      obtain ⟨c, hc, hname⟩ := List.mem_map.mp
        (hrespects _ _ _ hsplit a.name ((mem_refs h hba.1).mpr ⟨a, hba, rfl⟩))
      have hcmem : c ∈ acls := hmem c (by rw [hout]; exact List.mem_append_left _ hc)
      rwa [← List.inj_on_of_nodup_map h hcmem hba.2.1 hname]
  · exact .inr ⟨_, by rw [orderAclsForRender, herror], (cyclic_iff h).mp ⟨x, hx, hcycle⟩⟩

/-- The ACLs are refused exactly if their references have a cycle, and are else put in order,
whatever order they came in. -/
theorem order_acls_exact (acls : List Acl) (h : (acls.map (·.name)).Nodup) :
    ((∃ e, orderAclsForRender acls = .error (.cycle e)) ↔
      ∃ a, Relation.TransGen (RefersTo acls) a a) ∧
    ((¬ ∃ a, Relation.TransGen (RefersTo acls) a a) →
      ∃ out, orderAclsForRender acls = .ok out ∧ out.Perm acls ∧ Respects (RefersTo acls) out) ∧
    ∀ acls' : List Acl, acls'.Perm acls → orderAclsForRender acls' = orderAclsForRender acls := by
  refine ⟨⟨?_, fun hcycle => ?_⟩, fun hacyclic => ?_, fun acls' hperm => ?_⟩
  · rintro ⟨e, herror⟩
    rcases orderAclsForRender_spec h with ⟨out, hok, -⟩ | ⟨_, -, hcycle⟩
    · rw [hok] at herror
      cases herror
    · exact hcycle
  · rcases orderAclsForRender_spec h with ⟨out, -, hperm, horder⟩ | ⟨e, herror, -⟩
    · obtain ⟨a, hcycle⟩ := hcycle
      obtain ⟨b, hab, -⟩ := Relation.TransGen.head'_iff.mp hcycle
      exact absurd hcycle (horder.not_transGen (hperm.nodup_iff.mpr (h.of_map _))
        (hperm.mem_iff.mpr hab.1))
    · exact ⟨e, herror⟩
  · exact (orderAclsForRender_spec h).resolve_right fun ⟨_, _, hcycle⟩ => hacyclic hcycle
  · have hbyName := byName_perm h hperm
    have hrefs : refs acls' = refs acls := by
      funext x
      rw [refs, refs, hbyName]
    rw [orderAclsForRender, orderAclsForRender, hrefs, sortedNames_perm hperm, hbyName]

/-- A group's ACLs, one of them over another. -/
def officeAcls : List Acl :=
  [⟨"trusted".toList, [⟨"!guests".toList, true⟩, ⟨"office".toList, false⟩]⟩,
    ⟨"office".toList, [⟨"10.0.0.0/8".toList, false⟩]⟩]

theorem order_acls_exact_office :
    (¬ ∃ a, Relation.TransGen (RefersTo officeAcls) a a) ∧
    ∃ out, orderAclsForRender officeAcls = .ok out ∧ out.Perm officeAcls ∧
      Respects (RefersTo officeAcls) out := by
  have h := order_acls_exact officeAcls (by decide)
  have hacyclic : ¬ ∃ a, Relation.TransGen (RefersTo officeAcls) a a := by
    rw [← h.1]
    rintro ⟨e, herror⟩
    have hok : orderAclsForRender officeAcls = .ok officeAcls.reverse := by rfl
    rw [hok] at herror
    cases herror
  exact ⟨hacyclic, h.2.1 hacyclic⟩

end SpatiumDdi.Dns.MatchList
