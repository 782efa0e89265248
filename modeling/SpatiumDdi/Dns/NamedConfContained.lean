import SpatiumDdi.Dns.NamedConfElements

/-!
An accepted list stays inside its statement where the loose parts of its elements are clean: then
named.conf's lexer reads it as its elements, one per entry.
-/

namespace SpatiumDdi.Dns.MatchList

open Text Ipaddress
open ConfText hiding Chars

/-- What a returned list is: clean elements of one form, which the lexer reads one per entry. -/
structure Contained (form : Chars → Prop) (out : List Chars) : Prop where
  clean : ∀ r ∈ out, clean r = true
  form : ∀ r ∈ out, form r
  read : lex (rendered out) = entryTokens out

theorem forall₂_of_mapM_ok {α β ε : Type} {f : α → Except ε β} {l : List α} {m : List β}
    (h : l.mapM f = .ok m) : List.Forall₂ (fun a b => f a = .ok b) l m := by
  induction l generalizing m with
  | nil =>
    rw [List.mapM_nil] at h
    obtain rfl := Except.ok.inj h
    exact .nil
  | cons a l ih =>
    rw [List.mapM_cons] at h
    cases ha : f a with
    | error e =>
      rw [ha] at h
      cases h
    | ok b =>
      rw [ha] at h
      cases hl : l.mapM f with
      | error e =>
        change (l.mapM f >>= fun bs => pure (b :: bs)) = .ok m at h
        rw [hl] at h
        cases h
      | ok bs =>
        change (l.mapM f >>= fun bs => pure (b :: bs)) = .ok m at h
        rw [hl] at h
        obtain rfl := Except.ok.inj h
        exact .cons ha (ih hl)

variable {field : Chars}

theorem atElement_ok {α : Type} {element : Chars} {result : Except Complaint α} {a : α}
    (h : atElement field element result = .ok a) : result = .ok a := by
  cases result with
  | error complaint => cases h
  | ok b => rw [Except.ok.inj h]

variable {elements out : List Chars}

theorem contained_iff_of_forall₂ {R : Chars → Chars → Prop} {form : Chars → Prop}
    {loose : Chars → List Chars}
    (hR : ∀ e r, R e r → form r ∧ (ConfText.clean r = true ↔ ∀ part ∈ loose e, ConfText.clean part = true))
    (h : List.Forall₂ R elements out) :
    Contained form out ↔ ∀ e ∈ elements, ∀ part ∈ loose e, ConfText.clean part = true := by
  have hform : ∀ r ∈ out, form r := by
    induction h with
    | nil => exact nofun
    | cons hr _ ih => exact List.forall_mem_cons.2 ⟨(hR _ _ hr).1, ih⟩
  have hclean : (∀ r ∈ out, ConfText.clean r = true) ↔
      ∀ e ∈ elements, ∀ part ∈ loose e, ConfText.clean part = true := by
    induction h with
    | nil => exact iff_of_true nofun nofun
    | cons hr _ ih =>
      rw [List.forall_mem_cons, List.forall_mem_cons, (hR _ _ hr).2,
        ih fun r hr => hform r (List.mem_cons_of_mem _ hr)]
  rw [← hclean]
  exact ⟨fun h => h.clean, fun h => ⟨h, hform, lex_rendered h⟩⟩

variable {names : Names}

theorem contained_of_addressMatchList {refused : Bool}
    (h : validateAddressMatchList names field false refused elements = .ok out) :
    Contained (MatchEntry names) out ↔
      ∀ e ∈ elements, ∀ part ∈ looseElement e, ConfText.clean part = true := by
  refine contained_iff_of_forall₂ ?_ (forall₂_of_mapM_ok h)
  intro e r hr
  cases hcheck : atElement field e (validateElement names false refused e) with
  | error err =>
    rw [hcheck] at hr
    cases hr
  | ok u =>
    rw [hcheck] at hr
    obtain rfl := Except.ok.inj hr
    exact validateElement_ok (atElement_ok hcheck)

theorem contained_of_forwarders (h : validateForwarders field elements = .ok out) :
    Contained (fun r => ForwarderEntry (canonicalForwarder r)) out ↔
      ∀ e ∈ elements, ∀ part ∈ looseForwarder e, ConfText.clean part = true := by
  refine contained_iff_of_forall₂ ?_ (forall₂_of_mapM_ok h)
  intro e r hr
  obtain ⟨-, hform, hclean, -⟩ := validateForwarder_ok (atElement_ok hr)
  exact ⟨hform, hclean⟩

theorem contained_of_alsoNotify (h : validateAlsoNotify names field elements = .ok out) :
    Contained (NotifyEntry names) out ↔
      ∀ e ∈ elements, ∀ part ∈ looseNotify e, ConfText.clean part = true := by
  refine contained_iff_of_forall₂ ?_ (forall₂_of_mapM_ok h)
  intro e r hr
  exact validateNotify_ok (atElement_ok hr)

theorem contained_of_zoneForwarders (h : validateZoneForwarders field elements = .ok out) :
    Contained ForwarderEntry out ↔
      ∀ e ∈ elements, ∀ part ∈ looseZoneForwarder e, ConfText.clean part = true := by
  cases hcleaned : validateForwarders field (elements.map spelledOut) with
  | error err =>
    rw [validateZoneForwarders, hcleaned] at h
    cases h
  | ok cleaned =>
    rw [validateZoneForwarders, hcleaned] at h
    obtain rfl := Except.ok.inj h
    have hall := List.forall₂_map_left_iff.1 (forall₂_of_mapM_ok hcleaned)
    refine contained_iff_of_forall₂ (R := fun e r => ∃ c, validateForwarder (spelledOut e) = .ok c ∧
      r = canonicalForwarder c) ?_ (List.forall₂_map_right_iff.2 (hall.imp ?_))
    · rintro e r ⟨c, hc, rfl⟩
      obtain ⟨-, hform, -, hclean⟩ := validateForwarder_ok hc
      refine ⟨hform, ?_⟩
      rw [hclean, looseZoneForwarder, List.forall_mem_singleton]
    · intro e c hc
      exact ⟨c, atElement_ok hc, rfl⟩

inductive Gate where
  | addressMatchList (field : Chars) (allowBind9RefusedPrefixes : Bool)
  | serverOption (option : ListOption)
  | zoneForwarders (field : Chars)
  | aclEntries (field : Chars)

def Gate.run (names : Names) : Gate → List Chars → Except ViewValidationError (List Chars)
  | addressMatchList field refused => validateAddressMatchList names field false refused
  | serverOption option => validateServerOption names option
  | zoneForwarders field => validateZoneForwarders field
  | aclEntries field => validateAclEntries names field

def Gate.form (names : Names) : Gate → Chars → Prop
  | serverOption .forwarders => fun r => ForwarderEntry (canonicalForwarder r)
  | serverOption .alsoNotify => NotifyEntry names
  | zoneForwarders _ => ForwarderEntry
  | _ => MatchEntry names

def Gate.loose : Gate → Chars → List Chars
  | serverOption .forwarders => looseForwarder
  | serverOption .alsoNotify => looseNotify
  | zoneForwarders _ => looseZoneForwarder
  | _ => looseElement

theorem addressMatchList_of_serverOption (option : ListOption) {value : List Chars}
    (hforwarders : option ≠ .forwarders) (hnotify : option ≠ .alsoNotify)
    (h : validateServerOption names option value = .ok out) :
    validateAddressMatchList names option.field false false value = .ok out := by
  have hlist : (validateAddressMatchList names option.field false false value >>= fun cleaned =>
      (if option = ListOption.allowTransfer then refuseMixedNone option.field cleaned else pure ())
        >>= fun _ => pure cleaned) = .ok out := by
    cases option with
    | forwarders => exact absurd rfl hforwarders
    | alsoNotify => exact absurd rfl hnotify
    | _ => exact h
  cases hcleaned : validateAddressMatchList names option.field false false value with
  | error err =>
    rw [hcleaned] at hlist
    cases hlist
  | ok cleaned =>
    rw [hcleaned] at hlist
    change ((if option = ListOption.allowTransfer then refuseMixedNone option.field cleaned
      else pure ()) >>= fun _ => pure cleaned) = .ok out at hlist
    generalize (if option = ListOption.allowTransfer then refuseMixedNone option.field cleaned
      else pure ()) = mixed at hlist
    cases mixed with
    | error err => cases hlist
    | ok u => exact hlist

/-- A list that a gate returns stays inside its statement exactly where its loose parts are
clean. -/
theorem contained_iff (names : Names) (gate : Gate) (elements out : List Chars)
    (h : gate.run names elements = .ok out) :
    Contained (gate.form names) out ↔
      ∀ e ∈ elements, ∀ part ∈ gate.loose e, ConfText.clean part = true := by
  cases gate with
  | addressMatchList field refused => exact contained_of_addressMatchList h
  | zoneForwarders field => exact contained_of_zoneForwarders h
  | aclEntries field => exact contained_of_addressMatchList h
  | serverOption option =>
    have hlist : option ≠ .forwarders → option ≠ .alsoNotify →
        (Contained (MatchEntry names) out ↔
          ∀ e ∈ elements, ∀ part ∈ looseElement e, ConfText.clean part = true) := by
      intro hforwarders hnotify
      exact contained_of_addressMatchList
        (addressMatchList_of_serverOption option hforwarders hnotify h)
    cases option with
    | forwarders => exact contained_of_forwarders h
    | alsoNotify => exact contained_of_alsoNotify h
    | _ => exact hlist (by decide) (by decide)

/-- A key with a negation, and a prefix. -/
theorem contained_plain : Contained (MatchEntry ⟨[], ["office".toList]⟩)
    ["! key office".toList, "10.0.0.0/8".toList] :=
  (contained_iff _ (.aclEntries "entries".toList) [" ! key office".toList, "10.0.0.0/8 ".toList] _
    rfl).2 (by decide +kernel)

def statementInZone : Chars := "fe80::1%x; \x7d; options \x7b".toList

theorem not_contained_zone :
    (Gate.serverOption .allowQuery).run ⟨[], []⟩ [statementInZone] = .ok [statementInZone] ∧
      ¬ Contained (MatchEntry ⟨[], []⟩) [statementInZone] := by
  refine ⟨rfl, ?_⟩
  intro h
  exact absurd (h.clean _ (List.mem_singleton_self _)) (by decide +kernel)

end SpatiumDdi.Dns.MatchList
