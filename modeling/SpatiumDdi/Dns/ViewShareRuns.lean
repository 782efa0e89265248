import SpatiumDdi.Lib.Runs
import SpatiumDdi.Dns.ViewShare

/-!
Sharing is invisible along runs of applies, client updates and dumps.

A render keeps two trees related view by view; what it has defined so far it has defined in both. The one
thing that can part them is a copy that is kept with client records in memory by a render that gives it no
share key, since only a keyed render marks it.
-/

namespace SpatiumDdi.Dns.ViewShare

open Runs

universe u v

variable {ρ : Type u} {ω : Type v} [DecidableEq ρ]

def Kept (prev : Tree ρ ω) (foreignLoopback : Bool) (vz : View × Zone ρ ω) : Prop :=
  foreignLoopback = true → vz.2.kind = .primary → vz.2.dynamicUpdateEnabled = false →
    ∀ copy ∈ prev.live (vz.2.name, vz.1.name), copy.mayHoldUnrendered = true →
      copy.file ≠ .render vz.2.lines

def slot (vz : View × Zone ρ ω) : At := (vz.2.name, vz.1.name)

variable {shared separate : Tree ρ ω} {foreignLoopback : Bool} {zone : Zone ρ ω} {view : View}

theorem Related.shows (h : Related shared separate) {k : At} {copy : Copy ρ}
    (hlive : copy ∈ shared.live k) : copy.Shows := by
  cases h.at_ k with
  | absent hs _ => simp [Tree.live, hs] at hlive
  | own allowQuery zone c hs _ hshows =>
    simp only [Tree.live, hs, Option.bind_some, Place.copy] at hlive
    exact hshows copy hlive
  | inView allowQuery owner zone zone' c hs _ _ _ _ _ =>
    simp [Tree.live, hs, Place.copy] at hlive

theorem Related.nextCopy_eq (h : Related shared separate) (k : At) (zone : Zone ρ ω)
    (hasKey : Bool) :
    nextCopy (separate.live k) (viewCarrySource separate k) zone hasKey =
      nextCopy (shared.live k) (viewCarrySource shared k) zone hasKey := by
  cases h.at_ k with
  | absent hs hp => simp [Tree.live, viewCarrySource, Tree.inView, hs, hp]
  | own allowQuery zone' copy hs hp _ =>
    cases copy with
    | none => simp [Tree.live, viewCarrySource, Tree.inView, hs, hp, Place.owner, Place.copy]
    | some c => simp [Tree.live, viewCarrySource, hs, hp, Place.copy]
  | inView allowQuery owner zone' zone'' copy hs hp howner _ _ hfresh =>
    have hlive : shared.live k = none := by simp [Tree.live, hs, Place.copy]
    have hsource : viewCarrySource shared k = copy := by
      simp [viewCarrySource, Tree.inView, Tree.live, hs, howner, Place.owner, Place.copy]
    have hlive' : separate.live k = copy := by simp [Tree.live, hp, Place.copy]
    have hsource' : viewCarrySource separate k = none := by
      cases copy with
      | none => simp [viewCarrySource, hlive', Tree.inView, hp, Place.owner]
      | some c => simp [viewCarrySource, hlive']
    rw [hlive, hsource, hlive', hsource', nextCopy_of_fresh hfresh (by simp),
      nextCopy_of_fresh (by simp) hfresh]

/-- A zone that is the same apart from its view has the same stanza, file and kind. -/
structure SameBody (zone zone' : Zone ρ ω) : Prop where
  name : zone.name = zone'.name
  kind : zone.kind = zone'.kind
  dynamic : zone.dynamicUpdateEnabled = zone'.dynamicUpdateEnabled
  lines : zone.lines = zone'.lines

omit [DecidableEq ρ] in
theorem sameBody {zone' : Zone ρ ω} (h : zone.body = zone'.body) : SameBody zone zone' := by
  simp only [Zone.body, Zone.mk.injEq] at h
  exact ⟨h.1, h.2.2.1, h.2.2.2.1, h.2.2.2.2.1⟩

structure RenderRelated (prev : Tree ρ ω) (foreignLoopback : Bool) (shared separate : Render ρ ω) :
    Prop where
  at_ : ∀ k, RelatedAt foreignLoopback shared.placed separate.placed k
  defined : ∀ zname key owner, shared.definedIn (zname, key) = some owner →
    ∃ zone, zone.body = key.1 ∧ zone.name = zname ∧ zone.hasStanza = true ∧
      zoneAcceptsUpdates zone foreignLoopback = false ∧
      shared.placed (zname, owner) = some ⟨key.2, .own zone
        (if zone.kind = .primary then
          some (nextCopy (prev.live (zname, owner)) (viewCarrySource prev (zname, owner)) zone true)
        else none)⟩

theorem RelatedAt.update_of_ne {placed placed' : At → Option (Placed ρ ω)} {k k' : At}
    (h : RelatedAt foreignLoopback placed placed' k') (hk : k' ≠ k) (hempty : placed k = none)
    (p p' : Option (Placed ρ ω)) :
    RelatedAt foreignLoopback (Function.update placed k p) (Function.update placed' k p') k' := by
  cases h with
  | absent hs hp => exact .absent (by simpa [hk] using hs) (by simpa [hk] using hp)
  | own allowQuery zone copy hs hp hshows =>
    exact .own allowQuery zone copy (by simpa [hk] using hs) (by simpa [hk] using hp) hshows
  | inView allowQuery owner zone zone' copy hs hp howner hbody hrefuses hfresh =>
    have hne : (k'.1, owner) ≠ k := by
      rintro rfl
      rw [hempty] at howner
      cases howner
    exact .inView allowQuery owner zone zone' copy (by simpa [hk] using hs) (by simpa [hk] using hp)
      (by simpa [hne] using howner) hbody hrefuses hfresh

omit [DecidableEq ρ] in
theorem viewShareKey_eq_some {key : ShareKey ρ ω}
    (h : viewShareKey zone view foreignLoopback = some key) :
    key = (zone.body, view.allowQuery) ∧ zoneAcceptsUpdates zone foreignLoopback = false := by
  obtain ⟨hshares, h⟩ := Option.ite_none_left_eq_some.mp h
  simp only [Bool.or_eq_true, not_or, Bool.not_eq_true] at hshares
  exact ⟨(Option.some.inj h).symm, hshares.2⟩

omit [DecidableEq ρ] in
theorem accepts_of_viewShareKey (hstanza : zone.hasStanza = true) (hprimary : zone.kind = .primary)
    (h : (viewShareKey zone view foreignLoopback).isSome = false) :
    zoneAcceptsUpdates zone foreignLoopback = true := by
  have hname : zone.name ≠ "" := by
    simp only [Zone.hasStanza, Bool.and_eq_true, decide_eq_true_eq] at hstanza
    exact hstanza.1
  by_contra hrefuses
  simp [viewShareKey, hname, hprimary, Kind.isForward, hrefuses] at h

theorem not_shareWouldMerge {zname view owner : String} {lines : List ρ}
    (h : shareWouldMerge shared zname view owner (some (.render lines)) = false)
    (hrelated : Related shared separate) {w : String} (hw : w = view ∨ w = owner) :
    ∀ copy ∈ shared.live (zname, w), copy.mayHoldUnrendered = true → copy.file ≠ .render lines := by
  intro copy hlive hholds hfile
  rw [shareWouldMerge] at h
  split at h
  · -- the pair is shared already
    rename_i hview
    cases hrelated.at_ (zname, view) with
    | absent hs _ => simp [Tree.inView, hs] at hview
    | own _ _ _ hs _ _ => simp [Tree.inView, hs, Place.owner] at hview
    | inView _ owner' _ _ c hs _ howner _ _ hfresh =>
      have hsame : owner' = owner := by simpa [Tree.inView, hs, Place.owner] using hview
      subst hsame
      rcases hw with rfl | rfl
      · simp [Tree.live, hs, Place.copy] at hlive
      · simp only [Tree.live, howner, Option.bind_some, Place.copy] at hlive
        obtain ⟨lines', rfl⟩ := hfresh copy hlive
        cases hholds
  · have hnone := List.any_eq_false.mp h w (by simpa using hw)
    rw [Option.mem_def] at hlive
    simp [hlive, hholds, hfile] at hnone

variable [DecidableEq ω] {render render' : Render ρ ω} {bundle : Bundle ρ ω}

section

variable (hprev : Related shared separate)
include hprev

section

variable (h : RenderRelated shared foreignLoopback render render')
include h

section

variable (hempty : render.placed (zone.name, view.name) = none)
include hempty

theorem renderRelated_inView {owner : String}
    (howner : sharedFrom shared render view zone foreignLoopback = some owner) :
    RenderRelated shared foreignLoopback (placeInView render view zone owner)
      (placeOwn separate render' view zone foreignLoopback) ∧ zone.hasStanza = true := by
  obtain ⟨key, hkey, hdefined⟩ := Option.bind_eq_some_iff.mp howner
  obtain ⟨hdefined, hapart⟩ := Option.filter_eq_some_iff.mp hdefined
  obtain ⟨rfl, hrefuses⟩ := viewShareKey_eq_some hkey
  obtain ⟨zone', hbody, -, hstanza, hrefuses', hplaced⟩ := h.defined _ _ _ hdefined
  have hsame := sameBody hbody
  have hstanza' : zone.hasStanza = true := by
    rwa [Zone.hasStanza, hsame.name, hsame.kind, ← Zone.hasStanza] at hstanza
  have hstatic : zone.dynamicUpdateEnabled = false := by
    rw [zoneAcceptsUpdates, Bool.or_eq_false_iff] at hrefuses
    exact hrefuses.1
  have hstatic' : zone'.dynamicUpdateEnabled = false := hsame.dynamic.trans hstatic
  refine ⟨⟨fun k => ?_, fun zname key owner' hdef => ?_⟩, hstanza'⟩
  · by_cases hk : k = (zone.name, view.name)
    · subst hk
      have hne : (zone.name, owner) ≠ (zone.name, view.name) := by
        intro heq
        rw [heq, hempty] at hplaced
        cases hplaced
      have hfresh : zone.kind = .primary → ∀ w hasKey, w = view.name ∨ w = owner →
          nextCopy (shared.live (zone.name, w)) (viewCarrySource shared (zone.name, w)) zone hasKey =
            .fresh zone.lines := by
        intro hprimary w hasKey hw
        have hstaged : render.staged (zone.name, owner) = some (.render zone.lines) := by
          simp [Render.staged, hplaced, hsame.kind, hprimary, hsame.lines]
        rw [hstaged, Bool.not_eq_true'] at hapart
        exact nextCopy_static hstatic (fun copy hlive => hprev.shows hlive)
          (not_shareWouldMerge hapart hprev hw)
      have hcopies : (if zone'.kind = .primary then
          some (nextCopy (shared.live (zone.name, owner)) (viewCarrySource shared (zone.name, owner))
            zone' true)
          else none) = if zone.kind = .primary then some (.fresh zone.lines) else none := by
        rw [hsame.kind]
        split
        · rename_i hprimary
          rw [← hfresh hprimary owner true (.inr rfl)]
          simp only [nextCopy, carriedFrom, hstatic, hstatic', hsame.lines]
        · rfl
      have hcopies' : (if zone.kind = .primary then
          some (nextCopy (separate.live (zone.name, view.name))
            (viewCarrySource separate (zone.name, view.name)) zone
            (viewShareKey zone view foreignLoopback).isSome)
          else none) = if zone.kind = .primary then some (.fresh zone.lines) else none := by
        split
        · rename_i hprimary
          rw [hprev.nextCopy_eq, hfresh hprimary view.name _ (.inl rfl)]
        · rfl
      rw [hcopies] at hplaced
      refine .inView view.allowQuery owner zone zone'
        (if zone.kind = .primary then some (.fresh zone.lines) else none) (Function.update_self ..)
        ?_ ?_ hbody hrefuses ?_
      · simp only [placeOwn, Function.update_self, ownPlaced, hcopies']
      · simp only [placeInView, Function.update_of_ne hne]
        exact hplaced
      · intro copy hcopy
        split at hcopy
        · cases hcopy
          exact ⟨zone.lines, rfl⟩
        · cases hcopy
    · exact (h.at_ k).update_of_ne hk hempty _ _
  · obtain ⟨z, hbody', hname, hstanza'', hrefuses'', hplaced'⟩ := h.defined zname key owner' hdef
    refine ⟨z, hbody', hname, hstanza'', hrefuses'', ?_⟩
    have hne : (zname, owner') ≠ (zone.name, view.name) := by
      intro heq
      rw [heq, hempty] at hplaced'
      cases hplaced'
    simp only [placeInView, Function.update_of_ne hne]
    exact hplaced'

theorem renderRelated_own (hstanza : zone.hasStanza = true)
    (hkept : Kept shared foreignLoopback (view, zone)) :
    RenderRelated shared foreignLoopback (placeOwn shared render view zone foreignLoopback)
      (placeOwn separate render' view zone foreignLoopback) := by
  refine ⟨fun k => ?_, fun zname key owner hdef => ?_⟩
  · by_cases hk : k = (zone.name, view.name)
    · subst hk
      refine .own view.allowQuery zone _ (Function.update_self ..) ?_ ?_
      · simp only [placeOwn, Function.update_self, ownPlaced, hprev.nextCopy_eq]
      · intro copy hcopy
        obtain ⟨hprimary, hcopy⟩ := Option.ite_none_right_eq_some.mp hcopy
        cases hcopy
        refine nextCopy_shows (fun c hlive => hprev.shows hlive) fun hstatic hkey => ?_
        have haccepts := accepts_of_viewShareKey hstanza hprimary hkey
        rw [zoneAcceptsUpdates, hstatic, Bool.false_or, Bool.and_eq_true] at haccepts
        exact hkept haccepts.1 hprimary hstatic
    · exact (h.at_ k).update_of_ne hk hempty _ _
  · have hold : render.definedIn (zname, key) = some owner → ∃ z : Zone ρ ω, z.body = key.1 ∧
        z.name = zname ∧ z.hasStanza = true ∧ zoneAcceptsUpdates z foreignLoopback = false ∧
        (placeOwn shared render view zone foreignLoopback).placed (zname, owner) =
          some ⟨key.2, .own z (if z.kind = .primary then
            some (nextCopy (shared.live (zname, owner)) (viewCarrySource shared (zname, owner)) z true)
          else none)⟩ := by
      intro hdef
      obtain ⟨z, hbody, hname, hstanza', hrefuses, hplaced⟩ := h.defined zname key owner hdef
      refine ⟨z, hbody, hname, hstanza', hrefuses, ?_⟩
      have hne : (zname, owner) ≠ (zone.name, view.name) := by
        intro heq
        rw [heq, hempty] at hplaced
        cases hplaced
      simp only [placeOwn, Function.update_of_ne hne]
      exact hplaced
    cases hkey : viewShareKey zone view foreignLoopback with
    | none =>
      simp only [placeOwn, hkey] at hdef
      exact hold hdef
    | some newKey =>
      simp only [placeOwn, hkey] at hdef
      split at hdef
      · exact hold hdef
      · by_cases hnew : (zname, key) = (zone.name, newKey)
        · -- the copy that is placed now
          obtain ⟨rfl, rfl⟩ := Prod.mk.inj hnew
          rw [Function.update_self] at hdef
          cases hdef
          obtain ⟨rfl, hrefuses⟩ := viewShareKey_eq_some hkey
          refine ⟨zone, rfl, rfl, hstanza, hrefuses, ?_⟩
          simp only [placeOwn, Function.update_self, ownPlaced, hkey, Option.isSome_some]
        · rw [Function.update_of_ne hnew] at hdef
          exact hold hdef

end

theorem renderZone_related {vz : View × Zone ρ ω} (hempty : render.placed (slot vz) = none)
    (hkept : Kept shared foreignLoopback vz) :
    RenderRelated shared foreignLoopback (renderZone true shared foreignLoopback render vz)
      (renderZone false separate foreignLoopback render' vz) := by
  obtain ⟨view, zone⟩ := vz
  have hown : renderZone false separate foreignLoopback render' (view, zone) =
      if zone.hasStanza then placeOwn separate render' view zone foreignLoopback else render' := by
    have hnone : (sharedFrom separate render' view zone foreignLoopback).filter (fun _ => false) =
        none := by simp
    simp only [renderZone, hnone]
  rw [hown]
  cases howner : sharedFrom shared render view zone foreignLoopback with
  | some owner =>
    obtain ⟨hrelated, hstanza⟩ := renderRelated_inView hprev h hempty howner
    have hshared : renderZone true shared foreignLoopback render (view, zone) =
        placeInView render view zone owner := by
      have hsome : (sharedFrom shared render view zone foreignLoopback).filter (fun _ => true) =
          some owner := by
        rw [howner]
        rfl
      simp only [renderZone, hsome]
    rwa [hshared, if_pos hstanza]
  | none =>
    have hshared : renderZone true shared foreignLoopback render (view, zone) =
        if zone.hasStanza then placeOwn shared render view zone foreignLoopback else render := by
      have hnone : (sharedFrom shared render view zone foreignLoopback).filter (fun _ => true) =
          none := by
        rw [howner]
        rfl
      simp only [renderZone, hnone]
    rw [hshared]
    split
    · exact renderRelated_own hprev h hempty ‹_› hkept
    · exact h

end

end

omit [DecidableEq ω] in
theorem renderRelated_empty (prev : Tree ρ ω) (foreignLoopback : Bool) :
    RenderRelated prev foreignLoopback ⟨fun _ => none, fun _ => none⟩
      ⟨fun _ => none, fun _ => none⟩ :=
  ⟨fun _ => .absent rfl rfl, fun _ _ _ h => by cases h⟩

theorem renderZone_of_ne (sharing : Bool) (prev : Tree ρ ω) (render : Render ρ ω)
    (vz : View × Zone ρ ω) {k : At} (hk : k ≠ slot vz) :
    (renderZone sharing prev foreignLoopback render vz).placed k = render.placed k := by
  rw [renderZone]
  split
  · exact Function.update_of_ne hk ..
  · split
    · exact Function.update_of_ne hk ..
    · rfl

theorem foldl_renderRelated (hprev : Related shared separate) {order : List (View × Zone ρ ω)}
    (hdistinct : (order.map slot).Nodup) (hkept : ∀ vz ∈ order, Kept shared foreignLoopback vz)
    (h : RenderRelated shared foreignLoopback render render')
    (hempty : ∀ vz ∈ order, render.placed (slot vz) = none) :
    RenderRelated shared foreignLoopback
      (order.foldl (renderZone true shared foreignLoopback) render)
      (order.foldl (renderZone false separate foreignLoopback) render') := by
  induction order generalizing render render' with
  | nil => exact h
  | cons vz rest ih =>
    rw [List.map_cons, List.nodup_cons] at hdistinct
    have hstep := renderZone_related hprev h (hempty vz List.mem_cons_self)
      (hkept vz List.mem_cons_self)
    refine ih hdistinct.2 (fun other hother => hkept other (List.mem_cons_of_mem vz hother)) hstep ?_
    intro other hother
    have hne : slot other ≠ slot vz := by
      intro heq
      exact hdistinct.1 (heq ▸ List.mem_map_of_mem hother)
    rw [renderZone_of_ne _ _ _ _ hne]
    exact hempty other (List.mem_cons_of_mem vz hother)

def Bundle.WellFormed (bundle : Bundle ρ ω) : Prop :=
  (bundle.views.map (·.name)).Nodup ∧ (bundle.zones.map fun zone => (zone.name, zone.viewName)).Nodup

instance (bundle : Bundle ρ ω) : Decidable bundle.WellFormed :=
  inferInstanceAs (Decidable (_ ∧ _))

omit [DecidableEq ρ] [DecidableEq ω] in
theorem order_nodup (h : bundle.WellFormed) : (bundle.order.map slot).Nodup := by
  obtain ⟨hviews, hzones⟩ := h
  rw [Bundle.order, List.map_flatMap, List.nodup_flatMap]
  constructor
  · intro view _
    rw [List.map_map]
    have hslots : (bundle.zones.filter fun zone => zone.viewName = view.name).map
        (slot ∘ fun zone => (view, zone)) =
        (bundle.zones.filter fun zone => zone.viewName = view.name).map
          fun zone => (zone.name, zone.viewName) := by
      refine List.map_congr_left fun zone hzone => ?_
      rw [List.mem_filter, decide_eq_true_eq] at hzone
      exact congrArg (zone.name, ·) hzone.2.symm
    rw [hslots]
    exact hzones.sublist (List.filter_sublist.map _)
  · refine (List.pairwise_map.mp hviews).imp fun {view view'} hne => ?_
    rw [Function.onFun_apply, List.disjoint_left]
    rintro k hk hk'
    simp only [List.map_map, List.mem_map, Function.comp_apply] at hk hk'
    obtain ⟨zone, -, rfl⟩ := hk
    obtain ⟨zone', -, heq⟩ := hk'
    exact hne (congrArg Prod.snd heq).symm

theorem Related.apply (h : Related shared separate) (hbundle : bundle.WellFormed)
    (hkept : ∀ vz ∈ bundle.order, Kept shared bundle.foreignLoopback vz) :
    Related (ViewShare.apply true shared bundle) (ViewShare.apply false separate bundle) := by
  have hrendered := foldl_renderRelated h (order_nodup hbundle) hkept
    (renderRelated_empty shared bundle.foreignLoopback) fun _ _ => rfl
  exact ⟨rfl, hrendered.at_⟩

/-- The run that shares zones between views, and the one in which each view keeps its own. -/
structure System (ρ : Type u) (ω : Type v) where
  shared : Tree ρ ω
  separate : Tree ρ ω

inductive Event (ρ : Type u) (ω : Type v) where
  | apply (bundle : Bundle ρ ω)
  | update (k : At) (change : Finset ρ → Finset ρ)
  | dump (k : At) (keepJournal : Bool)

def step (s : System ρ ω) : Event ρ ω → Option (System ρ ω)
  | .apply bundle =>
    if bundle.WellFormed then
      some ⟨ViewShare.apply true s.shared bundle, ViewShare.apply false s.separate bundle⟩
    else none
  | .update k change => some ⟨ViewShare.update s.shared k change, ViewShare.update s.separate k change⟩
  | .dump k keepJournal =>
    some ⟨ViewShare.dump s.shared k keepJournal, ViewShare.dump s.separate k keepJournal⟩

/-- No render made while the loopback key is a client's leaves a static primary copy's file as it is if
the copy may hold records of clients. -/
def MarksKept (s : System ρ ω) : Event ρ ω → Prop
  | .apply bundle => ∀ vz ∈ bundle.order, Kept s.shared bundle.foreignLoopback vz
  | _ => True

/-- Every view answers for every zone as if no zone were shared. -/
def Invisible (outside : Zone ρ ω → Finset ρ) (s : System ρ ω) : Prop :=
  ∀ k, s.shared.answer outside k = s.separate.answer outside k

theorem step_related {s s' : System ρ ω} {e : Event ρ ω} (h : Related s.shared s.separate)
    (hmarks : MarksKept s e) (hstep : step s e = some s') : Related s'.shared s'.separate := by
  cases e with
  | apply bundle =>
    simp only [step] at hstep
    split at hstep
    · cases hstep
      exact h.apply ‹_› hmarks
    · cases hstep
  | update k change =>
    cases hstep
    exact h.update k change
  | dump k keepJournal =>
    cases hstep
    exact h.dump k keepJournal

/-- Sharing zones between views is invisible all along a run none of whose renders, made while the
loopback key is a client's, keeps a copy that may hold records of clients. -/
theorem view_sharing_invisible (outside : Zone ρ ω → Finset ρ) {events : List (Event ρ ω)}
    (hmarks : Meets step MarksKept ⟨.empty, .empty⟩ events) :
    Along step (Invisible outside) ⟨.empty, .empty⟩ events :=
  along_of_step (I := fun s : System ρ ω => Related s.shared s.separate)
    (fun h hC hstep => step_related h hC hstep) (fun h k => h.answer outside k) related_empty hmarks

section

private def twoViews (dynamic foreign : Bool) : Bundle String Unit :=
  { views := [⟨"inside", []⟩, ⟨"outside", []⟩]
    zones := ["inside", "outside"].map fun view =>
      ⟨"example.com", view, .primary, dynamic, ["www 192.0.2.1"], none, ()⟩
    foreignLoopback := foreign }

private def clientWrites : Event String Unit :=
  .update ("example.com", "inside") (insert "host 192.0.2.7")

theorem view_sharing_invisible_switched :
    Along step (Invisible fun _ => ∅) (⟨.empty, .empty⟩ : System String Unit)
      [.apply (twoViews true false), clientWrites, .apply (twoViews false false),
        .apply (twoViews false false)] := by
  refine view_sharing_invisible (fun _ => ∅) (Meets.of_forall fun e he s => ?_)
  simp only [List.mem_cons, List.not_mem_nil, or_false] at he
  rcases he with rfl | rfl | rfl | rfl
  · exact fun vz _ hforeign => by cases hforeign
  · trivial
  · exact fun vz _ hforeign => by cases hforeign
  · exact fun vz _ hforeign => by cases hforeign

/-- A client with the loopback key writes one copy; the next render leaves the copy as it is and unmarked,
and the one after it, made with the control plane's own key, shows the client's record in both views. -/
theorem view_sharing_shows_client_record :
    ∃ s', run step (⟨.empty, .empty⟩ : System String Unit)
        [.apply (twoViews false true), clientWrites, .apply (twoViews false true),
          .apply (twoViews false false)] = some s' ∧
      (s'.shared.answer (fun _ => ∅) ("example.com", "outside")).map (·.records) =
        some {"www 192.0.2.1", "host 192.0.2.7"} ∧
      (s'.separate.answer (fun _ => ∅) ("example.com", "outside")).map (·.records) =
        some {"www 192.0.2.1"} ∧
      ¬ Invisible (fun _ => ∅) s' := by
  refine ⟨_, rfl, by decide +kernel, by decide +kernel, fun h => ?_⟩
  exact absurd (h ("example.com", "outside")) (by decide +kernel)

end

end SpatiumDdi.Dns.ViewShare
