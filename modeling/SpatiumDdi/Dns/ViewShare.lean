import Mathlib.Data.Finset.SDiff

/-!
Zones shared between views.

Under split horizon every view holds its own copy of a zone. A copy that would render as in an earlier
view is loaded once, in that view, and referenced with `in-view` from the later ones, unless one of the
two live copies may hold records of RFC 2136 clients that no render put there.

Named loads a copy from its file when the file is new or changed and otherwise keeps it in memory; a copy
that takes updates is loaded with the records clients added to it.
-/

namespace SpatiumDdi.Dns.ViewShare

universe u v

variable {ρ : Type u} {ω : Type v} [DecidableEq ρ] [DecidableEq ω]

inductive Kind where
  | primary
  | secondary (masters : List String)
  | forward (forwarders : List String)
deriving DecidableEq

/-- A view's copy of a zone in the bundle. `lines` is what its file is rendered from, `options` whatever
else the copy carries. -/
structure Zone (ρ : Type u) (ω : Type v) where
  name : String
  viewName : String
  kind : Kind
  dynamicUpdateEnabled : Bool
  lines : List ρ
  allowTransfer : Option (List String)
  options : ω
deriving DecidableEq

structure View where
  name : String
  allowQuery : List String

structure Bundle (ρ : Type u) (ω : Type v) where
  views : List View
  zones : List (Zone ρ ω)
  foreignLoopback : Bool

def Zone.body (zone : Zone ρ ω) : Zone ρ ω := { zone with viewName := "" }

def zoneAcceptsUpdates (zone : Zone ρ ω) (foreignLoopback : Bool) : Bool :=
  zone.dynamicUpdateEnabled || (foreignLoopback && zone.kind = .primary)

def Kind.isForward : Kind → Bool
  | forward _ => true
  | _ => false

abbrev ShareKey (ρ : Type u) (ω : Type v) := Zone ρ ω × List String

def viewShareKey (zone : Zone ρ ω) (view : View) (foreignLoopback : Bool) :
    Option (ShareKey ρ ω) :=
  if zone.name = "" || zone.kind.isForward || zoneAcceptsUpdates zone foreignLoopback then none
  else some (zone.body, view.allowQuery)

def Zone.hasStanza (zone : Zone ρ ω) : Bool :=
  zone.name ≠ "" && match zone.kind with
    | .primary => true
    | .secondary masters => masters ≠ []
    | .forward forwarders => forwarders ≠ []

inductive FileText (ρ : Type u) where
  | render (lines : List ρ)
  | carried (lines : List ρ) (extra : Finset ρ)
  | dump (records : Finset ρ)
deriving DecidableEq

def FileText.records : FileText ρ → Finset ρ
  | render lines => lines.toFinset
  | carried lines extra => lines.toFinset ∪ extra
  | dump records => records

def FileText.isPureRender : FileText ρ → Bool
  | render _ => true
  | _ => false

/-- A primary zone's copy: its file with the journal and the marker beside it, what named serves, and
the render named loaded. -/
structure Copy (ρ : Type u) where
  file : FileText ρ
  journal : Bool
  marker : Bool
  memory : Finset ρ
  loaded : List ρ
deriving DecidableEq

def Copy.mayHoldUnrendered (copy : Copy ρ) : Bool :=
  copy.journal || copy.marker || !copy.file.isPureRender

def Copy.fresh (lines : List ρ) : Copy ρ := ⟨.render lines, false, false, lines.toFinset, lines⟩

/-- The records clients have in the copy, beyond what it was rendered from. -/
def Copy.client (copy : Copy ρ) : Finset ρ := copy.memory \ copy.loaded.toFinset

/-- How a view has a zone: a copy of its own, live if it is a primary zone, or another view's. -/
inductive Place (ρ : Type u) (ω : Type v) where
  | own (zone : Zone ρ ω) (copy : Option (Copy ρ))
  | inView (owner : String)

structure Placed (ρ : Type u) (ω : Type v) where
  allowQuery : List String
  place : Place ρ ω

abbrev At := String × String

structure Tree (ρ : Type u) (ω : Type v) where
  placed : At → Option (Placed ρ ω)
  foreignLoopback : Bool

def Tree.empty : Tree ρ ω := ⟨fun _ => none, false⟩

def Place.copy : Place ρ ω → Option (Copy ρ)
  | own _ copy => copy
  | inView _ => none

def Place.owner : Place ρ ω → Option String
  | own _ _ => none
  | inView owner => some owner

def Tree.live (tree : Tree ρ ω) (k : At) : Option (Copy ρ) :=
  (tree.placed k).bind (·.place.copy)

def Tree.inView (tree : Tree ρ ω) (k : At) : Option String :=
  (tree.placed k).bind (·.place.owner)

def shareWouldMerge (prev : Tree ρ ω) (zname view owner : String) (staged : Option (FileText ρ)) :
    Bool :=
  if prev.inView (zname, view) = some owner then false
  else [view, owner].any fun v =>
    (prev.live (zname, v)).any fun live => live.mayHoldUnrendered && staged = some live.file

/-- `_view_carry_sources`: the copy a view's new one carries from. -/
def viewCarrySource (prev : Tree ρ ω) (k : At) : Option (Copy ρ) :=
  match prev.live k with
  | some _ => none
  | none => (prev.inView k).bind fun owner => prev.live (k.1, owner)

def Copy.carryInto (copy : Copy ρ) (lines : List ρ) : Copy ρ :=
  let extra := copy.client \ lines.toFinset
  { file := if extra = ∅ then .render lines else .carried lines extra
    journal := false
    marker := false
    memory := lines.toFinset ∪ extra
    loaded := lines }

/-- A copy loaded from the render if its file is new or changed. Where it is not, the journal is left
behind with the old tree, and the marker keeps what it said if the zone has a share key. -/
def swapIn (live : Option (Copy ρ)) (lines : List ρ) (hasKey : Bool) : Copy ρ :=
  match live with
  | some copy =>
    if copy.file = .render lines then
      { copy with journal := false, marker := hasKey && copy.mayHoldUnrendered }
    else .fresh lines
  | none => .fresh lines

/-- The copy a zone carries client records from: its own live one or its source, if the zone takes
updates and the copy may hold some (`_carry_candidates`). -/
def carriedFrom (live source : Option (Copy ρ)) (zone : Zone ρ ω) : Option (Copy ρ) :=
  (live <|> source).filter fun copy => zone.dynamicUpdateEnabled && copy.mayHoldUnrendered

/-- A primary zone's copy once the render is swapped in. -/
def nextCopy (live source : Option (Copy ρ)) (zone : Zone ρ ω) (hasKey : Bool) : Copy ρ :=
  match carriedFrom live source zone with
  | some copy => copy.carryInto zone.lines
  | none => swapIn live zone.lines hasKey

/-- The views rendered so far, and `defined_in`. -/
structure Render (ρ : Type u) (ω : Type v) where
  placed : At → Option (Placed ρ ω)
  definedIn : String × ShareKey ρ ω → Option String

def Render.staged (render : Render ρ ω) (k : At) : Option (FileText ρ) :=
  match render.placed k with
  | some ⟨_, .own zone _⟩ => if zone.kind = .primary then some (.render zone.lines) else none
  | _ => none

/-- The view whose copy is referenced for a zone, if it is shared. -/
def sharedFrom (prev : Tree ρ ω) (render : Render ρ ω) (view : View) (zone : Zone ρ ω)
    (foreignLoopback : Bool) : Option String :=
  (viewShareKey zone view foreignLoopback).bind fun key =>
    (render.definedIn (zone.name, key)).filter fun owner =>
      !shareWouldMerge prev zone.name view.name owner (render.staged (zone.name, owner))

def ownPlaced (prev : Tree ρ ω) (view : View) (zone : Zone ρ ω) (foreignLoopback : Bool) :
    Placed ρ ω :=
  let k := (zone.name, view.name)
  { allowQuery := view.allowQuery
    place := .own zone <|
      if zone.kind = .primary then
        some (nextCopy (prev.live k) (viewCarrySource prev k) zone
          (viewShareKey zone view foreignLoopback).isSome)
      else none }

def placeOwn (prev : Tree ρ ω) (render : Render ρ ω) (view : View) (zone : Zone ρ ω)
    (foreignLoopback : Bool) : Render ρ ω :=
  { placed := Function.update render.placed (zone.name, view.name)
      (some (ownPlaced prev view zone foreignLoopback))
    definedIn := match viewShareKey zone view foreignLoopback with
      | some key =>
        if (render.definedIn (zone.name, key)).isSome then render.definedIn
        else Function.update render.definedIn (zone.name, key) (some view.name)
      | none => render.definedIn }

def placeInView (render : Render ρ ω) (view : View) (zone : Zone ρ ω) (owner : String) :
    Render ρ ω :=
  { render with
    placed := Function.update render.placed (zone.name, view.name)
      (some ⟨view.allowQuery, .inView owner⟩) }

/-- One zone of one view. With `sharing` off, every view keeps its own copy. -/
def renderZone (sharing : Bool) (prev : Tree ρ ω) (foreignLoopback : Bool) (render : Render ρ ω)
    (vz : View × Zone ρ ω) : Render ρ ω :=
  match (sharedFrom prev render vz.1 vz.2 foreignLoopback).filter fun _ => sharing with
  | some owner => placeInView render vz.1 vz.2 owner
  | none =>
    if vz.2.hasStanza then placeOwn prev render vz.1 vz.2 foreignLoopback else render

def Bundle.order (bundle : Bundle ρ ω) : List (View × Zone ρ ω) :=
  bundle.views.flatMap fun view =>
    (bundle.zones.filter fun zone => zone.viewName = view.name).map fun zone => (view, zone)

/-- The render of a bundle over the live tree, swapped in. -/
def apply (sharing : Bool) (prev : Tree ρ ω) (bundle : Bundle ρ ω) : Tree ρ ω :=
  { placed := (bundle.order.foldl (renderZone sharing prev bundle.foreignLoopback)
      ⟨fun _ => none, fun _ => none⟩).placed
    foreignLoopback := bundle.foreignLoopback }

def Tree.defining (tree : Tree ρ ω) (k : At) : At := (k.1, (tree.inView k).getD k.2)

def Tree.setCopy (tree : Tree ρ ω) (k : At) (copy : Copy ρ) : Tree ρ ω :=
  match tree.placed k with
  | some ⟨allowQuery, .own zone _⟩ =>
    { tree with
      placed := Function.update tree.placed k (some ⟨allowQuery, .own zone (some copy)⟩) }
  | _ => tree

/-- Whether named takes a client's update of the copy. -/
def Tree.accepts (tree : Tree ρ ω) (k : At) : Bool :=
  match tree.placed k with
  | some ⟨_, .own zone _⟩ => zoneAcceptsUpdates zone tree.foreignLoopback
  | _ => false

def update (tree : Tree ρ ω) (k : At) (change : Finset ρ → Finset ρ) : Tree ρ ω :=
  let k := tree.defining k
  match tree.live k with
  | some copy =>
    if tree.accepts k then
      tree.setCopy k { copy with memory := change copy.memory, journal := true }
    else tree
  | none => tree

def dump (tree : Tree ρ ω) (k : At) (keepJournal : Bool) : Tree ρ ω :=
  let k := tree.defining k
  match tree.live k with
  | some copy =>
    if copy.journal || copy.memory ≠ copy.file.records then
      tree.setCopy k { copy with file := .dump copy.memory, journal := keepJournal }
    else tree
  | none => tree

structure Answer (ρ : Type u) where
  records : Finset ρ
  allowQuery : List String
  allowTransfer : Option (List String)
deriving DecidableEq

/-- The zone a view answers with. `outside` is what a zone that is not primary answers with. -/
def Tree.answer (outside : Zone ρ ω → Finset ρ) (tree : Tree ρ ω) (k : At) : Option (Answer ρ) :=
  match tree.placed (tree.defining k) with
  | some ⟨allowQuery, .own zone copy⟩ =>
    some ⟨(copy.map (·.memory)).getD (outside zone.body), allowQuery, zone.allowTransfer⟩
  | _ => none

end SpatiumDdi.Dns.ViewShare

/-!
Two runs of the same bundles and updates, one that shares zones between views and one in which every view
keeps its own copies.

They are related while every copy the first run has of its own is in the same state in the second, and
every zone it references is a bare render in both. A copy that holds anything beyond its render shows it.
-/

namespace SpatiumDdi.Dns.ViewShare

universe u v

variable {ρ : Type u} {ω : Type v} [DecidableEq ρ]

/-- A copy with nothing to show for client records is just as it was loaded. -/
def Copy.Shows (copy : Copy ρ) : Prop :=
  copy.mayHoldUnrendered = false → copy = .fresh copy.loaded

@[simp] theorem fresh_mayHoldUnrendered (lines : List ρ) :
    (Copy.fresh lines).mayHoldUnrendered = false := rfl

theorem shows_fresh (lines : List ρ) : (Copy.fresh lines).Shows := fun _ => rfl

variable {live source : Option (Copy ρ)} {zone : Zone ρ ω} {hasKey : Bool}

theorem swapIn_fresh (lines lines' : List ρ) (hasKey : Bool) :
    swapIn (some (.fresh lines)) lines' hasKey = .fresh lines' := by
  rw [swapIn]
  split
  · rename_i hfile
    have hlines : lines = lines' := by simpa [Copy.fresh] using hfile
    rw [hlines, fresh_mayHoldUnrendered, Bool.and_false]
    rfl
  · rfl

theorem nextCopy_static (hstatic : zone.dynamicUpdateEnabled = false)
    (hshows : ∀ copy ∈ live, copy.Shows)
    (hchanged : ∀ copy ∈ live, copy.mayHoldUnrendered = true → copy.file ≠ .render zone.lines) :
    nextCopy live source zone hasKey = .fresh zone.lines := by
  have hnone : carriedFrom live source zone = none := by simp [carriedFrom, hstatic]
  simp only [nextCopy, hnone]
  cases live with
  | none => rfl
  | some copy =>
    by_cases hbare : copy.mayHoldUnrendered = true
    · rw [swapIn, if_neg (hchanged copy rfl hbare)]
    · rw [hshows copy rfl (Bool.eq_false_of_not_eq_true hbare)]
      exact swapIn_fresh ..

theorem nextCopy_of_fresh (hlive : ∀ copy ∈ live, ∃ lines, copy = .fresh lines)
    (hsource : ∀ copy ∈ source, ∃ lines, copy = .fresh lines) :
    nextCopy live source zone hasKey = .fresh zone.lines := by
  have hnone : carriedFrom live source zone = none := by
    cases live with
    | none =>
      cases source with
      | none => rfl
      | some copy =>
        obtain ⟨lines, rfl⟩ := hsource copy rfl
        simp [carriedFrom]
    | some copy =>
      obtain ⟨lines, rfl⟩ := hlive copy rfl
      simp [carriedFrom]
  simp only [nextCopy, hnone]
  cases live with
  | none => rfl
  | some copy =>
    obtain ⟨lines, rfl⟩ := hlive copy rfl
    exact swapIn_fresh ..

theorem carryInto_shows (copy : Copy ρ) (lines : List ρ) : (copy.carryInto lines).Shows := by
  intro hbare
  by_cases hextra : copy.client \ lines.toFinset = ∅
  · simp [Copy.carryInto, hextra, Copy.fresh]
  · -- the client records are in the file
    simp [Copy.carryInto, hextra, Copy.mayHoldUnrendered, FileText.isPureRender] at hbare

theorem nextCopy_shows (hshows : ∀ copy ∈ live, copy.Shows)
    (hkept : zone.dynamicUpdateEnabled = false → hasKey = false → ∀ copy ∈ live,
      copy.mayHoldUnrendered = true → copy.file ≠ .render zone.lines) :
    (nextCopy live source zone hasKey).Shows := by
  cases hcarried : carriedFrom live source zone with
  | some copy =>
    simp only [nextCopy, hcarried]
    exact carryInto_shows copy zone.lines
  | none =>
    simp only [nextCopy, hcarried]
    cases live with
    | none => exact shows_fresh _
    | some copy =>
      by_cases hholds : copy.mayHoldUnrendered = true
      · have hstatic : zone.dynamicUpdateEnabled = false := by simpa [carriedFrom, hholds] using hcarried
        by_cases hfile : copy.file = .render zone.lines
        · -- kept as it was: the marker says what the copy may hold
          rw [swapIn, if_pos hfile]
          intro hbare
          have hmarker : (hasKey && copy.mayHoldUnrendered) = false :=
            (Bool.or_eq_false_iff.mp (Bool.or_eq_false_iff.mp hbare).1).2
          have hkey : hasKey = false := by rwa [hholds, Bool.and_true] at hmarker
          exact absurd hfile (hkept hstatic hkey copy rfl hholds)
        · rw [swapIn, if_neg hfile]
          exact shows_fresh _
      · rw [hshows copy rfl (Bool.eq_false_of_not_eq_true hholds), swapIn_fresh]
        exact shows_fresh _

inductive RelatedAt (foreignLoopback : Bool) (shared separate : At → Option (Placed ρ ω)) (k : At) :
    Prop where
  | absent (h : shared k = none) (h' : separate k = none)
  | own (allowQuery : List String) (zone : Zone ρ ω) (copy : Option (Copy ρ))
      (h : shared k = some ⟨allowQuery, .own zone copy⟩)
      (h' : separate k = some ⟨allowQuery, .own zone copy⟩) (hshows : ∀ c ∈ copy, c.Shows)
  | inView (allowQuery : List String) (owner : String) (zone zone' : Zone ρ ω)
      (copy : Option (Copy ρ)) (h : shared k = some ⟨allowQuery, .inView owner⟩)
      (h' : separate k = some ⟨allowQuery, .own zone copy⟩)
      (howner : shared (k.1, owner) = some ⟨allowQuery, .own zone' copy⟩)
      (hbody : zone'.body = zone.body) (hrefuses : zoneAcceptsUpdates zone foreignLoopback = false)
      (hfresh : ∀ c ∈ copy, ∃ lines, c = .fresh lines)

structure Related (shared separate : Tree ρ ω) : Prop where
  foreignLoopback : shared.foreignLoopback = separate.foreignLoopback
  at_ : ∀ k, RelatedAt shared.foreignLoopback shared.placed separate.placed k

variable {shared separate : Tree ρ ω} {k : At}

theorem related_empty : Related (.empty : Tree ρ ω) .empty :=
  ⟨rfl, fun _ => .absent rfl rfl⟩

omit [DecidableEq ρ] in
theorem accepts_body (zone zone' : Zone ρ ω) (h : zone'.body = zone.body) (foreignLoopback : Bool) :
    zoneAcceptsUpdates zone' foreignLoopback = zoneAcceptsUpdates zone foreignLoopback := by
  have hdynamic := congrArg Zone.dynamicUpdateEnabled h
  have hkind := congrArg Zone.kind h
  simp only [Zone.body] at hdynamic hkind
  rw [zoneAcceptsUpdates, zoneAcceptsUpdates, hdynamic, hkind]

section

variable (h : Related shared separate) {allowQuery : List String}
include h

theorem Related.answer (outside : Zone ρ ω → Finset ρ) (k : At) :
    shared.answer outside k = separate.answer outside k := by
  cases h.at_ k with
  | absent hs hp => simp [Tree.answer, Tree.defining, Tree.inView, hs, hp]
  | own allowQuery zone copy hs hp _ =>
    simp [Tree.answer, Tree.defining, Tree.inView, hs, hp, Place.owner]
  | inView allowQuery owner zone zone' copy hs hp howner hbody _ _ =>
    have htransfer := congrArg Zone.allowTransfer hbody
    simp only [Zone.body] at htransfer
    simp [Tree.answer, Tree.defining, Tree.inView, hs, hp, howner, Place.owner, hbody, htransfer]

theorem Related.setCopy {copy : Option (Copy ρ)}
    (hs : shared.placed k = some ⟨allowQuery, .own zone copy⟩)
    (hp : separate.placed k = some ⟨allowQuery, .own zone copy⟩)
    (hfree : ∀ k' allowQuery' owner, shared.placed k' = some ⟨allowQuery', .inView owner⟩ → (k'.1, owner) ≠ k)
    {c : Copy ρ} (hshows : c.Shows) : Related (shared.setCopy k c) (separate.setCopy k c) := by
  simp only [Tree.setCopy, hs, hp]
  refine ⟨h.foreignLoopback, fun k' => ?_⟩
  by_cases hk : k' = k
  · subst hk
    refine .own allowQuery zone (some c) (Function.update_self ..) (Function.update_self ..) ?_
    rintro _ ⟨⟩
    exact hshows
  · cases h.at_ k' with
    | absent hs' hp' =>
      exact .absent (by simpa [hk] using hs') (by simpa [hk] using hp')
    | own allowQuery' zone' copy' hs' hp' hshows' =>
      exact .own allowQuery' zone' copy' (by simpa [hk] using hs') (by simpa [hk] using hp') hshows'
    | inView allowQuery' owner zone' zone'' copy' hs' hp' howner hbody hrefuses hfresh =>
      have hne := hfree k' allowQuery' owner hs'
      exact .inView allowQuery' owner zone' zone'' copy' (by simpa [hk] using hs')
        (by simpa [hk] using hp') (by simpa [hne] using howner) hbody hrefuses hfresh

theorem Related.unreferenced {c : Copy ρ}
    (hs : shared.placed k = some ⟨allowQuery, .own zone (some c)⟩)
    (hbusy : zoneAcceptsUpdates zone shared.foreignLoopback = true ∨ ∀ lines, c ≠ .fresh lines)
    (k' : At) (allowQuery' : List String) (owner : String)
    (hview : shared.placed k' = some ⟨allowQuery', .inView owner⟩) : (k'.1, owner) ≠ k := by
  intro heq
  cases h.at_ k' with
  | absent hs' _ => rw [hs'] at hview; cases hview
  | own _ _ _ hs' _ _ => rw [hs'] at hview; cases hview
  | inView _ owner' zone' zone'' copy' hs' _ howner hbody hrefuses hfresh =>
    rw [hs'] at hview
    cases hview
    rw [heq, hs] at howner
    cases howner
    rcases hbusy with haccepts | hchanged
    · rw [accepts_body _ _ hbody, hrefuses] at haccepts
      cases haccepts
    · obtain ⟨lines, rfl⟩ := hfresh c rfl
      exact hchanged lines rfl

theorem Related.update (k : At) (change : Finset ρ → Finset ρ) :
    Related (update shared k change) (update separate k change) := by
  cases h.at_ k with
  | absent hs hp =>
    simpa [ViewShare.update, Tree.defining, Tree.inView, Tree.live, hs, hp] using h
  | own allowQuery zone copy hs hp hshows =>
    cases copy with
    | none =>
      simpa [ViewShare.update, Tree.defining, Tree.inView, Tree.live, hs, hp, Place.owner, Place.copy]
        using h
    | some c =>
      have hforeign := h.foreignLoopback
      by_cases haccepts : zoneAcceptsUpdates zone shared.foreignLoopback = true
      · have haccepts' : zoneAcceptsUpdates zone separate.foreignLoopback = true := hforeign ▸ haccepts
        have hfree := h.unreferenced hs (.inl haccepts)
        have hset := h.setCopy (c := { c with memory := change c.memory, journal := true }) hs hp hfree
          (fun hbare => by simp [Copy.mayHoldUnrendered] at hbare)
        simpa [ViewShare.update, Tree.defining, Tree.inView, Tree.live, Tree.accepts, hs, hp,
          Place.owner, Place.copy, haccepts, haccepts'] using hset
      · have haccepts' : ¬ zoneAcceptsUpdates zone separate.foreignLoopback = true :=
          hforeign ▸ haccepts
        simpa [ViewShare.update, Tree.defining, Tree.inView, Tree.live, Tree.accepts, hs, hp,
          Place.owner, Place.copy, haccepts, haccepts'] using h
  | inView allowQuery owner zone zone' copy hs hp howner hbody hrefuses _ =>
    have hforeign := h.foreignLoopback
    have hrefuses' : zoneAcceptsUpdates zone' shared.foreignLoopback = false := by
      rw [accepts_body _ _ hbody, hrefuses]
    have hrefuses'' : zoneAcceptsUpdates zone separate.foreignLoopback = false := hforeign ▸ hrefuses
    cases copy with
    | none =>
      simpa [ViewShare.update, Tree.defining, Tree.inView, Tree.live, hs, hp, howner, Place.owner,
        Place.copy] using h
    | some c =>
      simpa [ViewShare.update, Tree.defining, Tree.inView, Tree.live, Tree.accepts, hs, hp, howner,
        Place.owner, Place.copy, hrefuses', hrefuses''] using h

theorem Related.dump (k : At) (keepJournal : Bool) :
    Related (dump shared k keepJournal) (dump separate k keepJournal) := by
  have hbare : ∀ lines : List ρ,
      ((Copy.fresh lines).journal || (Copy.fresh lines).memory ≠ (Copy.fresh lines).file.records) =
        false := by
    intro lines
    simp [Copy.fresh, FileText.records]
  cases h.at_ k with
  | absent hs hp =>
    simpa [ViewShare.dump, Tree.defining, Tree.inView, Tree.live, hs, hp] using h
  | own allowQuery zone copy hs hp hshows =>
    cases copy with
    | none =>
      simpa [ViewShare.dump, Tree.defining, Tree.inView, Tree.live, hs, hp, Place.owner, Place.copy]
        using h
    | some c =>
      by_cases hahead : (c.journal || c.memory ≠ c.file.records) = true
      · have hchanged : ∀ lines, c ≠ .fresh lines := by
          -- a bare render has nothing to write out
          rintro lines rfl
          rw [hbare] at hahead
          cases hahead
        have hfree := h.unreferenced hs (.inr hchanged)
        have hset := h.setCopy (c := { c with file := .dump c.memory, journal := keepJournal }) hs hp
          hfree (fun hbare => by simp [Copy.mayHoldUnrendered, FileText.isPureRender] at hbare)
        simpa only [ViewShare.dump, Tree.defining, Tree.inView, Tree.live, hs, hp, Place.owner,
          Place.copy, Option.bind_some, Option.getD_none, if_pos hahead] using hset
      · simpa only [ViewShare.dump, Tree.defining, Tree.inView, Tree.live, hs, hp, Place.owner,
          Place.copy, Option.bind_some, Option.getD_none, if_neg hahead] using h
  | inView allowQuery owner zone zone' copy hs hp howner hbody hrefuses hfresh =>
    cases copy with
    | none =>
      simpa [ViewShare.dump, Tree.defining, Tree.inView, Tree.live, hs, hp, howner, Place.owner,
        Place.copy] using h
    | some c =>
      obtain ⟨lines, rfl⟩ := hfresh c rfl
      simpa only [ViewShare.dump, Tree.defining, Tree.inView, Tree.live, hs, hp, howner, Place.owner,
        Place.copy, Option.bind_some, Option.getD_some, Option.getD_none,
        if_neg (Bool.eq_false_iff.mp (hbare lines))] using h

end

end SpatiumDdi.Dns.ViewShare
