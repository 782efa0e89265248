import SpatiumDdi.Lib.DynamicUpdate
import SpatiumDdi.Dns.Apex

/-!
Record ops on a zone's apex.

A whole-RRset op replaces one RRset of the zone by an update that named takes on loopback, and the same
message carries what keeps the apex as the next render writes it. What was noted of the zone is moved
with the op before named has answered.
-/

namespace SpatiumDdi.Dns.Apex

open DynamicUpdate (Change applyAll)

attribute [local instance] lawfulBEq_name

abbrev Key := Name × RType

def apexKey (origin : Name) : Key := (lower origin, .ns)

def glueKey (origin : Name) : Key := (lower (glueOwner origin), .a)

/-- A whole-RRset op: the members the control plane then has, the op's own value among them unless it
deletes it. `failures` tries are answered with an error before the one that named takes, for which
`served` is what the read of the apex name servers answers, if it does. -/
structure RrsetOp where
  name : Name
  rtype : RType
  members : List Name
  value : Name
  failures : Nat
  served : Option (List Name)

def RrsetOp.owner (op : RrsetOp) (origin : Name) : Name := lower (zoneFileName op.name origin)

def RrsetOp.key (op : RrsetOp) (origin : Name) : Key := (op.owner origin, op.rtype)

/-- The control plane's records once it has made the change. -/
def Zone.setRrset (zone : Zone) (op : RrsetOp) : Zone :=
  { zone with
    records :=
      zone.records.filter (fun r => (r.owner zone.origin, r.rtype) ≠ op.key zone.origin) ++
        op.members.map fun m => ⟨op.name, op.rtype, m⟩ }

/-- The changes that follow an NS op: the name servers the render does not write go by value, after
those it writes are in. -/
def apexNsChanges (origin : Name) (desired members : List Name) (served : Option (List Name)) :
    List (Change Key Name) :=
  (if members = [] then (desired.map (rdata origin .ns)).map (.add (apexKey origin)) else []) ++
    (((served.getD []).filter fun ns => lower ns ∉ desired.map lower).map (rdata origin .ns)).map
      (.delete (apexKey origin))

def glueAdded (origin : Name) (before after : ZoneApex) : List (Change Key Name) :=
  if after.placeholderGlue && !before.placeholderGlue then
    [.add (glueKey origin) placeholderNsAddress]
  else []

def glueDeleted (origin : Name) (before after : ZoneApex) : List (Change Key Name) :=
  if before.placeholderGlue && !after.placeholderGlue then
    [.delete (glueKey origin) placeholderNsAddress]
  else []

/-- The noted state after the op, and the changes that go with it. -/
def reconcileApex (state : ApexState) (origin name : Name) (rtype : RType) (members : List Name)
    (served : Option (List Name)) : ApexState × List (Change Key Name) :=
  let owner := lower (zoneFileName name origin)
  if rtype = .ns ∧ owner = lower origin then
    changes { state with ns := members.map (zoneFileName · origin) }
  else if rtype.isAddress ∧ owner ∈ apexAddressNames origin state.primaryNs then
    changes { state with
      addressed := if members = [] then state.addressed.filter (· ≠ owner)
        else state.addressed.insert owner }
  else (state, [])
where
  changes (new : ApexState) : ApexState × List (Change Key Name) :=
    let before := zoneApex (apexZone state)
    let after := zoneApex (apexZone new)
    if rtype = .ns then
      let desired := if new.ns = [] then after.ns else new.ns
      (new, glueAdded origin before after ++ apexNsChanges origin desired members served ++
        glueDeleted origin before after)
    else (new, glueAdded origin before after)

variable (parses : RType → Name → Bool)

/-- The members that go on the wire. The op's own value is not skipped: if it does not parse, the op
raises before anything is sent. -/
def wireMembers (op : RrsetOp) : Option (List Name) :=
  let wire := op.members.filter fun m => m = op.value || parses op.rtype m
  if wire.all (parses op.rtype) then some wire else none

structure System where
  zone : Zone
  state : ApexState
  named : DynamicUpdate.Zone Key Name

def System.render (zone : Zone) : System := ⟨zone, rememberApex zone, rendered parses zone⟩

def replaceRrset (origin : Name) (op : RrsetOp) (wire : List Name) : List (Change Key Name) :=
  .clear (op.key origin) :: (wire.map (rdata origin op.rtype)).map (.add (op.key origin))

/-- `apply_record_op`, tried until named takes it. Named refuses an owner outside the zone, and a read
of the apex name servers is of those it serves, as absolute names. -/
def step (s : System) (op : RrsetOp) : Option System :=
  let origin := s.zone.origin
  if inside (zoneFileName op.name origin) origin ∧
      (∀ read ∈ op.served, (∀ ns ∈ read, Absolute ns) ∧
        (read.map lower).toFinset = s.named (apexKey origin)) then
    (wireMembers parses op).map fun wire =>
      let attempt state := reconcileApex state origin op.name op.rtype wire op.served
      let last := attempt ((fun state => (attempt state).1)^[op.failures] s.state)
      { zone := s.zone.setRrset op
        state := last.1
        named := applyAll (apexKey origin) s.named (replaceRrset origin op wire ++ last.2) }
  else none

section

variable {zone : Zone} {op : RrsetOp}

@[simp] theorem origin_setRrset : (zone.setRrset op).origin = zone.origin := rfl

@[simp] theorem primaryNs_setRrset : (zone.setRrset op).primaryNs = zone.primaryNs := rfl

theorem mem_setRrset {r : ZoneRecord} : r ∈ (zone.setRrset op).records ↔
    (r ∈ zone.records ∧ (r.owner zone.origin, r.rtype) ≠ op.key zone.origin) ∨
      ∃ m ∈ op.members, ⟨op.name, op.rtype, m⟩ = r := by
  simp [Zone.setRrset]

theorem declaredNs_setRrset_of_ne (h : op.key zone.origin ≠ apexKey zone.origin) :
    (zone.setRrset op).declaredNs = zone.declaredNs := by
  have hmembers : declaredNsOf zone.origin (op.members.map fun m => ⟨op.name, op.rtype, m⟩) = [] := by
    simp only [declaredNsOf, List.filterMap_map, List.filterMap_eq_nil_iff]
    rintro m -
    exact if_neg fun hns => h (Prod.ext hns.2 hns.1)
  rw [Zone.declaredNs, Zone.setRrset, declaredNsOf, List.filterMap_append]
  change declaredNsOf zone.origin _ ++ declaredNsOf zone.origin _ = _
  rw [hmembers, List.append_nil, Zone.declaredNs, declaredNsOf, List.filterMap_filter]
  refine List.filterMap_congr fun r _ => ?_
  by_cases hkey : (r.owner zone.origin, r.rtype) = op.key zone.origin
  · rw [if_neg (by simp [hkey])]
    refine (if_neg fun hns => h ?_).symm
    rw [← hkey]
    exact Prod.ext hns.2 hns.1
  · rw [if_pos (by simp [hkey])]

theorem declaredNs_setRrset_apex (h : op.key zone.origin = apexKey zone.origin) :
    (zone.setRrset op).declaredNs = op.members.map (zoneFileName · zone.origin) := by
  have hrest : declaredNsOf zone.origin (zone.records.filter fun r =>
      (r.owner zone.origin, r.rtype) ≠ op.key zone.origin) = [] := by
    simp only [declaredNsOf, List.filterMap_eq_nil_iff, List.mem_filter, decide_eq_true_eq]
    rintro r ⟨-, hkey⟩
    refine if_neg fun hapex => hkey ?_
    rw [h]
    exact Prod.ext hapex.2 hapex.1
  rw [Zone.declaredNs, Zone.setRrset, declaredNsOf, List.filterMap_append]
  change declaredNsOf zone.origin _ ++ declaredNsOf zone.origin _ = _
  rw [hrest, List.nil_append, declaredNsOf, List.filterMap_map, ← List.filterMap_eq_map]
  refine List.filterMap_congr fun m _ => ?_
  have hns : op.rtype = .ns ∧ op.owner zone.origin = lower zone.origin :=
    ⟨congrArg Prod.snd h, congrArg Prod.fst h⟩
  exact if_pos hns

theorem mem_addressed {n : Name} : n ∈ zone.addressed ↔
    ∃ r ∈ zone.records, r.rtype.isAddress ∧ r.owner zone.origin = n := by
  simp only [Zone.addressed, addressedOf, List.mem_filterMap]
  refine exists_congr fun r => and_congr_right fun _ => ?_
  split
  · rename_i haddress
    simp [haddress]
  · rename_i haddress
    simp [haddress]

theorem mem_addressed_setRrset_of_ne {n : Name} (h : op.rtype.isAddress → n ≠ op.owner zone.origin) :
    n ∈ (zone.setRrset op).addressed ↔ n ∈ zone.addressed := by
  rw [mem_addressed, mem_addressed]
  constructor
  · rintro ⟨r, hr, haddress, howner⟩
    rcases mem_setRrset.mp hr with ⟨hmem, -⟩ | ⟨m, -, rfl⟩
    · exact ⟨r, hmem, haddress, howner⟩
    · exact absurd howner.symm (h haddress)
  · rintro ⟨r, hr, haddress, rfl⟩
    refine ⟨r, mem_setRrset.mpr (.inl ⟨hr, fun hkey => ?_⟩), haddress, rfl⟩
    have hrtype : r.rtype = op.rtype := congrArg Prod.snd hkey
    exact h (hrtype ▸ haddress) (congrArg Prod.fst hkey)

theorem mem_addressed_setRrset_owner (haddress : op.rtype.isAddress)
    (hlast : op.members = [] → ∀ r ∈ zone.records, r.rtype.isAddress →
      r.owner zone.origin = op.owner zone.origin → r.rtype = op.rtype) :
    op.owner zone.origin ∈ (zone.setRrset op).addressed ↔ op.members ≠ [] := by
  rw [mem_addressed]
  constructor
  · rintro ⟨r, hr, hr', howner⟩ hmembers
    rcases mem_setRrset.mp hr with ⟨hmem, hkey⟩ | ⟨m, hm, -⟩
    · exact hkey (Prod.ext howner (hlast hmembers r hmem hr' howner))
    · rw [hmembers] at hm
      cases hm
  · intro hmembers
    obtain ⟨m, hm⟩ := List.exists_mem_of_ne_nil _ hmembers
    exact ⟨_, mem_setRrset.mpr (.inr ⟨m, hm, rfl⟩), haddress, rfl⟩

end

open Text (isSpace)

variable {zone : Zone} {state : ApexState} {op : RrsetOp}

structure NotedBut (op : RrsetOp) (state : ApexState) (zone : Zone) : Prop where
  name : state.name = zone.name
  primaryNs : state.primaryNs = zone.primaryNs
  adminEmail : state.adminEmail = zone.adminEmail
  ns : op.key zone.origin ≠ apexKey zone.origin → state.ns = zone.declaredNs
  addressed : ∀ n ∈ apexAddressNames zone.origin zone.primaryNs,
    (op.rtype.isAddress → n ≠ op.owner zone.origin) → (n ∈ state.addressed ↔ n ∈ zone.addressed)
  absolute : ∀ a ∈ state.addressed, Absolute a ∧ lower a = a

structure Noted (state : ApexState) (zone : Zone) : Prop where
  name : state.name = zone.name
  primaryNs : state.primaryNs = zone.primaryNs
  adminEmail : state.adminEmail = zone.adminEmail
  ns : state.ns = zone.declaredNs
  addressed : ∀ n ∈ apexAddressNames zone.origin zone.primaryNs,
    n ∈ state.addressed ↔ n ∈ zone.addressed
  absolute : ∀ a ∈ state.addressed, Absolute a ∧ lower a = a

theorem Noted.but (h : Noted state zone) (op : RrsetOp) : NotedBut op state zone :=
  ⟨h.name, h.primaryNs, h.adminEmail, fun _ => h.ns, fun n hn _ => h.addressed n hn, h.absolute⟩

theorem Noted.but_of_setRrset (h : Noted state (zone.setRrset op)) : NotedBut op state zone where
  name := h.name
  primaryNs := h.primaryNs
  adminEmail := h.adminEmail
  ns hkey := by rw [h.ns, declaredNs_setRrset_of_ne hkey]
  addressed n hn hne := by rw [h.addressed n hn, mem_addressed_setRrset_of_ne hne]
  absolute := h.absolute

section

variable (horigin : Absolute zone.origin)
include horigin

theorem owner_absolute (name : Name) :
    Absolute (lower (zoneFileName name zone.origin)) ∧
      lower (lower (zoneFileName name zone.origin)) = lower (zoneFileName name zone.origin) :=
  ⟨absolute_lower (absolute_zoneFileName horigin name), lower_lower _⟩

theorem noted_rememberApex : Noted (rememberApex zone) zone where
  name := rfl
  primaryNs := rfl
  adminEmail := rfl
  ns := rfl
  addressed n hn := by simp [rememberApex, hn]
  absolute a ha := by
    obtain ⟨r, -, -, rfl⟩ := mem_addressed.mp (List.mem_of_mem_filter ha)
    exact owner_absolute horigin r.name

theorem declaredNs_absolute {n : Name} (hn : n ∈ zone.declaredNs) : Absolute n := by
  obtain ⟨r, -, hr⟩ := List.mem_filterMap.mp hn
  split at hr
  · cases hr
    exact absolute_zoneFileName horigin r.value
  · cases hr

theorem Noted.zoneApex_eq (h : Noted state zone) : zoneApex (apexZone state) = zoneApex zone := by
  have hzone : (apexZone state).origin = zone.origin := congrArg originOf h.name
  have hprimary : (apexZone state).primaryNs = zone.primaryNs := h.primaryNs
  have hadmin : (apexZone state).adminEmail = zone.adminEmail := h.adminEmail
  have hns : (apexZone state).declaredNs = zone.declaredNs := by
    have hnames : declaredNsOf zone.origin (state.ns.map fun n => ⟨['@'], .ns, n⟩) = state.ns := by
      rw [declaredNsOf, List.filterMap_map]
      conv_rhs => rw [← List.filterMap_some (l := state.ns)]
      refine List.filterMap_congr fun n hn => ?_
      have hkept : zoneFileName n zone.origin = n :=
        zoneFileName_of_absolute (declaredNs_absolute horigin (h.ns ▸ hn)) _
      exact (if_pos ⟨rfl, rfl⟩).trans (congrArg some hkept)
    have hnone : ∀ as : List Name, declaredNsOf zone.origin (as.map fun a =>
        ⟨a, .a, ['1', '9', '2', '.', '0', '.', '2', '.', '1']⟩) = [] := by
      intro as
      simp [declaredNsOf]
    rw [Zone.declaredNs, hzone, apexZone, declaredNsOf, List.filterMap_append]
    change declaredNsOf zone.origin _ ++ declaredNsOf zone.origin _ = _
    rw [hnames, hnone, List.append_nil, h.ns]
  have haddressed : (apexZone state).addressed = state.addressed := by
    have hnone : addressedOf zone.origin (state.ns.map fun n => ⟨['@'], .ns, n⟩) = [] := by
      simp [addressedOf, RType.isAddress]
    have hnames : addressedOf zone.origin (state.addressed.map fun a =>
        ⟨a, .a, ['1', '9', '2', '.', '0', '.', '2', '.', '1']⟩) = state.addressed := by
      rw [addressedOf, List.filterMap_map]
      conv_rhs => rw [← List.filterMap_some (l := state.addressed)]
      refine List.filterMap_congr fun a ha => ?_
      obtain ⟨habsolute, hlower⟩ := h.absolute a ha
      have hkept : lower (zoneFileName a zone.origin) = a := by
        rw [zoneFileName_of_absolute habsolute, hlower]
      have haddress : RType.a.isAddress = true := rfl
      simp only [Function.comp_apply, haddress, if_true]
      exact congrArg some hkept
    rw [Zone.addressed, hzone, apexZone, addressedOf, List.filterMap_append]
    change addressedOf zone.origin _ ++ addressedOf zone.origin _ = _
    rw [hnone, hnames, List.nil_append]
  rw [zoneApex, zoneApex, hzone, hprimary, hadmin, hns, haddressed]
  exact apexOf_noted horigin.dotted _ _ h.addressed

/-- What an op leaves noted stands for the zone after the op, whether or not an earlier try has noted
it already. -/
theorem reconcileApex_noted (h : NotedBut op state zone)
    (hlast : op.rtype.isAddress → op.owner zone.origin ∈ apexAddressNames zone.origin zone.primaryNs →
      op.members = [] → ∀ r ∈ zone.records, r.rtype.isAddress →
        r.owner zone.origin = op.owner zone.origin → r.rtype = op.rtype)
    (served : Option (List Name)) :
    Noted (reconcileApex state zone.origin op.name op.rtype op.members served).1
      (zone.setRrset op) := by
  simp only [reconcileApex]
  split
  · rename_i hapex
    have hkey : op.key zone.origin = apexKey zone.origin := Prod.ext hapex.2 hapex.1
    have hnot : op.rtype.isAddress → ∀ n : Name, n ≠ op.owner zone.origin := by
      intro haddress
      rw [hapex.1] at haddress
      cases haddress
    have hnew : Noted { state with ns := op.members.map (zoneFileName · zone.origin) }
        (zone.setRrset op) :=
      { name := h.name
        primaryNs := h.primaryNs
        adminEmail := h.adminEmail
        ns := (declaredNs_setRrset_apex hkey).symm
        addressed := fun n hn => by
          rw [mem_addressed_setRrset_of_ne fun ha => hnot ha n]
          exact h.addressed n hn fun ha => hnot ha n
        absolute := h.absolute }
    simp only [reconcileApex.changes, if_pos hapex.1]
    exact hnew
  · rename_i hapex
    have hkey : op.key zone.origin ≠ apexKey zone.origin := fun hkey =>
      hapex ⟨congrArg Prod.snd hkey, congrArg Prod.fst hkey⟩
    have hns : state.ns = (zone.setRrset op).declaredNs := by
      rw [h.ns hkey, declaredNs_setRrset_of_ne hkey]
    split
    · rename_i haddress
      obtain ⟨haddress, hrelevant⟩ := haddress
      rw [h.primaryNs] at hrelevant
      have hnotNs : op.rtype ≠ .ns := by
        rintro hns
        rw [hns] at haddress
        cases haddress
      have howner := mem_addressed_setRrset_owner haddress (hlast haddress hrelevant)
      have hnew : Noted { state with
          addressed := if op.members = [] then state.addressed.filter (· ≠ op.owner zone.origin)
            else state.addressed.insert (op.owner zone.origin) } (zone.setRrset op) :=
        { name := h.name
          primaryNs := h.primaryNs
          adminEmail := h.adminEmail
          ns := hns
          addressed := fun n hn => by
            by_cases hne : n = op.owner zone.origin
            · subst hne
              rw [howner]
              split
              · simp [*]
              · simp [*]
            · rw [mem_addressed_setRrset_of_ne fun _ => hne, ← h.addressed n hn fun _ => hne]
              split
              · simp [hne]
              · simp [hne]
          absolute := fun a ha => by
            split at ha
            · exact h.absolute a (List.mem_of_mem_filter ha)
            · rcases List.mem_insert_iff.mp ha with rfl | ha
              · exact owner_absolute horigin op.name
              · exact h.absolute a ha }
      simp only [reconcileApex.changes, if_neg hnotNs]
      exact hnew
    · rename_i haddress
      have hne : ∀ n ∈ apexAddressNames zone.origin zone.primaryNs,
          op.rtype.isAddress → n ≠ op.owner zone.origin := by
        rintro n hn ha rfl
        exact haddress ⟨ha, h.primaryNs ▸ hn⟩
      exact
        { name := h.name
          primaryNs := h.primaryNs
          adminEmail := h.adminEmail
          ns := hns
          addressed := fun n hn => by
            rw [mem_addressed_setRrset_of_ne (hne n hn)]
            exact h.addressed n hn (hne n hn)
          absolute := h.absolute }

end

open DynamicUpdate

variable {parses : RType → Name → Bool} {zone : Zone} {op : RrsetOp} {origin : Name}

theorem apexKey_ne_glueKey (origin : Name) : apexKey origin ≠ glueKey origin := fun h =>
  absurd (congrArg Prod.snd h) (by simp [apexKey, glueKey])

variable (parses) in
def written (zone : Zone) (key : Key) : Finset Name :=
  ((zone.records.filter (isWritten parses)).filterMap fun r =>
    if (r.owner zone.origin, r.rtype) = key then some (rdata zone.origin r.rtype r.value)
    else none).toFinset

variable {key : Key}

theorem mem_written {value : Name} : value ∈ written parses zone key ↔
    ∃ r ∈ zone.records, isWritten parses r ∧ (r.owner zone.origin, r.rtype) = key ∧
      rdata zone.origin r.rtype r.value = value := by
  simp [written, and_assoc]

def glueSet (glue : Bool) : Finset Name := if glue then {placeholderNsAddress} else ∅

theorem rendered_apex : rendered parses zone (apexKey zone.origin) =
    ((zoneApex zone).ns.map (rdata zone.origin .ns)).toFinset ∪
      written parses zone (apexKey zone.origin) := by
  ext value
  rw [Finset.mem_union, mem_written]
  simp only [rendered, writeZoneFile, List.filterMap_append, List.mem_toFinset, List.mem_append,
    List.mem_filterMap, List.mem_map, List.mem_filter, Line.of]
  constructor
  · rintro ((⟨line, ⟨ns, hns, rfl⟩, hvalue⟩ | ⟨line, hglue, hvalue⟩) | ⟨line, ⟨r, hr, rfl⟩, hvalue⟩)
    · exact .inl ⟨ns, hns, by simpa [apexKey] using hvalue⟩
    · split at hglue
      · rw [List.mem_singleton] at hglue
        subst hglue
        exact absurd hvalue (by simp [apexKey])
      · cases hglue
    · split at hvalue
      · cases hvalue
        exact .inr ⟨r, hr.1, hr.2, ‹_›, rfl⟩
      · cases hvalue
  · rintro (⟨ns, hns, rfl⟩ | ⟨r, hr, hwritten, hkey, rfl⟩)
    · exact .inl (.inl ⟨_, ⟨ns, hns, rfl⟩, by simp [apexKey]⟩)
    · exact .inr ⟨_, ⟨r, ⟨hr, hwritten⟩, rfl⟩, if_pos hkey⟩

theorem rendered_glue : rendered parses zone (glueKey zone.origin) =
    glueSet (zoneApex zone).placeholderGlue ∪ written parses zone (glueKey zone.origin) := by
  ext value
  rw [Finset.mem_union, mem_written]
  simp only [rendered, writeZoneFile, List.filterMap_append, List.mem_toFinset, List.mem_append,
    List.mem_filterMap, List.mem_map, List.mem_filter, Line.of, glueSet]
  constructor
  · rintro ((⟨line, ⟨ns, hns, rfl⟩, hvalue⟩ | ⟨line, hglue, hvalue⟩) | ⟨line, ⟨r, hr, rfl⟩, hvalue⟩)
    · exact absurd hvalue (by simp [glueKey])
    · split at hglue
      · rename_i hflag
        rw [List.mem_singleton] at hglue
        subst hglue
        rw [if_pos hflag]
        exact .inl (by simpa [glueKey, eq_comm] using hvalue)
      · cases hglue
    · split at hvalue
      · cases hvalue
        exact .inr ⟨r, hr.1, hr.2, ‹_›, rfl⟩
      · cases hvalue
  · rintro (hglue | ⟨r, hr, hwritten, hkey, rfl⟩)
    · split at hglue
      · rename_i hflag
        rw [Finset.mem_singleton] at hglue
        subst hglue
        refine .inl (.inr ⟨⟨lower (glueOwner zone.origin), .a, placeholderNsAddress⟩, ?_, if_pos rfl⟩)
        rw [if_pos hflag]
        exact List.mem_singleton_self _
      · simp at hglue
    · exact .inr ⟨_, ⟨r, ⟨hr, hwritten⟩, rfl⟩, if_pos hkey⟩

theorem written_setRrset_of_ne (h : op.key zone.origin ≠ key) :
    written parses (zone.setRrset op) key = written parses zone key := by
  ext value
  rw [mem_written, mem_written]
  constructor
  · rintro ⟨r, hr, hwritten, hkey, rfl⟩
    rcases mem_setRrset.mp hr with ⟨hmem, -⟩ | ⟨m, -, rfl⟩
    · exact ⟨r, hmem, hwritten, hkey, rfl⟩
    · exact absurd hkey h
  · rintro ⟨r, hr, hwritten, hkey, rfl⟩
    exact ⟨r, mem_setRrset.mpr (.inl ⟨hr, fun hop => h (hop ▸ hkey)⟩), hwritten, hkey, rfl⟩

theorem written_setRrset_self
    (hmembers : ∀ m ∈ op.members, isWritten parses ⟨op.name, op.rtype, m⟩) :
    written parses (zone.setRrset op) (op.key zone.origin) =
      (op.members.map (rdata zone.origin op.rtype)).toFinset := by
  ext value
  rw [mem_written, List.mem_toFinset, List.mem_map]
  constructor
  · rintro ⟨r, hr, -, hkey, rfl⟩
    rcases mem_setRrset.mp hr with ⟨-, hne⟩ | ⟨m, hm, rfl⟩
    · exact absurd hkey hne
    · exact ⟨m, hm, rfl⟩
  · rintro ⟨m, hm, rfl⟩
    exact ⟨_, mem_setRrset.mpr (.inr ⟨m, hm, rfl⟩), hmembers m hm, rfl, rfl⟩

theorem written_eq_empty (h : ∀ r ∈ zone.records, (r.owner zone.origin, r.rtype) ≠ key) :
    written parses zone key = ∅ := by
  refine Finset.eq_empty_of_forall_notMem fun value hvalue => ?_
  obtain ⟨r, hr, -, hkey, -⟩ := mem_written.mp hvalue
  exact h r hr hkey

def Zone.nsSet (zone : Zone) : List Name :=
  if zone.declaredNs = [] then
    [fallbackNs zone.origin ((absoluteName zone.primaryNs).filter isHostName) zone.addressed]
  else zone.declaredNs

theorem placeholderGlue_iff : (zoneApex zone).placeholderGlue = true ↔
    inside (placeholder zone.origin) zone.origin = true ∧
      lower (placeholder zone.origin) ∈ zone.nsSet.map lower ∧
      lower (placeholder zone.origin) ∉ zone.addressed := by
  simp only [zoneApex, apexOf, Zone.nsSet, Bool.and_eq_true, decide_eq_true_eq, and_assoc]

theorem glueOwner_not_addressed (hdot : zone.origin.getLast? = some '.')
    (h : (zoneApex zone).placeholderGlue = true) : lower (glueOwner zone.origin) ∉ zone.addressed := by
  obtain ⟨hinside, -, hnot⟩ := placeholderGlue_iff.mp h
  rwa [placeholder_of_inside hdot hinside] at hnot

theorem written_glue_eq_empty (h : lower (glueOwner zone.origin) ∉ zone.addressed) :
    written parses zone (glueKey zone.origin) = ∅ := by
  refine written_eq_empty fun r hr hkey => h (mem_addressed.mpr ⟨r, hr, ?_, congrArg Prod.fst hkey⟩)
  have hrtype : r.rtype = .a := congrArg Prod.snd hkey
  rw [hrtype]
  rfl

theorem rdata_of_absolute {name : Name} (h : Absolute name) (origin : Name) :
    rdata origin .ns name = lower name := by
  rw [rdata, if_pos rfl, zoneFileName_of_absolute h]

theorem placeholder_absolute (hdot : origin.getLast? = some '.') : Absolute (placeholder origin) := by
  rw [placeholder]
  split
  · refine absolute_of_head (a := 'n') rfl (by decide) ?_
    rw [List.getLast?_append, List.getLast?_cons, hdot]
    rfl
  · decide

theorem fallbackNs_absolute (hdot : origin.getLast? = some '.') (primaryNs : Option Name)
    (addressed : List Name) :
    Absolute (fallbackNs origin ((absoluteName primaryNs).filter isHostName) addressed) := by
  cases hprimary : (absoluteName primaryNs).filter isHostName with
  | none => exact placeholder_absolute hdot
  | some primary =>
    simp only [fallbackNs]
    split
    · exact absolute_absoluteName (absoluteName_of_filter hprimary)
    · exact placeholder_absolute hdot

theorem nsSet_absolute (horigin : Absolute zone.origin) {n : Name} (hn : n ∈ zone.nsSet) :
    Absolute n := by
  rw [Zone.nsSet] at hn
  split at hn
  · rw [List.mem_singleton] at hn
    subst hn
    exact fallbackNs_absolute horigin.dotted ..
  · exact declaredNs_absolute horigin hn

variable {named : DynamicUpdate.Zone Key Name} {wire : List Name}

theorem replaceRrset_key : ∀ change ∈ replaceRrset origin op wire, change.key = op.key origin := by
  intro change hchange
  rcases List.mem_cons.mp hchange with rfl | hadd
  · rfl
  · obtain ⟨value, -, rfl⟩ := List.mem_map.mp hadd
    rfl

theorem replaceRrset_of_ne (h : op.key origin ≠ key) :
    applyAll (apexKey origin) named (replaceRrset origin op wire) key = named key :=
  applyAll_of_key replaceRrset_key h

section

variable (before after : ZoneApex)
include before after

theorem glueAdded_at :
    applyAll (apexKey origin) named (glueAdded origin before after) (glueKey origin) =
      glueSet (after.placeholderGlue && !before.placeholderGlue) ∪ named (glueKey origin) := by
  rw [glueAdded, glueSet]
  split
  · simp only [applyAll_cons, applyAll_nil, apply, Function.update_self, Finset.insert_eq]
  · simp

theorem glueDeleted_at :
    applyAll (apexKey origin) named (glueDeleted origin before after) (glueKey origin) =
      named (glueKey origin) \ glueSet (before.placeholderGlue && !after.placeholderGlue) := by
  have hne := (apexKey_ne_glueKey origin).symm
  rw [glueDeleted, glueSet]
  split
  · simp [apply, hne, Finset.sdiff_singleton_eq_erase]
  · simp

theorem glueAdded_of_ne (h : glueKey origin ≠ key) :
    applyAll (apexKey origin) named (glueAdded origin before after) key = named key := by
  refine applyAll_of_key (fun change hchange => ?_) h
  rw [glueAdded] at hchange
  split at hchange
  · rw [List.mem_singleton.mp hchange]
    rfl
  · cases hchange

theorem glueDeleted_of_ne (h : glueKey origin ≠ key) :
    applyAll (apexKey origin) named (glueDeleted origin before after) key = named key := by
  refine applyAll_of_key (fun change hchange => ?_) h
  rw [glueDeleted] at hchange
  split at hchange
  · rw [List.mem_singleton.mp hchange]
    rfl
  · cases hchange

end

variable {desired members : List Name}

theorem apexNsChanges_of_ne {served : Option (List Name)} (h : apexKey origin ≠ key) :
    applyAll (apexKey origin) named (apexNsChanges origin desired members served) key = named key := by
  refine applyAll_of_key (fun change hchange => ?_) h
  rcases List.mem_append.mp hchange with hadd | hdelete
  · split at hadd
    · obtain ⟨d, -, rfl⟩ := List.mem_map.mp hadd
      rfl
    · cases hadd
  · obtain ⟨ns, -, rfl⟩ := List.mem_map.mp hdelete
    rfl

theorem apexNsChanges_at {read : List Name} (hdesired : desired ≠ [])
    (habsolute : ∀ d ∈ desired, Absolute d) (hread : ∀ ns ∈ read, Absolute ns)
    (hnamed : named (apexKey origin) = (read.map lower).toFinset ∪
      if members = [] then ∅ else (desired.map lower).toFinset) :
    applyAll (apexKey origin) named (apexNsChanges origin desired members (some read))
      (apexKey origin) = (desired.map lower).toFinset := by
  have hrdata : ∀ names : List Name, (∀ n ∈ names, Absolute n) →
      names.map (rdata origin .ns) = names.map lower := fun names hnames =>
    List.map_congr_left fun n hn => rdata_of_absolute (hnames n hn) origin
  have hadded : applyAll (apexKey origin) named
      (if members = [] then (desired.map (rdata origin .ns)).map (.add (apexKey origin)) else [])
      (apexKey origin) = (read.map lower).toFinset ∪ (desired.map lower).toFinset := by
    split
    · rename_i hmembers
      rw [if_pos hmembers, Finset.union_empty] at hnamed
      rw [applyAll_adds, hnamed, hrdata desired habsolute]
    · rename_i hmembers
      rwa [if_neg hmembers] at hnamed
  obtain ⟨d, hd⟩ := List.exists_mem_of_ne_nil _ hdesired
  have hkept : lower d ∈ (read.map lower).toFinset ∪ (desired.map lower).toFinset :=
    Finset.mem_union_right _ (List.mem_toFinset.mpr (List.mem_map_of_mem hd))
  have hstale := hrdata (read.filter fun ns => lower ns ∉ desired.map lower)
    fun ns hns => hread ns (List.mem_of_mem_filter hns)
  have hnot : lower d ∉ (read.filter fun ns => lower ns ∉ desired.map lower).map lower := by
    intro hmem
    obtain ⟨ns, hns, heq⟩ := List.mem_map.mp hmem
    have hout := of_decide_eq_true (List.mem_filter.mp hns).2
    exact hout (heq ▸ List.mem_map_of_mem hd)
  rw [← hadded] at hkept
  rw [apexNsChanges, applyAll_append, Option.getD_some, hstale, applyAll_deletes hkept hnot, hadded]
  ext value
  simp only [Finset.mem_sdiff, Finset.mem_union, List.mem_toFinset, List.mem_map, List.mem_filter,
    decide_eq_true_eq]
  constructor
  · rintro ⟨⟨ns, hns, rfl⟩ | hwanted, hout⟩
    · by_contra hnot
      exact hout ⟨ns, ⟨hns, hnot⟩, rfl⟩
    · exact hwanted
  · intro hwanted
    refine ⟨.inr hwanted, ?_⟩
    rintro ⟨ns, ⟨-, hout⟩, rfl⟩
    exact hout hwanted

end SpatiumDdi.Dns.Apex
