import SpatiumDdi.Lib.Runs
import SpatiumDdi.Dns.ApexOps

/-!
Runs of record ops on a rendered zone, and the apex they leave.

After an op named serves the apex the next render writes if the op meets `LeavesApex`: what is noted
keeps the address families of an owner apart nowhere, an address op does not touch the name servers, and
a second try finds nothing left to change.
-/

namespace SpatiumDdi.Dns.Apex

open DynamicUpdate Runs

attribute [local instance] lawfulBEq_name

variable (parses : RType → Name → Bool)

/-- Named serves the name servers of the apex and the addresses of `ns1` that the next render writes. -/
structure ApexServed (s : System) : Prop where
  ns : s.named (apexKey s.zone.origin) = rendered parses s.zone (apexKey s.zone.origin)
  glue : s.named (glueKey s.zone.origin) = rendered parses s.zone (glueKey s.zone.origin)

/-- The zone's `primary_ns` is what the apex falls back on, and it is not the placeholder. -/
def Zone.FallsBackOn (zone : Zone) (owner : Name) : Prop :=
  zone.declaredNs = [] ∧ owner ≠ lower (placeholder zone.origin) ∧
    ∃ p, (absoluteName zone.primaryNs).filter isHostName = some p ∧ lower p = owner

/-- An op after which the apex is as the next render writes it. -/
structure LeavesApex (s : System) (op : RrsetOp) : Prop where
  /-- Every member gets a line in the zone file. -/
  written : ∀ m ∈ op.members, isWritten parses ⟨op.name, op.rtype, m⟩
  /-- For an op on the apex name servers, those that named serves can be read. -/
  read : op.key s.zone.origin = apexKey s.zone.origin → op.served.isSome
  /-- An op that takes the last address of one family away leaves none of the other. -/
  otherFamily : op.rtype.isAddress →
    op.owner s.zone.origin ∈ apexAddressNames s.zone.origin s.zone.primaryNs → op.members = [] →
    ∀ r ∈ s.zone.records, r.rtype.isAddress → r.owner s.zone.origin = op.owner s.zone.origin →
      r.rtype = op.rtype
  /-- An op on the addresses of the `primary_ns` does not give it its first one or take its last. -/
  primary : op.rtype.isAddress → s.zone.FallsBackOn (op.owner s.zone.origin) →
    (op.owner s.zone.origin ∈ s.zone.addressed ↔ op.members ≠ [])
  /-- No glue is served where `ns1` gets an IPv6 address. -/
  aaaa : op.key s.zone.origin = (lower (glueOwner s.zone.origin), .aaaa) → op.members ≠ [] →
    (zoneApex s.zone).placeholderGlue = false
  /-- No glue is served where the IPv4 addresses of `ns1` are cleared. -/
  cleared : op.key s.zone.origin = glueKey s.zone.origin → op.members = [] →
    (zoneApex s.zone).placeholderGlue = false
  /-- An op that is tried more than once leaves the glue as it is, or addresses its owner. -/
  retried : op.failures ≠ 0 →
    (zoneApex (s.zone.setRrset op)).placeholderGlue = (zoneApex s.zone).placeholderGlue ∨
      (op.rtype.isAddress ∧ op.members ≠ [])

variable {parses} {s s' : System} {op : RrsetOp}

theorem parses_of_isWritten {r : ZoneRecord} (h : isWritten parses r) :
    parses r.rtype r.value = true := by
  simp only [isWritten, Bool.and_eq_true] at h
  exact h.2

theorem wireMembers_of_written (h : ∀ m ∈ op.members, isWritten parses ⟨op.name, op.rtype, m⟩) :
    wireMembers parses op = some op.members := by
  have hparses : ∀ m ∈ op.members, parses op.rtype m = true := fun m hm => parses_of_isWritten (h m hm)
  have hall : op.members.filter (fun m => m = op.value || parses op.rtype m) = op.members := by
    refine List.filter_eq_self.mpr fun m hm => ?_
    rw [hparses m hm, Bool.or_true]
  rw [wireMembers, hall]
  exact if_pos (List.all_eq_true.mpr hparses)

variable {zone : Zone} {state : ApexState}

/-- The state noted before the try that named takes: that of the zone before the op, or, if it was tried
already, of the zone after it. -/
theorem noted_tries (horigin : Absolute zone.origin) (h : Noted state zone)
    (hlast : op.rtype.isAddress → op.owner zone.origin ∈ apexAddressNames zone.origin zone.primaryNs →
      op.members = [] → ∀ r ∈ zone.records, r.rtype.isAddress →
        r.owner zone.origin = op.owner zone.origin → r.rtype = op.rtype) (tries : Nat) :
    let state' := (fun state => (reconcileApex state zone.origin op.name op.rtype op.members
      op.served).1)^[tries] state
    (tries = 0 ∧ Noted state' zone) ∨ (tries ≠ 0 ∧ Noted state' (zone.setRrset op)) := by
  induction tries with
  | zero => exact .inl ⟨rfl, h⟩
  | succ tries ih =>
    refine .inr ⟨Nat.succ_ne_zero tries, ?_⟩
    rw [Function.iterate_succ_apply']
    refine reconcileApex_noted horigin ?_ hlast op.served
    rcases ih with ⟨-, hbefore⟩ | ⟨-, hafter⟩
    · exact hbefore.but op
    · exact hafter.but_of_setRrset

/-- The changes beside the replaced RRset, given the apexes before and after. -/
def extraChanges (zone : Zone) (op : RrsetOp) (before after : ZoneApex) : List (Change Key Name) :=
  if op.key zone.origin = apexKey zone.origin then
    glueAdded zone.origin before after ++
      apexNsChanges zone.origin (zone.setRrset op).nsSet op.members op.served ++
      glueDeleted zone.origin before after
  else if op.rtype.isAddress ∧ op.owner zone.origin ∈ apexAddressNames zone.origin zone.primaryNs then
    glueAdded zone.origin before after
  else []

theorem reconcileApex_extra (hname : state.primaryNs = zone.primaryNs)
    (horigin : Absolute zone.origin)
    (hafter : Noted (reconcileApex state zone.origin op.name op.rtype op.members op.served).1
      (zone.setRrset op)) :
    (reconcileApex state zone.origin op.name op.rtype op.members op.served).2 =
      extraChanges zone op (zoneApex (apexZone state)) (zoneApex (zone.setRrset op)) := by
  have horigin' : Absolute (zone.setRrset op).origin := horigin
  have happly := hafter.zoneApex_eq horigin'
  have hns := hafter.ns
  have hkey : op.key zone.origin = apexKey zone.origin ↔
      op.rtype = .ns ∧ lower (zoneFileName op.name zone.origin) = lower zone.origin := by
    rw [RrsetOp.key, RrsetOp.owner, apexKey, Prod.mk.injEq, and_comm]
  simp only [reconcileApex] at happly hns ⊢
  rw [extraChanges]
  by_cases hapex : op.key zone.origin = apexKey zone.origin
  · rw [if_pos (hkey.mp hapex)] at happly hns ⊢
    simp only [reconcileApex.changes, if_pos (hkey.mp hapex).1] at happly hns ⊢
    have hset : (zone.setRrset op).nsSet =
        if op.members.map (zoneFileName · zone.origin) = [] then (zoneApex (zone.setRrset op)).ns
        else op.members.map (zoneFileName · zone.origin) := by
      rw [hns, Zone.nsSet, zoneApex, apexOf]
      split
      · rfl
      · rfl
    rw [if_pos hapex, happly, hset]
  · rw [if_neg fun h => hapex (hkey.mpr h)] at happly hns ⊢
    rw [if_neg hapex, hname]
    split
    · rename_i haddress
      have hnot : op.rtype ≠ .ns := by
        intro hns
        rw [hns] at haddress
        cases haddress.1
      rw [hname, if_pos haddress] at happly
      simp only [reconcileApex.changes, if_neg hnot] at happly ⊢
      rw [happly]
      exact (if_pos haddress).symm
    · rename_i haddress
      exact (if_neg haddress).symm

/-- The apex an op compares with: that of the zone before it or, after a try that failed, the one its own
change leaves. -/
def Compared (s : System) (op : RrsetOp) (before : ZoneApex) : Prop :=
  before = zoneApex s.zone ∨ (op.failures ≠ 0 ∧ before = zoneApex (s.zone.setRrset op))

theorem step_cases (horigin : Absolute s.zone.origin) (hnoted : Noted s.state s.zone)
    (hleaves : LeavesApex parses s op) (hstep : step parses s op = some s') :
    ∃ before, s'.zone = s.zone.setRrset op ∧ Noted s'.state (s.zone.setRrset op) ∧
      s'.named = applyAll (apexKey s.zone.origin) s.named
        (replaceRrset s.zone.origin op op.members ++
          extraChanges s.zone op before (zoneApex (s.zone.setRrset op))) ∧
      Compared s op before ∧
      ∀ read ∈ op.served, (∀ ns ∈ read, Absolute ns) ∧
        (read.map lower).toFinset = s.named (apexKey s.zone.origin) := by
  simp only [step, wireMembers_of_written hleaves.written, Option.map_some] at hstep
  obtain ⟨hguard, hstep⟩ := Option.ite_none_right_eq_some.mp hstep
  cases hstep
  have htries := noted_tries horigin hnoted hleaves.otherFamily op.failures
  have horigin' : Absolute (s.zone.setRrset op).origin := horigin
  dsimp only at htries ⊢
  rcases htries with ⟨-, hbefore⟩ | ⟨hfailures, hafter⟩
  · have hlast := reconcileApex_noted horigin (hbefore.but op) hleaves.otherFamily op.served
    refine ⟨zoneApex s.zone, rfl, hlast, ?_, .inl rfl, hguard.2⟩
    rw [reconcileApex_extra hbefore.primaryNs horigin hlast, hbefore.zoneApex_eq horigin]
  · have hlast := reconcileApex_noted horigin hafter.but_of_setRrset hleaves.otherFamily op.served
    refine ⟨zoneApex (s.zone.setRrset op), rfl, hlast, ?_, .inr ⟨hfailures, rfl⟩, hguard.2⟩
    have hprimary : _ = s.zone.primaryNs := hafter.primaryNs
    rw [reconcileApex_extra hprimary horigin hlast, hafter.zoneApex_eq horigin']

theorem nsSet_setRrset (hleaves : LeavesApex parses s op)
    (hapex : op.key s.zone.origin ≠ apexKey s.zone.origin) :
    (s.zone.setRrset op).nsSet.map lower = s.zone.nsSet.map lower := by
  rw [Zone.nsSet, Zone.nsSet, declaredNs_setRrset_of_ne hapex, origin_setRrset, primaryNs_setRrset]
  split
  · rename_i hdeclared
    rw [List.map_singleton, List.map_singleton]
    congr 1
    cases hprimary : (absoluteName s.zone.primaryNs).filter isHostName with
    | none => rfl
    | some p =>
      by_cases howner : op.rtype.isAddress ∧ lower p = op.owner s.zone.origin
      · obtain ⟨haddress, howner⟩ := howner
        by_cases hplaceholder : lower p = lower (placeholder s.zone.origin)
        · -- either way the name is that of the placeholder
          simp only [fallbackNs]
          split
          · split
            · rfl
            · exact hplaceholder
          · split
            · exact hplaceholder.symm
            · rfl
        · have hrelevant : op.owner s.zone.origin ∈
              apexAddressNames s.zone.origin s.zone.primaryNs := by
            rw [← howner]
            simp [apexAddressNames, absoluteName_of_filter hprimary]
          have hkept : lower p ∈ (s.zone.setRrset op).addressed ↔ lower p ∈ s.zone.addressed := by
            rw [howner, mem_addressed_setRrset_owner haddress
              (hleaves.otherFamily haddress hrelevant),
              hleaves.primary haddress ⟨hdeclared, howner ▸ hplaceholder, p, hprimary, howner⟩]
          simp only [fallbackNs, hkept]
      · have hkept : lower p ∈ (s.zone.setRrset op).addressed ↔ lower p ∈ s.zone.addressed :=
          mem_addressed_setRrset_of_ne fun haddress heq => howner ⟨haddress, heq⟩
        simp only [fallbackNs, hkept]
  · rfl

theorem zoneApex_ns (zone : Zone) :
    (zoneApex zone).ns = if zone.declaredNs = [] then zone.nsSet else [] := by
  by_cases h : zone.declaredNs = []
  · simp only [zoneApex, apexOf, Zone.nsSet, if_pos h]
  · simp only [zoneApex, apexOf, if_neg h]

theorem rendered_apex_of_declared (h : zone.declaredNs ≠ []) :
    rendered parses zone (apexKey zone.origin) = written parses zone (apexKey zone.origin) := by
  rw [rendered_apex, zoneApex_ns, if_neg h]
  simp

theorem rendered_apex_of_undeclared (horigin : Absolute zone.origin) (h : zone.declaredNs = []) :
    rendered parses zone (apexKey zone.origin) = (zone.nsSet.map lower).toFinset := by
  have hwritten : written parses zone (apexKey zone.origin) = ∅ := by
    refine written_eq_empty fun r hr hkey => ?_
    have hnone := List.filterMap_eq_nil_iff.mp h r hr
    rw [if_pos ⟨congrArg Prod.snd hkey, congrArg Prod.fst hkey⟩] at hnone
    cases hnone
  rw [rendered_apex, zoneApex_ns, if_pos h, hwritten, Finset.union_empty]
  congr 1
  exact List.map_congr_left fun n hn => rdata_of_absolute (nsSet_absolute horigin hn) _

variable (parses s op) in
/-- The changes of the op leave at the key what the next render writes there. -/
def Brings (before after : ZoneApex) (key : Name × RType) : Prop :=
  applyAll (apexKey s.zone.origin) s.named
      (replaceRrset s.zone.origin op op.members ++ extraChanges s.zone op before after) key =
    rendered parses (s.zone.setRrset op) key

variable {before after : ZoneApex}

theorem apexNs_of_ne (horigin : Absolute s.zone.origin) (hserved : ApexServed parses s)
    (hleaves : LeavesApex parses s op) (hapex : op.key s.zone.origin ≠ apexKey s.zone.origin) :
    Brings parses s op before after (apexKey s.zone.origin) := by
  unfold Brings
  have hnamed : applyAll (apexKey s.zone.origin) s.named
      (replaceRrset s.zone.origin op op.members ++ extraChanges s.zone op before after)
      (apexKey s.zone.origin) = s.named (apexKey s.zone.origin) := by
    rw [applyAll_append, extraChanges, if_neg hapex]
    split
    · rw [glueAdded_of_ne _ _ (apexKey_ne_glueKey _).symm, replaceRrset_of_ne hapex]
    · rw [applyAll_nil, replaceRrset_of_ne hapex]
  have hdeclared := declaredNs_setRrset_of_ne hapex
  have hset := nsSet_setRrset hleaves hapex
  rw [hnamed, hserved.ns]
  have horigin' : Absolute (s.zone.setRrset op).origin := horigin
  by_cases hnone : s.zone.declaredNs = []
  · rw [rendered_apex_of_undeclared horigin hnone, ← hset]
    exact (rendered_apex_of_undeclared horigin' (hdeclared.trans hnone)).symm
  · have hnone' : (s.zone.setRrset op).declaredNs ≠ [] := by rwa [hdeclared]
    rw [rendered_apex_of_declared hnone, ← written_setRrset_of_ne hapex]
    exact (rendered_apex_of_declared hnone').symm

theorem apexNs_of_eq {read : List Name} (horigin : Absolute s.zone.origin)
    (hleaves : LeavesApex parses s op) (hapex : op.key s.zone.origin = apexKey s.zone.origin)
    (hread : op.served = some read) (habsolute : ∀ ns ∈ read, Absolute ns)
    (hnamed : (read.map lower).toFinset = s.named (apexKey s.zone.origin)) :
    Brings parses s op before after (apexKey s.zone.origin) := by
  unfold Brings
  have horigin' : Absolute (s.zone.setRrset op).origin := horigin
  have hdeclared := declaredNs_setRrset_apex hapex
  have hrtype : op.rtype = .ns := congrArg Prod.snd hapex
  have hne := (apexKey_ne_glueKey s.zone.origin).symm
  have hset : ∀ d ∈ (s.zone.setRrset op).nsSet, Absolute d := fun d hd => nsSet_absolute horigin' hd
  have hsome : (s.zone.setRrset op).nsSet ≠ [] := by
    rw [Zone.nsSet]
    split
    · exact List.cons_ne_nil _ _
    · assumption
  have hmembers : op.members ≠ [] → (op.members.map (rdata s.zone.origin op.rtype)).toFinset =
      ((s.zone.setRrset op).nsSet.map lower).toFinset := by
    intro hmembers
    have hnone : op.members.map (zoneFileName · s.zone.origin) ≠ [] := by simpa using hmembers
    rw [Zone.nsSet, hdeclared, if_neg hnone, List.map_map, hrtype]
    rfl
  have hreplaced : applyAll (apexKey s.zone.origin) s.named
      (replaceRrset s.zone.origin op op.members) (apexKey s.zone.origin) =
      (read.map lower).toFinset ∪
        if op.members = [] then ∅ else ((s.zone.setRrset op).nsSet.map lower).toFinset := by
    rw [replaceRrset, hapex, applyAll_replace_apex, hnamed]
    congr 1
    split
    · simp [*]
    · exact hmembers ‹_›
  rw [applyAll_append, extraChanges, if_pos hapex, applyAll_append, applyAll_append,
    glueDeleted_of_ne _ _ hne, hread,
    apexNsChanges_at hsome hset habsolute (by rw [glueAdded_of_ne _ _ hne, hreplaced])]
  by_cases hempty : op.members = []
  · have hnone : (s.zone.setRrset op).declaredNs = [] := by rw [hdeclared, hempty, List.map_nil]
    exact (rendered_apex_of_undeclared horigin' hnone).symm
  · have hnone : (s.zone.setRrset op).declaredNs ≠ [] := by rw [hdeclared]; simpa using hempty
    rw [← hmembers hempty, ← written_setRrset_self hleaves.written, hapex]
    exact (rendered_apex_of_declared hnone).symm

theorem placeholderGlue_setRrset (hleaves : LeavesApex parses s op)
    (hapex : op.key s.zone.origin ≠ apexKey s.zone.origin) :
    (zoneApex (s.zone.setRrset op)).placeholderGlue = true ↔
      inside (placeholder s.zone.origin) s.zone.origin = true ∧
        lower (placeholder s.zone.origin) ∈ s.zone.nsSet.map lower ∧
        lower (placeholder s.zone.origin) ∉ (s.zone.setRrset op).addressed := by
  rw [placeholderGlue_iff, nsSet_setRrset hleaves hapex]
  rfl

theorem placeholderGlue_of_ne (hdot : s.zone.origin.getLast? = some '.')
    (hleaves : LeavesApex parses s op) (hapex : op.key s.zone.origin ≠ apexKey s.zone.origin)
    (hglue : op.rtype.isAddress → op.owner s.zone.origin ≠ lower (glueOwner s.zone.origin)) :
    (zoneApex (s.zone.setRrset op)).placeholderGlue = (zoneApex s.zone).placeholderGlue := by
  rw [Bool.eq_iff_iff, placeholderGlue_setRrset hleaves hapex, placeholderGlue_iff]
  refine and_congr_right fun hinside => and_congr_right fun _ => not_congr ?_
  refine mem_addressed_setRrset_of_ne fun haddress => ?_
  rw [placeholder_of_inside hdot hinside]
  exact (hglue haddress).symm

theorem key_ne_apexKey_of_isAddress {op : RrsetOp} (haddress : op.rtype.isAddress)
    (origin : Name) : op.key origin ≠ apexKey origin := by
  intro hkey
  have hrtype : op.rtype = .ns := congrArg Prod.snd hkey
  rw [hrtype] at haddress
  cases haddress

/-- With an address of its own, `ns1` has no glue; without one it has it exactly if it is a name server
of the apex. -/
theorem placeholderGlue_of_eq (hdot : s.zone.origin.getLast? = some '.')
    (hleaves : LeavesApex parses s op) (haddress : op.rtype.isAddress)
    (howner : op.owner s.zone.origin = lower (glueOwner s.zone.origin)) :
    ((zoneApex (s.zone.setRrset op)).placeholderGlue = true → op.members = []) ∧
      ((zoneApex s.zone).placeholderGlue = true → op.members = [] →
        (zoneApex (s.zone.setRrset op)).placeholderGlue = true) := by
  have hapex := key_ne_apexKey_of_isAddress haddress s.zone.origin
  have hrelevant : op.owner s.zone.origin ∈ apexAddressNames s.zone.origin s.zone.primaryNs := by
    rw [howner]
    exact List.mem_cons_self
  have hafter := mem_addressed_setRrset_owner haddress (hleaves.otherFamily haddress hrelevant)
  constructor
  · intro hglue
    by_contra hmembers
    have hnot : lower (glueOwner (s.zone.setRrset op).origin) ∉ (s.zone.setRrset op).addressed :=
      glueOwner_not_addressed hdot hglue
    rw [origin_setRrset, ← howner] at hnot
    exact hnot (hafter.mpr hmembers)
  · intro hglue hmembers
    obtain ⟨hinside, hset, -⟩ := placeholderGlue_iff.mp hglue
    refine (placeholderGlue_setRrset hleaves hapex).mpr ⟨hinside, hset, ?_⟩
    rw [placeholder_of_inside hdot hinside, ← howner, hafter, not_not]
    exact hmembers

theorem before_glue (hleaves : LeavesApex parses s op) (hbefore : Compared s op before) :
    before.placeholderGlue = (zoneApex s.zone).placeholderGlue ∨
      (op.rtype.isAddress ∧ op.members ≠ []) := by
  rcases hbefore with rfl | ⟨hfailures, rfl⟩
  · exact .inl rfl
  · exact hleaves.retried hfailures

theorem rendered_glue_setRrset :
    rendered parses (s.zone.setRrset op) (glueKey s.zone.origin) =
      glueSet (zoneApex (s.zone.setRrset op)).placeholderGlue ∪
        written parses (s.zone.setRrset op) (glueKey s.zone.origin) :=
  rendered_glue

theorem glue_of_apex (hdot : s.zone.origin.getLast? = some '.') (hserved : ApexServed parses s)
    (hleaves : LeavesApex parses s op) (hapex : op.key s.zone.origin = apexKey s.zone.origin)
    (hbefore : Compared s op before) :
    Brings parses s op before (zoneApex (s.zone.setRrset op)) (glueKey s.zone.origin) := by
  unfold Brings
  have hne := apexKey_ne_glueKey s.zone.origin
  have hop : op.key s.zone.origin ≠ glueKey s.zone.origin := hapex ▸ hne
  have hrtype : op.rtype = .ns := congrArg Prod.snd hapex
  have hflag : before.placeholderGlue = (zoneApex s.zone).placeholderGlue := by
    rcases before_glue hleaves hbefore with hflag | ⟨haddress, -⟩
    · exact hflag
    · rw [hrtype] at haddress
      cases haddress
  have hempty : (zoneApex s.zone).placeholderGlue = true →
      written parses s.zone (glueKey s.zone.origin) = ∅ := fun hglue =>
    written_glue_eq_empty (glueOwner_not_addressed hdot hglue)
  rw [applyAll_append, extraChanges, if_pos hapex, applyAll_append, applyAll_append,
    glueDeleted_at, apexNsChanges_of_ne hne, glueAdded_at, replaceRrset_of_ne hop, hserved.glue,
    rendered_glue, rendered_glue_setRrset, written_setRrset_of_ne hop, hflag]
  cases hglue : (zoneApex s.zone).placeholderGlue with
  | true =>
    rw [hempty hglue]
    cases (zoneApex (s.zone.setRrset op)).placeholderGlue with
    | true => simp [glueSet]
    | false => simp [glueSet]
  | false =>
    cases (zoneApex (s.zone.setRrset op)).placeholderGlue with
    | true => simp [glueSet]
    | false => simp [glueSet]

theorem glue_of_address (hapex : op.key s.zone.origin ≠ apexKey s.zone.origin)
    (haddress : op.rtype.isAddress)
    (howner : op.owner s.zone.origin = lower (glueOwner s.zone.origin)) :
    applyAll (apexKey s.zone.origin) s.named
        (replaceRrset s.zone.origin op op.members ++ extraChanges s.zone op before after)
        (glueKey s.zone.origin) =
      glueSet (after.placeholderGlue && !before.placeholderGlue) ∪
        applyAll (apexKey s.zone.origin) s.named (replaceRrset s.zone.origin op op.members)
          (glueKey s.zone.origin) := by
  have hrelevant : op.owner s.zone.origin ∈ apexAddressNames s.zone.origin s.zone.primaryNs := by
    rw [howner]
    exact List.mem_cons_self
  rw [applyAll_append, extraChanges, if_neg hapex, if_pos ⟨haddress, hrelevant⟩, glueAdded_at]

theorem glue_of_owner (hdot : s.zone.origin.getLast? = some '.') (hserved : ApexServed parses s)
    (hleaves : LeavesApex parses s op) (haddress : op.rtype.isAddress)
    (howner : op.owner s.zone.origin = lower (glueOwner s.zone.origin))
    (hbefore : Compared s op before) :
    Brings parses s op before (zoneApex (s.zone.setRrset op)) (glueKey s.zone.origin) := by
  unfold Brings
  have hapex := key_ne_apexKey_of_isAddress haddress s.zone.origin
  obtain ⟨hgone, hstays⟩ := placeholderGlue_of_eq hdot hleaves haddress howner
  have hflag := before_glue hleaves hbefore
  rw [glue_of_address hapex haddress howner, rendered_glue_setRrset]
  cases hrtype : op.rtype with
  | a =>
    have hkey : op.key s.zone.origin = glueKey s.zone.origin := Prod.ext howner hrtype
    have hreplaced : applyAll (apexKey s.zone.origin) s.named
        (replaceRrset s.zone.origin op op.members) (glueKey s.zone.origin) =
        written parses (s.zone.setRrset op) (glueKey s.zone.origin) := by
      rw [← hkey, written_setRrset_self hleaves.written]
      exact applyAll_replace hapex _
    rw [hreplaced]
    congr 2
    cases hafter : (zoneApex (s.zone.setRrset op)).placeholderGlue with
    | false => rfl
    | true =>
      -- the glue was not served, and no earlier try has noted it
      have hmembers := hgone hafter
      have hclear : before.placeholderGlue = false := by
        rcases hflag with hflag | ⟨-, hnot⟩
        · rw [hflag, hleaves.cleared hkey hmembers]
        · exact absurd hmembers hnot
      rw [hclear]
      rfl
  | aaaa =>
    have hkey : op.key s.zone.origin = (lower (glueOwner s.zone.origin), .aaaa) :=
      Prod.ext howner hrtype
    have hop : op.key s.zone.origin ≠ glueKey s.zone.origin := by
      rw [hkey]
      exact fun h => absurd (congrArg Prod.snd h) (by simp [glueKey])
    rw [replaceRrset_of_ne hop, written_setRrset_of_ne hop, hserved.glue, rendered_glue,
      ← Finset.union_assoc]
    congr 1
    by_cases hmembers : op.members = []
    · have hsame : before.placeholderGlue = (zoneApex s.zone).placeholderGlue :=
        hflag.resolve_right fun h => h.2 hmembers
      rw [hsame]
      cases hglue : (zoneApex s.zone).placeholderGlue with
      | true => rw [hstays hglue hmembers]; simp [glueSet]
      | false => simp [glueSet]
    · have hafter : (zoneApex (s.zone.setRrset op)).placeholderGlue = false :=
        Bool.eq_false_iff.mpr fun h => hmembers (hgone h)
      rw [hafter, hleaves.aaaa hkey hmembers]
      simp [glueSet]
  | ns =>
    rw [hrtype] at haddress
    cases haddress
  | other =>
    rw [hrtype] at haddress
    cases haddress

theorem glue_of_ne (hdot : s.zone.origin.getLast? = some '.') (hserved : ApexServed parses s)
    (hleaves : LeavesApex parses s op) (hapex : op.key s.zone.origin ≠ apexKey s.zone.origin)
    (hne : op.rtype.isAddress → op.owner s.zone.origin ≠ lower (glueOwner s.zone.origin))
    (hbefore : Compared s op before) :
    Brings parses s op before (zoneApex (s.zone.setRrset op)) (glueKey s.zone.origin) := by
  unfold Brings
  have hop : op.key s.zone.origin ≠ glueKey s.zone.origin := by
    intro hkey
    have hrtype : op.rtype = .a := congrArg Prod.snd hkey
    exact hne (by rw [hrtype]; rfl) (congrArg Prod.fst hkey)
  have hafter := placeholderGlue_of_ne hdot hleaves hapex hne
  have hflag : before.placeholderGlue = (zoneApex s.zone).placeholderGlue := by
    rcases hbefore with rfl | ⟨-, rfl⟩
    · rfl
    · exact hafter
  rw [rendered_glue_setRrset, hafter, written_setRrset_of_ne hop, applyAll_append, extraChanges, if_neg hapex]
  split
  · rw [glueAdded_at, hafter, hflag, Bool.and_not_self, replaceRrset_of_ne hop, hserved.glue,
      rendered_glue]
    simp [glueSet]
  · rw [applyAll_nil, replaceRrset_of_ne hop, hserved.glue, rendered_glue]

theorem step_apexServed (horigin : Absolute s.zone.origin) (hnoted : Noted s.state s.zone)
    (hserved : ApexServed parses s) (hleaves : LeavesApex parses s op)
    (hstep : step parses s op = some s') :
    Absolute s'.zone.origin ∧ Noted s'.state s'.zone ∧ ApexServed parses s' := by
  obtain ⟨before, hzone, hnoted', hnamed, hbefore, hread⟩ :=
    step_cases horigin hnoted hleaves hstep
  have hkey : s'.zone.origin = s.zone.origin := by rw [hzone, origin_setRrset]
  refine ⟨hkey ▸ horigin, hzone ▸ hnoted', ?_, ?_⟩
  · rw [hkey, hnamed, hzone]
    by_cases hapex : op.key s.zone.origin = apexKey s.zone.origin
    · obtain ⟨read, hserved'⟩ := Option.isSome_iff_exists.mp (hleaves.read hapex)
      obtain ⟨habsolute, hnames⟩ := hread read hserved'
      exact apexNs_of_eq horigin hleaves hapex hserved' habsolute hnames
    · exact apexNs_of_ne horigin hserved hleaves hapex
  · rw [hkey, hnamed, hzone]
    by_cases hapex : op.key s.zone.origin = apexKey s.zone.origin
    · exact glue_of_apex horigin.dotted hserved hleaves hapex hbefore
    · by_cases howner : op.rtype.isAddress ∧ op.owner s.zone.origin = lower (glueOwner s.zone.origin)
      · exact glue_of_owner horigin.dotted hserved hleaves howner.1 howner.2 hbefore
      · exact glue_of_ne horigin.dotted hserved hleaves hapex
          (fun haddress heq => howner ⟨haddress, heq⟩) hbefore

/-- After every op of a run whose ops all meet the condition, named serves the apex name servers and the
addresses of `ns1`, the glue among them, that the next render writes. -/
theorem record_ops_leave_rendered_apex (parses : RType → Name → Bool) {zone : Zone}
    (horigin : Absolute zone.origin) {ops : List RrsetOp} {s' : System}
    (hleaves : Meets (step parses) (LeavesApex parses) (System.render parses zone) ops)
    (hrun : run (step parses) (System.render parses zone) ops = some s') :
    ApexServed parses s' := by
  have hend := run_of_step
    (I := fun s : System => Absolute s.zone.origin ∧ Noted s.state s.zone ∧ ApexServed parses s)
    (fun {s op s'} ⟨horigin, hnoted, hserved⟩ hop hstep =>
      step_apexServed horigin hnoted hserved hop hstep)
    ⟨horigin, noted_rememberApex horigin, ⟨rfl, rfl⟩⟩ hleaves hrun
  exact hend.2.2

section

private def everyValue (_ : RType) (_ : Name) : Bool := true

/-- A zone that is served with the placeholder, and an op that gives it a name server. -/
private def bareZone : Zone := ⟨"example.com.".toList, none, none, []⟩

private def declaresNs : RrsetOp :=
  { name := "@".toList
    rtype := .ns
    members := ["ns.example.net.".toList]
    value := "ns.example.net.".toList
    failures := 0
    served := some ["ns1.example.com.".toList] }

theorem record_ops_leave_rendered_apex_declared :
    ∃ s', run (step everyValue) (System.render everyValue bareZone) [declaresNs] = some s' ∧
      ApexServed everyValue s' := by
  have hsome : (run (step everyValue) (System.render everyValue bareZone) [declaresNs]).isSome := by
    decide +kernel
  obtain ⟨s', hs'⟩ := Option.isSome_iff_exists.mp hsome
  have hleaves : LeavesApex everyValue (System.render everyValue bareZone) declaresNs :=
    { written := by decide +kernel
      read := fun _ => rfl
      otherFamily := fun h => absurd h (by decide)
      primary := fun h => absurd h (by decide)
      aaaa := fun h => absurd (congrArg Prod.snd h) (by decide)
      cleared := fun h => absurd (congrArg Prod.snd h) (by decide)
      retried := fun h => absurd rfl h }
  have habsolute : Absolute bareZone.origin := by decide +kernel
  have hmeets : Meets (step everyValue) (LeavesApex everyValue) (System.render everyValue bareZone)
      [declaresNs] := fun _ _ => ⟨hleaves, trivial⟩
  exact ⟨s', hs', record_ops_leave_rendered_apex everyValue habsolute hmeets hs'⟩

/-- A zone whose `primary_ns` has an address of each family. -/
private def twoFamilies : Zone :=
  { name := "example.com.".toList
    primaryNs := some "ns.example.com.".toList
    adminEmail := none
    records := [⟨"ns".toList, .a, "192.0.2.5".toList⟩, ⟨"ns".toList, .aaaa, "2001:db8::5".toList⟩] }

instance (s : System) : Decidable (ApexServed parses s) :=
  decidable_of_iff (_ ∧ _) ⟨fun h => ⟨h.1, h.2⟩, fun h => ⟨h.ns, h.glue⟩⟩

/-- Taking the IPv4 address away leaves the owner addressed, yet the op adds the glue of a placeholder
that the next render does not write. -/
theorem record_op_leaves_unrendered_glue :
    ∃ s', run (step everyValue) (System.render everyValue twoFamilies)
        [⟨"ns".toList, .a, [], "192.0.2.5".toList, 0, none⟩] = some s' ∧
      s'.named (glueKey s'.zone.origin) = {placeholderNsAddress} ∧
      rendered everyValue s'.zone (glueKey s'.zone.origin) = ∅ ∧ ¬ ApexServed everyValue s' := by
  have hrun : (run (step everyValue) (System.render everyValue twoFamilies)
      [⟨"ns".toList, .a, [], "192.0.2.5".toList, 0, none⟩]).any (fun s' =>
        s'.named (glueKey s'.zone.origin) = {placeholderNsAddress} ∧
        rendered everyValue s'.zone (glueKey s'.zone.origin) = ∅ ∧ ¬ ApexServed everyValue s') := by
    decide +kernel
  obtain ⟨s', hs', hends⟩ := (Option.any_eq_true _ _).mp hrun
  exact ⟨s', hs', of_decide_eq_true hends⟩

end

end SpatiumDdi.Dns.Apex
