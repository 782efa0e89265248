import Mathlib.Data.Int.Notation
import Mathlib.Data.String.Basic
import SpatiumDdi.Dns.Ingest

/-!
A report of the only server of a zone (`reconcile_external_records` without peers), over the zone's
rows with their views. A row is one for its name, type and value; what sets two records of these
apart, or changes in one, is kept out where a row is there already.
-/

namespace SpatiumDdi.Dns.Ingest

/-- What a report says of a record, and what a row holds of one. -/
structure RecordFields where
  name : String
  recordType : String
  value : String
  ttl : Option ℤ
  priority : Option ℤ
  weight : Option ℤ
  port : Option ℤ

namespace RecordFields

variable (r : RecordFields)

def key : Key := ⟨r.name.toLower, r.recordType.toUpper, Text.strip r.value⟩

/-- The resource record, its TTL apart. -/
def resource : Key × Option ℤ × Option ℤ × Option ℤ := (r.key, r.priority, r.weight, r.port)

end RecordFields

structure Row (V : Type) where
  record : RecordFields
  view : Option V
  /-- `import_source` says that it is a mirror row. -/
  external : Bool
  deleted : Bool

structure ViewReport (V : Type) where
  incoming : List RecordFields
  view : Option V
  stampView : Bool

variable {V : Type}

def Row.isManaged (row : Row V) : Bool := !row.deleted && !row.external

/-- A mirror row that the copy of the report holds. -/
def ViewReport.shows [DecidableEq V] (rep : ViewReport V) (row : Row V) : Bool :=
  !row.deleted && row.external && (rep.view.isNone || row.view.isNone || row.view = rep.view)

/-- `desired`: the first record of each key. -/
def firsts : List RecordFields → List RecordFields
  | [] => []
  | r :: rest => r :: (firsts rest).filter fun s => s.key ≠ r.key

def keysOf (records : List RecordFields) : List Key := (firsts records).map (·.key)

/-- The rows without the last that is shown of each key that is not desired. -/
def dropVanished (shows : Row V → Bool) (desired : List Key) : List (Row V) → List (Row V)
  | [] => []
  | row :: rows =>
    if shows row ∧ row.record.key ∉ desired ∧
        ¬ ∃ later ∈ rows, shows later ∧ later.record.key = row.record.key then
      dropVanished shows desired rows
    else row :: dropVanished shows desired rows

def addMirror (rep : ViewReport V) (r : RecordFields) : Row V where
  record := { r with recordType := r.recordType.toUpper }
  view := if rep.stampView then rep.view else none
  external := true
  deleted := false

def ViewReport.added (rep : ViewReport V) (records : List RecordFields) (shown : List Key) :
    List (Row V) :=
  ((firsts records).filter (·.key ∉ shown)).map (addMirror rep)

structure Mirrors (rows : List (Row V)) (records : List RecordFields) : Prop where
  distinct : (rows.map (·.record.resource)).Nodup
  reported : ∀ row ∈ rows, ∃ r ∈ records,
    r.resource = row.record.resource ∧ r.ttl = row.record.ttl
  whole : ∀ r ∈ records, ∃ row ∈ rows, row.record.resource = r.resource

section

variable (glueInUse : List (Row V) → Bool) [DecidableEq V]

/-- `_placeholder_glue_in_use` is any predicate of the rows that are no mirror. -/
def zoneOf (rows : List (Row V)) : Zone where
  managedNt := (rows.filter Row.isManaged).map fun row =>
    (row.record.name.toLower, row.record.recordType.toUpper)
  placeholderInUse := glueInUse (rows.filter Row.isManaged)

def ViewReport.learned (rep : ViewReport V) (rows : List (Row V)) : List RecordFields :=
  rep.incoming.filter fun r =>
    !(ignoredTypes.contains r.recordType.toUpper || isApexNs r.name r.recordType.toUpper ||
      (zoneOf glueInUse rows).placeholderInUse &&
        isPlaceholderGlue r.name r.recordType.toUpper r.value) &&
    !(zoneOf glueInUse rows).managedNt.contains (r.name.toLower, r.recordType.toUpper)

/-- The keys of `external_by_key`. -/
def ViewReport.shown (rep : ViewReport V) (rows : List (Row V)) : List Key :=
  (rows.filter rep.shows).map (·.record.key)

/-- `_full_reconcile`, of what a report brings. -/
def ViewReport.pass (rep : ViewReport V) (rows : List (Row V)) : List (Row V) :=
  let records := rep.learned glueInUse rows
  dropVanished rep.shows (keysOf records) rows ++ rep.added records (rep.shown rows)

structure MirroredWhole (rep : ViewReport V) (rows : List (Row V)) : Prop where
  mirrors : Mirrors ((rep.pass glueInUse rows).filter rep.shows) (rep.learned glueInUse rows)
  others : (rep.pass glueInUse rows).filter (!rep.shows ·) = rows.filter (!rep.shows ·)
  again : rep.pass glueInUse (rep.pass glueInUse rows) = rep.pass glueInUse rows

/-- The rows shown of the reported keys are their records already, a key that nothing is shown of
has one record but for the TTL, and a key that is not reported has one row. -/
structure Settled (rep : ViewReport V) (rows : List (Row V)) (records : List RecordFields) :
    Prop where
  held : Mirrors (rows.filter fun row => rep.shows row && row.record.key ∈ keysOf records)
    (records.filter (·.key ∈ rep.shown rows))
  agree : ∀ r ∈ records, ∀ s ∈ records, r.key = s.key → r.key ∉ rep.shown rows →
    r.resource = s.resource
  single : ((rows.filter fun row => rep.shows row && row.record.key ∉ keysOf records).map
    (·.record.key)).Nodup

end

variable {records : List RecordFields} {r : RecordFields}

theorem key_eq {s : RecordFields} (h : r.resource = s.resource) : r.key = s.key :=
  congrArg Prod.fst h

theorem mem_of_mem_firsts (h : r ∈ firsts records) : r ∈ records := by
  induction records with
  | nil => exact h
  | cons s rest ih =>
    rcases List.mem_cons.mp h with rfl | h
    · exact List.mem_cons_self
    · exact List.mem_cons_of_mem _ (ih (List.mem_of_mem_filter h))

theorem mem_keysOf {k : Key} : k ∈ keysOf records ↔ k ∈ records.map (·.key) := by
  rw [keysOf]
  induction records with
  | nil => rfl
  | cons s rest ih =>
    simp only [firsts, List.map_cons, List.mem_cons]
    by_cases hk : k = s.key
    · simp only [hk, true_or]
    rw [or_iff_right hk, or_iff_right hk, ← ih]
    constructor
    · exact fun h => List.map_subset _ (List.filter_subset_self _) h
    · intro h
      obtain ⟨r, hr, rfl⟩ := List.mem_map.mp h
      exact List.mem_map_of_mem (List.mem_filter.mpr ⟨hr, decide_eq_true hk⟩)

theorem nodup_keysOf (records : List RecordFields) : (keysOf records).Nodup := by
  rw [keysOf]
  induction records with
  | nil => exact List.nodup_nil
  | cons s rest ih =>
    rw [firsts, List.map_cons, List.nodup_cons]
    refine ⟨fun hmem => ?_, ih.sublist (List.filter_sublist.map _)⟩
    obtain ⟨r, hr, hkey⟩ := List.mem_map.mp hmem
    exact of_decide_eq_true (List.mem_filter.mp hr).2 hkey

variable {shows p : Row V → Bool} {desired : List Key} {rows : List (Row V)}

theorem filter_dropVanished (hp : ∀ row, p row = true → shows row = true → row.record.key ∈ desired) :
    (dropVanished shows desired rows).filter p = rows.filter p := by
  induction rows with
  | nil => rfl
  | cons row rows ih =>
    rw [dropVanished]
    split
    next h =>
      rw [ih, List.filter_cons_of_neg fun hrow => h.2.1 (hp row hrow h.1)]
    next => rw [List.filter_cons, List.filter_cons, ih]

theorem dropVanished_eq_self (h : ∀ row ∈ rows, shows row = true → row.record.key ∈ desired) :
    dropVanished shows desired rows = rows := by
  induction rows with
  | nil => rfl
  | cons row rows ih =>
    obtain ⟨hrow, hrows⟩ := List.forall_mem_cons.mp h
    rw [dropVanished, if_neg fun hdrop => hdrop.2.1 (hrow hdrop.1), ih hrows]

theorem dropVanished_iff :
    (∀ row ∈ dropVanished shows desired rows, shows row = true → row.record.key ∈ desired) ↔
      ((rows.filter fun row => shows row && row.record.key ∉ desired).map
        (·.record.key)).Nodup := by
  induction rows with
  | nil => simp [dropVanished]
  | cons row rows ih =>
    by_cases hstale : shows row = true ∧ row.record.key ∉ desired
    · rw [List.filter_cons_of_pos (by simpa using hstale), List.map_cons, List.nodup_cons, ← ih,
        dropVanished]
      by_cases hlater : ∃ later ∈ rows, shows later ∧ later.record.key = row.record.key
      · rw [if_neg fun h => h.2.2 hlater]
        obtain ⟨later, hmem, hshow, hkey⟩ := hlater
        constructor
        · exact fun h => absurd (h row List.mem_cons_self hstale.1) hstale.2
        · refine fun h => absurd (List.mem_map.mpr ⟨later, ?_, hkey⟩) h.1
          simp [hmem, hshow, hkey, hstale.2]
      · rw [if_pos ⟨hstale.1, hstale.2, hlater⟩, and_iff_right]
        intro hmem
        obtain ⟨later, hfilter, hkey⟩ := List.mem_map.mp hmem
        simp only [List.mem_filter, Bool.and_eq_true] at hfilter
        exact hlater ⟨later, hfilter.1, hfilter.2.1, hkey⟩
    · rw [List.filter_cons_of_neg (by simpa using hstale), ← ih, dropVanished,
        if_neg fun h => hstale ⟨h.1, h.2.1⟩, List.forall_mem_cons, and_iff_right]
      intro hshow
      by_contra hkey
      exact hstale ⟨hshow, hkey⟩

variable {rep : ViewReport V}

theorem toUpper_idem (c : Char) : c.toUpper.toUpper = c.toUpper := by
  by_cases hc : c.toNat < 0x80
  · have hall : ∀ k < 0x80, (Char.ofNat k).toUpper.toUpper = (Char.ofNat k).toUpper := by
      decide +kernel
    have hchar := hall c.toNat hc
    rwa [Char.ofNat_toNat] at hchar
  · have hlower : ¬ ('a'.val ≤ c.val ∧ c.val ≤ 'z'.val) := by
      rintro ⟨-, hle⟩
      have hnat : c.toNat ≤ 122 := UInt32.le_iff_toNat_le.mp hle
      omega
    exact congrArg Char.toUpper (dif_neg hlower)

theorem resource_addMirror (r : RecordFields) :
    (addMirror rep r).record.resource = r.resource := by
  have htype : r.recordType.toUpper.toUpper = r.recordType.toUpper := by
    rw [String.toUpper, String.toUpper, String.map_map]
    exact congrArg (String.map · _) (funext toUpper_idem)
  simp [addMirror, RecordFields.resource, RecordFields.key, htype]

theorem key_mem {row : Row V} (h : Mirrors rows records) (hrow : row ∈ rows) :
    row.record.key ∈ keysOf records := by
  obtain ⟨r, hr, hres, -⟩ := h.reported row hrow
  rw [← key_eq hres]
  exact mem_keysOf.mpr (List.mem_map_of_mem hr)

variable {shown : List Key}

theorem exists_of_mem_added {row : Row V} (h : row ∈ rep.added records shown) :
    ∃ r ∈ firsts records, r.key ∉ shown ∧ row.record.resource = r.resource ∧
      row.record.ttl = r.ttl := by
  obtain ⟨r, hr, rfl⟩ := List.mem_map.mp h
  obtain ⟨hmem, hkey⟩ := List.mem_filter.mp hr
  exact ⟨r, hmem, of_decide_eq_true hkey, resource_addMirror r, rfl⟩

theorem nodup_added : ((rep.added records shown).map (·.record.resource)).Nodup := by
  have hkeys : (((firsts records).filter (·.key ∉ shown)).map (·.key)).Nodup :=
    (nodup_keysOf records).sublist (List.filter_sublist.map _)
  refine List.Nodup.of_map Prod.fst ?_
  simp only [ViewReport.added, List.map_map, Function.comp_def, resource_addMirror]
  exact hkeys

theorem mirrors_append_iff {held : List (Row V)}
    (hheld : ∀ row ∈ held, row.record.key ∈ shown) :
    Mirrors (held ++ rep.added records shown) records ↔
      Mirrors held (records.filter (·.key ∈ shown)) ∧
        ∀ r ∈ records, ∀ s ∈ records, r.key = s.key → r.key ∉ shown → r.resource = s.resource := by
  constructor
  · intro h
    have hfirst : ∀ r ∈ records, r.key ∉ shown →
        ∃ s ∈ firsts records, s.resource = r.resource := by
      intro r hr hkey
      obtain ⟨row, hrow, hres⟩ := h.whole r hr
      rcases List.mem_append.mp hrow with hrow | hrow
      · refine absurd (hheld row hrow) ?_
        rwa [key_eq hres]
      · obtain ⟨s, hs, -, hrow, -⟩ := exists_of_mem_added hrow
        exact ⟨s, hs, hrow.symm.trans hres⟩
    refine ⟨⟨?_, fun row hrow => ?_, fun r hr => ?_⟩, fun r hr s hs hkey hshown => ?_⟩
    · have hdistinct := h.distinct
      rw [List.map_append] at hdistinct
      exact hdistinct.of_append_left
    · obtain ⟨r, hr, hres, httl⟩ := h.reported row (List.mem_append_left _ hrow)
      refine ⟨r, List.mem_filter.mpr ⟨hr, decide_eq_true ?_⟩, hres, httl⟩
      rw [key_eq hres]
      exact hheld row hrow
    · obtain ⟨hr, hshown⟩ := List.mem_filter.mp hr
      obtain ⟨row, hrow, hres⟩ := h.whole r hr
      rcases List.mem_append.mp hrow with hrow | hrow
      · exact ⟨row, hrow, hres⟩
      · obtain ⟨s, -, hkey, hrow, -⟩ := exists_of_mem_added hrow
        refine absurd (of_decide_eq_true hshown) ?_
        rwa [key_eq (hres.symm.trans hrow)]
    · obtain ⟨r', hr', hres⟩ := hfirst r hr hshown
      obtain ⟨s', hs', hres'⟩ := hfirst s hs (hkey ▸ hshown)
      have heq : r' = s' := List.inj_on_of_nodup_map (nodup_keysOf records) hr' hs'
        ((key_eq hres).trans (hkey.trans (key_eq hres').symm))
      rw [← hres, heq, hres']
  · rintro ⟨h, hagree⟩
    refine ⟨?_, fun row hrow => ?_, fun r hr => ?_⟩
    · rw [List.map_append]
      refine h.distinct.append nodup_added fun res hold hnew => ?_
      obtain ⟨row, hrow, rfl⟩ := List.mem_map.mp hold
      obtain ⟨row', hrow', hres⟩ := List.mem_map.mp hnew
      obtain ⟨s, -, hkey, hrow', -⟩ := exists_of_mem_added hrow'
      refine hkey ?_
      rw [key_eq (hrow'.symm.trans hres)]
      exact hheld row hrow
    · rcases List.mem_append.mp hrow with hrow | hrow
      · obtain ⟨r, hr, hsays⟩ := h.reported row hrow
        exact ⟨r, List.mem_of_mem_filter hr, hsays⟩
      · obtain ⟨r, hr, -, hres, httl⟩ := exists_of_mem_added hrow
        exact ⟨r, mem_of_mem_firsts hr, hres.symm, httl.symm⟩
    · by_cases hshown : r.key ∈ shown
      · obtain ⟨row, hrow, hres⟩ := h.whole r (List.mem_filter.mpr ⟨hr, decide_eq_true hshown⟩)
        exact ⟨row, List.mem_append_left _ hrow, hres⟩
      · obtain ⟨s, hs, hkey⟩ := List.mem_map.mp (mem_keysOf.mpr (List.mem_map_of_mem hr))
        replace hkey : s.key = r.key := hkey
        refine ⟨addMirror rep s, List.mem_append_right _ (List.mem_map_of_mem ?_), ?_⟩
        · exact List.mem_filter.mpr ⟨hs, decide_eq_true (hkey ▸ hshown)⟩
        · rw [resource_addMirror]
          exact hagree s (mem_of_mem_firsts hs) r hr hkey (hkey ▸ hshown)

variable [DecidableEq V] {glueInUse : List (Row V) → Bool}

theorem shows_addMirror (r : RecordFields) : rep.shows (addMirror rep r) = true := by
  cases h : rep.stampView <;> simp [ViewReport.shows, addMirror, h]

theorem filter_shows_pass (h : ∀ row ∈ dropVanished rep.shows (keysOf (rep.learned glueInUse rows))
      rows, rep.shows row = true → row.record.key ∈ keysOf (rep.learned glueInUse rows)) :
    (rep.pass glueInUse rows).filter rep.shows = (rows.filter fun row => rep.shows row &&
        row.record.key ∈ keysOf (rep.learned glueInUse rows)) ++
      rep.added (rep.learned glueInUse rows) (rep.shown rows) := by
  rw [ViewReport.pass, List.filter_append]
  congr 1
  · rw [← filter_dropVanished fun row hrow _ => of_decide_eq_true (Bool.and_eq_true_iff.mp hrow).2]
    refine List.filter_congr fun row hrow => ?_
    cases hshows : rep.shows row with
    | false => rfl
    | true => simp [h row hrow hshows]
  · refine List.filter_eq_self.mpr fun row hrow => ?_
    obtain ⟨r, -, rfl⟩ := List.mem_map.mp hrow
    exact shows_addMirror r

theorem filter_pass (hp : ∀ row, p row = true → rep.shows row = false) :
    (rep.pass glueInUse rows).filter p = rows.filter p := by
  rw [ViewReport.pass, List.filter_append]
  refine (congrArg₂ (· ++ ·) (filter_dropVanished fun row hrow hshows => ?_)
    (List.filter_eq_nil_iff.mpr fun row hrow hkept => ?_)).trans (List.append_nil _)
  · rw [hp row hrow] at hshows
    cases hshows
  · obtain ⟨r, -, rfl⟩ := List.mem_map.mp hrow
    have hshows := hp _ hkept
    rw [shows_addMirror] at hshows
    cases hshows

theorem learned_pass : rep.learned glueInUse (rep.pass glueInUse rows) =
    rep.learned glueInUse rows := by
  have hmanaged : (rep.pass glueInUse rows).filter Row.isManaged = rows.filter Row.isManaged := by
    refine filter_pass fun row hrow => ?_
    simp only [Row.isManaged, Bool.and_eq_true, Bool.not_eq_true'] at hrow
    simp [ViewReport.shows, hrow.2]
  rw [ViewReport.learned, ViewReport.learned, zoneOf, zoneOf, hmanaged]

/-- **A report is mirrored whole if and only if what is shown before of its keys is settled.** -/
theorem mirroredWhole_iff (glueInUse : List (Row V) → Bool) (rep : ViewReport V)
    (rows : List (Row V)) : MirroredWhole glueInUse rep rows ↔
      Settled rep rows (rep.learned glueInUse rows) := by
  have hheld : ∀ row ∈ rows.filter fun row => rep.shows row &&
      row.record.key ∈ keysOf (rep.learned glueInUse rows),
      row.record.key ∈ rep.shown rows := by
    intro row hrow
    simp only [List.mem_filter, Bool.and_eq_true] at hrow
    exact List.mem_map_of_mem (List.mem_filter.mpr ⟨hrow.1, hrow.2.1⟩)
  constructor
  · intro h
    have hmirrors := h.mirrors
    have hleft : ∀ row ∈ rep.pass glueInUse rows, rep.shows row = true →
        row.record.key ∈ keysOf (rep.learned glueInUse rows) :=
      fun row hrow hshows => key_mem hmirrors (List.mem_filter.mpr ⟨hrow, hshows⟩)
    have hdropped := fun row hrow => hleft row (List.mem_append_left _ hrow)
    rw [filter_shows_pass hdropped, mirrors_append_iff hheld] at hmirrors
    exact ⟨hmirrors.1, hmirrors.2, dropVanished_iff.mp hdropped⟩
  · rintro ⟨hagrees, hagree, hsingle⟩
    have hmirrors : Mirrors ((rep.pass glueInUse rows).filter rep.shows)
        (rep.learned glueInUse rows) := by
      rw [filter_shows_pass (dropVanished_iff.mpr hsingle), mirrors_append_iff hheld]
      exact ⟨hagrees, hagree⟩
    refine ⟨hmirrors, filter_pass fun row hrow => ?_, ?_⟩
    · exact Bool.not_eq_true' _ ▸ hrow
    -- The second time nothing is missing, and nothing is shown of other keys.
    rw [ViewReport.pass, learned_pass, dropVanished_eq_self, ViewReport.added,
      List.filter_eq_nil_iff.mpr, List.map_nil, List.append_nil]
    · intro r hr hmissing
      obtain ⟨row, hrow, hres⟩ := hmirrors.whole r (mem_of_mem_firsts hr)
      refine of_decide_eq_true hmissing ?_
      rw [key_eq hres.symm]
      exact List.mem_map_of_mem hrow
    · exact fun row hrow hshows => key_mem hmirrors (List.mem_filter.mpr ⟨hrow, hshows⟩)

/-- A domain controller's two services on one host: the mirror holds the first alone. -/
theorem not_mirroredWhole_two_ports : ¬ MirroredWhole (V := ℕ) (fun _ => false)
    { incoming := [389, 3268].map fun port =>
        ⟨"_ldap._tcp", "SRV", "dc1.example.com.", some 600, some 0, some 100, some port⟩
      view := none
      stampView := false } [] := by
  intro h
  have hwhole := h.mirrors.whole
  revert hwhole
  decide +kernel

end SpatiumDdi.Dns.Ingest
