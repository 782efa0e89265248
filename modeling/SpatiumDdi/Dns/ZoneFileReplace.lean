import SpatiumDdi.Dns.ZoneFileDiff

/-!
What a replace leaves of a zone's rows.

Rows outside the scope and managed rows stay; a row of the operator in scope takes what
the first record of its key says, or goes, so each such row is a record of the file's. A
record that repeats a key is dropped, and a row that keeps its TTL for the file giving the
lowest of its RRset is stable only while that lowest stays.
-/

namespace SpatiumDdi.Dns.ZoneFile

section Condition

variable (F : Forms) (args : Import) (existing : List DNSRecord) (parsed : List ParsedRecord)

/-- A repeated record is not lost: it has the data of the one before it, which is written,
or its name when that one is left out, or the data of a row that stays. -/
def RepeatsAgree : Prop :=
  ∀ p ∈ parsed, ∀ f, fileRecord F args parsed (fileKey F args p) = some f →
    (SameData p f.priority f.weight f.port ∧
      (IsNew F args existing f ∨ ∃ row, Owned F args existing f row)) ∨
    (p.triple = f.triple ∧ Refused F args existing parsed f) ∨
    (∃ row ∈ existing, Kept args row ∧ Matches F args p row)

def leftTtl (row : DNSRecord) : Option Int :=
  match fileRecord F args parsed (rowKey F args row) with
  | some f =>
    if row.viewId = args.viewId ∧ managedReason row = none ∧
        ttlChanged F args (lowestNow F args existing parsed) f row then f.ttl
    else row.ttl
  | none => row.ttl

instance (p : ParsedRecord) : Decidable (IsNew F args existing p) :=
  inferInstanceAs (Decidable (_ ∧ _))

/-- The TTLs that a key is left with: those of the rows that serve it, and a new record's. -/
def leftTtls (key : Key) : List (Option Int) :=
  (served F args existing key).map (leftTtl F args existing parsed) ++
    ((fileRecord F args parsed key).filter (IsNew F args existing ·)).toList.map (·.ttl)

/-- An RRset with a row whose TTL stays for being the lowest keeps its lowest TTL. -/
def LowestStays : Prop :=
  ∀ f ∈ parsed, fileRecord F args parsed (fileKey F args f) = some f →
    ∀ row, Owned F args existing f row → ttlDiffers args f row →
      f.ttl = lowestNow F args existing parsed (rrset F f) →
        f.ttl = rrsetMin F args parsed (leftTtls F args existing parsed) (rrset F f)

end Condition

section Replace

variable {F : Forms} {args : Import} {existing : List DNSRecord} {parsed : List ParsedRecord}

variable (F args existing parsed) in
def settle (row : DNSRecord) : DNSRecord :=
  match fileRecord F args parsed (rowKey F args row) with
  | some f =>
    if row.viewId = args.viewId ∧ managedReason row = none then
      { row with
        ttl := leftTtl F args existing parsed row
        priority := f.priority
        weight := f.weight
        port := f.port }
    else row
  | none => row

variable {f : ParsedRecord} {row : DNSRecord}

theorem leftTtl_of_owned (hf : fileRecord F args parsed (rowKey F args row) = some f)
    (h : row.viewId = args.viewId ∧ managedReason row = none) :
    leftTtl F args existing parsed row =
      if ttlChanged F args (lowestNow F args existing parsed) f row then f.ttl else row.ttl := by
  rw [leftTtl, hf]
  simp only [h, true_and]

theorem settle_of_not_owned (h : ¬(row.viewId = args.viewId ∧ managedReason row = none)) :
    settle F args existing parsed row = row := by
  rw [settle]
  split
  · exact if_neg h
  · rfl

theorem settle_of_owned (hf : fileRecord F args parsed (rowKey F args row) = some f)
    (h : row.viewId = args.viewId ∧ managedReason row = none) :
    settle F args existing parsed row =
      { row with
        ttl := leftTtl F args existing parsed row
        priority := f.priority
        weight := f.weight
        port := f.port } := by
  rw [settle, hf]
  exact if_pos h

variable (F args existing parsed) in
theorem settle_same (row : DNSRecord) :
    (settle F args existing parsed row).viewId = row.viewId ∧
      rowKey F args (settle F args existing parsed row) = rowKey F args row ∧
      managedReason (settle F args existing parsed row) = managedReason row := by
  rw [settle]
  split
  · split
    · exact ⟨rfl, rfl, rfl⟩
    · exact ⟨rfl, rfl, rfl⟩
  · exact ⟨rfl, rfl, rfl⟩

theorem settle_ttl (row : DNSRecord) :
    (settle F args existing parsed row).ttl = leftTtl F args existing parsed row := by
  by_cases howned : row.viewId = args.viewId ∧ managedReason row = none
  · cases hf : fileRecord F args parsed (rowKey F args row) with
    | none => rw [settle, leftTtl, hf]
    | some f => rw [settle_of_owned hf howned]
  · rw [settle_of_not_owned howned, leftTtl]
    split
    · rw [if_neg fun h => howned ⟨h.1, h.2.1⟩]
    · rfl

variable {p : ParsedRecord}

theorem owned_iff :
    Owned F args existing p row ↔ row ∈ existing ∧ row.viewId = args.viewId ∧
      rowKey F args row = fileKey F args p ∧ managedReason row = none := by
  rw [Owned, mem_withKey, mem_inScope, and_assoc, and_assoc]

theorem data_of_not_changed {lowest : String × String → Option Int}
    (h : changed F args lowest f row = false) :
    ttlChanged F args lowest f row = false ∧ SameData f row.priority row.weight row.port := by
  simp only [changed, metaChanged, Bool.or_eq_false_iff, decide_eq_false_iff_not, not_not] at h
  exact ⟨h.1, h.2.1.1, h.2.1.2, h.2.2⟩

theorem ttlDiffers_self (h : row.ttl = p.ttl) : ttlDiffers args p row = false := by
  rw [ttlDiffers, h]
  cases p.ttl with
  | none => cases args.zoneDefaultTtl <;> simp
  | some ttl => simp

theorem ttlDiffers_congr {row' : DNSRecord} (h : row.ttl = row'.ttl) :
    ttlDiffers args p row = ttlDiffers args p row' := by
  rw [ttlDiffers, ttlDiffers, h]

theorem fileKey_of_triple {q : ParsedRecord} (h : p.triple = q.triple) :
    fileKey F args p = fileKey F args q := by
  simp only [ParsedRecord.triple, Prod.mk.injEq] at h
  rw [fileKey, fileKey, h.1, h.2.1, h.2.2]

variable (F args parsed) in
def RrsetTtl (ttls : Key → List (Option Int)) (rk : String × String) (x : Int) : Prop :=
  ∃ p ∈ parsed, rrset F p = rk ∧ ∃ t ∈ ttls (fileKey F args p), effective args t = some x

section Lowest

variable {ttls ttls' : Key → List (Option Int)} {rk : String × String}

theorem mem_rrsetTtls {x : Int} :
    x ∈ ((parsed.filter (rrset F · = rk)).flatMap fun p =>
      (ttls (fileKey F args p)).filterMap (effective args)) ↔ RrsetTtl F args parsed ttls rk x := by
  simp only [RrsetTtl, List.mem_flatMap, List.mem_filterMap, List.mem_filter, decide_eq_true_eq,
    and_assoc]

theorem rrsetMin_congr (h : ∀ x, RrsetTtl F args parsed ttls rk x ↔ RrsetTtl F args parsed ttls' rk x) :
    rrsetMin F args parsed ttls rk = rrsetMin F args parsed ttls' rk := by
  rw [rrsetMin, rrsetMin]
  ext low
  simp only [List.min?_eq_some_iff, mem_rrsetTtls, h]

end Lowest

section Applied

variable (hids : (existing.map (·.id)).Nodup)

include hids

section

variable (hrow : row ∈ existing)
include hrow

theorem eq_of_id {row' : DNSRecord} (hrow' : row' ∈ existing) (h : row.id = row'.id) : row = row' :=
  List.inj_on_of_nodup_map hids hrow hrow' h

theorem updated_eq :
    updated (diffRecords F args parsed existing).toUpdate row =
      settle F args existing parsed row := by
  rw [updated]
  cases hfind : (diffRecords F args parsed existing).toUpdate.find?
      (·.existingId = some row.id) with
  | some c =>
    have hid : c.existingId = some row.id := by simpa using List.find?_some hfind
    obtain ⟨f, hf, row', howned, hchanged, rfl⟩ := mem_toUpdate.mp (List.mem_of_find?_eq_some hfind)
    obtain ⟨hrow', hview, hkey, hreason⟩ := owned_iff.mp howned
    obtain rfl : row' = row := eq_of_id hids hrow' hrow (Option.some.inj hid)
    have hrecord : fileRecord F args parsed (rowKey F args row') = some f := by
      rw [hkey]
      exact hf
    rw [settle_of_owned hrecord ⟨hview, hreason⟩, leftTtl_of_owned hrecord ⟨hview, hreason⟩]
    rfl
  | none =>
    by_cases howned : row.viewId = args.viewId ∧ managedReason row = none
    · cases hf : fileRecord F args parsed (rowKey F args row) with
      | none =>
        rw [settle, hf]
      | some f =>
        have hkey : rowKey F args row = fileKey F args f := (fileRecord_key hf).symm
        have hsame : changed F args (lowestNow F args existing parsed) f row = false := by
          by_contra hchanged
          have hmem := mem_toUpdate.mpr ⟨f, fileRecord_first hf, row,
            owned_iff.mpr ⟨hrow, howned.1, hkey, howned.2⟩, by simpa using hchanged, rfl⟩
          have hnot := List.find?_eq_none.mp hfind _ hmem
          exact hnot (by simp [updateOf, ParsedRecord.change])
        obtain ⟨httl, hpriority, hweight, hport⟩ := data_of_not_changed hsame
        have hleft : leftTtl F args existing parsed row = row.ttl := by
          rw [leftTtl_of_owned hf howned, httl]
          rfl
        rw [settle_of_owned hf howned, hleft, hpriority, hweight, hport]
    · exact (settle_of_not_owned howned).symm

theorem dropped_iff :
    (diffRecords F args parsed existing).toDelete.any (·.existingId = some row.id) = true ↔
      row.viewId = args.viewId ∧ managedReason row = none ∧
        rowKey F args row ∉ parsed.map (fileKey F args) := by
  rw [List.any_eq_true]
  constructor
  · rintro ⟨c, hc, hid⟩
    obtain ⟨row', hrow', hleft, hreason, rfl⟩ := mem_toDelete.mp hc
    obtain ⟨hmem, hview⟩ := mem_inScope.mp hrow'
    obtain rfl : row' = row :=
      eq_of_id hids hmem hrow (Option.some.inj (of_decide_eq_true hid))
    exact ⟨hview, hreason, hleft⟩
  · rintro ⟨hview, hreason, hleft⟩
    exact ⟨_, mem_toDelete.mpr ⟨row, mem_inScope.mpr ⟨hrow, hview⟩, hleft, hreason, rfl⟩,
      decide_eq_true rfl⟩

end

theorem mem_applied {newId : RecordChange → Nat} {x : DNSRecord} :
    x ∈ applyDiff newId (diffRecords F args parsed existing) existing ↔
      (∃ row ∈ existing, ¬(row.viewId = args.viewId ∧ managedReason row = none ∧
          rowKey F args row ∉ parsed.map (fileKey F args)) ∧
        x = settle F args existing parsed row) ∨
      ∃ f, First F args parsed f ∧ IsNew F args existing f ∧ x = newRow newId (createOf args f) := by
  rw [applyDiff, List.mem_append]
  refine or_congr ?_ ?_
  · rw [List.mem_map]
    constructor
    · rintro ⟨row, hrow, rfl⟩
      obtain ⟨hmem, hkept⟩ := List.mem_filter.mp hrow
      refine ⟨row, hmem, fun hdropped => ?_, updated_eq hids hmem⟩
      rw [(dropped_iff hids hmem).mpr hdropped] at hkept
      cases hkept
    · rintro ⟨row, hmem, hkept, rfl⟩
      refine ⟨row, List.mem_filter.mpr ⟨hmem, ?_⟩, updated_eq hids hmem⟩
      rw [Bool.not_eq_true', Bool.eq_false_iff]
      exact fun hany => hkept ((dropped_iff hids hmem).mp hany)
  · rw [List.mem_map]
    constructor
    · rintro ⟨c, hc, rfl⟩
      obtain ⟨f, hf, hnew, rfl⟩ := mem_toCreate.mp hc
      exact ⟨f, hf, hnew, rfl⟩
    · rintro ⟨f, hf, hnew, rfl⟩
      exact ⟨_, mem_toCreate.mpr ⟨f, hf, hnew, rfl⟩, rfl⟩

end Applied

variable (F args existing parsed) in
def replaced (newId : RecordChange → Nat) : List DNSRecord :=
  applyDiff newId (diffRecords F args parsed existing) existing

section Replaced

variable {newId : RecordChange → Nat} (hids : (existing.map (·.id)).Nodup)

include hids

theorem mem_replaced_of_not_owned (h : ¬(row.viewId = args.viewId ∧ managedReason row = none)) :
    row ∈ replaced F args existing parsed newId ↔ row ∈ existing := by
  rw [replaced, mem_applied hids]
  constructor
  · rintro (⟨row', hrow', -, rfl⟩ | ⟨f, -, -, rfl⟩)
    · obtain ⟨hview, -, hreason⟩ := settle_same F args existing parsed row'
      rw [hview, hreason] at h
      rwa [settle_of_not_owned h]
    · exact absurd ⟨rfl, rfl⟩ h
  · intro hrow
    exact .inl ⟨row, hrow, fun hdropped => h ⟨hdropped.1, hdropped.2.1⟩,
      (settle_of_not_owned h).symm⟩

theorem owned_matches (hrow : row ∈ replaced F args existing parsed newId)
    (hview : row.viewId = args.viewId) (hreason : managedReason row = none) :
    ∃ p ∈ parsed, Matches F args p row := by
  rw [replaced, mem_applied hids] at hrow
  rcases hrow with ⟨row', hrow', hkept, rfl⟩ | ⟨f, hf, -, rfl⟩
  · obtain ⟨hview', hkey', hreason'⟩ := settle_same F args existing parsed row'
    rw [hview'] at hview
    rw [hreason'] at hreason
    have hin : rowKey F args row' ∈ parsed.map (fileKey F args) := by
      by_contra hleft
      exact hkept ⟨hview, hreason, hleft⟩
    obtain ⟨p, hp, hpkey⟩ := List.mem_map.mp hin
    obtain ⟨f, hf⟩ := exists_fileRecord F args hp
    rw [hpkey] at hf
    refine ⟨f, (fileRecord_first hf).mem, ?_, ?_⟩
    · rw [hkey', fileRecord_key hf]
    · rw [settle_of_owned hf ⟨hview, hreason⟩]
      exact ⟨rfl, rfl, rfl⟩
  · exact ⟨f, hf.mem, rfl, rfl, rfl, rfl⟩

theorem matched_iff (hp : p ∈ parsed) (hf : fileRecord F args parsed (fileKey F args p) = some f) :
    (∃ row ∈ replaced F args existing parsed newId,
        (row.viewId = args.viewId ∨ row.viewId = none) ∧ Matches F args p row) ↔
      (SameData p f.priority f.weight f.port ∧
        (IsNew F args existing f ∨ ∃ row, Owned F args existing f row)) ∨
      (∃ row ∈ existing, Kept args row ∧ Matches F args p row) := by
  have hfkey : fileKey F args f = fileKey F args p := fileRecord_key hf
  constructor
  · rintro ⟨x, hx, hserved, hkey, hdata⟩
    rw [replaced, mem_applied hids] at hx
    rcases hx with ⟨row, hrow, -, rfl⟩ | ⟨f', hf', hnew, rfl⟩
    · by_cases howned : row.viewId = args.viewId ∧ managedReason row = none
      · obtain ⟨-, hkey', -⟩ := settle_same F args existing parsed row
        rw [hkey'] at hkey
        have hrecord : fileRecord F args parsed (rowKey F args row) = some f := by
          rw [hkey]
          exact hf
        rw [settle_of_owned hrecord howned] at hdata
        exact .inl ⟨hdata, .inr ⟨row, owned_iff.mpr
          ⟨hrow, howned.1, hkey.trans hfkey.symm, howned.2⟩⟩⟩
      · rw [settle_of_not_owned howned] at hserved hkey hdata
        refine .inr ⟨row, hrow, ?_, hkey, hdata⟩
        by_cases hview : row.viewId = args.viewId
        · refine .inl ⟨hview, ?_⟩
          rw [Option.isSome_iff_ne_none]
          exact fun hnone => howned ⟨hview, hnone⟩
        · exact .inr ⟨hview, hserved.resolve_left hview⟩
    · have hsame : f' = f := by
        have hf'key : fileKey F args f' = fileKey F args p := hkey
        rw [First, hf'key, hf] at hf'
        exact (Option.some.inj hf').symm
      rw [hsame] at hdata hnew
      exact .inl ⟨hdata, .inl hnew⟩
  · rintro (⟨hdata, hnew | ⟨row, howned⟩⟩ | ⟨row, hrow, hkept, hmatches⟩)
    · refine ⟨newRow newId (createOf args f), ?_, .inl rfl, hfkey, hdata⟩
      rw [replaced, mem_applied hids]
      exact .inr ⟨f, fileRecord_first hf, hnew, rfl⟩
    · obtain ⟨hrow, hview, hkey, hreason⟩ := owned_iff.mp howned
      have hrecord : fileRecord F args parsed (rowKey F args row) = some f := by
        rw [hkey, hfkey]
        exact hf
      obtain ⟨hview', hkey', -⟩ := settle_same F args existing parsed row
      refine ⟨settle F args existing parsed row, ?_, .inl (hview'.trans hview),
        hkey'.trans (hkey.trans hfkey), ?_⟩
      · rw [replaced, mem_applied hids]
        refine .inl ⟨row, hrow, fun hdropped => hdropped.2.2 ?_, rfl⟩
        rw [hkey, hfkey]
        exact List.mem_map_of_mem hp
      · rw [settle_of_owned hrecord ⟨hview, hreason⟩]
        exact hdata
    · have hnot : ¬(row.viewId = args.viewId ∧ managedReason row = none) := by
        rintro ⟨hview, hreason⟩
        rcases hkept with ⟨-, hmanaged⟩ | ⟨hother, -⟩
        · rw [hreason] at hmanaged
          cases hmanaged
        · exact hother hview
      refine ⟨row, (mem_replaced_of_not_owned hids hnot).mpr hrow, ?_, hmatches⟩
      rcases hkept with ⟨hview, -⟩ | ⟨-, hnone⟩
      · exact .inl hview
      · exact .inr hnone

variable {x : DNSRecord}

theorem mem_inScope_replaced (newId : RecordChange → Nat) {key : Key}
    (hf : fileRecord F args parsed key = some f) :
    x ∈ withKey F args (inScope args (replaced F args existing parsed newId)) key ↔
      (∃ row ∈ withKey F args (inScope args existing) key,
        x = settle F args existing parsed row) ∨
      (IsNew F args existing f ∧ x = newRow newId (createOf args f)) := by
  have hin : key ∈ parsed.map (fileKey F args) :=
    List.mem_map.mpr ⟨f, (fileRecord_first hf).mem, fileRecord_key hf⟩
  rw [mem_withKey, mem_inScope, replaced, mem_applied hids]
  constructor
  · rintro ⟨⟨⟨row, hrow, -, rfl⟩ | ⟨f', hf', hnew, rfl⟩, hview⟩, hkey⟩
    · obtain ⟨hview', hkey', -⟩ := settle_same F args existing parsed row
      rw [hview'] at hview
      rw [hkey'] at hkey
      exact .inl ⟨row, mem_withKey.mpr ⟨mem_inScope.mpr ⟨hrow, hview⟩, hkey⟩, rfl⟩
    · have hf'key : fileKey F args f' = key := hkey
      rw [First, hf'key, hf] at hf'
      cases hf'
      exact .inr ⟨hnew, rfl⟩
  · rintro (⟨row, hrow, rfl⟩ | ⟨hnew, rfl⟩)
    · obtain ⟨hmem, hkey⟩ := mem_withKey.mp hrow
      obtain ⟨hmem, hview⟩ := mem_inScope.mp hmem
      obtain ⟨hview', hkey', -⟩ := settle_same F args existing parsed row
      refine ⟨⟨.inl ⟨row, hmem, fun hdropped => hdropped.2.2 ?_, rfl⟩, hview'.trans hview⟩,
        hkey'.trans hkey⟩
      rw [hkey]
      exact hin
    · exact ⟨⟨.inr ⟨f, fileRecord_first hf, hnew, rfl⟩, rfl⟩, fileRecord_key hf⟩

theorem mem_outOfScope_replaced :
    x ∈ outOfScope args (replaced F args existing parsed newId) ↔ x ∈ outOfScope args existing := by
  rw [outOfScope, outOfScope, List.mem_filter, List.mem_filter]
  refine and_congr_left fun hother => mem_replaced_of_not_owned hids ?_
  exact fun h => of_decide_eq_true hother h.1

theorem mem_shared_replaced :
    x ∈ shared args (replaced F args existing parsed newId) ↔ x ∈ shared args existing := by
  rw [shared, shared, List.mem_filter, List.mem_filter, mem_outOfScope_replaced hids]

theorem mem_inViews_replaced :
    x ∈ inViews args (replaced F args existing parsed newId) ↔ x ∈ inViews args existing := by
  rw [inViews, inViews, List.mem_filter, List.mem_filter, mem_outOfScope_replaced hids]

theorem mem_served_replaced (newId : RecordChange → Nat) {key : Key}
    (hf : fileRecord F args parsed key = some f) :
    x ∈ served F args (replaced F args existing parsed newId) key ↔
      (∃ row ∈ served F args existing key, x = settle F args existing parsed row) ∨
      (IsNew F args existing f ∧ x = newRow newId (createOf args f)) := by
  have hscope := fun x => mem_inScope_replaced hids newId hf (x := x)
  have hkey := fileRecord_key hf
  by_cases hold : withKey F args (inScope args existing) key = []
  · by_cases hnew : IsNew F args existing f
    · have hserved : served F args existing key = [] := hkey ▸ hnew.1
      have hne : withKey F args (inScope args (replaced F args existing parsed newId)) key ≠ [] :=
        List.ne_nil_of_mem ((hscope _).mpr (.inr ⟨hnew, rfl⟩))
      rw [served, if_neg hne, hscope, hold, hserved]
    · have hnil : withKey F args (inScope args (replaced F args existing parsed newId)) key =
          [] := by
        rw [List.eq_nil_iff_forall_not_mem]
        intro y hy
        rcases (hscope y).mp hy with ⟨row, hrow, -⟩ | ⟨hnew', -⟩
        · rw [hold] at hrow
          cases hrow
        · exact hnew hnew'
      rw [served, if_pos hnil, served, if_pos hold, mem_withKey, mem_shared_replaced hids]
      constructor
      · rintro ⟨hx, hxkey⟩
        have hother := (mem_shared.mp hx).2.1
        exact .inl ⟨x, mem_withKey.mpr ⟨hx, hxkey⟩,
          (settle_of_not_owned fun h => hother h.1).symm⟩
      · rintro (⟨row, hrow, rfl⟩ | ⟨hnew', -⟩)
        · have hother := (mem_shared.mp (mem_withKey.mp hrow).1).2.1
          rw [settle_of_not_owned fun h => hother h.1]
          exact mem_withKey.mp hrow
        · exact absurd hnew' hnew
  · obtain ⟨row, hrow⟩ := List.exists_mem_of_ne_nil _ hold
    have hne : withKey F args (inScope args (replaced F args existing parsed newId)) key ≠ [] :=
      List.ne_nil_of_mem ((hscope _).mpr (.inl ⟨row, hrow, rfl⟩))
    rw [served, if_neg hne, served, if_neg hold]
    exact hscope x

theorem not_new_replaced (hf : First F args parsed f) :
    ¬IsNew F args (replaced F args existing parsed newId) f := by
  rintro ⟨hserved, hviews⟩
  have hmem := fun x => mem_served_replaced hids newId hf (x := x)
  rw [hserved] at hmem
  by_cases hnew : IsNew F args existing f
  · exact absurd ((hmem _).mpr (.inr ⟨hnew, rfl⟩)) List.not_mem_nil
  · refine hnew ⟨?_, fun hnone => ?_⟩
    · rw [List.eq_nil_iff_forall_not_mem]
      intro row hrow
      exact absurd ((hmem _).mpr (.inl ⟨row, hrow, rfl⟩)) List.not_mem_nil
    · rw [List.eq_nil_iff_forall_not_mem]
      intro row hrow
      obtain ⟨hrow, hkey⟩ := mem_withKey.mp hrow
      have hin : row ∈ withKey F args (inViews args (replaced F args existing parsed newId))
          (fileKey F args f) := mem_withKey.mpr ⟨(mem_inViews_replaced hids).mpr hrow, hkey⟩
      rw [hviews hnone] at hin
      cases hin

theorem toCreate_replaced :
    (diffRecords F args parsed (replaced F args existing parsed newId)).toCreate = [] := by
  rw [List.eq_nil_iff_forall_not_mem]
  intro c hc
  obtain ⟨f, hf, hnew, -⟩ := mem_toCreate.mp hc
  exact not_new_replaced hids hf hnew

theorem toDelete_replaced :
    (diffRecords F args parsed (replaced F args existing parsed newId)).toDelete = [] := by
  rw [List.eq_nil_iff_forall_not_mem]
  intro c hc
  obtain ⟨row, hrow, hleft, hreason, -⟩ := mem_toDelete.mp hc
  obtain ⟨hmem, hview⟩ := mem_inScope.mp hrow
  obtain ⟨p, hp, hkey, -⟩ := owned_matches hids hmem hview hreason
  rw [hkey] at hleft
  exact hleft (List.mem_map_of_mem hp)

theorem lowestNow_replaced (newId : RecordChange → Nat) (rk : String × String) :
    lowestNow F args (replaced F args existing parsed newId) parsed rk =
      rrsetMin F args parsed (leftTtls F args existing parsed) rk := by
  apply rrsetMin_congr
  intro x
  refine exists_congr fun p => and_congr_right fun hp => and_congr_right fun _ =>
    exists_congr fun t => and_congr_left fun _ => ?_
  obtain ⟨f, hf⟩ := exists_fileRecord F args hp
  have hmem := fun x => mem_served_replaced hids newId hf (x := x)
  rw [leftTtls, List.mem_append, hf]
  constructor
  · intro ht
    obtain ⟨x, hx, rfl⟩ := List.mem_map.mp ht
    rcases (hmem x).mp hx with ⟨row, hrow, rfl⟩ | ⟨hnew, rfl⟩
    · exact .inl (List.mem_map.mpr ⟨row, hrow, (settle_ttl row).symm⟩)
    · right
      refine List.mem_map.mpr ⟨f, ?_, rfl⟩
      rw [Option.mem_toList, Option.filter_eq_some_iff]
      exact ⟨rfl, decide_eq_true hnew⟩
  · rintro (ht | ht)
    · obtain ⟨row, hrow, rfl⟩ := List.mem_map.mp ht
      exact List.mem_map.mpr ⟨_, (hmem _).mpr (.inl ⟨row, hrow, rfl⟩), settle_ttl row⟩
    · obtain ⟨f', hf', rfl⟩ := List.mem_map.mp ht
      rw [Option.mem_toList, Option.filter_eq_some_iff] at hf'
      obtain ⟨heq, hnew⟩ := hf'
      obtain rfl := Option.some.inj heq
      exact List.mem_map.mpr ⟨_, (hmem _).mpr (.inr ⟨of_decide_eq_true hnew, rfl⟩), rfl⟩

theorem changed_replaced_iff (newId : RecordChange → Nat) (hf : First F args parsed f)
    {lowest : String × String → Option Int} :
    (Owned F args (replaced F args existing parsed newId) f x ∧
        changed F args lowest f x = true) ↔
      ∃ row, Owned F args existing f row ∧ x = settle F args existing parsed row ∧
        ttlDiffers args f row = true ∧ f.ttl = lowestNow F args existing parsed (rrset F f) ∧
          f.ttl ≠ lowest (rrset F f) := by
  have hsettled : ∀ row, Owned F args existing f row →
      (changed F args lowest f (settle F args existing parsed row) = true ↔
        ttlDiffers args f row = true ∧ f.ttl = lowestNow F args existing parsed (rrset F f) ∧
          f.ttl ≠ lowest (rrset F f)) := by
    intro row howned
    obtain ⟨-, hview, hkey, hreason⟩ := owned_iff.mp howned
    have hrecord : fileRecord F args parsed (rowKey F args row) = some f := by
      rw [hkey]
      exact hf
    have hmeta : metaChanged f (settle F args existing parsed row) = false := by
      rw [settle_of_owned hrecord ⟨hview, hreason⟩]
      simp [metaChanged]
    have hleft : leftTtl F args existing parsed row =
        if ttlChanged F args (lowestNow F args existing parsed) f row then f.ttl else row.ttl :=
      leftTtl_of_owned hrecord ⟨hview, hreason⟩
    rw [changed, hmeta, Bool.or_false, ttlChanged]
    cases hnow : ttlChanged F args (lowestNow F args existing parsed) f row with
    | true =>
      have httl : (settle F args existing parsed row).ttl = f.ttl := by
        rw [settle_ttl, hleft, if_pos hnow]
      rw [ttlDiffers_self httl, Bool.false_and]
      refine iff_of_false Bool.false_ne_true ?_
      rintro ⟨-, hlow, -⟩
      simp [ttlChanged, hlow] at hnow
    | false =>
      have httl : (settle F args existing parsed row).ttl = row.ttl := by
        rw [settle_ttl, hleft, hnow]
        rfl
      rw [ttlDiffers_congr httl, Bool.and_eq_true, decide_eq_true_eq]
      refine and_congr_right fun hdiffers => ?_
      have hlow : f.ttl = lowestNow F args existing parsed (rrset F f) := by
        by_contra hne
        simp [ttlChanged, hdiffers, hne] at hnow
      simp [← hlow]
  constructor
  · rintro ⟨⟨hx, hreason⟩, hchanged⟩
    rcases (mem_inScope_replaced hids newId hf).mp hx with ⟨row, hrow, rfl⟩ | ⟨-, rfl⟩
    · obtain ⟨-, -, hreason'⟩ := settle_same F args existing parsed row
      have howned : Owned F args existing f row := ⟨hrow, hreason'.symm.trans hreason⟩
      exact ⟨row, howned, rfl, (hsettled row howned).mp hchanged⟩
    · have hsame : changed F args lowest f (newRow newId (createOf args f)) = false := by
        rw [changed, ttlChanged, ttlDiffers_self rfl]
        simp [metaChanged, newRow, createOf, ParsedRecord.change]
      rw [hsame] at hchanged
      cases hchanged
  · rintro ⟨row, howned, rfl, hrest⟩
    obtain ⟨-, -, hreason'⟩ := settle_same F args existing parsed row
    refine ⟨⟨(mem_inScope_replaced hids newId hf).mpr (.inl ⟨row, howned.1, rfl⟩), ?_⟩,
      (hsettled row howned).mpr hrest⟩
    rw [hreason', howned.2]

theorem toUpdate_replaced_iff :
    (diffRecords F args parsed (replaced F args existing parsed newId)).toUpdate = [] ↔
      LowestStays F args existing parsed := by
  rw [List.eq_nil_iff_forall_not_mem]
  constructor
  · intro hnone f _ hf row howned hdiffers hlow
    by_contra hne
    rw [← lowestNow_replaced hids newId] at hne
    obtain ⟨howned', hchanged⟩ := (changed_replaced_iff hids newId hf).mpr
      ⟨row, howned, rfl, hdiffers, hlow, hne⟩
    exact hnone _ (mem_toUpdate.mpr ⟨f, hf, _, howned', hchanged, rfl⟩)
  · intro hstays c hc
    obtain ⟨f, hf, x, howned, hchanged, -⟩ := mem_toUpdate.mp hc
    obtain ⟨row, howned', -, hdiffers, hlow, hne⟩ :=
      (changed_replaced_iff hids newId hf).mp ⟨howned, hchanged⟩
    rw [lowestNow_replaced hids newId] at hne
    exact hne (hstays f hf.mem hf row howned' hdiffers hlow)

end Replaced

structure ReplaceExact (F : Forms) (args : Import) (parsed : List ParsedRecord)
    (existing : List DNSRecord) (newId : RecordChange → Nat) : Prop where
  /-- Rows outside the scope and managed rows are as they were. -/
  untouched : ∀ row ∈ existing, row.viewId ≠ args.viewId ∨ (managedReason row).isSome →
    row ∈ replaced F args existing parsed newId
  /-- A record of the file without a line is served. -/
  complete : ∀ p ∈ parsed,
    (¬∃ s ∈ (diffRecords F args parsed existing).skipped, s.record = some p.triple) →
      ∃ row ∈ replaced F args existing parsed newId,
        (row.viewId = args.viewId ∨ row.viewId = none) ∧ Matches F args p row
  /-- A row of the operator in scope is a record of the file. -/
  sound : ∀ row ∈ replaced F args existing parsed newId, row.viewId = args.viewId →
    managedReason row = none → ∃ p ∈ parsed, Matches F args p row
  /-- The same file changes nothing more. -/
  settled :
    (diffRecords F args parsed (replaced F args existing parsed newId)).toCreate = [] ∧
      (diffRecords F args parsed (replaced F args existing parsed newId)).toUpdate = [] ∧
      (diffRecords F args parsed (replaced F args existing parsed newId)).toDelete = []

end Replace

def asciiForms : Forms where
  lower := Text.asciiLower
  upper := Text.asciiUpper
  isPrintable c := 0x20 ≤ c.toNat && c.toNat < 0x7F
  svcbCanonical value _ := value

def exampleImport : Import where
  zoneDefaultTtl := some 3600
  viewId := none
  viewNames _ := ""
  replace := true
  zoneName := some "example.com."

def mailAt (priority : Int) : ParsedRecord where
  name := "@"
  recordType := "MX"
  value := "mail.example.com."
  ttl := some 3600
  priority := some priority

def createdMail : DNSRecord where
  id := 1
  name := "@"
  recordType := "MX"
  value := "mail.example.com."
  ttl := some 3600
  priority := some 10

theorem replaced_twoPriorities :
    replaced asciiForms exampleImport [] [mailAt 10, mailAt 20] (fun _ => 1) = [createdMail] ∧
      (diffRecords asciiForms exampleImport [mailAt 10, mailAt 20] []).skipped = [] := by
  decide +kernel

end SpatiumDdi.Dns.ZoneFile
