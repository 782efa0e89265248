import SpatiumDdi.Dhcp.Statics

/-!
What each stage of the merge does to the rows: which rows stay as they are, which keep their
keys, and when a flush passes the unique indexes.
-/

namespace SpatiumDdi.Dhcp

/-- Both keys of a reservation are unique in the list. -/
structure Distinct (wire : List Wanted) : Prop where
  macs : (wire.map Wanted.macAddress).Nodup
  ips : (wire.map Wanted.ipAddress).Nodup

theorem distinct_dedupeFrom {out : List Wanted} (h : Distinct out) (raw : List WireStatic) :
    Distinct (dedupeFrom out raw) := by
  induction raw generalizing out with
  | nil => exact h
  | cons w raw ih =>
    rw [dedupeFrom]
    split
    · exact ih h
    · next v _ =>
      split
      · exact ih h
      · next hnew =>
        rw [not_or] at hnew
        apply ih
        constructor
        · rw [List.map_append, List.nodup_append]
          exact ⟨h.macs, List.nodup_singleton _, fun a ha b hb hab =>
            hnew.1 (List.mem_singleton.mp hb ▸ hab ▸ ha)⟩
        · rw [List.map_append, List.nodup_append]
          exact ⟨h.ips, List.nodup_singleton _, fun a ha b hb hab =>
            hnew.2 (List.mem_singleton.mp hb ▸ hab ▸ ha)⟩

theorem distinct_dedupeWireStatics (raw : List WireStatic) : Distinct (dedupeWireStatics raw) := by
  have hnil : Distinct [] := ⟨List.nodup_nil, List.nodup_nil⟩
  exact distinct_dedupeFrom hnil raw

variable {w v : Wanted} {wire : List Wanted}

theorem Distinct.eq_of_mac (h : Distinct wire) (hv : v ∈ wire) (hw : w ∈ wire)
    (heq : v.macAddress = w.macAddress) : v = w :=
  List.inj_on_of_nodup_map h.macs hv hw heq

theorem Distinct.eq_of_ip (h : Distinct wire) (hv : v ∈ wire) (hw : w ∈ wire)
    (heq : v.ipAddress = w.ipAddress) : v = w :=
  List.inj_on_of_nodup_map h.ips hv hw heq

structure Keyed (rows : List StaticAssignment) : Prop where
  ids : (rows.map StaticAssignment.id).Nodup
  macs : (rows.map StaticAssignment.macAddress).Nodup
  ips : (rows.map StaticAssignment.ipAddress).Nodup
  live : ∀ st ∈ rows, st.deletedAt = none

/-- All of a row but when it was last written. -/
def StaticAssignment.content (st : StaticAssignment) : StaticAssignment := { st with modifiedAt := 0 }

variable {r r' : StaticAssignment}

theorem StaticAssignment.content_eq (h : r'.content = r.content) :
    r'.id = r.id ∧ r'.macAddress = r.macAddress ∧ r'.ipAddress = r.ipAddress ∧
      r'.hostname = r.hostname ∧ r'.description = r.description ∧ r'.clientId = r.clientId ∧
      r'.createdAt = r.createdAt ∧ r'.deletedAt = r.deletedAt := by
  simp only [content, mk.injEq] at h
  tauto

structure SameKeys (r r' : StaticAssignment) : Prop where
  id : r'.id = r.id
  macAddress : r'.macAddress = r.macAddress
  ipAddress : r'.ipAddress = r.ipAddress
  deletedAt : r'.deletedAt = r.deletedAt

theorem SameKeys.of_content (h : r'.content = r.content) : SameKeys r r' := by
  obtain ⟨hid, hmac, hip, -, -, -, -, hdeleted⟩ := StaticAssignment.content_eq h
  exact ⟨hid, hmac, hip, hdeleted⟩

variable {s : StaticAssignment}

theorem SameKeys.trans {t : StaticAssignment} (h : SameKeys r s) (h' : SameKeys s t) :
    SameKeys r t :=
  ⟨h'.id.trans h.id, h'.macAddress.trans h.macAddress, h'.ipAddress.trans h.ipAddress,
    h'.deletedAt.trans h.deletedAt⟩

section Keyed

variable {rows rows' : List StaticAssignment}

section

variable (h : Keyed rows)
include h

theorem Keyed.nodup : rows.Nodup := List.Nodup.of_map _ h.ids

theorem Keyed.eq_of_id (hr : r ∈ rows) (hs : s ∈ rows) (heq : r.id = s.id) : r = s :=
  List.inj_on_of_nodup_map h.ids hr hs heq

theorem Keyed.eq_of_mac (hr : r ∈ rows) (hs : s ∈ rows) (heq : r.macAddress = s.macAddress) :
    r = s :=
  List.inj_on_of_nodup_map h.macs hr hs heq

theorem Keyed.eq_of_ip (hr : r ∈ rows) (hs : s ∈ rows) (heq : r.ipAddress = s.ipAddress) : r = s :=
  List.inj_on_of_nodup_map h.ips hr hs heq

theorem Keyed.filter (p : StaticAssignment → Bool) : Keyed (rows.filter p) where
  ids := h.ids.sublist (List.filter_sublist.map _)
  macs := h.macs.sublist (List.filter_sublist.map _)
  ips := h.ips.sublist (List.filter_sublist.map _)
  live := fun st hst => h.live st (List.mem_of_mem_filter hst)

theorem Keyed.map {g : StaticAssignment → StaticAssignment} (hg : ∀ r ∈ rows, SameKeys r (g r)) :
    Keyed (rows.map g) := by
  have hcongr : ∀ {α : Type} (f : StaticAssignment → α), (∀ r ∈ rows, f (g r) = f r) →
      (rows.map g).map f = rows.map f := by
    intro α f hf
    rw [List.map_map]
    exact List.map_congr_left hf
  constructor
  · rw [hcongr _ fun r hr => (hg r hr).id]
    exact h.ids
  · rw [hcongr _ fun r hr => (hg r hr).macAddress]
    exact h.macs
  · rw [hcongr _ fun r hr => (hg r hr).ipAddress]
    exact h.ips
  · intro st hst
    obtain ⟨r, hr, rfl⟩ := List.mem_map.mp hst
    exact (hg r hr).deletedAt.trans (h.live r hr)

end

variable {st : StaticAssignment}

theorem Keyed.append (h : Keyed rows) (hid : ∀ r ∈ rows, r.id ≠ st.id)
    (hmac : ∀ r ∈ rows, r.macAddress ≠ st.macAddress) (hip : ∀ r ∈ rows, r.ipAddress ≠ st.ipAddress)
    (hlive : st.deletedAt = none) : Keyed (rows ++ [st]) := by
  have hnew : ∀ {α : Type} (f : StaticAssignment → α), (rows.map f).Nodup →
      (∀ r ∈ rows, f r ≠ f st) → ((rows ++ [st]).map f).Nodup := by
    intro α f hnodup hne
    rw [List.map_append, List.nodup_append]
    refine ⟨hnodup, List.nodup_singleton _, ?_⟩
    intro a ha b hb hab
    obtain ⟨r, hr, rfl⟩ := List.mem_map.mp ha
    exact hne r hr (hab.trans (List.mem_singleton.mp hb))
  refine ⟨hnew _ h.ids hid, hnew _ h.macs hmac, hnew _ h.ips hip, ?_⟩
  intro r hr
  rcases List.mem_append.mp hr with hr | hr
  · exact h.live r hr
  · exact List.mem_singleton.mp hr ▸ hlive

theorem Keyed.filter_live (h : Keyed rows) :
    (rows.filter fun st => st.deletedAt.isNone) = rows := by
  rw [List.filter_eq_self]
  intro st hst
  rw [h.live st hst]
  rfl

theorem Merge.flush_keyed {M : Type} {s : Merge M} (h : Keyed s.rows) : s.flush = .ok s := by
  unfold flush
  simp only [h.filter_live]
  rw [if_neg (not_not.mpr h.macs), if_neg (not_not.mpr h.ips)]

theorem Keyed.trackedRow_eq (h : Keyed rows) :
    trackedRow rows w = some st ↔ st ∈ rows ∧ st.macAddress = w.macAddress := by
  constructor
  · intro hfind
    exact ⟨List.mem_of_find?_eq_some hfind, by simpa using List.find?_some hfind⟩
  · rintro ⟨hst, hmac⟩
    cases hfind : trackedRow rows w with
    | none => simpa [hmac] using List.find?_eq_none.mp hfind st hst
    | some st' =>
      have hmac' : st'.macAddress = w.macAddress := by simpa using List.find?_some hfind
      rw [h.eq_of_mac (List.mem_of_find?_eq_some hfind) hst (hmac'.trans hmac.symm)]

theorem trackedRow_eq_none :
    trackedRow rows w = none ↔ ∀ st ∈ rows, st.macAddress ≠ w.macAddress := by
  simp [trackedRow]

theorem Keyed.holderOf_eq (h : Keyed rows) {ip : Ip} :
    holderOf rows ip = some st ↔ st ∈ rows ∧ st.ipAddress = ip := by
  constructor
  · intro hfind
    exact ⟨List.mem_of_find?_eq_some hfind, by simpa using List.find?_some hfind⟩
  · rintro ⟨hst, hip⟩
    cases hfind : holderOf rows ip with
    | none => simpa [hip] using List.find?_eq_none.mp hfind st hst
    | some st' =>
      have hip' : st'.ipAddress = ip := by simpa using List.find?_some hfind
      rw [h.eq_of_ip (List.mem_of_find?_eq_some hfind) hst (hip'.trans hip.symm)]

theorem holderOf_eq_none {ip : Ip} :
    holderOf rows ip = none ↔ ∀ st ∈ rows, st.ipAddress ≠ ip := by
  simp [holderOf]

variable {p : StaticAssignment × Wanted}

theorem Keyed.trackedRow_bind (h : Keyed rows) {keep : StaticAssignment → Prop}
    [DecidablePred keep] :
    ((trackedRow rows w).bind fun st => if keep st then some (st, w) else none) = some p ↔
      p.2 = w ∧ p.1 ∈ rows ∧ p.1.macAddress = w.macAddress ∧ keep p.1 := by
  rw [Option.bind_eq_some_iff]
  constructor
  · rintro ⟨st, hst, hp⟩
    obtain ⟨hkeep, hp⟩ := Option.ite_none_right_eq_some.mp hp
    obtain rfl := Option.some.inj hp
    obtain ⟨hmem, hmac⟩ := h.trackedRow_eq.mp hst
    exact ⟨rfl, hmem, hmac, hkeep⟩
  · rintro ⟨rfl, hmem, hmac, hkeep⟩
    exact ⟨p.1, h.trackedRow_eq.mpr ⟨hmem, hmac⟩, if_pos hkeep⟩

variable {snapshotAt : Time}

section

variable (h : Keyed rows)
include h

theorem Keyed.moverOf_eq_some :
    moverOf rows snapshotAt w = some p ↔ p.2 = w ∧ p.1 ∈ rows ∧
      p.1.macAddress = w.macAddress ∧ p.1.modifiedAt ≤ snapshotAt ∧
        p.1.ipAddress ≠ w.ipAddress := by
  have hbind : moverOf rows snapshotAt w = (trackedRow rows w).bind fun st =>
      if st.modifiedAt ≤ snapshotAt ∧ st.ipAddress ≠ w.ipAddress then some (st, w) else none := by
    rw [moverOf]
    refine congrArg _ (funext fun st => ?_)
    rw [ite_and]
    simp only [← not_lt, ite_not]
  rw [hbind, h.trackedRow_bind]

theorem Keyed.inPlaceOf_eq_some :
    inPlaceOf rows snapshotAt w = some p ↔ p.2 = w ∧ p.1 ∈ rows ∧
      p.1.macAddress = w.macAddress ∧ p.1.modifiedAt ≤ snapshotAt ∧
        p.1.ipAddress = w.ipAddress := by
  have hbind : inPlaceOf rows snapshotAt w = (trackedRow rows w).bind fun st =>
      if st.modifiedAt ≤ snapshotAt ∧ st.ipAddress = w.ipAddress then some (st, w) else none := by
    rw [inPlaceOf]
    refine congrArg _ (funext fun st => ?_)
    rw [ite_and]
    simp only [← not_lt, ite_not, ne_eq]
  rw [hbind, h.trackedRow_bind]

theorem Keyed.mem_movers :
    p ∈ wire.filterMap (moverOf rows snapshotAt) ↔
      p.2 ∈ wire ∧ p.1 ∈ rows ∧ p.1.macAddress = p.2.macAddress ∧
        p.1.modifiedAt ≤ snapshotAt ∧ p.1.ipAddress ≠ p.2.ipAddress := by
  rw [List.mem_filterMap]
  constructor
  · rintro ⟨w, hw, hp⟩
    obtain ⟨rfl, hrest⟩ := h.moverOf_eq_some.mp hp
    exact ⟨hw, hrest⟩
  · rintro ⟨hw, hrest⟩
    exact ⟨p.2, hw, h.moverOf_eq_some.mpr ⟨rfl, hrest⟩⟩

theorem Keyed.mem_inPlace :
    p ∈ wire.filterMap (inPlaceOf rows snapshotAt) ↔
      p.2 ∈ wire ∧ p.1 ∈ rows ∧ p.1.macAddress = p.2.macAddress ∧
        p.1.modifiedAt ≤ snapshotAt ∧ p.1.ipAddress = p.2.ipAddress := by
  rw [List.mem_filterMap]
  constructor
  · rintro ⟨w, hw, hp⟩
    obtain ⟨rfl, hrest⟩ := h.inPlaceOf_eq_some.mp hp
    exact ⟨hw, hrest⟩
  · rintro ⟨hw, hrest⟩
    exact ⟨p.2, hw, h.inPlaceOf_eq_some.mpr ⟨rfl, hrest⟩⟩

section

variable (hwire : Distinct wire)
include hwire

theorem Keyed.filterMap_ids {f : Wanted → Option (StaticAssignment × Wanted)}
    (hf : ∀ w p, f w = some p → p.2 = w ∧ p.1 ∈ rows ∧ p.1.macAddress = w.macAddress) :
    ((wire.filterMap f).map fun p => p.1.id).Nodup := by
  have hmacs := hwire.macs
  clear hwire
  induction wire with
  | nil => exact List.nodup_nil
  | cons w wire ih =>
    rw [List.map_cons, List.nodup_cons] at hmacs
    cases hw : f w with
    | none =>
      rw [List.filterMap_cons_none hw]
      exact ih hmacs.2
    | some p =>
      obtain ⟨-, hp, hpmac⟩ := hf w p hw
      rw [List.filterMap_cons_some hw, List.map_cons, List.nodup_cons]
      refine ⟨?_, ih hmacs.2⟩
      intro hmem
      obtain ⟨q, hq, hid⟩ := List.mem_map.mp hmem
      obtain ⟨v, hv, hfv⟩ := List.mem_filterMap.mp hq
      obtain ⟨-, hqr, hqmac⟩ := hf v q hfv
      have heq := h.eq_of_id hqr hp hid
      exact hmacs.1 (List.mem_map.mpr ⟨v, hv, by rw [← hqmac, heq, hpmac]⟩)

theorem Keyed.movers_ids (snapshotAt : Time) :
    ((wire.filterMap (moverOf rows snapshotAt)).map fun p => p.1.id).Nodup := by
  apply h.filterMap_ids hwire
  intro w p hp
  obtain ⟨hw, hmem, hmac, -⟩ := h.moverOf_eq_some.mp hp
  exact ⟨hw, hmem, hmac⟩

theorem Keyed.inPlace_ids (snapshotAt : Time) :
    ((wire.filterMap (inPlaceOf rows snapshotAt)).map fun p => p.1.id).Nodup := by
  apply h.filterMap_ids hwire
  intro w p hp
  obtain ⟨hw, hmem, hmac, -⟩ := h.inPlaceOf_eq_some.mp hp
  exact ⟨hw, hmem, hmac⟩

end

end

end Keyed

/-- The rows are rewritten one by one: `f` says what becomes of a row's content, and a row whose
id is not listed stays exactly as it is. -/
def Rewritten (f : StaticAssignment → StaticAssignment) (ids : List Nat)
    (rows rows' : List StaticAssignment) : Prop :=
  ∃ g, rows' = rows.map g ∧
    ∀ r ∈ rows, (g r).content = (f r).content ∧ (r.id ∉ ids → g r = r)

variable {f : StaticAssignment → StaticAssignment} {ids ids' : List Nat}
  {rows rows' : List StaticAssignment} {st : StaticAssignment}

section

variable (h : Rewritten f ids rows rows')
include h

theorem Rewritten.mem (hr : r ∈ rows) (hid : r.id ∉ ids) : r ∈ rows' := by
  obtain ⟨g, rfl, hg⟩ := h
  exact List.mem_map.mpr ⟨r, hr, (hg r hr).2 hid⟩

theorem Rewritten.exists_of_mem (hr : r' ∈ rows') : ∃ r ∈ rows, r'.content = (f r).content := by
  obtain ⟨g, rfl, hg⟩ := h
  obtain ⟨r, hmem, rfl⟩ := List.mem_map.mp hr
  exact ⟨r, hmem, (hg r hmem).1⟩

theorem Rewritten.exists_mem (hr : r ∈ rows) : ∃ r' ∈ rows', r'.content = (f r).content := by
  obtain ⟨g, rfl, hg⟩ := h
  exact ⟨g r, List.mem_map_of_mem hr, (hg r hr).1⟩

theorem Rewritten.keyed (hf : ∀ r ∈ rows, SameKeys r (f r)) (hkeyed : Keyed rows) :
    Keyed rows' := by
  obtain ⟨g, rfl, hg⟩ := h
  exact hkeyed.map fun r hr => (hf r hr).trans (SameKeys.of_content (hg r hr).1)

end

theorem Rewritten.trans {f' : StaticAssignment → StaticAssignment}
    {rows₁ rows₂ : List StaticAssignment} (h : Rewritten f ids rows rows₁)
    (h' : Rewritten f' ids' rows₁ rows₂)
    (hf' : ∀ r r' : StaticAssignment, r.content = r'.content → (f' r).content = (f' r').content) :
    Rewritten (fun r => f' (f r)) (ids ++ ids') rows rows₂ := by
  obtain ⟨g, rfl, hg⟩ := h
  obtain ⟨g', rfl, hg'⟩ := h'
  refine ⟨fun r => g' (g r), by rw [List.map_map]; rfl, fun r hr => ⟨?_, ?_⟩⟩
  · exact (hg' (g r) (List.mem_map_of_mem hr)).1.trans (hf' _ _ (hg r hr).1)
  · intro hid
    rw [List.mem_append, not_or] at hid
    have hsame := (hg r hr).2 hid.1
    have hsame' := (hg' (g r) (List.mem_map_of_mem hr)).2
    rw [hsame] at hsame'
    simpa only [hsame] using hsame' hid.2

theorem Rewritten.mono (h : Rewritten f ids rows rows') (hids : ids ⊆ ids') :
    Rewritten f ids' rows rows' := by
  obtain ⟨g, rfl, hg⟩ := h
  exact ⟨g, rfl, fun r hr => ⟨(hg r hr).1, fun hid => (hg r hr).2 fun hmem => hid (hids hmem)⟩⟩

theorem Rewritten.refl (rows : List StaticAssignment) (ids : List Nat) :
    Rewritten id ids rows rows :=
  ⟨id, List.map_id _ |>.symm, fun _ _ => ⟨rfl, fun _ => rfl⟩⟩

theorem Rewritten.content_eq (h : Rewritten f ids rows rows')
    (hf : ∀ r ∈ rows, (f r).content = r.content) :
    rows'.map StaticAssignment.content = rows.map StaticAssignment.content := by
  obtain ⟨g, rfl, hg⟩ := h
  rw [List.map_map]
  exact List.map_congr_left fun r hr => (hg r hr).1.trans (hf r hr)

theorem StaticAssignment.applyWireFields_keys (st : StaticAssignment) (w : Wanted) :
    SameKeys st (st.applyWireFields w).1 :=
  ⟨rfl, rfl, rfl, rfl⟩

theorem StaticAssignment.applyWireFields_content (w : Wanted) (h : r.content = r'.content) :
    (r.applyWireFields w).1.content = (r'.applyWireFields w).1.content := by
  cases r
  cases r'
  simp only [content, mk.injEq] at h
  obtain ⟨rfl, rfl, rfl, rfl, rfl, rfl, rfl, -, rfl⟩ := h
  rfl

theorem StaticAssignment.applyWireFields_unchanged (h : (st.applyWireFields w).2.1 = false) :
    (st.applyWireFields w).1 = st := by
  simp only [applyWireFields, Bool.or_eq_false_iff, bne_eq_false_iff_eq] at h
  obtain ⟨⟨hhost, hdescription⟩, hclient⟩ := h
  cases st
  simp_all [applyWireFields]

/-- The wire's fields a row carries once they were applied. -/
structure Carries (st : StaticAssignment) (w : Wanted) : Prop where
  hostname : st.hostname = sanitizeHostname w.hostname
  description : st.description = w.description.getD ""
  clientId : st.clientId.getD "" = w.clientId.getD ""

theorem carries_applyWireFields (st : StaticAssignment) (w : Wanted) :
    Carries (st.applyWireFields w).1 w := by
  refine ⟨rfl, rfl, ?_⟩
  simp only [StaticAssignment.applyWireFields]
  split
  · rfl
  · next h => simpa using h

theorem Carries.applyWireFields (h : Carries st w) : st.applyWireFields w = (st, false, false) := by
  have hhost := h.hostname
  have hdescription := h.description
  have hclient := h.clientId
  cases st
  dsimp only at hhost hdescription hclient
  simp [StaticAssignment.applyWireFields, hhost, hdescription, hclient]

theorem Carries.of_content (h : Carries r w) (heq : r'.content = r.content) : Carries r' w := by
  obtain ⟨-, -, -, hhost, hdescription, hclient, -⟩ := StaticAssignment.content_eq heq
  exact ⟨hhost.trans h.hostname, hdescription.trans h.description, by rw [hclient, h.clientId]⟩

section Stages

variable {M : Type} (mirrors : Mirrors M) (now : Time)

/-- The counters a stage that reports nothing and removes nothing leaves alone. -/
structure Quiet (s s' : Merge M) : Prop where
  errors : s'.result.errors = s.result.errors
  removed : s'.result.staticsRemoved = s.result.staticsRemoved
  nextId : s'.nextId = s.nextId

theorem Quiet.refl (s : Merge M) : Quiet s s := ⟨rfl, rfl, rfl⟩

variable {s : Merge M}

theorem Quiet.trans {s₁ s₂ : Merge M} (h : Quiet s s₁) (h' : Quiet s₁ s₂) : Quiet s s₂ :=
  ⟨h'.errors.trans h.errors, h'.removed.trans h.removed, h'.nextId.trans h.nextId⟩

theorem rewritten_setRow (h : Keyed rows) {st' : StaticAssignment}
    {f : StaticAssignment → StaticAssignment} (hst : st ∈ rows) (hid : st'.id = st.id)
    (hcontent : st'.content = (f st).content)
    (hother : ∀ r ∈ rows, r.id ≠ st.id → (f r).content = r.content) :
    Rewritten f [st.id] rows (rows.map fun r => if r.id = st'.id then st' else r) := by
  refine ⟨fun r => if r.id = st'.id then st' else r, rfl, fun r hr => ⟨?_, ?_⟩⟩
  · dsimp only
    split
    · next heq => rw [h.eq_of_id hr hst (heq.trans hid), hcontent]
    · next hne => rw [hother r hr fun heq => hne (heq.trans hid.symm)]
  · intro hne
    rw [List.mem_singleton] at hne
    exact if_neg fun heq => hne (heq.trans hid)

theorem Merge.upsertMirror_keyed (h : Keyed s.rows) (hst : st ∈ s.rows) :
    ∃ s', s.upsertMirror mirrors now st = .ok s' ∧ Rewritten id [st.id] s.rows s'.rows ∧
      Quiet s s' ∧ s'.result.staticsSynced = s.result.staticsSynced := by
  unfold upsertMirror
  rw [flush_keyed h]
  cases hwritten : (mirrors.upsert s.mirrors st).2 with
  | false =>
    refine ⟨{ s with mirrors := (mirrors.upsert s.mirrors st).1 }, ?_, ?_, ⟨rfl, rfl, rfl⟩, rfl⟩
    · simp [Except.map, hwritten]
    · exact Rewritten.refl _ _
  | true =>
    refine ⟨({ s with mirrors := (mirrors.upsert s.mirrors st).1 } : Merge M).setRow
      { st with modifiedAt := now }, ?_, ?_, ⟨rfl, rfl, rfl⟩, rfl⟩
    · simp [Except.map, hwritten]
    · exact rewritten_setRow h hst rfl rfl fun _ _ _ => rfl

theorem rewritten_id_keyed {rows' : List StaticAssignment} {ids : List Nat}
    (h : Rewritten id ids rows rows') (hkeyed : Keyed rows) : Keyed rows' :=
  h.keyed (fun _ _ => ⟨rfl, rfl, rfl, rfl⟩) hkeyed

theorem upsertAll_keyed (h : Keyed s.rows) {sts : List StaticAssignment}
    (hsts : ∀ st ∈ sts, st ∈ s.rows) (hnodup : (sts.map StaticAssignment.id).Nodup) :
    ∃ s', upsertAll mirrors now s sts = .ok s' ∧
      Rewritten id (sts.map StaticAssignment.id) s.rows s'.rows ∧
      Quiet s s' ∧ s'.result.staticsSynced = s.result.staticsSynced := by
  induction sts generalizing s with
  | nil => exact ⟨s, rfl, Rewritten.refl _ _, Quiet.refl _, rfl⟩
  | cons st sts ih =>
    rw [List.map_cons, List.nodup_cons] at hnodup
    obtain ⟨s₁, hs₁, hrows₁, hquiet₁, hsynced₁⟩ :=
      s.upsertMirror_keyed mirrors now h (hsts st List.mem_cons_self)
    have hmem : ∀ t ∈ sts, t ∈ s₁.rows := fun t ht =>
      hrows₁.mem (hsts t (List.mem_cons_of_mem _ ht)) fun hid =>
        hnodup.1 (List.mem_singleton.mp hid ▸ List.mem_map_of_mem ht)
    obtain ⟨s₂, hs₂, hrows₂, hquiet₂, hsynced₂⟩ :=
      ih (rewritten_id_keyed hrows₁ h) hmem hnodup.2
    refine ⟨s₂, ?_, hrows₁.trans hrows₂ fun _ _ heq => heq, hquiet₁.trans hquiet₂,
      hsynced₂.trans hsynced₁⟩
    rw [upsertAll, hs₁]
    exact hs₂

/-- What the wire makes of the row it was matched with. -/
def applyAt (p : StaticAssignment × Wanted) (r : StaticAssignment) : StaticAssignment :=
  if r.id = p.1.id then (r.applyWireFields p.2).1 else r

def applyAll (ps : List (StaticAssignment × Wanted)) (r : StaticAssignment) : StaticAssignment :=
  ps.foldl (fun r p => applyAt p r) r

theorem sameKeys_applyAt (p : StaticAssignment × Wanted) (r : StaticAssignment) :
    SameKeys r (applyAt p r) := by
  unfold applyAt
  split
  · exact r.applyWireFields_keys p.2
  · exact ⟨rfl, rfl, rfl, rfl⟩

theorem sameKeys_applyAll (ps : List (StaticAssignment × Wanted)) (r : StaticAssignment) :
    SameKeys r (applyAll ps r) := by
  induction ps generalizing r with
  | nil => exact ⟨rfl, rfl, rfl, rfl⟩
  | cons p ps ih => exact (sameKeys_applyAt p r).trans (ih (applyAt p r))

variable {p : StaticAssignment × Wanted} {r r' : StaticAssignment}

theorem applyAt_content (h : r.content = r'.content) :
    (applyAt p r).content = (applyAt p r').content := by
  unfold applyAt
  rw [(StaticAssignment.content_eq h).1]
  split
  · exact StaticAssignment.applyWireFields_content p.2 h
  · exact h

variable {ps : List (StaticAssignment × Wanted)}

theorem applyAll_content (h : r.content = r'.content) :
    (applyAll ps r).content = (applyAll ps r').content := by
  induction ps generalizing r r' with
  | nil => exact h
  | cons p ps ih => exact ih (applyAt_content h)

theorem applyAll_of_not_mem (h : r.id ∉ ps.map fun p => p.1.id) : applyAll ps r = r := by
  induction ps with
  | nil => rfl
  | cons p ps ih =>
    rw [List.map_cons, List.mem_cons, not_or] at h
    have hstep : applyAt p r = r := if_neg h.1
    change applyAll ps (applyAt p r) = r
    rw [hstep, ih h.2]

theorem applyAll_of_mem (hnodup : (ps.map fun p => p.1.id).Nodup) (hp : p ∈ ps)
    (hr : r.id = p.1.id) : Carries (applyAll ps r) p.2 := by
  induction ps generalizing r with
  | nil => cases hp
  | cons q ps ih =>
    rw [List.map_cons, List.nodup_cons] at hnodup
    rcases List.mem_cons.mp hp with rfl | hp
    · have hstep : applyAt p r = (r.applyWireFields p.2).1 := if_pos hr
      have hid : (r.applyWireFields p.2).1.id ∉ ps.map fun p => p.1.id := by
        rw [(r.applyWireFields_keys p.2).id, hr]
        exact hnodup.1
      change Carries (applyAll ps (applyAt p r)) p.2
      rw [hstep, applyAll_of_not_mem hid]
      exact carries_applyWireFields r p.2
    · exact ih hnodup.2 hp ((sameKeys_applyAt q r).id.trans hr)

theorem applyAll_of_carries (h : ∀ p ∈ ps, p.1.id = r.id → Carries r p.2) : applyAll ps r = r := by
  induction ps with
  | nil => rfl
  | cons p ps ih =>
    have hstep : applyAt p r = r := by
      unfold applyAt
      split
      · next hid => rw [(h p List.mem_cons_self hid.symm).applyWireFields]
      · rfl
    change applyAll ps (applyAt p r) = r
    rw [hstep, ih fun q hq => h q (List.mem_cons_of_mem _ hq)]

theorem Merge.mergeInPlace_keyed (h : Keyed s.rows) (hp : p.1 ∈ s.rows) :
    ∃ s', s.mergeInPlace mirrors now p = .ok s' ∧
      Rewritten (applyAt p) [p.1.id] s.rows s'.rows ∧ Quiet s s' ∧
      (Carries p.1 p.2 → s'.result.staticsSynced = s.result.staticsSynced) := by
  -- the row as the session holds it after the wire's fields were applied
  obtain ⟨s₁, st, hmem, hrows, hquiet, hsynced, hstep⟩ : ∃ (s₁ : Merge M) (st : StaticAssignment),
      st ∈ s₁.rows ∧ Rewritten (applyAt p) [p.1.id] s.rows s₁.rows ∧ Quiet s s₁ ∧
        (Carries p.1 p.2 → s₁.result.staticsSynced = s.result.staticsSynced) ∧
        ∃ b : Bool, st.id = p.1.id ∧ s.mergeInPlace mirrors now p =
          if b then s₁.upsertMirror mirrors now st else .ok s₁ := by
    cases hchanged : (p.1.applyWireFields p.2).2.1 with
    | true =>
      let st : StaticAssignment := { (p.1.applyWireFields p.2).1 with modifiedAt := now }
      refine ⟨(s.setRow st).addSynced 1, st, ?_, ?_, ⟨rfl, rfl, rfl⟩, ?_,
        (p.1.applyWireFields p.2).2.2 ||
          !mirrors.isCurrent ((s.setRow st).addSynced 1).mirrors st, rfl, ?_⟩
      · exact List.mem_map.mpr ⟨p.1, hp, if_pos rfl⟩
      · refine rewritten_setRow h hp (show st.id = p.1.id from rfl) ?_ ?_
        · rw [applyAt, if_pos rfl]
          rfl
        · intro r _ hne
          rw [applyAt, if_neg hne]
      · intro hcarries
        rw [hcarries.applyWireFields] at hchanged
        cases hchanged
      · simp only [mergeInPlace, hchanged, if_true, st]
    | false =>
      have hsame := StaticAssignment.applyWireFields_unchanged hchanged
      refine ⟨s, p.1, hp, ⟨id, (List.map_id _).symm, fun r hr => ⟨?_, fun _ => rfl⟩⟩,
        Quiet.refl s, fun _ => rfl, (p.1.applyWireFields p.2).2.2 ||
          !mirrors.isCurrent s.mirrors p.1, rfl, ?_⟩
      · unfold applyAt
        split
        · next hid => rw [h.eq_of_id hr hp hid, hsame]; rfl
        · rfl
      · simp only [mergeInPlace, hchanged, Bool.false_eq_true, if_false, hsame]
  obtain ⟨b, hid, hstep⟩ := hstep
  have hkeyed := hrows.keyed (fun r _ => sameKeys_applyAt p r) h
  rw [hstep]
  cases b with
  | false => exact ⟨s₁, rfl, hrows, hquiet, hsynced⟩
  | true =>
    obtain ⟨s', hs', hrows', hquiet', hsynced'⟩ := s₁.upsertMirror_keyed mirrors now hkeyed hmem
    refine ⟨s', hs', ?_, hquiet.trans hquiet', fun hcarries => hsynced'.trans (hsynced hcarries)⟩
    rw [hid] at hrows'
    exact (hrows.trans hrows' fun _ _ heq => heq).mono (by simp)

theorem mergeAllInPlace_keyed (h : Keyed s.rows) (hps : ∀ p ∈ ps, p.1 ∈ s.rows)
    (hnodup : (ps.map fun p => p.1.id).Nodup) :
    ∃ s', mergeAllInPlace mirrors now s ps = .ok s' ∧
      Rewritten (applyAll ps) (ps.map fun p => p.1.id) s.rows s'.rows ∧ Quiet s s' ∧
      ((∀ p ∈ ps, Carries p.1 p.2) → s'.result.staticsSynced = s.result.staticsSynced) := by
  induction ps generalizing s with
  | nil => exact ⟨s, rfl, Rewritten.refl _ _, Quiet.refl _, fun _ => rfl⟩
  | cons p ps ih =>
    rw [List.map_cons, List.nodup_cons] at hnodup
    obtain ⟨s₁, hs₁, hrows₁, hquiet₁, hsynced₁⟩ :=
      s.mergeInPlace_keyed mirrors now h (hps p List.mem_cons_self)
    have hmem : ∀ q ∈ ps, q.1 ∈ s₁.rows := fun q hq =>
      hrows₁.mem (hps q (List.mem_cons_of_mem _ hq)) fun hid =>
        hnodup.1 (List.mem_map.mpr ⟨q, hq, List.mem_singleton.mp hid⟩)
    obtain ⟨s₂, hs₂, hrows₂, hquiet₂, hsynced₂⟩ :=
      ih (hrows₁.keyed (fun r _ => sameKeys_applyAt p r) h) hmem hnodup.2
    refine ⟨s₂, ?_, hrows₁.trans hrows₂ fun _ _ heq => applyAll_content heq,
      hquiet₁.trans hquiet₂, ?_⟩
    · rw [mergeAllInPlace, hs₁]
      exact hs₂
    · intro hcarries
      rw [hsynced₂ fun q hq => hcarries q (List.mem_cons_of_mem _ hq),
        hsynced₁ (hcarries p List.mem_cons_self)]

structure Fresh (s : Merge M) : Prop where
  keyed : Keyed s.rows
  below : ∀ st ∈ s.rows, st.id < s.nextId

theorem Merge.create_free (h : Fresh s) (hmac : ∀ st ∈ s.rows, st.macAddress ≠ w.macAddress)
    (hip : ∀ st ∈ s.rows, st.ipAddress ≠ w.ipAddress) :
    ∃ s', s.create mirrors now w = .ok s' ∧ Fresh s' ∧
      Rewritten id [s.nextId] (s.rows ++ [newRow now s.nextId w]) s'.rows ∧
      s'.result.errors = s.result.errors := by
  have hkeyed : Keyed (s.rows ++ [newRow now s.nextId w]) :=
    h.keyed.append (fun r hr => Nat.ne_of_lt (h.below r hr)) hmac hip rfl
  let s₁ : Merge M := { s with rows := s.rows ++ [newRow now s.nextId w], nextId := s.nextId + 1 }
  obtain ⟨s₂, hs₂, hrows, hquiet, -⟩ := s₁.upsertMirror_keyed mirrors now hkeyed
    (List.mem_append_right _ (List.mem_singleton_self (newRow now s.nextId w)))
  refine ⟨s₂.addSynced 1, ?_, ⟨rewritten_id_keyed hrows hkeyed, ?_⟩, hrows, hquiet.errors⟩
  · have hflush : s₁.flush = .ok s₁ := flush_keyed hkeyed
    unfold create
    rw [holderOf_eq_none.mpr hip]
    dsimp only
    rw [hflush]
    dsimp only [Except.bind]
    rw [hs₂]
    rfl
  · intro st hst
    obtain ⟨r, hr, hcontent⟩ := hrows.exists_of_mem hst
    change st.id < s₂.nextId
    rw [hquiet.nextId, (StaticAssignment.content_eq hcontent).1]
    rcases List.mem_append.mp hr with hr | hr
    · exact Nat.lt_succ_of_lt (h.below r hr)
    · rw [List.mem_singleton.mp hr]
      exact Nat.lt_succ_self _

structure Matches (st : StaticAssignment) (w : Wanted) : Prop where
  macAddress : st.macAddress = w.macAddress
  ipAddress : st.ipAddress = w.ipAddress
  carries : Carries st w

theorem Matches.of_content (h : Matches r w) (heq : r'.content = r.content) : Matches r' w := by
  obtain ⟨-, hmac, hip, -⟩ := StaticAssignment.content_eq heq
  exact ⟨hmac.trans h.macAddress, hip.trans h.ipAddress, h.carries.of_content heq⟩

theorem matches_newRow (id : Nat) (w : Wanted) : Matches (newRow now id w) w :=
  ⟨rfl, rfl, ⟨rfl, rfl, rfl⟩⟩

/-- No new reservation hits an index: one whose address is taken is reported. The rows that are
there stay, and every other row is a new one. Where no address is taken, all are added. -/
theorem createAll_fresh (h : Fresh s) {ws : List Wanted} (hws : Distinct ws)
    (hmac : ∀ w ∈ ws, ∀ st ∈ s.rows, st.macAddress ≠ w.macAddress) :
    ∃ s', createAll mirrors now s ws = .ok s' ∧ Fresh s' ∧ (∀ st ∈ s.rows, st ∈ s'.rows) ∧
      (∀ st ∈ s'.rows, st ∈ s.rows ∨ ∃ w ∈ ws, Matches st w) ∧
      ((∀ w ∈ ws, ∀ st ∈ s.rows, st.ipAddress ≠ w.ipAddress) →
        s'.result.errors = s.result.errors ∧ ∀ w ∈ ws, ∃ st ∈ s'.rows, Matches st w) := by
  induction ws generalizing s with
  | nil => exact ⟨s, rfl, h, fun _ hst => hst, fun _ hst => Or.inl hst, fun _ => ⟨rfl, nofun⟩⟩
  | cons w ws ih =>
    have hmacs := hws.macs
    have hips := hws.ips
    rw [List.map_cons, List.nodup_cons] at hmacs hips
    cases hholder : holderOf s.rows w.ipAddress with
    | some b =>
      have hreport : Fresh (s.report (.cannotAdd w.macAddress w.ipAddress b.macAddress)) :=
        ⟨h.keyed, h.below⟩
      obtain ⟨s', hs', hfresh, hstay, hfrom, -⟩ := ih hreport ⟨hmacs.2, hips.2⟩
        fun v hv => hmac v (List.mem_cons_of_mem _ hv)
      refine ⟨s', ?_, hfresh, hstay, ?_, ?_⟩
      · rw [createAll, Merge.create, hholder]
        exact hs'
      · intro st hst
        rcases hfrom st hst with hst | ⟨v, hv, hmatch⟩
        · exact Or.inl hst
        · exact Or.inr ⟨v, List.mem_cons_of_mem _ hv, hmatch⟩
      · intro hfree
        obtain ⟨hb, hip⟩ := h.keyed.holderOf_eq.mp hholder
        exact absurd hip (hfree w List.mem_cons_self b hb)
    | none =>
      obtain ⟨s₁, hs₁, hfresh₁, hrows₁, herrors₁⟩ := s.create_free mirrors now h
        (hmac w List.mem_cons_self) (holderOf_eq_none.mp hholder)
      have hback : ∀ st ∈ s₁.rows, st ∈ s.rows ∨ Matches st w := by
        intro st hst
        obtain ⟨g, hg, hspec⟩ := hrows₁
        obtain ⟨r, hr, rfl⟩ := List.mem_map.mp (hg ▸ hst)
        rcases List.mem_append.mp hr with hold | hnew
        · have hid : r.id ∉ [s.nextId] := fun hid =>
            Nat.ne_of_lt (h.below r hold) (List.mem_singleton.mp hid)
          rw [(hspec r hr).2 hid]
          exact Or.inl hold
        · have hmatch : Matches r w := List.mem_singleton.mp hnew ▸ matches_newRow now s.nextId w
          exact Or.inr (hmatch.of_content (hspec r hr).1)
      obtain ⟨s', hs', hfresh, hstay, hfrom, hall⟩ := ih hfresh₁ ⟨hmacs.2, hips.2⟩
        fun v hv st hst heq => (hback st hst).elim
          (fun hst => hmac v (List.mem_cons_of_mem _ hv) st hst heq)
          fun hmatch => hmacs.1 ((hmatch.macAddress.symm.trans heq) ▸ List.mem_map_of_mem hv)
      refine ⟨s', ?_, hfresh, fun st hst => hstay st (hrows₁.mem (List.mem_append_left _ hst) ?_),
        ?_, ?_⟩
      · rw [createAll, hs₁]
        exact hs'
      · exact fun hid => Nat.ne_of_lt (h.below st hst) (List.mem_singleton.mp hid)
      · intro st hst
        rcases hfrom st hst with hst | ⟨v, hv, hmatch⟩
        · rcases hback st hst with hst | hmatch
          · exact Or.inl hst
          · exact Or.inr ⟨w, List.mem_cons_self, hmatch⟩
        · exact Or.inr ⟨v, List.mem_cons_of_mem _ hv, hmatch⟩
      · intro hfree
        obtain ⟨herrors, hadded⟩ := hall fun v hv st hst heq => (hback st hst).elim
          (fun hst => hfree v (List.mem_cons_of_mem _ hv) st hst heq)
          fun hmatch => hips.1 ((hmatch.ipAddress.symm.trans heq) ▸ List.mem_map_of_mem hv)
        refine ⟨herrors.trans herrors₁, ?_⟩
        intro v hv
        rcases List.mem_cons.mp hv with rfl | hv
        · obtain ⟨r, hr, hcontent⟩ := hrows₁.exists_mem
            (List.mem_append_right _ (List.mem_singleton_self (newRow now s.nextId v)))
          exact ⟨r, hstay r hr, (matches_newRow now s.nextId v).of_content hcontent⟩
        · exact hadded v hv

def keptRows (rows : List StaticAssignment) (wire : List Wanted) (staticsOk : Bool)
    (snapshotAt : Time) : List StaticAssignment :=
  if absenceDeleteError wire.length rows.length staticsOk = none then
    rows.filter fun st => !isStale wire snapshotAt st
  else rows

theorem rows_foldl_removeStale (s : Merge M) (stale : List StaticAssignment) :
    (stale.foldl (Merge.removeStale mirrors) s).rows =
        s.rows.filter (fun r => r.id ∉ stale.map StaticAssignment.id) ∧
      (stale.foldl (Merge.removeStale mirrors) s).result.errors = s.result.errors ∧
      (stale.foldl (Merge.removeStale mirrors) s).nextId = s.nextId := by
  induction stale generalizing s with
  | nil => simp
  | cons st stale ih =>
    obtain ⟨hrows, herrors, hnext⟩ := ih (s.removeStale mirrors st)
    rw [List.foldl_cons]
    refine ⟨hrows.trans ?_, herrors, hnext⟩
    simp only [Merge.removeStale, List.filter_filter, List.map_cons, List.mem_cons, not_or]
    apply List.filter_congr
    intro r _
    by_cases hid : r.id = st.id <;> simp [hid, Bool.and_comm]

theorem keptRows_of_not_stale {wire : List Wanted} {staticsOk : Bool} {snapshotAt : Time}
    (h : rows.filter (isStale wire snapshotAt) = []) :
    keptRows rows wire staticsOk snapshotAt = rows := by
  unfold keptRows
  split
  · rw [List.filter_eq_nil_iff] at h
    rw [List.filter_eq_self]
    intro st hst
    rw [Bool.not_eq_true', ← Bool.not_eq_true]
    exact h st hst
  · rfl

theorem Merge.absenceDelete_fresh (h : Fresh s) (wire : List Wanted) (staticsOk : Bool)
    (snapshotAt : Time) :
    ∃ s', s.absenceDelete mirrors wire staticsOk snapshotAt = .ok s' ∧ Fresh s' ∧
      s'.rows = keptRows s.rows wire staticsOk snapshotAt ∧
      (s.rows.filter (isStale wire snapshotAt) = [] ∨
          absenceDeleteError wire.length s.rows.length staticsOk = none →
        s'.result.errors = s.result.errors) := by
  unfold absenceDelete
  dsimp only
  split
  · next hnone => exact ⟨s, rfl, h, (keptRows_of_not_stale hnone).symm, fun _ => rfl⟩
  · next hsome =>
    cases herror : absenceDeleteError wire.length s.rows.length staticsOk with
    | some error =>
      refine ⟨s.report error, rfl, ⟨h.keyed, h.below⟩, ?_, ?_⟩
      · rw [keptRows, herror, if_neg (Option.some_ne_none _)]
        rfl
      · rintro (hnone | hnone)
        · exact absurd hnone hsome
        · cases hnone
    | none =>
      obtain ⟨hrows, herrors, hnext⟩ :=
        rows_foldl_removeStale mirrors s (s.rows.filter (isStale wire snapshotAt))
      have hkept : (((s.rows.filter (isStale wire snapshotAt)).foldl (removeStale mirrors) s).rows) =
          s.rows.filter fun st => !isStale wire snapshotAt st := by
        rw [hrows]
        apply List.filter_congr
        intro r hr
        have hiff : r.id ∈ (s.rows.filter (isStale wire snapshotAt)).map StaticAssignment.id ↔
            isStale wire snapshotAt r = true := by
          constructor
          · intro hmem
            obtain ⟨t, ht, hid⟩ := List.mem_map.mp hmem
            obtain ⟨ht, hstale⟩ := List.mem_filter.mp ht
            exact h.keyed.eq_of_id ht hr hid ▸ hstale
          · exact fun hstale => List.mem_map_of_mem (List.mem_filter.mpr ⟨hr, hstale⟩)
        simp only [hiff, Bool.not_eq_true, Bool.decide_eq_false]
      have hkeyed : Keyed ((s.rows.filter (isStale wire snapshotAt)).foldl
          (removeStale mirrors) s).rows := hkept ▸ h.keyed.filter _
      refine ⟨_, flush_keyed hkeyed, ⟨hkeyed, ?_⟩, ?_, fun _ => herrors⟩
      · intro st hst
        rw [hnext]
        exact h.below st (List.mem_of_mem_filter (hkept ▸ hst))
      · rw [keptRows, herror, if_pos rfl, hkept]

end Stages

end SpatiumDdi.Dhcp
