import SpatiumDdi.Dhcp.StaticsConverge

/-!
One poll's merge of a scope, as a whole: what it is for, and the exact condition under which it
does that.
-/

namespace SpatiumDdi.Dhcp

/-- What the merge is given: the scope's live reservations and what the server reports. -/
structure Poll (M : Type) where
  start : Merge M
  subnetId : Nat
  statics : List WireStatic
  staticsOk : Bool
  snapshotAt : Time
  now : Time
  fresh : Fresh start
  created_le : ∀ st ∈ start.rows, st.createdAt ≤ st.modifiedAt

section Poll

variable {M : Type} (mirrors : Mirrors M) (p : Poll M)

def Poll.wire : List Wanted := dedupeWireStatics p.statics

def Poll.run : Except IntegrityError (Merge M) :=
  p.start.mergeStatics mirrors p.now p.subnetId p.statics p.staticsOk p.snapshotAt

/-- The row was created or edited after the snapshot. -/
def Poll.Newer (st : StaticAssignment) : Prop :=
  p.snapshotAt < st.createdAt ∨ p.snapshotAt < st.modifiedAt

/-- The reservations the absence-delete leaves. -/
def Poll.kept : List StaticAssignment :=
  keptRows p.start.rows p.wire p.staticsOk p.snapshotAt

def Poll.movers : List (StaticAssignment × Wanted) := moversOf p.kept p.wire p.snapshotAt

/-- The absence-delete has nothing to do, or nothing stands against it. -/
def Poll.MayDelete : Prop :=
  p.start.rows.filter (isStale p.wire p.snapshotAt) = [] ∨
    absenceDeleteError p.wire.length p.start.rows.length p.staticsOk = none

/-- The same wire again, whenever and with whatever verdict, changes no reservation and counts
none. -/
def StableUnder (statics : List WireStatic) (s : Merge M) : Prop :=
  ∀ (now snapshotAt : Time) (subnetId : Nat) (staticsOk : Bool), ∃ s',
    s.mergeStatics mirrors now subnetId statics staticsOk snapshotAt = .ok s' ∧
      s'.rows.map StaticAssignment.content = s.rows.map StaticAssignment.content ∧
      s'.result.staticsSynced = s.result.staticsSynced ∧
      s'.result.staticsRemoved = s.result.staticsRemoved

structure Poll.Reconciles (s : Merge M) : Prop where
  /-- (a) after the last flush too, no two live reservations share a MAC or an address -/
  keyed : Keyed s.rows
  /-- (b) -/
  keepsId : ∀ st ∈ p.start.rows, st.macAddress ∈ p.wire.map Wanted.macAddress →
    ∃ st' ∈ s.rows, st'.id = st.id ∧ st'.macAddress = st.macAddress
  /-- (c) -/
  sparesNewer : ∀ st ∈ p.start.rows, p.Newer st → st ∈ s.rows
  /-- (d) -/
  converges : (∀ st ∈ p.start.rows, ¬ p.Newer st) → p.MayDelete →
    (s.rows.map fun st => (st.macAddress, st.ipAddress)).Perm
        (p.wire.map fun w => (w.macAddress, w.ipAddress)) ∧
      s.result.errors = p.start.result.errors ∧ StableUnder mirrors p.statics s

/-- Every flush passes the unique indexes, and the poll does what it is for. -/
def Poll.Converges : Prop := ∃ s, p.run mirrors = .ok s ∧ p.Reconciles mirrors s

/-- When it does: a row edited after the snapshot is on the wire or was created after it too, or
nothing is deleted for its absence; and no mover that can land is headed for the address of one
that cannot. -/
structure Poll.Sound : Prop where
  edited : ∀ st ∈ p.start.rows, p.snapshotAt < st.modifiedAt →
    st.macAddress ∈ p.wire.map Wanted.macAddress ∨ p.snapshotAt < st.createdAt ∨
      p.staticsOk = false ∨ p.wire = []
  moves : ¬ Clash p.kept p.movers

variable {statics : List WireStatic} {now snapshotAt : Time} {staticsOk : Bool}

theorem Merge.mergeStatics_eq (s : Merge M) {s₁ s₂ s₃ s₄ : Merge M} (subnetId : Nat)
    (h₁ : s.absenceDelete mirrors (dedupeWireStatics statics) staticsOk snapshotAt = .ok s₁)
    (h₂ : s₁.applyMoves mirrors now (moversOf s₁.rows (dedupeWireStatics statics) snapshotAt) = .ok s₂)
    (h₃ : mergeAllInPlace mirrors now s₂ ((dedupeWireStatics statics).filterMap (inPlaceOf s₁.rows snapshotAt)) = .ok s₃)
    (h₄ : createAll mirrors now s₃ ((dedupeWireStatics statics).filter fun w => (trackedRow s₁.rows w).isNone) = .ok s₄) :
    ∃ s', s.mergeStatics mirrors now subnetId statics staticsOk snapshotAt = .ok s' ∧
      s'.rows = s₄.rows ∧ s'.nextId = s₄.nextId ∧ s'.result.errors = s₄.result.errors ∧
      s'.result.staticsSynced = s₄.result.staticsSynced ∧
      s'.result.staticsRemoved = s₄.result.staticsRemoved := by
  unfold mergeStatics
  simp only [h₁, bind, Except.bind]
  rw [show (dedupeWireStatics statics).filterMap (moverOf s₁.rows snapshotAt) =
    moversOf s₁.rows (dedupeWireStatics statics) snapshotAt from rfl, h₂]
  simp only [h₃, h₄, pure, Except.pure]
  split
  · exact ⟨_, rfl, rfl, rfl, rfl, rfl, rfl⟩
  · exact ⟨_, rfl, rfl, rfl, rfl, rfl, rfl⟩

theorem Merge.mergeStatics_clash {s s₁ : Merge M} {subnetId : Nat}
    (h₁ : s.absenceDelete mirrors (dedupeWireStatics statics) staticsOk snapshotAt = .ok s₁)
    (h₂ : ∀ s₂, s₁.applyMoves mirrors now (moversOf s₁.rows (dedupeWireStatics statics) snapshotAt) ≠ .ok s₂)
    (s' : Merge M) : s.mergeStatics mirrors now subnetId statics staticsOk snapshotAt ≠ .ok s' := by
  intro hok
  unfold mergeStatics at hok
  simp only [h₁, bind, Except.bind] at hok
  rw [show (dedupeWireStatics statics).filterMap (moverOf s₁.rows snapshotAt) =
    moversOf s₁.rows (dedupeWireStatics statics) snapshotAt from rfl] at hok
  split at hok
  · cases hok
  · next s₂ hs₂ => exact h₂ s₂ hs₂

variable {wire : List Wanted} {snapshotAt : Time} {rows : List StaticAssignment}

theorem Distinct.filter {wire : List Wanted} (h : Distinct wire) (q : Wanted → Bool) :
    Distinct (wire.filter q) :=
  ⟨h.macs.sublist (List.filter_sublist.map _), h.ips.sublist (List.filter_sublist.map _)⟩

theorem Keyed.inPlace_not_mover (h : Keyed rows) (hwire : Distinct wire)
    {q : StaticAssignment × Wanted} (hq : q ∈ wire.filterMap (inPlaceOf rows snapshotAt)) :
    q.1.id ∉ (moversOf rows wire snapshotAt).map fun m => m.1.id := by
  intro hmem
  obtain ⟨m, hm, hid⟩ := List.mem_map.mp hmem
  obtain ⟨hqw, hqr, hqmac, -, hqip⟩ := h.mem_inPlace.mp hq
  obtain ⟨hmw, hmr, hmmac, -, hmip⟩ := h.mem_movers.mp hm
  have hrow : m.1 = q.1 := h.eq_of_id hmr hqr hid
  have hwanted : m.2 = q.2 :=
    hwire.eq_of_mac hmw hqw (hmmac.symm.trans ((congrArg _ hrow).trans hqmac))
  exact hmip (hrow ▸ hwanted ▸ hqip)

/-- What the moves and the fields in place make of a row. -/
def settled (now : Time) (rows : List StaticAssignment) (wire : List Wanted) (snapshotAt : Time)
    (r : StaticAssignment) : StaticAssignment :=
  applyAll (wire.filterMap (inPlaceOf rows snapshotAt))
    (landOne now (landableOf rows (moversOf rows wire snapshotAt)) r)

/-- The rows the wire has something to say about. -/
def spoken (rows : List StaticAssignment) (wire : List Wanted) (snapshotAt : Time) : List Nat :=
  ((moversOf rows wire snapshotAt).map fun m => m.1.id) ++
    (wire.filterMap (inPlaceOf rows snapshotAt)).map fun m => m.1.id

variable {r : StaticAssignment}

theorem settled_keys (h : Keyed rows) (wire : List Wanted) (snapshotAt now : Time) (hr : r ∈ rows) :
    (settled now rows wire snapshotAt r).id = r.id ∧
      (settled now rows wire snapshotAt r).macAddress = r.macAddress := by
  have hmem : ∀ m ∈ landableOf rows (moversOf rows wire snapshotAt), m.1 ∈ rows := fun m hm =>
    (h.mem_movers.mp (mem_landableOf.mp hm).1).2.1
  obtain ⟨hid, hmac, -⟩ := landOne_keys h now hr hmem
  have hkeys := sameKeys_applyAll (wire.filterMap (inPlaceOf rows snapshotAt))
    (landOne now (landableOf rows (moversOf rows wire snapshotAt)) r)
  exact ⟨hkeys.id.trans hid, hkeys.macAddress.trans hmac⟩

theorem not_mem_spoken (h : Keyed rows) (hr : r ∈ rows) (hnew : snapshotAt < r.modifiedAt) :
    r.id ∉ spoken rows wire snapshotAt := by
  intro hmem
  rcases List.mem_append.mp hmem with hmem | hmem
  · obtain ⟨m, hm, hid⟩ := List.mem_map.mp hmem
    obtain ⟨-, hmr, -, hold, -⟩ := h.mem_movers.mp hm
    rw [h.eq_of_id hmr hr hid] at hold
    exact absurd hold (not_le.mpr hnew)
  · obtain ⟨m, hm, hid⟩ := List.mem_map.mp hmem
    obtain ⟨-, hmr, -, hold, -⟩ := h.mem_inPlace.mp hm
    rw [h.eq_of_id hmr hr hid] at hold
    exact absurd hold (not_le.mpr hnew)

theorem settled_matches (h : Keyed rows) (hwire : Distinct wire) (now : Time) (hr : r ∈ rows)
    {w : Wanted} (hw : w ∈ wire) (hmac : r.macAddress = w.macAddress)
    (hold : r.modifiedAt ≤ snapshotAt)
    (hfree : ∀ m ∈ moversOf rows wire snapshotAt, blockerOf rows (moversOf rows wire snapshotAt) m = none) :
    Matches (settled now rows wire snapshotAt r) w := by
  unfold settled
  by_cases hip : r.ipAddress = w.ipAddress
  · have hmem : (r, w) ∈ wire.filterMap (inPlaceOf rows snapshotAt) :=
      h.mem_inPlace.mpr ⟨hw, hr, hmac, hold, hip⟩
    have hstay : landOne now (landableOf rows (moversOf rows wire snapshotAt)) r = r := by
      apply landOne_of_not_mem
      intro hid
      obtain ⟨m, hm, hid⟩ := List.mem_map.mp hid
      exact h.inPlace_not_mover hwire hmem
        (List.mem_map.mpr ⟨m, (mem_landableOf.mp hm).1, hid⟩)
    have hkeys := sameKeys_applyAll (wire.filterMap (inPlaceOf rows snapshotAt)) r
    rw [hstay]
    exact ⟨hkeys.macAddress.trans hmac, hkeys.ipAddress.trans hip,
      applyAll_of_mem (h.inPlace_ids hwire snapshotAt) hmem rfl⟩
  · have hmem : (r, w) ∈ moversOf rows wire snapshotAt :=
      h.mem_movers.mpr ⟨hw, hr, hmac, hold, hip⟩
    have hland : landOne now (landableOf rows (moversOf rows wire snapshotAt)) r =
        landed now (r, w) :=
      landOne_of_mem (landable_ids h hwire snapshotAt)
        (mem_landableOf.mpr ⟨hmem, hfree _ hmem⟩) rfl
    have hid : (landed now (r, w)).id ∉
        (wire.filterMap (inPlaceOf rows snapshotAt)).map fun m => m.1.id := by
      intro hid
      obtain ⟨q, hq, hid⟩ := List.mem_map.mp hid
      apply h.inPlace_not_mover hwire hq
      exact List.mem_map.mpr ⟨(r, w), hmem, hid.symm⟩
    rw [hland, applyAll_of_not_mem hid]
    obtain ⟨hhost, hdescription, hclient⟩ := carries_applyWireFields
      { r with deletedAt := none, ipAddress := w.ipAddress } w
    exact ⟨hmac, rfl, ⟨hhost, hdescription, hclient⟩⟩

/-- **A merge whose moves do not clash runs to its end.** The rows the absence-delete left are
settled, and the others are new. -/
theorem Poll.run_stages (hclash : ¬ Clash p.kept p.movers) :
    ∃ s₃ s' : Merge M, p.run mirrors = .ok s' ∧ Fresh s' ∧
      Rewritten (settled p.now p.kept p.wire p.snapshotAt) (spoken p.kept p.wire p.snapshotAt)
        p.kept s₃.rows ∧
      (∀ st ∈ s₃.rows, st ∈ s'.rows) ∧
      (∀ st ∈ s'.rows, st ∈ s₃.rows ∨
        ∃ w ∈ p.wire, trackedRow p.kept w = none ∧ Matches st w) ∧
      (p.MayDelete → (∀ m ∈ p.movers, blockerOf p.kept p.movers m = none) →
        (∀ w ∈ p.wire, trackedRow p.kept w = none → ∀ st ∈ s₃.rows, st.ipAddress ≠ w.ipAddress) →
        s'.result.errors = p.start.result.errors ∧
          ∀ w ∈ p.wire, trackedRow p.kept w = none → ∃ st ∈ s'.rows, Matches st w) := by
  have hwire : Distinct p.wire := distinct_dedupeWireStatics p.statics
  obtain ⟨s₁, h₁, hfresh₁, hrows₁, herrors₁⟩ :=
    p.start.absenceDelete_fresh mirrors p.fresh p.wire p.staticsOk p.snapshotAt
  have hkept : s₁.rows = p.kept := hrows₁
  have hkeyed := hfresh₁.keyed
  have hclash : ¬ Clash s₁.rows (moversOf s₁.rows p.wire p.snapshotAt) := by
    rw [hkept]
    exact hclash
  obtain ⟨s₂, h₂, hkeyed₂, hrows₂, hnext₂, herrors₂⟩ :=
    s₁.applyMoves_keyed mirrors p.now hkeyed hwire hclash
  have hin : ∀ m ∈ p.wire.filterMap (inPlaceOf s₁.rows p.snapshotAt), m.1 ∈ s₂.rows := fun m hm =>
    hrows₂.mem (hkeyed.mem_inPlace.mp hm).2.1 (hkeyed.inPlace_not_mover hwire hm)
  obtain ⟨s₃, h₃, hrows₃, hquiet₃, -⟩ := mergeAllInPlace_keyed mirrors p.now hkeyed₂ hin
    (hkeyed.inPlace_ids hwire p.snapshotAt)
  have hboth : Rewritten (settled p.now s₁.rows p.wire p.snapshotAt)
      (spoken s₁.rows p.wire p.snapshotAt) s₁.rows s₃.rows :=
    hrows₂.trans hrows₃ fun _ _ heq => applyAll_content heq
  have hkeyed₃ : Keyed s₃.rows := hrows₃.keyed (fun r _ => sameKeys_applyAll _ r) hkeyed₂
  have hfresh₃ : Fresh s₃ := by
    refine ⟨hkeyed₃, fun st hst => ?_⟩
    obtain ⟨r, hr, hcontent⟩ := hboth.exists_of_mem hst
    rw [(StaticAssignment.content_eq hcontent).1, (settled_keys hkeyed p.wire p.snapshotAt p.now hr).1,
      hquiet₃.nextId, hnext₂]
    exact hfresh₁.below r hr
  have hnew : ∀ w ∈ p.wire.filter (fun w => (trackedRow s₁.rows w).isNone), ∀ st ∈ s₃.rows,
      st.macAddress ≠ w.macAddress := by
    intro w hw st hst
    obtain ⟨r, hr, hcontent⟩ := hboth.exists_of_mem hst
    rw [(StaticAssignment.content_eq hcontent).2.1, (settled_keys hkeyed p.wire p.snapshotAt p.now hr).2]
    have hnone := (List.mem_filter.mp hw).2
    rw [Option.isNone_iff_eq_none] at hnone
    exact trackedRow_eq_none.mp hnone r hr
  obtain ⟨s₄, h₄, hfresh₄, hstay₄, hfrom₄, hall₄⟩ := createAll_fresh mirrors p.now hfresh₃
    (hwire.filter fun w => (trackedRow s₁.rows w).isNone) hnew
  obtain ⟨s', hs', hrows', hnext', herrors', -, -⟩ :=
    p.start.mergeStatics_eq mirrors p.subnetId h₁ h₂ h₃ h₄
  rw [hkept] at hboth hfrom₄ hall₄ herrors₂
  refine ⟨s₃, s', hs', ⟨hrows'.symm ▸ hfresh₄.keyed, ?_⟩, hboth,
    fun st hst => hrows'.symm ▸ hstay₄ st hst, ?_, ?_⟩
  · rw [hrows', hnext']
    exact hfresh₄.below
  · intro st hst
    rcases hfrom₄ st (hrows' ▸ hst) with hst | ⟨w, hw, hmatch⟩
    · exact Or.inl hst
    · obtain ⟨hw, hnone⟩ := List.mem_filter.mp hw
      exact Or.inr ⟨w, hw, Option.isNone_iff_eq_none.mp hnone, hmatch⟩
  · intro hmay hfree hips
    obtain ⟨herrors₄, hadded⟩ := hall₄ fun w hw => by
      obtain ⟨hw, hnone⟩ := List.mem_filter.mp hw
      exact hips w hw (Option.isNone_iff_eq_none.mp hnone)
    refine ⟨?_, ?_⟩
    · rw [herrors', herrors₄, hquiet₃.errors, herrors₂ hfree, herrors₁ hmay]
    · intro w hw hnone
      rw [hrows']
      exact hadded w (List.mem_filter.mpr ⟨hw, Option.isNone_iff_eq_none.mpr hnone⟩)

theorem Poll.run_clash (hclash : Clash p.kept p.movers) (s' : Merge M) :
    p.run mirrors ≠ .ok s' := by
  obtain ⟨s₁, h₁, hfresh₁, hrows₁, -⟩ :=
    p.start.absenceDelete_fresh mirrors p.fresh p.wire p.staticsOk p.snapshotAt
  have hkept : s₁.rows = p.kept := hrows₁
  apply Merge.mergeStatics_clash mirrors h₁
  apply Merge.applyMoves_clash mirrors hfresh₁.keyed (distinct_dedupeWireStatics p.statics)
  rw [hkept]
  exact hclash

/-- Every row is what the wire wants of its MAC, and every wanted MAC has its row. -/
structure Agrees (rows : List StaticAssignment) (wire : List Wanted) : Prop where
  wanted : ∀ st ∈ rows, ∃ w ∈ wire, Matches st w
  there : ∀ w ∈ wire, ∃ st ∈ rows, Matches st w

theorem Agrees.perm (h : Agrees rows wire) (hkeyed : Keyed rows) (hwire : Distinct wire) :
    (rows.map fun st => (st.macAddress, st.ipAddress)).Perm
      (wire.map fun w => (w.macAddress, w.ipAddress)) := by
  have hrows : (rows.map fun st => (st.macAddress, st.ipAddress)).Nodup :=
    List.Nodup.of_map Prod.fst (by rw [List.map_map]; exact hkeyed.macs)
  have hwanted : (wire.map fun w => (w.macAddress, w.ipAddress)).Nodup :=
    List.Nodup.of_map Prod.fst (by rw [List.map_map]; exact hwire.macs)
  rw [List.perm_ext_iff_of_nodup hrows hwanted]
  intro a
  constructor
  · intro ha
    obtain ⟨st, hst, rfl⟩ := List.mem_map.mp ha
    obtain ⟨w, hw, hmatch⟩ := h.wanted st hst
    exact List.mem_map.mpr ⟨w, hw, by rw [hmatch.macAddress, hmatch.ipAddress]⟩
  · intro ha
    obtain ⟨w, hw, rfl⟩ := List.mem_map.mp ha
    obtain ⟨st, hst, hmatch⟩ := h.there w hw
    exact List.mem_map.mpr ⟨st, hst, by rw [hmatch.macAddress, hmatch.ipAddress]⟩

theorem stableUnder_of_agrees {s : Merge M} (hfresh : Fresh s)
    (h : Agrees s.rows (dedupeWireStatics statics)) : StableUnder mirrors statics s := by
  intro now snapshotAt subnetId staticsOk
  have hwire := distinct_dedupeWireStatics statics
  have hmatch : ∀ st ∈ s.rows, ∀ w ∈ dedupeWireStatics statics, st.macAddress = w.macAddress →
      Matches st w := by
    intro st hst w hw hmac
    obtain ⟨v, hv, hmatch⟩ := h.wanted st hst
    rw [← hwire.eq_of_mac hv hw (hmatch.macAddress.symm.trans hmac)]
    exact hmatch
  have hstale : s.rows.filter (isStale (dedupeWireStatics statics) snapshotAt) = [] := by
    rw [List.filter_eq_nil_iff]
    intro st hst hstale
    obtain ⟨w, hw, hmatch⟩ := h.wanted st hst
    simp only [isStale, Bool.and_eq_true, decide_eq_true_eq] at hstale
    exact hstale.1 (hmatch.macAddress ▸ List.mem_map_of_mem hw)
  have h₁ : s.absenceDelete mirrors (dedupeWireStatics statics) staticsOk snapshotAt = .ok s := by
    unfold Merge.absenceDelete
    dsimp only
    rw [if_pos hstale]
  have hmovers : moversOf s.rows (dedupeWireStatics statics) snapshotAt = [] := by
    rw [List.eq_nil_iff_forall_not_mem]
    intro m hm
    obtain ⟨hw, hr, hmac, -, hip⟩ := hfresh.keyed.mem_movers.mp hm
    exact hip (hmatch m.1 hr m.2 hw hmac).ipAddress
  have h₂ : s.applyMoves mirrors now
      (moversOf s.rows (dedupeWireStatics statics) snapshotAt) = .ok s := by
    rw [hmovers]
    rfl
  obtain ⟨s₃, h₃, hrows₃, hquiet₃, hsynced₃⟩ := mergeAllInPlace_keyed mirrors now hfresh.keyed
    (fun m hm => (hfresh.keyed.mem_inPlace.mp hm).2.1) (hfresh.keyed.inPlace_ids hwire snapshotAt)
  have hcreates : ((dedupeWireStatics statics).filter fun w => (trackedRow s.rows w).isNone) = [] := by
    rw [List.filter_eq_nil_iff]
    intro w hw hnone
    obtain ⟨st, hst, hmatch⟩ := h.there w hw
    exact trackedRow_eq_none.mp (Option.isNone_iff_eq_none.mp hnone) st hst hmatch.macAddress
  have h₄ : createAll mirrors now s₃
      ((dedupeWireStatics statics).filter fun w => (trackedRow s.rows w).isNone) = .ok s₃ := by
    rw [hcreates]
    rfl
  have hcarries : ∀ m ∈ (dedupeWireStatics statics).filterMap (inPlaceOf s.rows snapshotAt),
      Carries m.1 m.2 := by
    intro m hm
    obtain ⟨hw, hr, hmac, -, -⟩ := hfresh.keyed.mem_inPlace.mp hm
    exact (hmatch m.1 hr m.2 hw hmac).carries
  obtain ⟨s', hs', hrows', -, -, hsynced', hremoved'⟩ :=
    s.mergeStatics_eq mirrors subnetId h₁ h₂ h₃ h₄
  refine ⟨s', hs', ?_, hsynced'.trans (hsynced₃ hcarries), hremoved'.trans hquiet₃.removed⟩
  rw [hrows']
  apply hrows₃.content_eq
  intro r hr
  rw [applyAll_of_carries]
  intro m hm hid
  exact hfresh.keyed.eq_of_id (hfresh.keyed.mem_inPlace.mp hm).2.1 hr hid ▸ hcarries m hm

variable {st : StaticAssignment}

theorem Poll.mem_kept (hst : st ∈ p.start.rows)
    (h : st.macAddress ∈ p.wire.map Wanted.macAddress ∨ p.snapshotAt < st.createdAt ∨ p.staticsOk = false ∨ p.wire = []) :
    st ∈ p.kept := by
  unfold kept keptRows
  split
  · next hallowed =>
    refine List.mem_filter.mpr ⟨hst, ?_⟩
    rcases h with hmac | hnew | hfailed | hempty
    · simp [isStale, hmac]
    · simp [isStale, hnew]
    · rw [hfailed] at hallowed
      cases hallowed
    · have hpos : 0 < p.start.rows.length := List.length_pos_of_mem hst
      rw [hempty] at hallowed
      unfold absenceDeleteError at hallowed
      split at hallowed
      · cases hallowed
      · rw [if_pos ⟨rfl, hpos⟩] at hallowed
        cases hallowed
  · exact hst

theorem Poll.not_mem_kept
    (h : ¬ (st.macAddress ∈ p.wire.map Wanted.macAddress ∨ p.snapshotAt < st.createdAt ∨ p.staticsOk = false ∨ p.wire = [])) :
    st ∉ p.kept := by
  rw [not_or, not_or, not_or] at h
  obtain ⟨hmac, hold, hok, hne⟩ := h
  have hallowed : absenceDeleteError p.wire.length p.start.rows.length p.staticsOk = none := by
    have htrue : p.staticsOk = true := by simpa using hok
    have hlength : p.wire.length ≠ 0 := fun hzero => hne (List.eq_nil_of_length_eq_zero hzero)
    simp [absenceDeleteError, htrue, hlength]
  unfold kept keptRows
  rw [if_pos hallowed]
  intro hmem
  have hstale := (List.mem_filter.mp hmem).2
  simp [isStale, hmac, hold] at hstale

theorem Poll.mem_start_of_kept (h : st ∈ p.kept) : st ∈ p.start.rows := by
  unfold kept keptRows at h
  split at h
  · exact List.mem_of_mem_filter h
  · exact h

theorem Poll.wanted_of_kept (hold : ∀ st ∈ p.start.rows, ¬ p.Newer st) (hmay : p.MayDelete)
    (hr : r ∈ p.kept) :
    ∃ w ∈ p.wire, r.macAddress = w.macAddress ∧ r.modifiedAt ≤ p.snapshotAt := by
  have hstart := p.mem_start_of_kept hr
  obtain ⟨hcreated, hmodified⟩ := not_or.mp (hold r hstart)
  have hmac : r.macAddress ∈ p.wire.map Wanted.macAddress := by
    by_contra hmac
    have hstale : isStale p.wire p.snapshotAt r = true := by simp [isStale, hmac, hcreated]
    rcases hmay with hnone | hallowed
    · exact List.filter_eq_nil_iff.mp hnone r hstart hstale
    · unfold kept keptRows at hr
      rw [if_pos hallowed] at hr
      have hleft := (List.mem_filter.mp hr).2
      rw [hstale] at hleft
      cases hleft
  obtain ⟨w, hw, heq⟩ := List.mem_map.mp hmac
  exact ⟨w, hw, heq.symm, not_lt.mp hmodified⟩

theorem Poll.blockerOf_movers (hkeyed : Keyed p.kept)
    (hold : ∀ st ∈ p.start.rows, ¬ p.Newer st) (hmay : p.MayDelete) :
    ∀ m ∈ p.movers, blockerOf p.kept p.movers m = none := by
  have hwire : Distinct p.wire := distinct_dedupeWireStatics p.statics
  intro m hm
  obtain ⟨hmw, hmr, hmmac, -, -⟩ := hkeyed.mem_movers.mp hm
  rw [blockerOf_eq_none hkeyed]
  intro b hb hip
  obtain ⟨v, hv, hmac, hle⟩ := p.wanted_of_kept hold hmay hb
  by_cases hstay : b.ipAddress = v.ipAddress
  · have hvm : v = m.2 := hwire.eq_of_ip hv hmw (hstay.symm.trans hip)
    have hbm : b = m.1 := hkeyed.eq_of_mac hb hmr (hmac.trans (hvm ▸ hmmac.symm))
    exact Or.inl (congrArg _ hbm)
  · have hmover : (b, v) ∈ p.movers := hkeyed.mem_movers.mpr ⟨hv, hb, hmac, hle, hstay⟩
    exact Or.inr (List.mem_map.mpr ⟨(b, v), hmover, rfl⟩)

/-- **The merge converges exactly when no edited row is deleted and no moves clash.** -/
theorem Poll.reconciles_iff : p.Converges mirrors ↔ p.Sound := by
  have hkeyed : Keyed p.kept := by
    obtain ⟨s₁, -, hfresh₁, hrows₁, -⟩ :=
      p.start.absenceDelete_fresh mirrors p.fresh p.wire p.staticsOk p.snapshotAt
    have hkept : s₁.rows = p.kept := hrows₁
    exact hkept ▸ hfresh₁.keyed
  have hwire : Distinct p.wire := distinct_dedupeWireStatics p.statics
  constructor
  · rintro ⟨s, hrun, hrec⟩
    have hclash : ¬ Clash p.kept p.movers := fun hclash => p.run_clash mirrors hclash s hrun
    refine ⟨fun st hst hedited => ?_, hclash⟩
    by_contra hcond
    -- the row is deleted, and no other row has its MAC
    obtain ⟨s₃, s', hs', -, hrows, -, hfrom, -⟩ := p.run_stages mirrors hclash
    obtain rfl := Except.ok.inj (hrun.symm.trans hs')
    have hmac := (not_or.mp hcond).1
    rcases hfrom st (hrec.sparesNewer st hst (Or.inr hedited)) with hst₃ | ⟨w, hw, -, hmatch⟩
    · obtain ⟨r, hr, hcontent⟩ := hrows.exists_of_mem hst₃
      have hrst : r = st := p.fresh.keyed.eq_of_mac (p.mem_start_of_kept hr) hst (by
          rw [(StaticAssignment.content_eq hcontent).2.1, (settled_keys hkeyed p.wire p.snapshotAt p.now hr).2])
      exact p.not_mem_kept hcond (hrst ▸ hr)
    · exact hmac (hmatch.macAddress ▸ List.mem_map_of_mem hw)
  · intro hsound
    obtain ⟨s₃, s', hs', hfresh, hrows, hstay, hfrom, hall⟩ := p.run_stages mirrors hsound.moves
    refine ⟨s', hs', hfresh.keyed, ?_, ?_, ?_⟩
    · intro st hst hmac
      obtain ⟨st', hst', hcontent⟩ := hrows.exists_mem (p.mem_kept hst (Or.inl hmac))
      have hkeys := settled_keys hkeyed p.wire p.snapshotAt p.now (p.mem_kept hst (Or.inl hmac))
      exact ⟨st', hstay st' hst', (StaticAssignment.content_eq hcontent).1.trans hkeys.1,
        (StaticAssignment.content_eq hcontent).2.1.trans hkeys.2⟩
    · intro st hst hnewer
      have hedited : p.snapshotAt < st.modifiedAt :=
        hnewer.elim (fun h => lt_of_lt_of_le h (p.created_le st hst)) id
      have hmem := p.mem_kept hst (hsound.edited st hst hedited)
      exact hstay st (hrows.mem hmem (not_mem_spoken hkeyed hmem hedited))
    · intro hold hmay
      have hfree := p.blockerOf_movers hkeyed hold hmay
      -- every row left was settled on its wanted entry
      have hsettled : ∀ r ∈ p.kept, ∃ w ∈ p.wire, r.macAddress = w.macAddress ∧
          Matches (settled p.now p.kept p.wire p.snapshotAt r) w := by
        intro r hr
        obtain ⟨w, hw, hmac, hle⟩ := p.wanted_of_kept hold hmay hr
        exact ⟨w, hw, hmac, settled_matches hkeyed hwire p.now hr hw hmac hle hfree⟩
      have hthere : ∀ st ∈ s₃.rows, ∃ r ∈ p.kept, ∃ w ∈ p.wire, r.macAddress = w.macAddress ∧
          Matches st w := by
        intro st hst
        obtain ⟨r, hr, hcontent⟩ := hrows.exists_of_mem hst
        obtain ⟨w, hw, hmac, hmatch⟩ := hsettled r hr
        exact ⟨r, hr, w, hw, hmac, hmatch.of_content hcontent⟩
      obtain ⟨herrors, hadded⟩ := hall hmay hfree (by
        intro w hw hnone st hst hip
        obtain ⟨r, hr, v, hv, hmac, hmatch⟩ := hthere st hst
        have hvw : v = w := hwire.eq_of_ip hv hw (hmatch.ipAddress.symm.trans hip)
        exact trackedRow_eq_none.mp hnone r hr (hvw ▸ hmac))
      have hagrees : Agrees s'.rows p.wire := by
        constructor
        · intro st hst
          rcases hfrom st hst with hst | ⟨w, hw, -, hmatch⟩
          · obtain ⟨-, -, w, hw, -, hmatch⟩ := hthere st hst
            exact ⟨w, hw, hmatch⟩
          · exact ⟨w, hw, hmatch⟩
        · intro w hw
          cases htracked : trackedRow p.kept w with
          | none => exact hadded w hw htracked
          | some r =>
            obtain ⟨hr, hmac⟩ := hkeyed.trackedRow_eq.mp htracked
            obtain ⟨v, hv, hmac', hmatch⟩ := hsettled r hr
            obtain ⟨st, hst, hcontent⟩ := hrows.exists_mem hr
            have hvw : v = w := hwire.eq_of_mac hv hw (hmac'.symm.trans hmac)
            exact ⟨st, hstay st hst, hvw ▸ hmatch.of_content hcontent⟩
      exact ⟨hagrees.perm hfresh.keyed hwire, herrors,
        stableUnder_of_agrees mirrors hfresh hagrees⟩

end Poll

def tenAddress (n : Fin 256) : Ip :=
  ⟨.v4, 0x0A000000 + n.val, by simp only [Ipaddress.Version.maxPrefixlen]; omega⟩

def reservation (id : Nat) (mac : Mac) (ip : Ip) (at_ : Time) : StaticAssignment where
  id := id
  macAddress := mac
  ipAddress := ip
  clientId := none
  hostname := ""
  description := ""
  createdAt := at_
  modifiedAt := at_

/-- The server moved the second reservation to `10.0.0.1` and the third to the second's address;
after the snapshot an operator reserved `10.0.0.1` here. -/
def chainedPoll : Poll Unit where
  start := {
    rows := [reservation 0 1 (tenAddress 1) 20, reservation 1 2 (tenAddress 2) 5,
      reservation 2 3 (tenAddress 3) 5]
    mirrors := ()
    result := {}
    nextId := 3 }
  subnetId := 0
  statics := [⟨some (tenAddress 1), some 2, none, none, none⟩,
    ⟨some (tenAddress 2), some 3, none, none, none⟩]
  staticsOk := true
  snapshotAt := 10
  now := 30
  fresh := ⟨⟨by decide, by decide, by decide, by decide⟩, by decide⟩
  created_le := by decide

def currentMirrors : Mirrors Unit where
  upsert _ _ := ((), false)
  remove _ _ := ((), [])
  isCurrent _ _ := true

/-- The second reservation is refused, and the third lands on the address it still holds. -/
theorem Poll.not_converges_chained :
    ¬ ∀ (M : Type) (mirrors : Mirrors M) (p : Poll M), p.Converges mirrors := by
  intro h
  obtain ⟨s, hs, -⟩ := h Unit currentMirrors chainedPoll
  have hrun : (chainedPoll.run currentMirrors).toOption.isNone = true := by decide
  rw [hs] at hrun
  cases hrun

end SpatiumDdi.Dhcp
