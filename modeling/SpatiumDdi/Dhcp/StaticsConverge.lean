import SpatiumDdi.Dhcp.StaticsRows

/-!
When the merge converges. The movers that can land come back at addresses no two of them share,
but one may be headed for the address of a mover that was refused: then the poll dies on the
unique index. And a row edited after the snapshot under a MAC the wire does not know is deleted.
Outside these two cases the merge does all it is for.
-/

namespace SpatiumDdi.Dhcp

/-- A mover that can land is headed for the address of one that cannot. -/
def Clash (rows : List StaticAssignment) (movers : List (StaticAssignment × Wanted)) : Prop :=
  ∃ p ∈ movers, ∃ q ∈ movers, blockerOf rows movers p = none ∧ blockerOf rows movers q ≠ none ∧
    p.2.ipAddress = q.1.ipAddress

/-- Where a row is once the moves are made. -/
def landOne (now : Time) (landable : List (StaticAssignment × Wanted)) (r : StaticAssignment) :
    StaticAssignment :=
  match landable.find? fun p => p.1.id = r.id with
  | some p => landed now p
  | none => r

section Moves

variable {rows : List StaticAssignment} {landable : List (StaticAssignment × Wanted)} {now : Time}
  {p : StaticAssignment × Wanted} {r : StaticAssignment}

theorem find?_landable (hnodup : (landable.map fun p => p.1.id).Nodup) (hp : p ∈ landable)
    {id : Nat} (hid : p.1.id = id) : landable.find? (fun q => q.1.id = id) = some p := by
  cases hfind : landable.find? fun q => q.1.id = id with
  | none => simpa [hid] using List.find?_eq_none.mp hfind p hp
  | some q =>
    have hq : q.1.id = id := by simpa using List.find?_some hfind
    rw [List.inj_on_of_nodup_map hnodup (List.mem_of_find?_eq_some hfind) hp (hq.trans hid.symm)]

theorem find?_landable_eq_none {id : Nat} :
    landable.find? (fun q => q.1.id = id) = none ↔ id ∉ landable.map fun p => p.1.id := by
  rw [List.find?_eq_none]
  simp only [decide_eq_true_eq, List.mem_map, not_exists, not_and]

theorem landOne_of_not_mem (h : r.id ∉ landable.map fun p => p.1.id) :
    landOne now landable r = r := by
  rw [landOne, find?_landable_eq_none.mpr h]

theorem landOne_of_mem (hnodup : (landable.map fun p => p.1.id).Nodup) (hp : p ∈ landable)
    (hid : p.1.id = r.id) : landOne now landable r = landed now p := by
  rw [landOne, find?_landable hnodup hp hid]

theorem landRows_liftRows : landRows now landable (liftRows now landable rows) =
    rows.map (landOne now landable) := by
  rw [landRows, liftRows, List.map_map]
  apply List.map_congr_left
  intro r _
  rw [Function.comp_apply]
  by_cases hid : r.id ∈ landable.map fun p => p.1.id
  · rw [if_pos hid]
    cases hfind : landable.find? fun p => p.1.id = r.id with
    | none => exact absurd hid (find?_landable_eq_none.mp hfind)
    | some p => simp only [landOne, hfind]
  · rw [if_neg hid]
    rfl

theorem landOne_keys (hkeyed : Keyed rows) (now : Time) (hr : r ∈ rows)
    (hrows : ∀ p ∈ landable, p.1 ∈ rows) :
    (landOne now landable r).id = r.id ∧ (landOne now landable r).macAddress = r.macAddress ∧
      (landOne now landable r).deletedAt = none := by
  cases hfind : landable.find? fun p => p.1.id = r.id with
  | none =>
    rw [landOne, hfind]
    exact ⟨rfl, rfl, hkeyed.live r hr⟩
  | some p =>
    have hid : p.1.id = r.id := by simpa using List.find?_some hfind
    have hp : p.1 = r :=
      hkeyed.eq_of_id (hrows p (List.mem_of_find?_eq_some hfind)) hr hid
    have hland : landOne now landable r = landed now p := by rw [landOne, hfind]
    rw [hland]
    have hmac : p.1.macAddress = r.macAddress := congrArg _ hp
    exact ⟨hid, hmac, rfl⟩

theorem keyed_landOne (hkeyed : Keyed rows) (hrows : ∀ p ∈ landable, p.1 ∈ rows)
    (hips : ((rows.map (landOne now landable)).map StaticAssignment.ipAddress).Nodup) :
    Keyed (rows.map (landOne now landable)) := by
  have hids : rows.map (StaticAssignment.id ∘ landOne now landable) = rows.map StaticAssignment.id :=
    List.map_congr_left fun r hr => (landOne_keys hkeyed now hr hrows).1
  have hmacs : rows.map (StaticAssignment.macAddress ∘ landOne now landable) =
      rows.map StaticAssignment.macAddress :=
    List.map_congr_left fun r hr => (landOne_keys hkeyed now hr hrows).2.1
  constructor
  · rw [List.map_map, hids]
    exact hkeyed.ids
  · rw [List.map_map, hmacs]
    exact hkeyed.macs
  · exact hips
  · intro st hst
    obtain ⟨r, hr, rfl⟩ := List.mem_map.mp hst
    exact (landOne_keys hkeyed now hr hrows).2.2

theorem flush_liftRows {M : Type} (s : Merge M) (hkeyed : Keyed s.rows)
    (landable : List (StaticAssignment × Wanted)) :
    ({ s with rows := liftRows now landable s.rows } : Merge M).flush =
      .ok { s with rows := liftRows now landable s.rows } := by
  have hnodup : ∀ {α : Type} (f : StaticAssignment → α), (s.rows.map f).Nodup →
      (∀ r : StaticAssignment, f { r with deletedAt := some now, modifiedAt := now } = f r) →
      (((liftRows now landable s.rows).filter fun st => st.deletedAt.isNone).map f).Nodup := by
    intro α f hf hsame
    rw [liftRows, List.filter_map, List.map_map]
    refine List.Nodup.sublist (List.filter_sublist.map _) ?_
    rw [List.map_congr_left (g := f)]
    · exact hf
    · intro r _
      rw [Function.comp_apply]
      split
      · exact hsame r
      · rfl
  unfold Merge.flush
  dsimp only
  rw [if_neg (not_not.mpr (hnodup _ hkeyed.macs fun _ => rfl)),
    if_neg (not_not.mpr (hnodup _ hkeyed.ips fun _ => rfl))]

end Moves

section Landing

variable {rows : List StaticAssignment} {wire : List Wanted} {snapshotAt now : Time}
  {movers : List (StaticAssignment × Wanted)} {p : StaticAssignment × Wanted}

def moversOf (rows : List StaticAssignment) (wire : List Wanted) (snapshotAt : Time) :
    List (StaticAssignment × Wanted) :=
  wire.filterMap (moverOf rows snapshotAt)

def landableOf (rows : List StaticAssignment) (movers : List (StaticAssignment × Wanted)) :
    List (StaticAssignment × Wanted) :=
  movers.filter fun p => (blockerOf rows movers p).isNone

theorem mem_landableOf :
    p ∈ landableOf rows movers ↔ p ∈ movers ∧ blockerOf rows movers p = none := by
  rw [landableOf, List.mem_filter, Option.isNone_iff_eq_none]

theorem landable_ids (h : Keyed rows) (hwire : Distinct wire) (snapshotAt : Time) :
    ((landableOf rows (moversOf rows wire snapshotAt)).map fun p => p.1.id).Nodup :=
  (h.movers_ids hwire snapshotAt).sublist (List.filter_sublist.map _)

theorem blockerOf_eq_none (h : Keyed rows) : blockerOf rows movers p = none ↔
      ∀ b ∈ rows, b.ipAddress = p.2.ipAddress → b.id = p.1.id ∨ b.id ∈ movers.map (·.1.id) := by
  unfold blockerOf
  constructor
  · intro hnone b hb hip
    rw [h.holderOf_eq.mpr ⟨hb, hip⟩] at hnone
    dsimp only at hnone
    split at hnone
    · cases hnone
    · next hfree =>
      rw [not_and_or, not_not, not_not] at hfree
      exact hfree
  · intro hall
    cases hholder : holderOf rows p.2.ipAddress with
    | none => rfl
    | some b =>
      obtain ⟨hb, hip⟩ := h.holderOf_eq.mp hholder
      dsimp only
      rw [if_neg]
      rw [not_and_or, not_not, not_not]
      exact hall b hb hip

/-- **The moves pass the unique index exactly when they do not clash.** -/
theorem nodup_landOne_iff (h : Keyed rows) (hwire : Distinct wire) (now : Time) :
    ((rows.map (landOne now (landableOf rows (moversOf rows wire snapshotAt)))).map
        StaticAssignment.ipAddress).Nodup ↔ ¬ Clash rows (moversOf rows wire snapshotAt) := by
  have hnodup := landable_ids h hwire snapshotAt
  set landing := landableOf rows (moversOf rows wire snapshotAt)
  rw [List.map_map, List.nodup_map_iff_inj_on h.nodup]
  constructor
  · -- the landed one and the refused one would share an address
    rintro hinj ⟨p, hp, q, hq, hfree, hrefused, hip⟩
    obtain ⟨-, hpr, -, -, -⟩ := h.mem_movers.mp hp
    obtain ⟨-, hqr, -, -, -⟩ := h.mem_movers.mp hq
    have hland : landOne now landing p.1 = landed now p :=
      landOne_of_mem hnodup (mem_landableOf.mpr ⟨hp, hfree⟩) rfl
    have hstay : landOne now landing q.1 = q.1 := by
      apply landOne_of_not_mem
      intro hmem
      obtain ⟨r, hr, hid⟩ := List.mem_map.mp hmem
      obtain ⟨hr, hrfree⟩ := mem_landableOf.mp hr
      have hrq : r = q := List.inj_on_of_nodup_map (h.movers_ids hwire snapshotAt) hr hq hid
      exact hrefused (hrq ▸ hrfree)
    have heq := hinj p.1 hpr q.1 hqr (by
      rw [Function.comp_apply, Function.comp_apply, hland, hstay]
      exact hip)
    have hpq : p = q := List.inj_on_of_nodup_map (h.movers_ids hwire snapshotAt) hp hq
      (congrArg StaticAssignment.id heq)
    exact hrefused (hpq ▸ hfree)
  · intro hclash x hx y hy hip
    simp only [Function.comp_apply] at hip
    -- a landed row meets one that stays where it is
    have hmeet : ∀ p ∈ landing, ∀ z ∈ rows,
        z.id ∉ landing.map (fun p => p.1.id) →
        p.2.ipAddress ≠ z.ipAddress := by
      intro p hp z hz hstay hip
      obtain ⟨hp, hfree⟩ := mem_landableOf.mp hp
      obtain ⟨-, hpr, -, -, hne⟩ := h.mem_movers.mp hp
      rcases (blockerOf_eq_none h).mp hfree z hz hip.symm with hself | hmoving
      · exact hne (h.eq_of_id hz hpr hself ▸ hip.symm)
      · obtain ⟨q, hq, hid⟩ := List.mem_map.mp hmoving
        have hqz : q.1 = z := h.eq_of_id (h.mem_movers.mp hq).2.1 hz hid
        apply hclash
        refine ⟨p, hp, q, hq, hfree, ?_, hqz ▸ hip⟩
        intro hqfree
        exact hstay (hid ▸ List.mem_map_of_mem (mem_landableOf.mpr ⟨hq, hqfree⟩))
    cases hfx : landing.find? fun p => p.1.id = x.id with
    | none =>
      cases hfy : landing.find? fun p => p.1.id = y.id with
      | none =>
        simp only [landOne, hfx, hfy] at hip
        exact h.eq_of_ip hx hy hip
      | some q =>
        simp only [landOne, hfx, hfy] at hip
        exact absurd hip.symm
          (hmeet q (List.mem_of_find?_eq_some hfy) x hx (find?_landable_eq_none.mp hfx))
    | some p =>
      have hpid : p.1.id = x.id := by simpa using List.find?_some hfx
      have hp := mem_landableOf.mp (List.mem_of_find?_eq_some hfx)
      obtain ⟨hpw, hpr, -, -, -⟩ := h.mem_movers.mp hp.1
      cases hfy : landing.find? fun p => p.1.id = y.id with
      | none =>
        simp only [landOne, hfx, hfy] at hip
        exact absurd hip
          (hmeet p (List.mem_of_find?_eq_some hfx) y hy (find?_landable_eq_none.mp hfy))
      | some q =>
        have hqid : q.1.id = y.id := by simpa using List.find?_some hfy
        have hq := mem_landableOf.mp (List.mem_of_find?_eq_some hfy)
        obtain ⟨hqw, hqr, hqmac, -, -⟩ := h.mem_movers.mp hq.1
        simp only [landOne, hfx, hfy] at hip
        have hsame : p.2 = q.2 := hwire.eq_of_ip hpw hqw hip
        have hmac : p.1.macAddress = q.1.macAddress :=
          ((h.mem_movers.mp hp.1).2.2.1.trans (congrArg _ hsame)).trans hqmac.symm
        have hpq : p.1 = q.1 := h.eq_of_mac hpr hqr hmac
        exact h.eq_of_id hx hy (hpid.symm.trans ((congrArg _ hpq).trans hqid))

theorem reportBlocked_spec {M : Type} (s : Merge M) (rows : List StaticAssignment)
    (movers : List (StaticAssignment × Wanted)) :
    (reportBlocked s rows movers).rows = s.rows ∧ (reportBlocked s rows movers).nextId = s.nextId ∧
      ((∀ p ∈ movers, blockerOf rows movers p = none) → reportBlocked s rows movers = s) := by
  suffices h : ∀ (f : Merge M → StaticAssignment × Wanted → Merge M) (ps : List _),
      (∀ s p, (f s p).rows = s.rows ∧ (f s p).nextId = s.nextId) →
      (ps.foldl f s).rows = s.rows ∧ (ps.foldl f s).nextId = s.nextId ∧
        ((∀ p ∈ ps, ∀ s, f s p = s) → ps.foldl f s = s) by
    unfold reportBlocked
    refine And.imp_right (And.imp_right fun hsame hall => hsame fun p hp s => ?_)
      (h _ movers fun s p => ?_)
    · cases blockerOf rows movers p <;> exact ⟨rfl, rfl⟩
    · simp only [hall p hp]
  intro f ps hf
  induction ps generalizing s with
  | nil => exact ⟨rfl, rfl, fun _ => rfl⟩
  | cons p ps ih =>
    obtain ⟨hrows, hnext, hsame⟩ := ih (f s p)
    refine ⟨hrows.trans (hf s p).1, hnext.trans (hf s p).2, fun hall => ?_⟩
    rw [List.foldl_cons, hsame fun q hq => hall q (List.mem_cons_of_mem _ hq),
      hall p List.mem_cons_self]

section Apply

variable {M : Type} (mirrors : Mirrors M)

theorem Merge.applyMoves_keyed {s : Merge M} (now : Time) (h : Keyed s.rows) (hwire : Distinct wire)
    (hclash : ¬ Clash s.rows (moversOf s.rows wire snapshotAt)) :
    ∃ s', s.applyMoves mirrors now (moversOf s.rows wire snapshotAt) = .ok s' ∧ Keyed s'.rows ∧
      Rewritten (landOne now (landableOf s.rows (moversOf s.rows wire snapshotAt)))
        ((moversOf s.rows wire snapshotAt).map fun p => p.1.id) s.rows s'.rows ∧
      s'.nextId = s.nextId ∧
      ((∀ p ∈ moversOf s.rows wire snapshotAt,
          blockerOf s.rows (moversOf s.rows wire snapshotAt) p = none) →
        s'.result.errors = s.result.errors) := by
  generalize hmovers : moversOf s.rows wire snapshotAt = movers at *
  obtain ⟨hrows, hnext, hreport⟩ := reportBlocked_spec s s.rows movers
  have hids : (landableOf s.rows movers).map (fun p => p.1.id) ⊆ movers.map fun p => p.1.id :=
    (List.filter_sublist.map _).subset
  unfold applyMoves
  dsimp only
  change ∃ s', (if landableOf s.rows movers = [] then _ else _) = _ ∧ _
  by_cases hnone : landableOf s.rows movers = []
  · rw [if_pos hnone]
    refine ⟨reportBlocked s s.rows movers, rfl, hrows.symm ▸ h, ?_, hnext, ?_⟩
    · rw [hnone]
      exact ⟨id, hrows.trans (List.map_id _).symm, fun r _ => ⟨rfl, fun _ => rfl⟩⟩
    · exact fun hall => congrArg (fun s => s.result.errors) (hreport hall)
  · have hnodup := landable_ids h hwire snapshotAt
    have hsub : ∀ p ∈ landableOf s.rows movers, p.1 ∈ s.rows := by
      intro p hp
      have hp := (mem_landableOf.mp hp).1
      rw [← hmovers] at hp
      exact (h.mem_movers.mp hp).2.1
    rw [← hmovers] at hclash
    have hips := (nodup_landOne_iff h hwire now).mpr hclash
    rw [hmovers] at hnodup hips
    have hkeyed := keyed_landOne h hsub hips
    rw [if_neg hnone]
    generalize reportBlocked s s.rows movers = t at hrows hnext hreport
    rw [flush_liftRows t (hrows.symm ▸ h), hrows]
    dsimp only [Except.bind]
    rw [landRows_liftRows]
    let s₁ : Merge M := ({ t with rows := s.rows.map (landOne now (landableOf s.rows movers)) } :
      Merge M).addSynced (landableOf s.rows movers).length
    have hflush : s₁.flush = .ok s₁ := flush_keyed hkeyed
    have hmem : ∀ st ∈ (landableOf s.rows movers).map (landed now), st ∈ s₁.rows := by
      intro st hst
      obtain ⟨p, hp, rfl⟩ := List.mem_map.mp hst
      exact List.mem_map.mpr ⟨p.1, hsub p hp, landOne_of_mem hnodup hp rfl⟩
    have hlanded : ((landableOf s.rows movers).map (landed now)).map StaticAssignment.id =
        (landableOf s.rows movers).map fun p => p.1.id := by
      rw [List.map_map]
      rfl
    obtain ⟨s', hs', hrows', hquiet, -⟩ := upsertAll_keyed mirrors now (s := s₁) hkeyed hmem
      (hlanded ▸ hnodup)
    rw [hlanded] at hrows'
    refine ⟨s', ?_, rewritten_id_keyed hrows' hkeyed, ?_, hquiet.nextId.trans hnext, ?_⟩
    · change (s₁.flush.bind fun s => upsertAll mirrors now s _) = _
      rw [hflush]
      exact hs'
    · have hland : Rewritten (landOne now (landableOf s.rows movers))
          ((landableOf s.rows movers).map fun p => p.1.id) s.rows s₁.rows :=
        ⟨_, rfl, fun r _ => ⟨rfl, landOne_of_not_mem⟩⟩
      exact (hland.trans hrows' fun _ _ heq => heq).mono (by simpa using hids)
    · intro hall
      rw [hquiet.errors]
      exact congrArg (fun s => s.result.errors) (hreport hall)

theorem Merge.applyMoves_clash {s : Merge M} (h : Keyed s.rows) (hwire : Distinct wire)
    (hclash : Clash s.rows (moversOf s.rows wire snapshotAt)) (s' : Merge M) :
    s.applyMoves mirrors now (moversOf s.rows wire snapshotAt) ≠ .ok s' := by
  intro hok
  have hmem : ∀ p ∈ landableOf s.rows (moversOf s.rows wire snapshotAt), p.1 ∈ s.rows :=
    fun p hp => (h.mem_movers.mp (mem_landableOf.mp hp).1).2.1
  obtain ⟨hrows, -, -⟩ := reportBlocked_spec s s.rows (moversOf s.rows wire snapshotAt)
  have hnone : landableOf s.rows (moversOf s.rows wire snapshotAt) ≠ [] := by
    obtain ⟨p, hp, -, -, hfree, -, -⟩ := hclash
    exact List.ne_nil_of_mem (mem_landableOf.mpr ⟨hp, hfree⟩)
  have hips := (nodup_landOne_iff h hwire now).not.mpr (not_not.mpr hclash)
  unfold applyMoves at hok
  dsimp only at hok
  change (if landableOf s.rows (moversOf s.rows wire snapshotAt) = [] then _ else _) = _ at hok
  rw [if_neg hnone] at hok
  set landing := landableOf s.rows (moversOf s.rows wire snapshotAt)
  generalize reportBlocked s s.rows (moversOf s.rows wire snapshotAt) = t at hrows hok
  rw [flush_liftRows t (hrows.symm ▸ h), hrows] at hok
  dsimp only [Except.bind] at hok
  rw [landRows_liftRows] at hok
  have hlive : (s.rows.map (landOne now landing)).filter (fun st => st.deletedAt.isNone) =
      s.rows.map (landOne now landing) := by
    rw [List.filter_eq_self]
    intro st hst
    obtain ⟨r, hr, rfl⟩ := List.mem_map.mp hst
    rw [(landOne_keys h now hr hmem).2.2]
    rfl
  have hflush : ∀ e, Merge.flush ((({ t with
      rows := s.rows.map (landOne now landing) } : Merge M).addSynced landing.length)) ≠ .ok e := by
    intro e he
    unfold flush at he
    simp only [addSynced, hlive] at he
    split at he
    · cases he
    · cases he
  split at hok
  · cases hok
  · next e he => exact hflush e he

end Apply

end Landing

end SpatiumDdi.Dhcp
