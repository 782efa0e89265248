import SpatiumDdi.Dhcp.StaticMirrors
import SpatiumDdi.Dhcp.StaticsPoll

/-!
Whether the operator's columns travel with the reservations that `_apply_moves` re-addresses.
-/

namespace SpatiumDdi.Dhcp.StaticMirror

variable {env : Around} {s s' : Merge State} {wire : List Wanted} {now snapshotAt : Time}
  {rows : List StaticAssignment} {m m₀ : State}

variable {M : Type} {mirrors : Mirrors M} {movers before : List Mover}

theorem upsertAll_mirrors {s s' : Merge M} {sts : List StaticAssignment}
    (h : upsertAll mirrors now s sts = .ok s') :
    s'.mirrors = sts.foldl (fun m st => (mirrors.upsert m st).1) s.mirrors := by
  induction sts generalizing s with
  | nil =>
    cases h
    rfl
  | cons st sts ih =>
    rw [upsertAll, Merge.upsertMirror, Merge.flush] at h
    split at h
    · cases h
    split at h
    · cases h
    rw [ih h, List.foldl_cons]
    dsimp only
    split <;> rfl

theorem reportBlocked_mirrors (s : Merge M) (rows : List StaticAssignment)
    (movers ps : List Mover) :
    (ps.foldl (fun s p =>
      match blockerOf rows movers p with
      | none => s
      | some b => s.report (.cannotMove p.1.macAddress p.2.ipAddress b.macAddress)) s).mirrors =
      s.mirrors := by
  induction ps generalizing s with
  | nil => rfl
  | cons p ps ih =>
    rw [List.foldl_cons, ih]
    split <;> rfl

theorem Merge.flush_eq {s s' : Merge M} (h : s.flush = .ok s') : s' = s := by
  rw [Merge.flush] at h
  split at h
  · cases h
  split at h
  · cases h
  · cases h
    rfl

theorem exceptBind_eq_ok {ε α β : Type} {x : Except ε α} {f : α → Except ε β} {b : β}
    (h : x.bind f = .ok b) : ∃ a, x = .ok a ∧ f a = .ok b := by
  cases x with
  | error e => cases h
  | ok a => exact ⟨a, rfl, h⟩

theorem applyMoves_mirrors {s s' : Merge M} (h : s.applyMoves mirrors now movers = .ok s') :
    s'.mirrors = ((landableOf s.rows movers).map (landed now)).foldl
      (fun m st => (mirrors.upsert m st).1) s.mirrors := by
  have hreport : (reportBlocked s s.rows movers).mirrors = s.mirrors :=
    reportBlocked_mirrors s s.rows movers movers
  unfold Merge.applyMoves at h
  dsimp only at h
  change (if landableOf s.rows movers = [] then _ else _) = _ at h
  by_cases hnone : landableOf s.rows movers = []
  · rw [if_pos hnone] at h
    cases h
    rw [hnone]
    exact hreport
  · rw [if_neg hnone] at h
    obtain ⟨s₁, hs₁, h⟩ := exceptBind_eq_ok h
    obtain ⟨s₂, hs₂, h⟩ := exceptBind_eq_ok h
    rw [upsertAll_mirrors h, Merge.flush_eq hs₂, Merge.flush_eq hs₁]
    change List.foldl _ (reportBlocked s s.rows movers).mirrors _ = _
    rw [hreport]
    rfl

/-- Movers that may land together: each comes after those before it. -/
def Sequence (rows : List StaticAssignment) (movers : List Mover) : Prop :=
  ∀ before p after, movers = before ++ p :: after → Next rows before p

variable {p q : Mover}

theorem Sequence.eq_of_id (h : Sequence rows movers) (hp : p ∈ movers) (hq : q ∈ movers)
    (hid : q.1.id = p.1.id) : q = p := by
  obtain ⟨before, after, hsplit⟩ := List.append_of_mem hp
  rw [hsplit, List.mem_append, List.mem_cons] at hq
  rcases hq with hq | rfl | hq
  · exact absurd (List.mem_map.mpr ⟨q, hq, hid⟩) (h before p after hsplit).fresh
  · rfl
  · obtain ⟨middle, rest, rfl⟩ := List.append_of_mem hq
    have hlater := (h (before ++ p :: middle) q rest (by rw [hsplit]; simp)).fresh
    exact absurd (List.mem_map.mpr ⟨p, List.mem_append_right _ List.mem_cons_self, hid.symm⟩) hlater

theorem Moved.run (hm : Mirrored env rows m₀) {done : List Mover} (h : Moved env rows m₀ done m)
    (hseq : Sequence rows (done ++ movers)) :
    Moved env rows m₀ (done ++ movers)
      ((movers.map (Dhcp.landed now)).foldl (fun m st => ((staticMirrors env).upsert m st).1) m) := by
  induction movers generalizing done m with
  | nil =>
    rw [List.append_nil]
    exact h
  | cons p movers ih =>
    have hnext : Next rows done p := hseq done p movers rfl
    have hstep : Moved env rows m₀ (done ++ [p]) (m.upsertIpamForStatic env (Dhcp.landed now p)) :=
      h.upsert hm hnext rfl rfl
    have hassoc : done ++ p :: movers = (done ++ [p]) ++ movers := by
      rw [List.append_assoc, List.singleton_append]
    rw [hassoc]
    exact ih hstep (hassoc ▸ hseq)

theorem landable_eq_of_id (h : Keyed rows) (hwire : Distinct wire)
    (hp : p ∈ landableOf rows (moversOf rows wire snapshotAt))
    (hq : q ∈ landableOf rows (moversOf rows wire snapshotAt)) (hid : p.1.id = q.1.id) : p = q :=
  List.inj_on_of_nodup_map (landable_ids h hwire snapshotAt) hp hq hid

theorem landable_eq_of_new (h : Keyed rows) (hwire : Distinct wire)
    (hp : p ∈ landableOf rows (moversOf rows wire snapshotAt))
    (hq : q ∈ landableOf rows (moversOf rows wire snapshotAt))
    (hip : p.2.ipAddress = q.2.ipAddress) : p = q := by
  obtain ⟨hpw, hpr, hpmac, -⟩ := h.mem_movers.mp (mem_landableOf.mp hp).1
  obtain ⟨hqw, hqr, hqmac, -⟩ := h.mem_movers.mp (mem_landableOf.mp hq).1
  have hsame : p.2 = q.2 := hwire.eq_of_ip hpw hqw hip
  have hmac : p.1.macAddress = q.1.macAddress := by rw [hpmac, hqmac, hsame]
  exact landable_eq_of_id h hwire hp hq (congrArg _ (h.eq_of_mac hpr hqr hmac))

theorem sequence_landable (h : Keyed rows) (hwire : Distinct wire) :
    Sequence rows (landableOf rows (moversOf rows wire snapshotAt)) := by
  intro before p after hsplit
  have hnodup : (landableOf rows (moversOf rows wire snapshotAt)).Nodup :=
    List.Nodup.of_map _ (landable_ids h hwire snapshotAt)
  have hp : p ∈ landableOf rows (moversOf rows wire snapshotAt) :=
    hsplit ▸ List.mem_append_right _ List.mem_cons_self
  have hbefore : ∀ q ∈ before, q ∈ landableOf rows (moversOf rows wire snapshotAt) :=
    fun q hq => hsplit ▸ List.mem_append_left _ hq
  have hnot : p ∉ before := by
    rw [hsplit] at hnodup
    exact fun hmem => (List.nodup_append.mp hnodup).2.2 p hmem p List.mem_cons_self rfl
  obtain ⟨-, hpr, -, -, hmoves⟩ := h.mem_movers.mp (mem_landableOf.mp hp).1
  refine ⟨hpr, fun hid => ?_, fun hold => ?_, fun hnew => ?_, hmoves⟩
  · obtain ⟨q, hq, hqid⟩ := List.mem_map.mp hid
    exact hnot (landable_eq_of_id h hwire (hbefore q hq) hp hqid ▸ hq)
  · obtain ⟨q, hq, hqip⟩ := List.mem_map.mp hold
    have hqr := (h.mem_movers.mp (mem_landableOf.mp (hbefore q hq)).1).2.1
    have hid := congrArg StaticAssignment.id (h.eq_of_ip hqr hpr hqip)
    exact hnot (landable_eq_of_id h hwire (hbefore q hq) hp hid ▸ hq)
  · obtain ⟨q, hq, hqip⟩ := List.mem_map.mp hnew
    exact hnot (landable_eq_of_new h hwire (hbefore q hq) hp hqip ▸ hq)

/-- Every reservation has one row, at its final address, with the columns of the mirror it had. -/
def Travels (env : Around) (s s' : Merge State) : Prop :=
  ∀ st ∈ s.rows, ∃ st' ∈ s'.rows, st'.id = st.id ∧
    Holds env s'.mirrors st'.id st'.ipAddress (s.mirrors.columnsAt (env.subnetId, st.ipAddress))

/-- Every mover, in the order they come, comes to the columns it had. -/
def Clear (env : Around) (m : State) (movers : List Mover) : Prop :=
  ∀ before p after, movers = before ++ p :: after → Kept env m before p

theorem Moved.holds (h : Moved env rows m₀ done m) (hm : Mirrored env rows m₀)
    (hseq : Sequence rows done) {after : List Mover} (hsplit : done = before ++ p :: after) :
    Holds env m p.1.id p.2.ipAddress (settledColumns env m₀ before p) := by
  obtain ⟨i, row, hrow, hid, hstatus, hcolumns, hlink⟩ := h.landed before p after hsplit
  refine ⟨i, row, hrow, hid, hstatus, hcolumns, hlink, fun k j r hr hrid => ?_⟩
  have hp : p ∈ done := hsplit ▸ List.mem_append_right _ List.mem_cons_self
  rcases h.row_cases hr hrid with ⟨q, hq, rfl, hqid⟩ | ⟨houtside, hr₀⟩
  · rw [hseq.eq_of_id hp hq hqid]
  · obtain rfl := hm.only p.1 (hseq before p after hsplit).mem k j r hr₀ hrid
    exact absurd (List.mem_map.mpr ⟨p, hp, rfl⟩) (houtside rfl).1

theorem Moved.holds_still (h : Moved env rows m₀ done m) (hm : Mirrored env rows m₀)
    {st : StaticAssignment} (hst : st ∈ rows) (hid : st.id ∉ done.map fun p => p.1.id)
    (hold : st.ipAddress ∉ oldIps done) (hnew : st.ipAddress ∉ newIps done) :
    Holds env m st.id st.ipAddress (m₀.columnsAt (env.subnetId, st.ipAddress)) := by
  obtain ⟨i, row, hrow, hrowId, hstatus, hlink⟩ := hm.mirror st hst
  refine ⟨i, row, (h.elsewhere _ fun _ => ⟨hold, hnew⟩).trans hrow, hrowId, hstatus, ?_,
    (h.links _ hid).trans hlink, fun k j r hr hrid => ?_⟩
  · rw [State.columnsAt, hrow]
    rfl
  · rcases h.row_cases hr hrid with ⟨q, hq, rfl, hqid⟩ | ⟨-, hr₀⟩
    · exact absurd (List.mem_map.mpr ⟨q, hq, hqid⟩) hid
    · exact hm.only st hst k j r hr₀ hrid

theorem Holds.unique {id id' : Nat} {ip : Ip} {columns columns' : Columns}
    (h : Holds env m id ip columns) (h' : Holds env m id' ip columns') : columns = columns' := by
  obtain ⟨i, row, hrow, -, -, rfl, -⟩ := h
  obtain ⟨i', row', hrow', -, -, rfl, -⟩ := h'
  cases hrow.symm.trans hrow'
  rfl

/-- The columns travel with the reservations that move exactly when each, in the order they come,
comes to its own. -/
theorem travels_iff (h : Keyed s.rows) (hm : Mirrored env s.rows s.mirrors) (hwire : Distinct wire)
    (hok : s.applyMoves (staticMirrors env) now (moversOf s.rows wire snapshotAt) = .ok s') :
    Travels env s s' ↔
      Clear env s.mirrors (landableOf s.rows (moversOf s.rows wire snapshotAt)) := by
  have hclash : ¬ Clash s.rows (moversOf s.rows wire snapshotAt) := fun hclash =>
    Merge.applyMoves_clash (staticMirrors env) h hwire hclash s' hok
  obtain ⟨t, ht, -, hrows, -⟩ := Merge.applyMoves_keyed (staticMirrors env) now h hwire hclash
  obtain rfl : s' = t := Except.ok.inj (hok.symm.trans ht)
  have hips := (nodup_landOne_iff h hwire now).mpr hclash
  have hids := landable_ids h hwire snapshotAt
  have hseq : Sequence s.rows (landableOf s.rows (moversOf s.rows wire snapshotAt)) :=
    sequence_landable h hwire
  have hmoved : Moved env s.rows s.mirrors
      (landableOf s.rows (moversOf s.rows wire snapshotAt)) s'.mirrors := by
    rw [applyMoves_mirrors hok]
    exact (Moved.nil hm).run hm hseq
  generalize landableOf s.rows (moversOf s.rows wire snapshotAt) = movers at *
  constructor
  · intro htravels before p after hsplit
    have hp : p ∈ movers := hsplit ▸ List.mem_append_right _ List.mem_cons_self
    have hpr : p.1 ∈ s.rows := (hseq before p after hsplit).mem
    obtain ⟨st', hst', hid, hholds⟩ := htravels p.1 hpr
    have hip : st'.ipAddress = p.2.ipAddress := by
      obtain ⟨r, hr, hcontent⟩ := hrows.exists_of_mem hst'
      obtain ⟨hr', -, hip, -⟩ := StaticAssignment.content_eq hcontent
      have hkeeps := (landOne_keys h now hr fun q hq => by
        obtain ⟨b, a, hsplit⟩ := List.append_of_mem hq
        exact (hseq b q a hsplit).mem).1
      obtain rfl : p.1 = r := h.eq_of_id hpr hr (hid.symm.trans (hr'.trans hkeeps))
      rw [landOne_of_mem hids hp rfl] at hip
      exact hip
    rw [hip] at hholds
    exact settledColumns_eq_own.mp ((hmoved.holds hm hseq hsplit).unique hholds)
  · intro hclear st hst
    obtain ⟨st', hst', hcontent⟩ := hrows.exists_mem hst
    obtain ⟨hid, -, hip, -⟩ := StaticAssignment.content_eq hcontent
    by_cases hmoves : st.id ∈ movers.map fun p => p.1.id
    · obtain ⟨p, hp, hpid⟩ := List.mem_map.mp hmoves
      obtain ⟨before, after, hsplit⟩ := List.append_of_mem hp
      obtain rfl : p.1 = st := h.eq_of_id (hseq before p after hsplit).mem hst hpid
      rw [landOne_of_mem hids hp rfl] at hid hip
      refine ⟨st', hst', hid, ?_⟩
      have hholds := hmoved.holds hm hseq hsplit
      rw [settledColumns_eq_own.mpr (hclear before p after hsplit)] at hholds
      rw [hid, hip]
      exact hholds
    · rw [landOne_of_not_mem hmoves] at hid hip
      refine ⟨st', hst', hid, ?_⟩
      rw [hid, hip]
      refine hmoved.holds_still hm hst hmoves (fun hold => ?_) fun hnew => ?_
      · obtain ⟨p, hp, hpip⟩ := List.mem_map.mp hold
        obtain ⟨before, after, hsplit⟩ := List.append_of_mem hp
        obtain rfl := h.eq_of_ip (hseq before p after hsplit).mem hst hpip
        exact hmoves (List.mem_map.mpr ⟨p, hp, rfl⟩)
      · -- the index would have two rows at that address
        obtain ⟨p, hp, hpip⟩ := List.mem_map.mp hnew
        obtain ⟨before, after, hsplit⟩ := List.append_of_mem hp
        have hpr := (hseq before p after hsplit).mem
        rw [List.map_map, List.nodup_map_iff_inj_on h.nodup] at hips
        obtain rfl := hips p.1 hpr st hst (by
          rw [Function.comp_apply, Function.comp_apply, landOne_of_mem hids hp rfl,
            landOne_of_not_mem hmoves]
          exact hpip)
        exact hmoves (List.mem_map.mpr ⟨p, hp, rfl⟩)

def described (text : String) : Columns := fun f =>
  if f = .description then .text text else f.default

def mirrorOf (st : StaticAssignment) (text : String) : IpAddress where
  subnetId := 0
  address := st.ipAddress
  status := .staticDhcp
  staticAssignmentId := some st.id
  operator := described text

def hostAddress (host : BitVec 8) : Ip := tenAddress host.toFin

def firstReservation : StaticAssignment := reservation 0 1 (hostAddress 1) 5

def secondReservation : StaticAssignment := reservation 1 2 (hostAddress 2) 5

def twoDescribed : Merge State where
  rows := [firstReservation, secondReservation]
  mirrors := {
    rows := (KeyedTable.empty.insert (mirrorOf firstReservation "printer") rfl).insert
      (mirrorOf secondReservation "camera") rfl
    snapshots := fun _ => none
    links := fun id => some id }
  result := {}
  nextId := 2

def quietSubnet : Around := ⟨0, fun _ => none, fun _ => false⟩

theorem twoDescribed_rows {k : Nat × Ip} {i : Nat} {row : IpAddress}
    (h : twoDescribed.mirrors.rows.lookup k = some (i, row)) :
    (i = 0 ∧ row = mirrorOf firstReservation "printer" ∨
      i = 1 ∧ row = mirrorOf secondReservation "camera") ∧ row.key = k := by
  obtain ⟨hget, hkey⟩ := KeyedTable.lookup_eq_some.mp h
  have hmem : (i, row) ∈ [(0, mirrorOf firstReservation "printer"),
      (1, mirrorOf secondReservation "camera")] := Table.mem_rows_iff.mpr hget
  rw [List.mem_cons, List.mem_singleton, Prod.mk.injEq, Prod.mk.injEq] at hmem
  exact ⟨hmem, hkey⟩

theorem described_admits (text : String) (f : OperatorField) : f.Admits (described text f) := by
  cases f with
  | description => exact ⟨text, rfl⟩
  | tags | customFields => exact ⟨[], rfl⟩
  | _ => exact .inl rfl

theorem mirrored_twoDescribed : Mirrored quietSubnet twoDescribed.rows twoDescribed.mirrors where
  mirror := by
    intro st hst
    rcases List.mem_cons.mp hst with rfl | hst
    · exact ⟨0, mirrorOf firstReservation "printer", rfl, rfl, rfl, rfl⟩
    · rw [List.mem_singleton.mp hst]
      exact ⟨1, mirrorOf secondReservation "camera", rfl, rfl, rfl, rfl⟩
  only := by
    intro st hst k i row hrow hid
    obtain ⟨⟨-, rfl⟩ | ⟨-, rfl⟩, rfl⟩ := twoDescribed_rows hrow
    · rcases List.mem_cons.mp hst with rfl | hst
      · rfl
      · rw [List.mem_singleton.mp hst] at hid
        cases hid
    · rcases List.mem_cons.mp hst with rfl | hst
      · cases hid
      · rw [List.mem_singleton.mp hst]
        rfl
  restored := fun _ _ => rfl
  typed := by
    intro k i row hrow f
    obtain ⟨⟨-, rfl⟩ | ⟨-, rfl⟩, -⟩ := twoDescribed_rows hrow
    · exact described_admits _ f
    · exact described_admits _ f

theorem keyed_twoDescribed : Keyed twoDescribed.rows :=
  ⟨by decide, by decide, by decide, by decide⟩

theorem kept_described {text : String} (hfree : p.1.ipAddress ∉ newIps before)
    (hthere : standing env m before p = OperatorField.default)
    (hown : ownColumns env m p = described text) : Kept env m before p := by
  rw [Kept, if_neg hfree, hthere, hown]
  intro f hempty
  rw [described] at hempty ⊢
  by_cases hf : f = .description
  · subst hf
    rw [if_pos rfl] at hempty ⊢
    rw [eq_of_beq hempty]
    rfl
  · rw [if_neg hf]

/-- The first reservation moves to `10.0.0.3`, and the second to where the first was. -/
def followingWire : List Wanted :=
  [⟨1, hostAddress 3, none, none, none⟩, ⟨2, hostAddress 1, none, none, none⟩]

theorem travels_iff_following :
    ∃ s', twoDescribed.applyMoves (staticMirrors quietSubnet) 30
        (moversOf twoDescribed.rows followingWire 10) = .ok s' ∧
      Travels quietSubnet twoDescribed s' := by
  have hwire : Distinct followingWire := ⟨by decide, by decide⟩
  obtain ⟨s', hok⟩ : ∃ s', twoDescribed.applyMoves (staticMirrors quietSubnet) 30
      (moversOf twoDescribed.rows followingWire 10) = .ok s' := ⟨_, rfl⟩
  refine ⟨s', hok, (travels_iff keyed_twoDescribed mirrored_twoDescribed hwire hok).mpr ?_⟩
  have hmovers : landableOf twoDescribed.rows (moversOf twoDescribed.rows followingWire 10) =
      [(firstReservation, ⟨1, hostAddress 3, none, none, none⟩),
        (secondReservation, ⟨2, hostAddress 1, none, none, none⟩)] := by decide
  rw [hmovers]
  intro before p after hsplit
  match before, hsplit with
  | [], hsplit =>
    obtain rfl := (List.cons.inj hsplit).1
    exact kept_described (by decide) rfl rfl
  | [q], hsplit =>
    obtain ⟨hq, hrest⟩ := List.cons.inj hsplit
    obtain rfl := (List.cons.inj hrest).1
    subst hq
    exact kept_described (by decide) rfl rfl
  | _ :: _ :: _, hsplit =>
    have hlength := congrArg List.length hsplit
    simp at hlength

/-- The reservations change places. -/
def swappingWire : List Wanted :=
  [⟨1, hostAddress 2, none, none, none⟩, ⟨2, hostAddress 1, none, none, none⟩]

/-- The first takes over the second's mirror, and the second comes to a new row. -/
theorem not_travels_swapping :
    ¬ ∀ (env : Around) (s s' : Merge State) (wire : List Wanted) (now snapshotAt : Time),
      Keyed s.rows → Mirrored env s.rows s.mirrors → Distinct wire →
      s.applyMoves (staticMirrors env) now (moversOf s.rows wire snapshotAt) = .ok s' →
      Travels env s s' := by
  intro h
  obtain ⟨s', hok, hblank, hip⟩ : ∃ s', twoDescribed.applyMoves (staticMirrors quietSubnet) 30
      (moversOf twoDescribed.rows swappingWire 10) = .ok s' ∧
      s'.mirrors.columnsAt (0, hostAddress 1) .description = .text "" ∧
      ∀ st ∈ s'.rows, st.id = 1 → st.ipAddress = hostAddress 1 := ⟨_, rfl, by decide, by decide⟩
  obtain ⟨st, hst, hid, i, row, hrow, -, -, hcolumns, -⟩ := h quietSubnet twoDescribed s'
    swappingWire 30 10 keyed_twoDescribed mirrored_twoDescribed ⟨by decide, by decide⟩ hok
    secondReservation (by decide)
  rw [hip st hst hid] at hrow
  have hcamera : s'.mirrors.columnsAt (0, hostAddress 1) .description = .text "camera" := by
    rw [State.columnsAt, show s'.mirrors.rows.lookup (0, hostAddress 1) = some (i, row) from hrow]
    exact congrFun hcolumns .description
  exact absurd (hblank.symm.trans hcamera) (by decide)

end SpatiumDdi.Dhcp.StaticMirror
