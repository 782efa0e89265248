import SpatiumDdi.Dns.Ingest

/-!
The steps of a group that learns records: what each does to a server, what a report writes when the
reporter has peers, and what holds in every state.
-/

namespace SpatiumDdi.Dns.Ingest

variable {ι : Type} [DecidableEq ι] {group : List ι} {s s' : State ι} {a : Action ι} {i : ι}

def State.mirrored (s : State ι) : List Key := s.mirror.map key

def Several (group : List ι) : Prop := ∀ i ∈ group, ∃ j ∈ group, j ≠ i

def Replaces (rows : List OpRow) (row row' : OpRow) (rows' : List OpRow) : Prop :=
  ∃ before after, rows = before ++ row :: after ∧ rows' = before ++ row' :: after

variable {rows' rows : List OpRow} {row' row other : OpRow} {op : LearnedOp}

section

variable (h : Replaces rows row row' rows')
include h

theorem Replaces.cons (first : OpRow) : Replaces (first :: rows) row row' (first :: rows') := by
  obtain ⟨before, after, rfl, rfl⟩ := h
  exact ⟨first :: before, after, rfl, rfl⟩

theorem Replaces.old (hother : other ∈ rows') : other = row' ∨ other ∈ rows := by
  obtain ⟨before, after, rfl, rfl⟩ := h
  simp only [List.mem_append, List.mem_cons] at hother ⊢
  tauto

theorem Replaces.new (hother : other ∈ rows) : (other = row ∧ row' ∈ rows') ∨ other ∈ rows' := by
  obtain ⟨before, after, rfl, rfl⟩ := h
  simp only [List.mem_append, List.mem_cons] at hother ⊢
  tauto

theorem Replaces.mem : row ∈ rows := by
  obtain ⟨before, after, rfl, -⟩ := h
  simp

end

theorem replaces_nextOp (h : nextOp rows = some (op, rows')) :
    ∃ row, row.landed = false ∧ row.op = op ∧
      Replaces rows row { row with landed := true } rows' := by
  induction rows generalizing rows' with
  | nil => cases h
  | cons row rows ih =>
    rw [nextOp] at h
    split at h
    case isTrue =>
      obtain ⟨⟨op', rows''⟩, hnext, heq⟩ := Option.map_eq_some_iff.mp h
      cases heq
      obtain ⟨next, hlanded, hop, hreplaces⟩ := ih hnext
      exact ⟨next, hlanded, hop, hreplaces.cons row⟩
    case isFalse hlanded =>
      cases h
      exact ⟨row, by simpa using hlanded, rfl, [], rows, rfl, rfl⟩

theorem replaces_set {place : ℕ} (h : rows[place]? = some row) (row' : OpRow) :
    Replaces rows row row' (rows.set place row') := by
  induction rows generalizing place with
  | nil => cases h
  | cons first rows ih =>
    cases place with
    | zero =>
      cases h
      exact ⟨[], rows, rfl, rfl⟩
    | succ place => exact (ih h).cons first

inductive Changes (now : ℕ) (server : Server) : Action ι → Server → Prop where
  | adds (i : ι) (r : IncomingRecord) : Changes now server (.writerAdds i r)
      { server with held := server.held.filter (key · != key r) ++ [r] }
  | deletes (i : ι) (k : Key) : Changes now server (.writerDeletes i k)
      { server with held := server.held.filter (key · != k) }
  | lands (i : ι) {row : OpRow} {rows : List OpRow} (hlanded : row.landed = false)
      (hrows : Replaces server.ops row { row with landed := true } rows) :
      Changes now server (.land i)
        { server with held := row.op.perform server.held, ops := rows }
  | acks (i : ι) (place : ℕ) {row : OpRow} {rows : List OpRow} (hlanded : row.landed = true)
      (hqueued : row.state = .queued)
      (hrows : Replaces server.ops row { row with state := .applied now } rows) :
      Changes now server (.ack i place) { server with ops := rows }
  | reads (i : ι) : Changes now server (.read i)
      { server with reading := some ⟨now, server.held⟩ }

theorem step_cases (h : step group s a = some s') :
    (∃ duration, a = .tick duration ∧ s' = { s with now := s.now + duration }) ∨
    (∃ i server, Changes s.now (s.server i) a server ∧ s' = s.set i server) ∨
    ∃ i reading, a = .post i ∧ i ∈ group ∧ (s.server i).reading = some reading ∧
      s.now ≤ reading.readAt + reportTimeout ∧ s' = s.post group i reading := by
  cases a with
  | tick duration => exact Or.inl ⟨duration, rfl, (Option.some.inj h).symm⟩
  | writerAdds i r => exact Or.inr (Or.inl ⟨i, _, .adds i r, (Option.some.inj h).symm⟩)
  | writerDeletes i k => exact Or.inr (Or.inl ⟨i, _, .deletes i k, (Option.some.inj h).symm⟩)
  | land i =>
    obtain ⟨⟨op, rows⟩, hnext, rfl⟩ := Option.map_eq_some_iff.mp h
    obtain ⟨row, hlanded, rfl, hrows⟩ := replaces_nextOp hnext
    exact Or.inr (Or.inl ⟨i, _, .lands i hlanded hrows, rfl⟩)
  | ack i place =>
    obtain ⟨row, hrow, h⟩ := Option.bind_eq_some_iff.mp h
    obtain ⟨hack, h⟩ := Option.ite_none_right_eq_some.mp h
    exact Or.inr (Or.inl ⟨i, _, .acks i place hack.1 hack.2 (replaces_set hrow _),
      (Option.some.inj h).symm⟩)
  | read i => exact Or.inr (Or.inl ⟨i, _, .reads i, (Option.some.inj h).symm⟩)
  | post i =>
    obtain ⟨reading, hreading, h⟩ := Option.bind_eq_some_iff.mp h
    obtain ⟨hpost, h⟩ := Option.ite_none_right_eq_some.mp h
    exact Or.inr (Or.inr ⟨i, reading, rfl, hpost.1, hreading, hpost.2, (Option.some.inj h).symm⟩)

variable {server server' : Server} {now : ℕ}

theorem forall_set {P : Server → Prop} (h : ∀ j, P (s.server j)) (hnew : P server) (j : ι) :
    P ((s.set i server).server j) := by
  change P (Function.update s.server i server j)
  by_cases hj : j = i
  · rw [hj, Function.update_self]
    exact hnew
  · rw [Function.update_of_ne hj]
    exact h j

section Post

variable {reading : Reading}

omit [DecidableEq ι] in
theorem mem_current {records : List IncomingRecord} {k : Key} :
    k ∈ (s.report i records).current ↔ k ∈ s.zone.values records := mem_desired

theorem peers_ne_nil (hseveral : Several group) (henabled : ∀ j, (s.server j).enabled = true)
    (hi : i ∈ group) : ∃ j, j ∈ s.peers group i := by
  obtain ⟨j, hj, hne⟩ := hseveral i hi
  exact ⟨j, List.mem_filter.mpr ⟨hj, by simp [henabled j, hne]⟩⟩

theorem pass_eq (hseveral : Several group) (henabled : ∀ j, (s.server j).enabled = true)
    (hi : i ∈ group) (records : List IncomingRecord) :
    (s.pass group i records).mirror = (transitionReconcile (s.report i records)).mirror ∧
    (s.pass group i records).snapshot = (transitionReconcile (s.report i records)).snapshot ∧
    (s.pass group i records).peerOps = (transitionReconcile (s.report i records)).peerOps ∧
    (s.pass group i records).selfOps = (transitionReconcile (s.report i records)).selfOps ∧
    ((s.pass group i records).result.Quiet ↔
      (transitionReconcile (s.report i records)).result.Quiet) := by
  obtain ⟨j, hj⟩ := peers_ne_nil hseveral henabled hi
  have hpeers : s.peers group i ≠ [] := List.ne_nil_of_mem hj
  have henabled' : ¬(s.server i).enabled = false := by simp [henabled i]
  simp only [State.pass, if_neg hpeers, if_neg henabled']
  exact ⟨trivial, trivial, trivial, trivial, Iff.rfl⟩

theorem forall_post {P : Server → Prop}
    (hreporter : P { (s.server i).enqueue (if (s.server i).enabled then
        (s.pass group i reading.records).selfOps else []) with
      reading := none, snapshot := (s.pass group i reading.records).snapshot })
    (hpeer : ∀ j ∈ s.peers group i,
      P ((s.server j).enqueue (s.pass group i reading.records).peerOps))
    (hother : ∀ j, j ≠ i → P (s.server j)) (j : ι) :
    P ((s.post group i reading).server j) := by
  simp only [State.post, State.receive]
  split
  case isTrue => exact hreporter
  case isFalse hj =>
    split
    case isTrue hmem => exact hpeer j hmem
    case isFalse => exact hother j hj

theorem mem_enqueue {ops : List LearnedOp} {row : OpRow} :
    row ∈ (server.enqueue ops).ops ↔
      row ∈ server.ops ∨ ∃ op ∈ ops, row = ⟨op, false, .queued, false⟩ := by
  simp [Server.enqueue, eq_comm]

end Post

structure Server.Sound (now : ℕ) (server : Server) : Prop where
  enabled : server.enabled = true
  unfailed : ∀ row ∈ server.ops, ∀ t, row.state ≠ .failed t
  unlanded : ∀ row ∈ server.ops, row.landed = false → row.state = .queued
  readAt : ∀ reading, server.reading = some reading → reading.readAt ≤ now

/-- A value is mirrored once at most, and under no managed name. -/
structure Sound (s : State ι) : Prop where
  nodup : s.mirrored.Nodup
  unmanaged : ∀ k ∈ s.mirrored, nt k ∉ s.zone.managedNt
  servers : ∀ i, (s.server i).Sound s.now
  posted : ∀ i, ∀ p ∈ s.posted i, p.postedAt ≤ s.now ∧ p.readAt ≤ p.postedAt ∧
    p.postedAt ≤ p.readAt + reportTimeout

omit [DecidableEq ι] in
theorem Sound.start (zone : Zone) (held : ι → List IncomingRecord) : Sound (start zone held) where
  nodup := List.nodup_nil
  unmanaged := fun _ h => by cases h
  servers := fun _ =>
    ⟨rfl, (fun _ h => by cases h), (fun _ h => by cases h), (fun _ h => by cases h)⟩
  posted := fun _ _ h => by cases h

omit [DecidableEq ι] in
theorem Server.Sound.change (h : server.Sound now) (hchange : Changes now server a server') :
    server'.Sound now := by
  cases hchange with
  | adds i r => exact ⟨h.enabled, h.unfailed, h.unlanded, h.readAt⟩
  | deletes i k => exact ⟨h.enabled, h.unfailed, h.unlanded, h.readAt⟩
  | lands i hlanded hrows =>
    refine ⟨h.enabled, fun other hother t => ?_, fun other hother hpending => ?_, h.readAt⟩
    · rcases hrows.old hother with rfl | hold
      · exact h.unfailed _ hrows.mem t
      · exact h.unfailed other hold t
    · rcases hrows.old hother with rfl | hold
      · cases hpending
      · exact h.unlanded other hold hpending
  | acks i place hlanded hqueued hrows =>
    refine ⟨h.enabled, fun other hother t => ?_, fun other hother hpending => ?_, h.readAt⟩
    · rcases hrows.old hother with rfl | hold
      · exact OpState.noConfusion
      · exact h.unfailed other hold t
    · rcases hrows.old hother with rfl | hold
      · rw [hlanded] at hpending
        cases hpending
      · exact h.unlanded other hold hpending
  | reads i =>
    refine ⟨h.enabled, h.unfailed, h.unlanded, fun reading hreading => ?_⟩
    cases hreading
    exact Nat.le_refl now

theorem Server.Sound.enqueue (h : server.Sound now) (ops : List LearnedOp) :
    (server.enqueue ops).Sound now where
  enabled := h.enabled
  unfailed := by
    intro row hrow t
    rcases mem_enqueue.mp hrow with hold | ⟨op, -, rfl⟩
    · exact h.unfailed row hold t
    · exact OpState.noConfusion
  unlanded := by
    intro row hrow hpending
    rcases mem_enqueue.mp hrow with hold | ⟨op, -, rfl⟩
    · exact h.unlanded row hold hpending
    · rfl
  readAt := h.readAt

theorem Sound.post (hseveral : Several group) (h : Sound s) (hi : i ∈ group) {reading : Reading}
    (hreading : (s.server i).reading = some reading)
    (hrecent : s.now ≤ reading.readAt + reportTimeout) : Sound (s.post group i reading) where
  nodup := by
    have henabled := fun j => (h.servers j).enabled
    have hmirror : (s.post group i reading).mirror = _ :=
      (pass_eq hseveral henabled hi reading.records).1
    rw [State.mirrored, hmirror]
    exact nodup_mirror h.nodup (nodup_desired s.zone reading.records)
  unmanaged := by
    intro k hk
    have henabled := fun j => (h.servers j).enabled
    have hmirror : (s.post group i reading).mirror = _ :=
      (pass_eq hseveral henabled hi reading.records).1
    rw [State.mirrored, hmirror, transitionReconcile, List.map_append, List.mem_append] at hk
    rcases hk with hkept | hadded
    · exact h.unmanaged k (mem_kept.mp hkept).1
    · exact unmanaged_of_mem_values (mem_desired.mp (mem_added.mp hadded).1.1)
  servers := by
    refine forall_post ?_ (fun j _ => (h.servers j).enqueue _) (fun j _ => h.servers j)
    have hserver := (h.servers i).enqueue
      (if (s.server i).enabled then (s.pass group i reading.records).selfOps else [])
    exact ⟨hserver.enabled, hserver.unfailed, hserver.unlanded, fun _ hnone => by cases hnone⟩
  posted := by
    intro j p hp
    change p ∈ Function.update s.posted i _ j at hp
    by_cases hj : j = i
    · subst hj
      rw [Function.update_self] at hp
      rcases List.mem_cons.mp hp with rfl | hp
      · exact ⟨Nat.le_refl _, (h.servers j).readAt reading hreading, hrecent⟩
      · exact h.posted j p hp
    · rw [Function.update_of_ne hj] at hp
      exact h.posted j p hp

theorem Sound.step (hseveral : Several group) (h : Sound s) (hstep : step group s a = some s') :
    Sound s' := by
  rcases step_cases hstep with ⟨duration, rfl, rfl⟩ | ⟨i, server, hchange, rfl⟩ |
    ⟨i, reading, rfl, hi, hreading, hrecent, rfl⟩
  · refine ⟨h.nodup, h.unmanaged, fun i => ?_, fun i p hp => ?_⟩
    · have hserver := h.servers i
      exact ⟨hserver.enabled, hserver.unfailed, hserver.unlanded, fun reading hreading =>
        Nat.le_trans (hserver.readAt reading hreading) (Nat.le_add_right _ _)⟩
    · obtain ⟨hnow, htimes⟩ := h.posted i p hp
      exact ⟨Nat.le_trans hnow (Nat.le_add_right _ _), htimes⟩
  · exact ⟨h.nodup, h.unmanaged, forall_set h.servers ((h.servers i).change hchange), h.posted⟩
  · exact h.post hseveral hi hreading hrecent

theorem step_zone (h : step group s a = some s') : s'.zone = s.zone := by
  rcases step_cases h with ⟨duration, -, rfl⟩ | ⟨i, server, -, rfl⟩ | ⟨i, reading, -, -, -, -, rfl⟩ <;>
    rfl

variable {ι : Type} {group : List ι} {s s' : State ι} {a : Action ι} {i : ι} {v : Key} {zone : Zone}
  {records held : List IncomingRecord}

theorem toLower_eq_at {c : Char} : c.toLower = '@' ↔ c = '@' := by
  constructor
  · intro h
    by_cases hupper : c.val ≥ 'A'.val ∧ c.val ≤ 'Z'.val
    · have hlow : 65 ≤ c.toNat := hupper.1
      have hhigh : c.toNat ≤ 90 := hupper.2
      have hval : c.val + ('a'.val - 'A'.val) = '@'.val :=
        (congrArg Char.val (dif_pos hupper)).symm.trans (congrArg Char.val h)
      have hnat := congrArg UInt32.toNat hval
      simp at hnat
      omega
    · exact (dif_neg hupper).symm.trans h
  · rintro rfl
    rfl

theorem name_eq_at (name : String) : name.toLower = "@" ↔ name = "@" := by
  constructor
  · intro h
    have hchars : name.toList.map Char.toLower = ['@'] := by
      rw [← String.toList_map]
      exact congrArg String.toList h
    obtain ⟨c, hc, hat⟩ := List.map_eq_singleton_iff.mp hchars
    rw [toLower_eq_at] at hat
    rw [← String.ofList_toList (s := name), hc, hat]
  · rintro rfl
    apply String.toList_inj.mp
    exact String.toList_map.trans rfl

theorem learns_congr {r r' : IncomingRecord} (h : key r = key r') :
    zone.learns r = zone.learns r' := by
  simp only [key, Key.mk.injEq] at h
  obtain ⟨hname, htype, hvalue⟩ := h
  have hat : (r.name == "@") = (r'.name == "@") := by
    rw [Bool.eq_iff_iff, beq_iff_eq, beq_iff_eq, ← name_eq_at, ← name_eq_at r'.name, hname]
  have hblank : ∀ r : IncomingRecord, (r.name == "") = false := fun r => by simp [r.name_ne]
  simp only [Zone.learns, Zone.ignores, Zone.manages, isApexNs, isPlaceholderGlue, hname, htype,
    hvalue, hat, hblank]

theorem mem_values : v ∈ zone.values records ↔ ∃ r ∈ records, key r = v ∧ zone.learns r = true := by
  simp only [Zone.values, List.mem_map, List.mem_filter]
  constructor
  · rintro ⟨r, ⟨hr, hlearns⟩, hkey⟩
    exact ⟨r, hr, hkey, hlearns⟩
  · rintro ⟨r, hr, hkey, hlearns⟩
    exact ⟨r, ⟨hr, hlearns⟩, hkey⟩

theorem mem_values_of {records' : List IncomingRecord} (h : v ∈ zone.values records)
    (hkeep : ∀ r ∈ records, key r = v → ∃ r' ∈ records', key r' = v) :
    v ∈ zone.values records' := by
  obtain ⟨r, hr, hkey, hlearns⟩ := mem_values.mp h
  obtain ⟨r', hr', hkey'⟩ := hkeep r hr hkey
  exact mem_values.mpr ⟨r', hr', hkey', by rw [learns_congr (hkey'.trans hkey.symm), hlearns]⟩

def Server.snapshotKeys (server : Server) : List Key :=
  (server.snapshot.map (·.recordKeys)).getD []

/-- On this server nothing is left of an earlier deletion of the value: no op to delete it has yet
to take effect, and where the server reported the value, it holds it, and it is mirrored. -/
structure Server.Undeleted (zone : Zone) (v : Key) (mirrored : Prop) (server : Server) : Prop where
  ops : ∀ row ∈ server.ops, row.landed = false → row.op.rrsetAction = .deleteValue →
    key row.op.record ≠ v
  snapshot : v ∈ server.snapshotKeys → mirrored ∧ v ∈ zone.values server.held ∧
    ∀ reading, server.reading = some reading → v ∈ zone.values reading.records
  reading : ∀ reading, server.reading = some reading → v ∈ zone.values reading.records →
    v ∈ zone.values server.held

def Undeleted (v : Key) (s : State ι) : Prop :=
  ∀ i, (s.server i).Undeleted s.zone v (v ∈ s.mirrored)

theorem Undeleted.start (zone : Zone) (held : ι → List IncomingRecord) (v : Key) :
    Undeleted v (start zone held) := by
  intro i
  exact ⟨(fun _ h => by cases h), (fun h => by cases h), (fun _ h => by cases h)⟩

theorem perform_values (hdelete : op.rrsetAction = .deleteValue → key op.record ≠ v)
    (h : v ∈ zone.values held) : v ∈ zone.values (op.perform held) := by
  apply mem_values_of h
  intro r hr hkey
  unfold LearnedOp.perform
  split
  case h_1 =>
    split
    case isTrue => exact ⟨r, hr, hkey⟩
    case isFalse => exact ⟨r, List.mem_append_left _ hr, hkey⟩
  case h_2 haction =>
    have hne : key r ≠ key op.record := fun h => hdelete haction (h.symm.trans hkey)
    exact ⟨r, List.mem_filter.mpr ⟨hr, by simpa using hne⟩, hkey⟩

variable {server : Server} {mirrored : Prop}

section

variable (h : server.Undeleted zone v mirrored)
include h

theorem Server.Undeleted.hold (hheld : v ∈ zone.values server.held → v ∈ zone.values held) :
    { server with held := held }.Undeleted zone v mirrored where
  ops := h.ops
  snapshot := by
    intro hv
    obtain ⟨hmirrored, hheld', hreading⟩ := h.snapshot hv
    exact ⟨hmirrored, hheld hheld', hreading⟩
  reading := fun reading hreading hv => hheld (h.reading reading hreading hv)

theorem Server.Undeleted.replace {row' : OpRow} (hrows : Replaces server.ops row row' rows)
    (hlanded : row'.landed = true) : { server with ops := rows }.Undeleted zone v mirrored where
  ops := by
    intro other hother hpending
    rcases hrows.old hother with rfl | hold
    · rw [hlanded] at hpending
      cases hpending
    · exact h.ops other hold hpending
  snapshot := h.snapshot
  reading := h.reading

theorem Server.Undeleted.change (hwriter : ∀ i, a ≠ .writerDeletes i v)
    (hchange : Changes now server a server') : server'.Undeleted zone v mirrored := by
  cases hchange with
  | adds i r =>
    refine h.hold fun hv => mem_values_of hv fun old hold hkey => ?_
    by_cases hr : key r = v
    · exact ⟨r, by simp, hr⟩
    · have hne : key old ≠ key r := fun h => hr (h.symm.trans hkey)
      exact ⟨old, List.mem_append_left _ (List.mem_filter.mpr ⟨hold, by simpa using hne⟩), hkey⟩
  | deletes i k =>
    refine h.hold fun hv => mem_values_of hv fun old hold hkey => ?_
    have hne : key old ≠ k := fun h => hwriter i (by rw [← hkey, h])
    exact ⟨old, List.mem_filter.mpr ⟨hold, by simpa using hne⟩, hkey⟩
  | lands i hlanded hrows =>
    have hheld := h.hold (perform_values (h.ops _ hrows.mem hlanded))
    exact hheld.replace hrows rfl
  | acks i place hlanded hqueued hrows => exact h.replace hrows hlanded
  | reads i =>
    refine ⟨h.ops, fun hv => ?_, fun reading hreading hv => ?_⟩
    · obtain ⟨hmirrored, hheld, -⟩ := h.snapshot hv
      refine ⟨hmirrored, hheld, fun reading hreading => ?_⟩
      cases hreading
      exact hheld
    · cases hreading
      exact hv

theorem Server.Undeleted.mono {mirrored' : Prop} (hmirrored : mirrored → mirrored') :
    server.Undeleted zone v mirrored' :=
  ⟨h.ops, fun hv => ⟨hmirrored (h.snapshot hv).1, (h.snapshot hv).2⟩, h.reading⟩

theorem Server.Undeleted.enqueue {ops : List LearnedOp}
    (hops : ∀ op ∈ ops, op.rrsetAction = .deleteValue → key op.record ≠ v) :
    (server.enqueue ops).Undeleted zone v mirrored where
  ops := by
    intro row hrow hpending hdelete
    rcases mem_enqueue.mp hrow with hold | ⟨op, hop, rfl⟩
    · exact h.ops row hold hpending hdelete
    · exact hops op hop hdelete
  snapshot := h.snapshot
  reading := h.reading

end

section Post

variable {reading : Reading}

section

variable (h : Undeleted v s)
include h

section

variable (hreading : (s.server i).reading = some reading)
include hreading

theorem Undeleted.previous (hv : v ∈ (s.report i reading.records).previous) :
    v ∈ s.mirrored ∧ v ∈ (s.report i reading.records).current := by
  obtain ⟨hmirrored, -, hread⟩ := (h i).snapshot hv
  exact ⟨hmirrored, mem_current.mpr (hread reading hreading)⟩

theorem Undeleted.not_withdrawn : v ∉ (s.report i reading.records).withdrawn.map key := by
  intro hwithdrawn
  obtain ⟨-, hprevious, hcurrent, -⟩ := (mem_withdrawn.mp hwithdrawn).1
  exact hcurrent (h.previous hreading hprevious).2

end

theorem Undeleted.kept (hsound : Sound s) (hreading : (s.server i).reading = some reading)
    (hv : v ∈ s.mirrored) : v ∈ (s.report i reading.records).kept.map key :=
  mem_kept.mpr ⟨hv, h.not_withdrawn hreading, hsound.unmanaged v hv⟩

end

variable [DecidableEq ι]

theorem Undeleted.post (hseveral : Several group) (h : Undeleted v s) (hsound : Sound s)
    (hi : i ∈ group) (hreading : (s.server i).reading = some reading) :
    Undeleted v (s.post group i reading) ∧
      (v ∈ s.mirrored → v ∈ (s.post group i reading).mirrored) ∧
      (v ∈ (s.report i reading.records).current →
        (s.report i reading.records).explains v = false →
        v ∈ (s.post group i reading).mirrored) := by
  have henabled := fun j => (hsound.servers j).enabled
  obtain ⟨hmirror, hsnapshot, hpeer, hself, -⟩ := pass_eq hseveral henabled hi reading.records
  have hmirror' : (s.post group i reading).mirror = _ := hmirror
  have hstays : v ∈ s.mirrored → v ∈ (s.post group i reading).mirrored := by
    intro hv
    rw [State.mirrored, hmirror', transitionReconcile, List.map_append]
    exact List.mem_append_left _ (h.kept hsound hreading hv)
  have hadds : v ∈ (s.report i reading.records).current →
      (s.report i reading.records).explains v = false →
      v ∈ (s.post group i reading).mirrored := by
    intro hcurrent hexplains
    rw [State.mirrored, hmirror']
    exact mem_mirror_of_unexplained hcurrent hexplains
      (unmanaged_of_mem_values (mem_current.mp hcurrent)) fun hv => (h.previous hreading hv).1
  have hpeerOps : ∀ op ∈ (s.pass group i reading.records).peerOps,
      op.rrsetAction = .deleteValue → key op.record ≠ v := by
    intro op hop hdelete hkey
    rw [hpeer] at hop
    exact h.not_withdrawn hreading (hkey ▸ delete_of_peer hop hdelete)
  have hselfOps : ∀ op ∈ (s.pass group i reading.records).selfOps,
      op.rrsetAction = .deleteValue → key op.record ≠ v := by
    intro op hop hdelete hkey
    rw [hself] at hop
    obtain ⟨-, hprevious, hkept⟩ := delete_of_correction hop hdelete
    rw [hkey] at hprevious hkept
    exact hkept (h.kept hsound hreading (h.previous hreading hprevious).1)
  refine ⟨?_, hstays, hadds⟩
  refine forall_post ?_ (fun j _ => ((h j).mono hstays).enqueue hpeerOps)
    (fun j _ => (h j).mono hstays)
  have hown : ∀ op ∈ if (s.server i).enabled then (s.pass group i reading.records).selfOps else [],
      op.rrsetAction = .deleteValue → key op.record ≠ v := by
    rw [henabled i, if_pos rfl]
    exact hselfOps
  have hserver := ((h i).mono hstays).enqueue hown
  refine ⟨hserver.ops, fun hv => ?_, fun _ hnone => by cases hnone⟩
  -- What the snapshot now has was reported, and was mirrored then or is now.
  change v ∈ ((s.pass group i reading.records).snapshot.map (·.recordKeys)).getD [] at hv
  rw [hsnapshot] at hv
  rcases mem_carried.mp hv with ⟨hcurrent, hnotYet⟩ | hstill
  · refine ⟨?_, (h i).reading reading hreading (mem_current.mp hcurrent),
      fun _ hnone => by cases hnone⟩
    by_cases hmirrored : v ∈ s.mirrored
    · exact hstays hmirrored
    · have hprevious : v ∉ (s.report i reading.records).previous :=
        fun hv => hmirrored (h.previous hreading hv).1
      apply hadds hcurrent
      cases hexplains : (s.report i reading.records).explains v with
      | false => rfl
      | true => exact absurd (mem_notYet.mpr ⟨⟨hcurrent, hprevious, hmirrored⟩, hexplains⟩) hnotYet
  · obtain ⟨-, hprevious, hcurrent, -⟩ := (mem_stillHeld.mp hstill).1
    exact absurd (h.previous hreading hprevious).2 hcurrent

end Post

variable [DecidableEq ι]

/-- How often the server reported the value with no op for it queued or recently applied. -/
def State.reported (s : State ι) (i : ι) (v : Key) : ℕ :=
  (s.posted i).countP (·.unexplained.contains v)

structure Kept (v : Key) (before : ι → ℕ) (s : State ι) : Prop where
  sound : Sound s
  undeleted : Undeleted v s
  mirrored : ∀ i, before i < s.reported i v → v ∈ s.mirrored

theorem Kept.step {before : ι → ℕ} (hseveral : Several group) (h : Kept v before s)
    (hwriter : ∀ i, a ≠ .writerDeletes i v) (hstep : step group s a = some s') :
    Kept v before s' := by
  refine ⟨h.sound.step hseveral hstep, ?_, ?_⟩ <;>
    rcases step_cases hstep with ⟨duration, rfl, rfl⟩ | ⟨i, server, hchange, rfl⟩ |
      ⟨i, reading, rfl, hi, hreading, hrecent, rfl⟩
  · exact h.undeleted
  · exact forall_set h.undeleted ((h.undeleted i).change hwriter hchange)
  · exact (h.undeleted.post hseveral h.sound hi hreading).1
  · exact h.mirrored
  · exact h.mirrored
  · obtain ⟨-, hstays, hadds⟩ := h.undeleted.post hseveral h.sound hi hreading
    intro j hj
    change before j < (Function.update s.posted i _ j).countP _ at hj
    by_cases hji : j = i
    · subst hji
      rw [Function.update_self, List.countP_cons] at hj
      split at hj
      case isTrue hnew =>
        simp only [List.contains_eq_mem, decide_eq_true_eq, List.mem_filter,
          Bool.not_eq_true'] at hnew
        exact hadds hnew.1 hnew.2
      case isFalse => exact hstays (h.mirrored j hj)
    · rw [Function.update_of_ne hji] at hj
      exact hstays (h.mirrored j hj)

end SpatiumDdi.Dns.Ingest
