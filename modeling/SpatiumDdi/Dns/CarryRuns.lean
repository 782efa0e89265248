import SpatiumDdi.Lib.Runs
import SpatiumDdi.Dns.Carry

/-!
Runs of a dynamic zone: clients' updates, record ops, renders and restarts in any order.

Every swap leaves what the bundle manages as in the bundle, serves nothing else that no client wrote, and
keeps what clients wrote of RRsets that the control plane does not own. The exception is the glue of a
placeholder: an op on another RRset writes it without a mark in the sidecar.
-/

namespace SpatiumDdi.Dns.Carry

open DynamicUpdate Runs

attribute [local instance] Apex.lawfulBEq_name

variable {parses : RType → Apex.Name → Bool} {s s' : State} {op : RecordOp}
  {changes : List (Change Key Apex.Name)} {origin : Apex.Name} {k : Key} {v : Apex.Name}

theorem ignored_apexKey (origin : Apex.Name) : ignored origin (apexKey origin) = true := by
  simp [ignored]

theorem ne_apexKey (h : ignored origin k = false) : k ≠ apexKey origin := by
  rintro rfl
  rw [ignored_apexKey] at h
  cases h

theorem not_ignored_glueKey (origin : Apex.Name) : ignored origin (glueKey origin) = false := by
  simp [ignored, glueKey, apexKey]

section

variable (h : op.message origin parses = some changes)
include h

theorem message_cases :
    (op.mark origin = none ∧ op.members = none ∧ ∃ value, changes = [.delete (op.key origin) value]) ∨
      (op.mark origin = some (.released (op.key origin)) ∧ changes = [.clear (op.key origin)]) ∨
      (op.mark origin = some (.owns (op.key origin)) ∧
        ∀ change ∈ changes, change.key = op.key origin) := by
  cases hmembers : op.members with
  | some members =>
    simp only [RecordOp.message, hmembers] at h
    obtain ⟨wire, hwire, rfl⟩ := Option.map_eq_some_iff.mp h
    by_cases hempty : members = []
    · subst hempty
      obtain rfl : [] = wire := by simpa [RecordOp.wireMembers] using hwire
      exact .inr (.inl ⟨by simp [RecordOp.mark, hmembers], rfl⟩)
    · refine .inr (.inr ⟨by simp [RecordOp.mark, hmembers, hempty], fun change hchange => ?_⟩)
      rcases List.mem_cons.mp hchange with rfl | hadd
      · rfl
      · obtain ⟨value, -, rfl⟩ := List.mem_map.mp hadd
        rfl
  | none =>
    simp only [RecordOp.message, hmembers] at h
    by_cases hkind : op.kind = .delete
    · by_cases haction : op.action = some .deleteValue
      · rw [if_neg fun hdelete => hdelete.2 haction] at h
        split at h
        · cases h
        · cases h
          exact .inl ⟨by simp [RecordOp.mark, hmembers, hkind, haction], rfl, _, rfl⟩
      · rw [if_pos ⟨hkind, haction⟩] at h
        cases h
        exact .inr (.inl ⟨by simp [RecordOp.mark, hmembers, hkind, haction], rfl⟩)
    · rw [if_neg fun hdelete => hkind hdelete.1] at h
      refine .inr (.inr ⟨by simp [RecordOp.mark, hmembers, hkind], ?_⟩)
      split at h
      · cases h
      · split at h
        · cases h
          simp [Change.key]
        · cases h
          simp [Change.key]

theorem message_key : ∀ change ∈ changes, change.key = op.key origin := by
  rcases message_cases h with ⟨-, -, value, rfl⟩ | ⟨-, rfl⟩ | ⟨-, hkeys⟩
  · simp [Change.key]
  · simp [Change.key]
  · exact hkeys

end

theorem add_mem_reconcileApex {state : Apex.ApexState} {name : Apex.Name} {rtype : Apex.RType}
    {members : List Apex.Name} {served : Option (List Apex.Name)} {key : Apex.Key} {value : Apex.Name}
    (h : .add key value ∈ (Apex.reconcileApex state origin name rtype members served).2) :
    key = Apex.apexKey origin ∨
      (key = Apex.glueKey origin ∧ value = Apex.placeholderNsAddress) := by
  have hglue : ∀ before after, .add key value ∈ Apex.glueAdded origin before after →
      key = Apex.glueKey origin ∧ value = Apex.placeholderNsAddress := by
    intro before after hadd
    unfold Apex.glueAdded at hadd
    split at hadd
    · simpa using hadd
    · cases hadd
  have hchanges : ∀ new, .add key value ∈
      (Apex.reconcileApex.changes state origin rtype members served new).2 →
        key = Apex.apexKey origin ∨
          (key = Apex.glueKey origin ∧ value = Apex.placeholderNsAddress) := by
    intro new hadd
    simp only [Apex.reconcileApex.changes] at hadd
    split at hadd
    · simp only [List.mem_append] at hadd
      rcases hadd with (hadd | hadd) | hadd
      · exact .inr (hglue _ _ hadd)
      · refine .inl ?_
        unfold Apex.apexNsChanges at hadd
        rcases List.mem_append.mp hadd with hadd | hdelete
        · split at hadd
          · obtain ⟨ns, -, heq⟩ := List.mem_map.mp hadd
            cases heq
            rfl
          · cases hadd
        · obtain ⟨ns, -, heq⟩ := List.mem_map.mp hdelete
          cases heq
      · unfold Apex.glueDeleted at hadd
        split at hadd
        · simp at hadd
        · cases hadd
    · exact .inr (hglue _ _ hadd)
  simp only [Apex.reconcileApex] at h
  split at h
  · exact hchanges _ h
  · split at h
    · exact hchanges _ h
    · cases h

theorem add_mem_reconcile {state : Option Apex.ApexState}
    (h : .add k v ∈ (op.reconcile origin parses state).2) :
    k = apexKey origin ∨ (k = glueKey origin ∧ v = Apex.placeholderNsAddress) := by
  unfold RecordOp.reconcile at h
  split at h
  · obtain ⟨change, hchange, heq⟩ := List.mem_map.mp h
    cases change with
    | clear key => cases heq
    | delete key value => cases heq
    | add key value =>
      simp only [RecordOp.ofApex, Change.add.injEq] at heq
      obtain ⟨rfl, rfl⟩ := heq
      rcases add_mem_reconcileApex hchange with rfl | ⟨rfl, hvalue⟩
      · exact .inl rfl
      · exact .inr ⟨rfl, hvalue⟩
  · cases h

theorem mayHold_of_journal {file : Option ZoneFile} (h : file.isSome) :
    mayHoldUnrendered file true = true := by
  obtain ⟨f, rfl⟩ := Option.isSome_iff_exists.mp h
  rfl

theorem Inv.update (h : Inv s) (hlive : s.file.isSome) (changes : List (Change Key Apex.Name)) :
    Inv { s with
      named := applyAllRecords (apexKey s.origin) s.named changes
      journal := true
      author := fun k => if k ∈ changes.map Change.key then .client else s.author k } where
  live := h.live
  marked := h.marked
  rendered hmay := by
    rw [mayHold_of_journal hlive] at hmay
    cases hmay
  owned k v hk hheld hauthor := by
    simp only at hheld hauthor
    split at hauthor
    · cases hauthor
    · rename_i hnot
      have hne : ∀ c ∈ changes, c.key ≠ k := fun c hc heq => hnot (List.mem_map.mpr ⟨c, hc, heq⟩)
      exact h.owned k v hk ((mem_applyAllRecords_of_ne hne).mp hheld) hauthor
  glue k hauthor := by
    simp only at hauthor
    split at hauthor
    · cases hauthor
    · exact h.glue k hauthor

theorem mem_ownedBy_append_mark (hmsg : op.message origin parses = some changes)
    (hne : k ≠ op.key origin) (sidecar : List Mark) :
    k ∈ ownedBy (sidecar ++ (op.mark origin).toList) ↔ k ∈ ownedBy sidecar := by
  rw [ownedBy_append]
  rcases message_cases hmsg with ⟨hmark, -⟩ | ⟨hmark, -⟩ | ⟨hmark, -⟩
  · rw [hmark]
    rfl
  · simp [hmark, Mark.apply, hne]
  · simp [hmark, Mark.apply, hne]

theorem mem_named_applyOp (hk : ignored s.origin k = false)
    (hglue : ¬(k = glueKey s.origin ∧ .add k Apex.placeholderNsAddress ∈
      (op.reconcile s.origin parses s.apex).2))
    (hheld : (k, v) ∈ (s.applyOp parses op changes).named) :
    (k, v) ∈ s.named ∨ .add k v ∈ changes := by
  refine (mem_applyAllRecords hheld).imp_right fun hadd => ?_
  rcases List.mem_append.mp hadd with hadd | hextra
  · exact hadd
  · rcases add_mem_reconcile hextra with hapex | ⟨hkey, rfl⟩
    · exact absurd hapex (ne_apexKey hk)
    · exact absurd ⟨hkey, hextra⟩ hglue

theorem not_mem_named_of_released (hk : ignored s.origin (op.key s.origin) = false)
    (hglue : ¬(op.key s.origin = glueKey s.origin ∧
      .add (op.key s.origin) Apex.placeholderNsAddress ∈ (op.reconcile s.origin parses s.apex).2)) :
    (op.key s.origin, v) ∉ (s.applyOp parses op [.clear (op.key s.origin)]).named := by
  intro hheld
  have hextra := mem_applyAllRecords_clear (ne_apexKey hk) hheld
  rcases add_mem_reconcile hextra with hapex | ⟨hkey, rfl⟩
  · exact ne_apexKey hk hapex
  · exact hglue ⟨hkey, hextra⟩

theorem Inv.applyOp (h : Inv s) (hlive : s.file.isSome)
    (hmsg : op.message s.origin parses = some changes) : Inv (s.applyOp parses op changes) where
  live := h.live
  marked _ := by
    rw [State.applyOp, List.any_append, h.marked hlive, Bool.true_or]
  rendered hmay := by
    rw [State.applyOp, mayHold_of_journal hlive] at hmay
    cases hmay
  owned k v hk hheld hauthor := by
    change ignored s.origin k = false at hk
    change (if _ then _ else if _ then _ else _) = _ at hauthor
    split at hauthor
    · cases hauthor
    rename_i hglue
    by_cases hown : k = op.key s.origin
    · subst hown
      rcases message_cases hmsg with ⟨hnone, -, value, rfl⟩ | ⟨-, rfl⟩ | ⟨howns, -⟩
      · -- a delete by value leaves the mark of the RRset as it is
        rw [hnone, if_neg (by simp)] at hauthor
        rw [State.applyOp, hnone, Option.toList_none, List.append_nil]
        refine h.owned _ v hk ?_ hauthor
        exact (mem_named_applyOp hk hglue hheld).resolve_right (by simp)
      · exact absurd hheld (not_mem_named_of_released hk hglue)
      · rw [State.applyOp, howns, ownedBy_append]
        simp [Mark.apply]
    · rw [State.applyOp, mem_ownedBy_append_mark hmsg hown]
      rw [if_neg fun hmarked => hown hmarked.2] at hauthor
      refine h.owned k v hk ?_ hauthor
      exact (mem_named_applyOp hk hglue hheld).resolve_right fun hadd =>
        hown (message_key hmsg _ hadd)
  glue k hauthor := by
    simp only [State.applyOp] at hauthor
    split at hauthor
    next hglue => exact hglue.1
    next =>
      split at hauthor
      · cases hauthor
      · exact h.glue k hauthor

theorem Inv.swap (h : Inv s) {bundle : Bundle} {seen : Finset Key}
    (hstep : step parses s (.swap bundle seen) = some s') : Inv s' := by
  obtain ⟨out, carried, hstages⟩ := h.stages parses bundle seen
  obtain ⟨horigin, hstep⟩ := Option.ite_none_right_eq_some.mp hstep
  cases hstep
  refine ⟨fun _ => rfl, fun _ => hstages.marked, fun hmay k => ?_, fun k v hk hheld hauthor => ?_,
    fun k hauthor => ?_⟩
  · have hrender : (s.staged parses bundle seen).file = .render := by
      simpa [mayHoldUnrendered] using hmay
    obtain ⟨rfl, rfl⟩ := hstages.render hrender
    rw [hstages.owned, Bundle.mem_keys]
    simp only [hstages.records, List.not_mem_nil, not_false_eq_true, and_true, Finset.notMem_empty,
      or_false]
  · rw [hstages.owned]
    simp only at hheld hauthor
    rcases (hstages.records k v).mp hheld with ⟨hline, hout⟩ | hcarried
    · exact ⟨Bundle.mem_keys.mpr ⟨v, hline⟩, hout⟩
    · obtain ⟨hold, hignored, hkeys, hnot, -⟩ := (hstages.carried k v).mp hcarried
      rw [if_neg (by tauto)] at hauthor
      exact absurd (h.owned k v hk hold hauthor) hnot
  · simp only at hauthor
    split at hauthor
    · cases hauthor
    · exact h.glue k hauthor

theorem Inv.step {e : Event} (h : Inv s) (hstep : Carry.step parses s e = some s') : Inv s' := by
  cases e with
  | update changes =>
    obtain ⟨hrunning, hstep⟩ := Option.ite_none_right_eq_some.mp hstep
    cases hstep
    exact h.update (h.live hrunning) changes
  | op op =>
    obtain ⟨hguard, hstep⟩ := Option.ite_none_right_eq_some.mp hstep
    obtain ⟨changes, hmsg, rfl⟩ := Option.map_eq_some_iff.mp hstep
    exact h.applyOp (h.live hguard.1) hmsg
  | dump keepJournal =>
    obtain ⟨hrunning, hstep⟩ := Option.ite_none_right_eq_some.mp hstep
    cases hstep
    refine ⟨fun _ => rfl, fun _ => h.marked (h.live hrunning), fun hmay => ?_, h.owned, h.glue⟩
    cases hkeep : s.journal && keepJournal <;> simp [mayHoldUnrendered] at hmay
  | swap bundle seen => exact h.swap hstep
  | restart =>
    cases hstep
    exact ⟨fun hrunning => (by cases hrunning), h.marked, h.rendered, h.owned, h.glue⟩
  | start =>
    obtain ⟨hfile, hstep⟩ := Option.ite_none_right_eq_some.mp hstep
    cases hstep
    exact ⟨fun _ => hfile, h.marked, h.rendered, h.owned, h.glue⟩

structure Kept (parses : RType → Apex.Name → Bool) (s : State) (bundle : Bundle) (seen : Finset Key)
    (served : Finset Record) : Prop where
  /-- An RRset that the bundle manages is served as in the bundle. -/
  managed : ∀ k ∈ bundle.keys parses, ignored s.origin k = false → k ∉ bundle.mirrors parses →
    ∀ v, (k, v) ∈ served ↔ (k, v) ∈ bundle.lines parses
  /-- An RRset the bundle lacks is not served if no client has written it since the control plane shipped
  or removed it. -/
  unwritten : ∀ k ∉ bundle.keys parses, ignored s.origin k = false → s.author k ≠ .client →
    ∀ v, (k, v) ∉ served
  /-- An RRset the bundle lacks and the control plane does not own is served as clients left it, if it
  can stand beside the bundle's. -/
  client : ∀ k ∉ bundle.keys parses, ignored s.origin k = false → k ∉ ownedBy s.sidecar →
    conflicts (keptKeys parses bundle s.named s.sidecar seen) k = false →
      ∀ v, (k, v) ∈ served ↔ (k, v) ∈ s.named
  /-- A mirror that the control plane shipped is not served again once a client deleted it. -/
  mirror : ∀ k ∈ bundle.mirrors parses, k ∈ ownedBy s.sidecar → (∀ v, (k, v) ∉ s.named) →
    ∀ v, (k, v) ∉ served

/-- Glue that named holds from a record op on another RRset is in the bundle or in the sidecar, or it
cannot stand beside the bundle's RRsets. -/
def GlueKnown (parses : RType → Apex.Name → Bool) (s : State) (bundle : Bundle)
    (seen : Finset Key) : Prop :=
  s.author (glueKey s.origin) = .glue → (∃ v, (glueKey s.origin, v) ∈ s.named) →
    glueKey s.origin ∈ bundle.keys parses ∨ glueKey s.origin ∈ ownedBy s.sidecar ∨
      conflicts (keptKeys parses bundle s.named s.sidecar seen) (glueKey s.origin) = true

variable {bundle : Bundle} {seen : Finset Key}

theorem kept_iff_of_stages {out : List Key} {carried : Finset Record} {staged : Staged} (h : Inv s)
    (horigin : bundle.origin = s.origin)
    (hstages : Stages parses s bundle seen out carried staged) :
    Kept parses s bundle seen staged.records ↔ GlueKnown parses s bundle seen := by
  have hlacked : ∀ k ∉ bundle.keys parses, ∀ v, (k, v) ∈ staged.records ↔ (k, v) ∈ carried := by
    intro k hkeys v
    rw [hstages.records]
    constructor
    · rintro (⟨hline, -⟩ | hcarried)
      · exact absurd (Bundle.mem_keys.mpr ⟨v, hline⟩) hkeys
      · exact hcarried
    · exact .inr
  constructor
  · intro hkept hauthor hheld
    obtain ⟨v, hv⟩ := hheld
    by_contra hunknown
    rw [not_or, not_or, Bool.not_eq_true] at hunknown
    obtain ⟨hkeys, hnot, hconflicts⟩ := hunknown
    have hignored := not_ignored_glueKey s.origin
    have hclient : s.author (glueKey s.origin) ≠ .client := by
      rw [hauthor]
      decide
    have hserved := (hkept.client _ hkeys hignored hnot hconflicts v).mpr hv
    exact hkept.unwritten _ hkeys hignored hclient v hserved
  · intro hglue
    refine ⟨fun k hkeys _ hmanaged v => ?_, fun k hkeys hignored hauthor v hserved => ?_,
      fun k hkeys hignored hnot hconflicts v => ?_, fun k hmirror howned hheld v hserved => ?_⟩
    · rw [hstages.records]
      constructor
      · rintro (⟨hline, -⟩ | hcarried)
        · exact hline
        · exact absurd hkeys ((hstages.carried k v).mp hcarried).2.2.1
      · exact fun hline => .inl ⟨hline, fun hout => hmanaged (hstages.mirror k hout).1⟩
    · obtain ⟨hheld, -, -, hnot, hconflicts⟩ :=
        (hstages.carried k v).mp ((hlacked k hkeys v).mp hserved)
      cases hwho : s.author k with
      | client => exact hauthor hwho
      | controlPlane => exact hnot (h.owned k v hignored hheld hwho)
      | glue =>
        obtain rfl := h.glue k hwho
        rcases hglue hwho ⟨v, hheld⟩ with hin | hin | hin
        · exact hkeys hin
        · exact hnot hin
        · rw [hconflicts] at hin
          cases hin
    · rw [hlacked k hkeys, hstages.carried, horigin]
      exact and_iff_left ⟨hignored, hkeys, hnot, hconflicts⟩
    · have hout := hstages.withdrawn k hmirror hheld howned
      rcases (hstages.records k v).mp hserved with ⟨-, hnot⟩ | hcarried
      · exact hnot hout
      · exact hheld v ((hstages.carried k v).mp hcarried).1

theorem inv_of_run {zone : Apex.Name} {events : List Event}
    (hrun : run (step parses) (State.init zone) events = some s) : Inv s :=
  run_of_step (C := fun _ _ => True) (fun hs _ hstep => hs.step hstep) (inv_init zone)
    (Meets.of_forall fun _ _ _ => trivial) hrun

/-- After any run, a swap leaves named serving what it has to exactly if the glue that named holds is
known. -/
theorem swap_keeps_client_records_iff (parses : RType → Apex.Name → Bool) {zone : Apex.Name}
    {events : List Event} {s s' : State} {bundle : Bundle} {seen : Finset Key}
    (hrun : run (step parses) (State.init zone) events = some s)
    (hswap : step parses s (.swap bundle seen) = some s') :
    Kept parses s bundle seen s'.named ↔ GlueKnown parses s bundle seen := by
  have hinv := inv_of_run hrun
  obtain ⟨out, carried, hstages⟩ := hinv.stages parses bundle seen
  obtain ⟨horigin, hswap⟩ := Option.ite_none_right_eq_some.mp hswap
  cases hswap
  exact kept_iff_of_stages hinv horigin hstages

section

private def everyValue (_ : RType) (_ : Apex.Name) : Bool := true

/-- A zone whose `primary_ns` has an address of each family, and its bundle without the IPv4 one. -/
private def twoFamilies : Bundle :=
  { name := "example.com.".toList
    primaryNs := some "ns.example.com.".toList
    adminEmail := none
    rows := [⟨"ns".toList, .a, "192.0.2.5".toList, false⟩,
      ⟨"ns".toList, .aaaa, "2001:db8::5".toList, false⟩] }

private def oneFamily : Bundle := { twoFamilies with rows := twoFamilies.rows.tail }

private def registers : List Event :=
  [.swap twoFamilies ∅, .update [.add (keyOf "host".toList .a twoFamilies.origin) "192.0.2.9".toList],
    .restart]

theorem swap_keeps_client_records_registered : ∃ s s',
    run (step everyValue) (State.init "example.com".toList) registers = some s ∧
      step everyValue s (.swap oneFamily ∅) = some s' ∧ Kept everyValue s oneFamily ∅ s'.named ∧
      (keyOf "host".toList .a twoFamilies.origin, "192.0.2.9".toList) ∈ s'.named := by
  have hends : (run (step everyValue) (State.init "example.com".toList) registers).any (fun s =>
      s.author (glueKey s.origin) ≠ .glue && (step everyValue s (.swap oneFamily ∅)).any fun s' =>
        (keyOf "host".toList .a twoFamilies.origin, "192.0.2.9".toList) ∈ s'.named) = true := by
    decide +kernel
  obtain ⟨s, hrun, hs⟩ := (Option.any_eq_true _ _).mp hends
  rw [Bool.and_eq_true, decide_eq_true_eq] at hs
  obtain ⟨s', hswap, hserved⟩ := (Option.any_eq_true _ _).mp hs.2
  have hglue : GlueKnown everyValue s oneFamily ∅ := fun hauthor => absurd hauthor hs.1
  exact ⟨s, s', hrun, hswap, (swap_keeps_client_records_iff everyValue hrun hswap).mpr hglue,
    of_decide_eq_true hserved⟩

/-- Taking the IPv4 address away makes the agent write glue that no render has, and that no mark accounts
for: the next swap serves it as if a client had written it. -/
theorem swap_keeps_op_glue : ∃ s s',
    run (step everyValue) (State.init "example.com".toList)
        [.swap twoFamilies ∅, .op ⟨.delete, "ns".toList, .a, "192.0.2.5".toList, some [], none, 0, none⟩] =
      some s ∧
      step everyValue s (.swap oneFamily ∅) = some s' ∧
      glueKey s.origin ∉ oneFamily.keys everyValue ∧ s.author (glueKey s.origin) ≠ .client ∧
      (glueKey s.origin, Apex.placeholderNsAddress) ∈ s'.named ∧
      ¬ Kept everyValue s oneFamily ∅ s'.named := by
  have hends : (run (step everyValue) (State.init "example.com".toList)
      [.swap twoFamilies ∅,
        .op ⟨.delete, "ns".toList, .a, "192.0.2.5".toList, some [], none, 0, none⟩]).any (fun s =>
      glueKey s.origin ∉ oneFamily.keys everyValue && s.author (glueKey s.origin) ≠ .client &&
        (step everyValue s (.swap oneFamily ∅)).any fun s' =>
          (glueKey s.origin, Apex.placeholderNsAddress) ∈ s'.named) = true := by
    decide +kernel
  obtain ⟨s, hrun, hs⟩ := (Option.any_eq_true _ _).mp hends
  rw [Bool.and_eq_true, Bool.and_eq_true, decide_eq_true_eq, decide_eq_true_eq] at hs
  obtain ⟨⟨hkeys, hauthor⟩, hs'⟩ := hs
  obtain ⟨s', hswap, hserved⟩ := (Option.any_eq_true _ _).mp hs'
  have hserved := of_decide_eq_true hserved
  refine ⟨s, s', hrun, hswap, hkeys, hauthor, hserved, fun hkept => ?_⟩
  exact hkept.unwritten _ hkeys (not_ignored_glueKey s.origin) hauthor _ hserved

end

end SpatiumDdi.Dns.Carry
