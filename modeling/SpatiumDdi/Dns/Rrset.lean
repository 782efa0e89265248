import Mathlib.Algebra.Group.Int.Defs
import Mathlib.Data.List.Dedup
import Mathlib.Data.List.Sort
import SpatiumDdi.Lib.Text
import SpatiumDdi.Lib.Twins

/-!
The RRset a record op carries (`services/dns/rrset.py`): every stampable op of a batch is
stamped with the set its `(name, type)` should end up as once the whole batch is applied.
`lower` and `upper` stand for the case folding of names and types.
-/

namespace SpatiumDdi.Dns

def zoneDefaultTtl : Int := 3600

def dnsTtlMax : Int := 2 ^ 31 - 1

def servableTtl (ttl : Option Int) : Option Int :=
  ttl.filter fun t => !(t < 0 || t > dnsTtlMax)

/-- A live record of the zone. The API stores the apex as `@`. -/
structure DnsRecord where
  id : String
  name : String
  recordType : String
  value : String
  ttl : Option Int
  priority : Option Int
  weight : Option Int
  port : Option Int
  name_ne : name ≠ ""

/-- What makes two members the same resource record: the value without surrounding
blanks and the structured fields, not the TTL. -/
structure Rr where
  value : String
  priority : Option Int
  weight : Option Int
  port : Option Int
  deriving DecidableEq

structure WireMember where
  value : String
  priority : Option Int
  weight : Option Int
  port : Option Int
  deriving DecidableEq

def WireMember.rr (m : WireMember) : Rr :=
  ⟨Text.strip m.value, m.priority, m.weight, m.port⟩

structure RRset where
  ttl : Int
  members : List WireMember
  deriving DecidableEq

/-- A member while the batch is folded: it remembers its TTL and its row. -/
structure Member extends WireMember where
  ttl : Option Int
  id : Option String
  deriving DecidableEq

def sameRr (a b : Member) : Bool :=
  Text.strip a.value == Text.strip b.value &&
    (a.priority == b.priority && (a.weight == b.weight && a.port == b.port))

inductive OpKind
  | create
  | update
  | delete
  /-- `dnssec_sign`, `dnssec_unsign`, `dnssec_rollover`. -/
  | zoneLevel
  deriving DecidableEq

structure OpRecord where
  name : Option String
  type : Option String
  value : Option String
  ttl : Option Int
  priority : Option Int
  weight : Option Int
  port : Option Int
  recordId : Option String
  rrsetAction : Option String
  rrset : Option RRset
  deriving DecidableEq

structure RecordOp where
  op : OpKind
  record : OpRecord
  deriving DecidableEq

abbrev Key : Type := String × String

section

variable (lower upper : String → String)

def rrsetKey (record : OpRecord) : Option Key :=
  match record.type with
  | none => none
  | some rtype =>
    if rtype = "" ∨ rtype = "DNSSEC_OP" then none
    else
      let name := record.name.getD ""
      some (lower (if name = "" then "@" else name), upper rtype)

def rrsetTarget (o : RecordOp) : Option Key :=
  if o.op = .zoneLevel ∨ o.record.value = none then none
  else rrsetKey lower upper o.record

def DnsRecord.key (row : DnsRecord) : Key :=
  (lower (if row.name = "" then "@" else row.name), upper row.recordType)

end

def DnsRecord.member (row : DnsRecord) : Member where
  value := row.value
  priority := row.priority
  weight := row.weight
  port := row.port
  ttl := row.ttl
  id := some row.id

def OpRecord.member (record : OpRecord) : Member where
  value := record.value.getD ""
  priority := record.priority
  weight := record.weight
  port := record.port
  ttl := record.ttl
  id := record.recordId

def nameChunk : Nat := 5000

/-- The slices the loop over `range(0, len(names), size)` takes; `fuel` bounds the number
of rounds by the length. -/
def slices (size : Nat) : Nat → List String → List (List String)
  | 0, _ => []
  | fuel + 1, names =>
    if names.isEmpty then [] else names.take size :: slices size fuel (names.drop size)

/-- `resolve_rrsets`: one query for each chunk of names. -/
def resolveRrsets (lower upper : String → String) (rows : List DnsRecord)
    (keys : List Key) (key : Key) : List Member :=
  let names := (keys.map Prod.fst).dedup.insertionSort fun a b => a ≤ b
  (slices nameChunk names.length names).flatMap fun chunk =>
    ((rows.filter fun row => chunk.contains (lower row.name)).filter fun row =>
      row.key lower upper = key).map DnsRecord.member

/-- The de-duplication that ends `_fold`. -/
def unique (desired : List Member) : List Member :=
  desired.foldl (fun unique member =>
    if unique.any fun kept => sameRr member kept then unique else unique ++ [member]) []

def foldOp (op : OpKind) (record : OpRecord) (members : List Member) : List Member :=
  let own := record.member
  let desired :=
    if op = .delete ∧ own.id ≠ none then members.filter fun m => m.id ≠ own.id
    else
      let others := members.filter fun m => !sameRr m own
      if op = .delete then others else others ++ [own]
  unique desired

def rrsetPayload (members : List Member) (zoneTtl : Option Int) : RRset :=
  let defaultTtl := (servableTtl zoneTtl).getD zoneDefaultTtl
  let ttls := members.map fun m => (servableTtl m.ttl).getD defaultTtl
  { ttl := ttls.min?.getD defaultTtl
    members := members.map Member.toWireMember }

/-- Whether an op is stamped: one with an `rrset_action` keeps its own semantics, except
an agentless `update` that adds. -/
def stampable (agentless : Bool) (o : RecordOp) : Bool :=
  (o.record.rrsetAction.getD "" == "") ||
    (agentless && o.op == .update && o.record.rrsetAction == some "add")

section

variable (lower upper : String → String)

def foldInto (final : Key → List Member) (o : RecordOp) : Key → List Member :=
  match rrsetTarget lower upper o with
  | none => final
  | some key => Function.update final key (foldOp o.op o.record (final key))

def finalSets (rows : List DnsRecord) (agentless : Bool) (ops : List RecordOp) :
    Key → List Member :=
  let stamped := ops.filter (stampable agentless)
  let keys := (stamped.filterMap (rrsetTarget lower upper)).dedup
  stamped.foldl (foldInto lower upper) (resolveRrsets lower upper rows keys)

def stampRrsetsForOps (rows : List DnsRecord) (zoneTtl : Option Int) (agentless : Bool)
    (ops : List RecordOp) : List RecordOp :=
  ops.map fun o =>
    if stampable agentless o then
      match rrsetTarget lower upper o with
      | none => o
      | some key =>
        { o with record := { o.record with
            rrset := some (rrsetPayload
              (finalSets lower upper rows agentless ops key) zoneTtl) } }
    else o

/-- A server that replaces whole RRsets applies a stamped op. -/
def replaceRrset (server : Key → List WireMember) (o : RecordOp) : Key → List WireMember :=
  match rrsetTarget lower upper o, o.record.rrset with
  | some key, some rrset => Function.update server key rrset.members
  | _, _ => server

end

def Member.rr (m : Member) : Rr := m.toWireMember.rr

theorem sameRr_eq (a b : Member) : sameRr a b = decide (a.rr = b.rr) := by
  simp [sameRr, Member.rr, WireMember.rr, Bool.beq_eq_decide_eq]

theorem flatten_slices {size : Nat} (hsize : 0 < size) (fuel : Nat) (names : List String)
    (h : names.length ≤ fuel) : (slices size fuel names).flatten = names := by
  induction fuel generalizing names with
  | zero => simp [slices, List.length_eq_zero_iff.mp (Nat.le_zero.mp h)]
  | succ fuel ih =>
    cases names with
    | nil => simp [slices]
    | cons name names =>
      have hrest : ((name :: names).drop size).length ≤ fuel := by
        simp only [List.length_drop, List.length_cons] at h ⊢
        omega
      simp [slices, ih _ hrest]

theorem flatMap_of_mem_flatten {β : Type} {slices : List (List String)}
    (hnodup : slices.flatten.Nodup) {name : String} (hmem : name ∈ slices.flatten)
    (l : List β) :
    (slices.flatMap fun slice => if name ∈ slice then l else []) = l := by
  induction slices with
  | nil => simp at hmem
  | cons slice slices ih =>
    rw [List.flatten_cons, List.nodup_append] at hnodup
    obtain ⟨-, hrest, hdisjoint⟩ := hnodup
    by_cases hhere : name ∈ slice
    · have hnone : (slices.flatMap fun slice => if name ∈ slice then l else []) = [] := by
        rw [List.flatMap_eq_nil_iff]
        intro other hother
        rw [if_neg fun hn => hdisjoint name hhere name
          (List.mem_flatten.mpr ⟨other, hother, hn⟩) rfl]
      simp [hhere, hnone]
    · have hlater : name ∈ slices.flatten := by simpa [hhere] using hmem
      simp [hhere, ih hrest hlater]

section

variable (lower upper : String → String)

def liveAt (rows : List DnsRecord) (key : Key) : List Member :=
  (rows.filter fun row => row.key lower upper = key).map DnsRecord.member

theorem resolveRrsets_eq {rows : List DnsRecord} {keys : List Key} {key : Key}
    (hkey : key ∈ keys) :
    resolveRrsets lower upper rows keys key = liveAt lower upper rows key := by
  let names := (keys.map Prod.fst).dedup.insertionSort fun a b => a ≤ b
  have hflatten : (slices nameChunk names.length names).flatten = names :=
    flatten_slices (by decide) _ _ le_rfl
  have hnodup : names.Nodup := (List.perm_insertionSort _ _).nodup_iff.mpr (List.nodup_dedup _)
  have hmem : key.1 ∈ names := by
    simp only [names, List.mem_insertionSort, List.mem_dedup]
    exact List.mem_map_of_mem hkey
  have hslice (slice : List String) :
      ((rows.filter fun row => slice.contains (lower row.name)).filter fun row =>
        row.key lower upper = key).map DnsRecord.member =
        if key.1 ∈ slice then liveAt lower upper rows key else [] := by
    have hname {row : DnsRecord} (h : row.key lower upper = key) : lower row.name = key.1 := by
      simpa [DnsRecord.key, row.name_ne] using congrArg Prod.fst h
    rw [List.filter_filter]
    by_cases hin : key.1 ∈ slice
    · rw [if_pos hin, liveAt]
      congr 2
      funext row
      by_cases h : row.key lower upper = key
      · simp [h, hname h, hin]
      · simp [h]
    · rw [if_neg hin, List.map_eq_nil_iff, List.filter_eq_nil_iff]
      intro row _ h
      simp only [Bool.and_eq_true, decide_eq_true_eq, List.contains_iff_mem] at h
      exact hin (hname h.1 ▸ h.2)
  rw [resolveRrsets]
  simp only [hslice]
  exact flatMap_of_mem_flatten (by rwa [hflatten]) (by rwa [hflatten]) _

/-- What an op does to the rows of its key: a create or update puts its row, a delete
drops the row it names, and without one retracts the value. -/
def eventOf (o : RecordOp) : Twins.Event Member String Rr :=
  if o.op = .delete then
    match o.record.recordId with
    | some id => .drop id
    | none => .wipe o.record.member.rr
  else .put o.record.member

def opsAt (agentless : Bool) (ops : List RecordOp) (key : Key) : List RecordOp :=
  (ops.filter (stampable agentless)).filter fun o => rrsetTarget lower upper o = some key

def survivorsAt (rows : List DnsRecord) (agentless : Bool) (ops : List RecordOp)
    (key : Key) : List Member :=
  Twins.survivors Member.rr Member.id (liveAt lower upper rows key)
    ((opsAt lower upper agentless ops key).map eventOf)

theorem unique_eq (l : List Member) : unique l = Twins.firsts Member.rr l := by
  simp only [unique, Twins.firsts, sameRr_eq]

theorem foldOp_eq (o : RecordOp) (members : List Member) :
    foldOp o.op o.record members =
      Twins.step Member.rr Member.id members (eventOf o) := by
  by_cases hop : o.op = .delete
  · cases hid : o.record.recordId with
    | none =>
      simp [foldOp, eventOf, hop, hid, OpRecord.member, unique_eq, Twins.step, sameRr_eq]
    | some id =>
      simp [foldOp, eventOf, hop, hid, OpRecord.member, unique_eq, Twins.step]
  · simp [foldOp, eventOf, hop, unique_eq, Twins.step, sameRr_eq]

end

variable (lower upper : String → String)

variable {o : RecordOp} {agentless : Bool} {ops : List RecordOp} {key : Key} {rows : List DnsRecord}

theorem mem_opsAt :
    o ∈ opsAt lower upper agentless ops key ↔
      o ∈ ops ∧ stampable agentless o ∧ rrsetTarget lower upper o = some key := by
  simp only [opsAt, List.mem_filter, decide_eq_true_eq]
  exact and_assoc

theorem foldl_foldInto (ops : List RecordOp) (sets : Key → List Member) (key : Key) :
    ops.foldl (foldInto lower upper) sets key =
      Twins.run Member.rr Member.id (sets key)
        ((ops.filter fun o => rrsetTarget lower upper o = some key).map eventOf) := by
  induction ops generalizing sets with
  | nil => rfl
  | cons o ops ih =>
    rw [List.foldl_cons, ih]
    cases htarget : rrsetTarget lower upper o with
    | none => simp [foldInto, htarget]
    | some k =>
      by_cases hk : k = key
      · subst hk
        simp [foldInto, htarget, Twins.run, foldOp_eq]
      · have hother : key ≠ k := fun h => hk h.symm
        simp [foldInto, htarget, hk, hother]

theorem finalSets_eq (hkey : opsAt lower upper agentless ops key ≠ []) :
    finalSets lower upper rows agentless ops key =
      Twins.run Member.rr Member.id (liveAt lower upper rows key)
        ((opsAt lower upper agentless ops key).map eventOf) := by
  obtain ⟨o, ho⟩ := List.exists_mem_of_ne_nil _ hkey
  obtain ⟨hmem, hstamp, htarget⟩ := (mem_opsAt lower upper).mp ho
  rw [finalSets, foldl_foldInto, resolveRrsets_eq, opsAt]
  rw [List.mem_dedup, List.mem_filterMap]
  exact ⟨o, List.mem_filter.mpr ⟨hmem, hstamp⟩, htarget⟩

def stampedOp (rrset : RRset) (o : RecordOp) : RecordOp :=
  { o with record := { o.record with rrset := some rrset } }

def payloadAt (rows : List DnsRecord) (zoneTtl : Option Int) (agentless : Bool)
    (ops : List RecordOp) (key : Key) : RRset :=
  rrsetPayload (finalSets lower upper rows agentless ops key) zoneTtl

theorem mem_opsAt_stamped {zoneTtl : Option Int} :
    o ∈ opsAt lower upper agentless
        (stampRrsetsForOps lower upper rows zoneTtl agentless ops) key ↔
      ∃ o' ∈ opsAt lower upper agentless ops key,
        o = stampedOp (payloadAt lower upper rows zoneTtl agentless ops key) o' := by
  simp only [mem_opsAt, stampRrsetsForOps, List.mem_map]
  constructor
  · rintro ⟨⟨o', ho', rfl⟩, hstamp, htarget⟩
    by_cases hs : stampable agentless o'
    · cases ht : rrsetTarget lower upper o' with
      | none =>
        simp only [hs, if_true, ht] at htarget
        simp at htarget
      | some k =>
        simp only [hs, if_true, ht] at htarget ⊢
        have hk : k = key := by
          have hsame : rrsetTarget lower upper o' = some key := htarget
          simpa [ht] using hsame
        subst hk
        exact ⟨o', ⟨ho', hs, ht⟩, rfl⟩
    · simp [hs] at hstamp
  · rintro ⟨o', ⟨ho', hs, ht⟩, rfl⟩
    exact ⟨⟨o', ho', by simp [hs, ht, stampedOp, payloadAt]⟩, hs, ht⟩

theorem opsAt_stamped_ne_nil (rows : List DnsRecord) (zoneTtl : Option Int) :
    opsAt lower upper agentless (stampRrsetsForOps lower upper rows zoneTtl agentless ops) key
      ≠ [] ↔ opsAt lower upper agentless ops key ≠ [] := by
  simp only [ne_eq, List.eq_nil_iff_forall_not_mem, not_forall, not_not, mem_opsAt_stamped]
  constructor
  · rintro ⟨-, o, ho, rfl⟩
    exact ⟨o, ho⟩
  · rintro ⟨o, ho⟩
    exact ⟨_, o, ho, rfl⟩

theorem replaceRrset_of_ne (h : rrsetTarget lower upper o ≠ some key)
    (server : Key → List WireMember) : replaceRrset lower upper server o key = server key := by
  cases htarget : rrsetTarget lower upper o with
  | none => simp [replaceRrset, htarget]
  | some k =>
    have hk : key ≠ k := fun hk => h (hk ▸ htarget)
    cases hrrset : o.record.rrset <;> simp [replaceRrset, htarget, hrrset, hk]

/-- Whole-RRset replacement: whatever the order and the repetitions, a key an op was
delivered for ends as the payload its ops share. -/
theorem foldl_replaceRrset {deliveries : List RecordOp} {rrset : RRset}
    (hsame : ∀ o ∈ deliveries, rrsetTarget lower upper o = some key →
      o.record.rrset = some rrset) (hsome : ∃ o ∈ deliveries, rrsetTarget lower upper o = some key)
    (server : Key → List WireMember) :
    deliveries.foldl (replaceRrset lower upper) server key = rrset.members := by
  have hfold (hkey : server key = rrset.members ∨
      ∃ o ∈ deliveries, rrsetTarget lower upper o = some key) :
      deliveries.foldl (replaceRrset lower upper) server key = rrset.members := by
    clear hsome
    induction deliveries generalizing server with
    | nil => simpa using hkey
    | cons o deliveries ih =>
      rw [List.foldl_cons]
      apply ih (fun o' ho' => hsame o' (List.mem_cons_of_mem o ho'))
      by_cases htarget : rrsetTarget lower upper o = some key
      · left
        simp [replaceRrset, htarget, hsame o List.mem_cons_self htarget]
      · rcases hkey with hdone | ⟨o', ho', ht'⟩
        · left
          rw [replaceRrset_of_ne lower upper htarget, hdone]
        · rcases List.mem_cons.mp ho' with rfl | hlater
          · exact absurd ht' htarget
          · exact .inr ⟨o', hlater, ht'⟩
  exact hfold (.inr hsome)

/-- The claim about one batch, at every key it touches. -/
structure Converges (rows : List DnsRecord) (zoneTtl : Option Int) (agentless : Bool)
    (ops : List RecordOp) : Prop where
  /-- The stampable ops of a key carry one payload without a duplicate member. -/
  same_payload : ∀ key, opsAt lower upper agentless ops key ≠ [] → ∃ rrset,
    (∀ o ∈ opsAt lower upper agentless
        (stampRrsetsForOps lower upper rows zoneTtl agentless ops) key,
      o.record.rrset = some rrset) ∧ (rrset.members.map WireMember.rr).Nodup
  /-- A row that is gone leaves its value only to a surviving row that holds it. -/
  retracted : ∀ key, ∀ o ∈ opsAt lower upper agentless
      (stampRrsetsForOps lower upper rows zoneTtl agentless ops) key,
    ∀ rrset, o.record.rrset = some rrset → ∀ gone ∈ liveAt lower upper rows key,
      gone ∉ survivorsAt lower upper rows agentless ops key →
        gone.rr ∈ rrset.members.map WireMember.rr →
          ∃ row ∈ survivorsAt lower upper rows agentless ops key, row.rr = gone.rr
  /-- Every surviving row's value is there. -/
  carried : ∀ key, ∀ o ∈ opsAt lower upper agentless
      (stampRrsetsForOps lower upper rows zoneTtl agentless ops) key,
    ∀ rrset, o.record.rrset = some rrset →
      ∀ row ∈ survivorsAt lower upper rows agentless ops key,
        row.rr ∈ rrset.members.map WireMember.rr
  /-- Stamped ops delivered in any order, any number of times but at least once, leave
  any server with the live rows' set. -/
  delivered : ∀ (server : Key → List WireMember) (deliveries : List RecordOp),
    (∀ o ∈ deliveries, ∃ key, o ∈ opsAt lower upper agentless
      (stampRrsetsForOps lower upper rows zoneTtl agentless ops) key) →
    (∀ key, ∀ o ∈ opsAt lower upper agentless
      (stampRrsetsForOps lower upper rows zoneTtl agentless ops) key, o ∈ deliveries) →
    ∀ key, opsAt lower upper agentless ops key ≠ [] → ∀ rr,
      rr ∈ (deliveries.foldl (replaceRrset lower upper) server key).map WireMember.rr ↔
        ∃ row ∈ survivorsAt lower upper rows agentless ops key, row.rr = rr

variable {lower upper}

section Keys

variable {rows : List DnsRecord} {zoneTtl : Option Int} {agentless : Bool}
  {ops : List RecordOp} {key : Key}

theorem payload_rr :
    (payloadAt lower upper rows zoneTtl agentless ops key).members.map WireMember.rr =
      (finalSets lower upper rows agentless ops key).map Member.rr := by
  simp [payloadAt, rrsetPayload, Function.comp_def, Member.rr]

section

variable (h : opsAt lower upper agentless ops key ≠ [])
include h

theorem events_ne_nil : (opsAt lower upper agentless ops key).map eventOf ≠ [] := by
  simpa using h

theorem nodup_payload :
    ((payloadAt lower upper rows zoneTtl agentless ops key).members.map
      WireMember.rr).Nodup := by
  rw [payload_rr, finalSets_eq lower upper h]
  exact Twins.nodup_run _ _ _ (events_ne_nil h)

end

theorem rrset_of_mem_stamped
    (ho : o ∈ opsAt lower upper agentless (stampRrsetsForOps lower upper rows zoneTtl agentless ops) key) :
    o.record.rrset = some (payloadAt lower upper rows zoneTtl agentless ops key) := by
  obtain ⟨o', -, rfl⟩ := (mem_opsAt_stamped lower upper).mp ho
  rfl

theorem payload_iff (h : opsAt lower upper agentless ops key ≠ []) :
    (∀ rr, rr ∈ (payloadAt lower upper rows zoneTtl agentless ops key).members.map
        WireMember.rr ↔ ∃ row ∈ survivorsAt lower upper rows agentless ops key, row.rr = rr) ↔
      Twins.KeepersHold Member.rr Member.id (liveAt lower upper rows key)
        ((opsAt lower upper agentless ops key).map eventOf) := by
  rw [payload_rr, finalSets_eq lower upper h]
  exact Twins.run_values_iff _ _ (events_ne_nil h)

theorem delivered_eq {deliveries : List RecordOp}
    (honly : ∀ o ∈ deliveries, ∃ key, o ∈ opsAt lower upper agentless
      (stampRrsetsForOps lower upper rows zoneTtl agentless ops) key)
    (hall : ∀ key, ∀ o ∈ opsAt lower upper agentless
      (stampRrsetsForOps lower upper rows zoneTtl agentless ops) key, o ∈ deliveries)
    (h : opsAt lower upper agentless ops key ≠ []) (server : Key → List WireMember) :
    deliveries.foldl (replaceRrset lower upper) server key =
      (payloadAt lower upper rows zoneTtl agentless ops key).members := by
  apply foldl_replaceRrset
  · intro o ho htarget
    obtain ⟨k, hk⟩ := honly o ho
    have hkey := ((mem_opsAt lower upper).mp hk).2.2
    obtain rfl : k = key := Option.some.inj (hkey.symm.trans htarget)
    exact rrset_of_mem_stamped hk
  · obtain ⟨o, ho⟩ := List.exists_mem_of_ne_nil _
      ((opsAt_stamped_ne_nil lower upper rows zoneTtl).mpr h)
    exact ⟨o, hall key o ho, ((mem_opsAt lower upper).mp ho).2.2⟩

end Keys

/-- A batch converges exactly when, at every key it touches, the row kept for a value is
deleted later only once no row holds the value, and is removed later whenever no row
does. -/
theorem converges_iff (lower upper : String → String) (rows : List DnsRecord)
    (zoneTtl : Option Int) (agentless : Bool) (ops : List RecordOp) :
    Converges lower upper rows zoneTtl agentless ops ↔
      ∀ key, opsAt lower upper agentless ops key ≠ [] →
        Twins.KeepersHold Member.rr Member.id (liveAt lower upper rows key)
          ((opsAt lower upper agentless ops key).map eventOf) := by
  constructor
  · intro h key hkey
    -- Delivering each stamped op once, to an empty server, shows the payload.
    let deliveries := (stampRrsetsForOps lower upper rows zoneTtl agentless ops).filter fun o =>
      stampable agentless o ∧ (rrsetTarget lower upper o).isSome
    have honly : ∀ o ∈ deliveries, ∃ key, o ∈ opsAt lower upper agentless
        (stampRrsetsForOps lower upper rows zoneTtl agentless ops) key := by
      intro o ho
      obtain ⟨hmem, hboth⟩ := List.mem_filter.mp ho
      obtain ⟨hstamp, hsome⟩ := of_decide_eq_true hboth
      obtain ⟨k, hk⟩ := Option.isSome_iff_exists.mp hsome
      exact ⟨k, (mem_opsAt lower upper).mpr ⟨hmem, hstamp, hk⟩⟩
    have hall : ∀ key, ∀ o ∈ opsAt lower upper agentless
        (stampRrsetsForOps lower upper rows zoneTtl agentless ops) key, o ∈ deliveries := by
      intro k o ho
      obtain ⟨hmem, hstamp, hk⟩ := (mem_opsAt lower upper).mp ho
      exact List.mem_filter.mpr ⟨hmem, by simp [hstamp, hk]⟩
    have hset := h.delivered (fun _ => []) deliveries honly hall key hkey
    rw [delivered_eq honly hall hkey] at hset
    exact (payload_iff hkey).mp hset
  · intro h
    have hset {key : Key} (hkey : opsAt lower upper agentless ops key ≠ []) (rr : Rr) :
        rr ∈ (payloadAt lower upper rows zoneTtl agentless ops key).members.map
          WireMember.rr ↔ ∃ row ∈ survivorsAt lower upper rows agentless ops key, row.rr = rr :=
      (payload_iff hkey).mpr (h key hkey) rr
    have htouched {key : Key} {o : RecordOp} (ho : o ∈ opsAt lower upper agentless
        (stampRrsetsForOps lower upper rows zoneTtl agentless ops) key) :
        opsAt lower upper agentless ops key ≠ [] :=
      (opsAt_stamped_ne_nil lower upper rows zoneTtl).mp (List.ne_nil_of_mem ho)
    refine ⟨fun key hkey => ?_, fun key o ho rrset hrrset gone _ _ hgone => ?_,
      fun key o ho rrset hrrset row hrow => ?_, fun server deliveries honly hall key hkey => ?_⟩
    · exact ⟨_, fun o => rrset_of_mem_stamped, nodup_payload hkey⟩
    · obtain rfl := Option.some.inj ((rrset_of_mem_stamped ho).symm.trans hrrset)
      exact (hset (htouched ho) _).mp hgone
    · obtain rfl := Option.some.inj ((rrset_of_mem_stamped ho).symm.trans hrrset)
      exact (hset (htouched ho) _).mpr ⟨row, hrow, rfl⟩
    · rw [delivered_eq honly hall hkey]
      exact hset hkey

/-- An address record at `www`. -/
def wwwRow (id value : String) : DnsRecord where
  id := id
  name := "www"
  recordType := "A"
  value := value
  ttl := none
  priority := none
  weight := none
  port := none
  name_ne := by decide

def wwwDelete (id value : String) : RecordOp where
  op := .delete
  record :=
    { name := some "www"
      type := some "A"
      value := some value
      ttl := none
      priority := none
      weight := none
      port := none
      recordId := some id
      rrsetAction := none
      rrset := none }

/-- Two rows share a value; deleting a third row and then one of the two retracts the
value the other still holds. -/
theorem not_converges_twins :
    ¬ ∀ (rows : List DnsRecord) (ops : List RecordOp),
      Converges String.toLower String.toUpper rows none false ops := by
  intro h
  let rows := [wwwRow "x" "10.0.0.1", wwwRow "y" "10.0.0.1", wwwRow "z" "10.0.0.2"]
  let ops := [wwwDelete "z" "10.0.0.2", wwwDelete "x" "10.0.0.1"]
  let op := stampedOp ⟨3600, []⟩ (wwwDelete "x" "10.0.0.1")
  have hcarried := (h rows ops).carried ("www", "A") op (by decide +kernel) ⟨3600, []⟩ rfl
    (wwwRow "y" "10.0.0.1").member (by decide +kernel)
  simp at hcarried

end SpatiumDdi.Dns
