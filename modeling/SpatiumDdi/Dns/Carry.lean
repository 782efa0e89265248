import SpatiumDdi.Dns.ApexOps

/-!
What a render keeps of a dynamic zone.

Named holds records of a dynamic zone that no bundle has: RFC 2136 clients write them. A render that is
swapped in is first given what named holds and the control plane does not own. What it owns is a log of
marks beside the zone's file: the render writes the first ones, each record op appends one, and a mirror
that named no longer holds is taken out. A zone whose live file is a render and has no journal is not
read back at all.
-/

namespace SpatiumDdi.Dns.Carry

open Apex (Name lower zoneFileName originOf inside rdata glueOwner placeholderNsAddress ApexState)
open DynamicUpdate (Change applyAllRecords)

attribute [local instance] Apex.lawfulBEq_name

inductive RType where
  | a
  | aaaa
  | ns
  | cname
  | soa
  | dnssec
  | other (name : Name)
deriving DecidableEq

def RType.apex : RType → Apex.RType
  | a => .a
  | aaaa => .aaaa
  | ns => .ns
  | _ => .other

def RType.ofApex : Apex.RType → RType
  | .a => a
  | .aaaa => aaaa
  | .ns => ns
  | .other => other []

abbrev Key := Name × RType

abbrev Record := Key × Name

def apexKey (origin : Name) : Key := (lower origin, .ns)

def glueKey (origin : Name) : Key := (lower (glueOwner origin), .a)

/-- `_canon_owner` and the type. -/
def keyOf (name : Name) (rtype : RType) (origin : Name) : Key :=
  (lower (zoneFileName name origin), rtype)

/-- `learned` is set on a mirror, the control plane's copy of a record that a client wrote. -/
structure Row where
  name : Name
  rtype : RType
  value : Name
  learned : Bool

structure Bundle where
  name : Name
  primaryNs : Option Name
  adminEmail : Option Name
  rows : List Row

namespace Bundle

variable (bundle : Bundle)

def origin : Name := originOf bundle.name

def zone : Apex.Zone :=
  { name := bundle.name
    primaryNs := bundle.primaryNs
    adminEmail := bundle.adminEmail
    records := bundle.rows.map fun r => ⟨r.name, r.rtype.apex, r.value⟩ }

def apexLines : List Record :=
  let apex := Apex.zoneApex bundle.zone
  ((lower bundle.origin, .soa), apex.soaMname ++ ' ' :: apex.soaRname) ::
    (apex.ns.map (fun ns => (apexKey bundle.origin, rdata bundle.origin .ns ns)) ++
      if apex.placeholderGlue then [(glueKey bundle.origin, placeholderNsAddress)] else [])

variable (parses : RType → Name → Bool)

/-- The rows that get a line. `parses` is `_parses_as_rdata`. -/
def writtenRows : List Row :=
  bundle.rows.filter fun r =>
    !Apex.zoneLineRefused (if r.name = [] then ['@'] else r.name) r.value && parses r.rtype r.value

def lines : List Record :=
  bundle.apexLines ++ (bundle.writtenRows parses).map fun r =>
    (keyOf r.name r.rtype bundle.origin, rdata bundle.origin r.rtype.apex r.value)

/-- `_rendered_rrset_keys` of the render's lines. -/
def keys : List Key := ((bundle.lines parses).map Prod.fst).dedup

def mirrors : List Key :=
  ((bundle.writtenRows parses).map fun r => keyOf r.name r.rtype bundle.origin).dedup.filter
    fun k => (bundle.writtenRows parses).all fun r =>
      keyOf r.name r.rtype bundle.origin ≠ k || r.learned

end Bundle

inductive Mark where
  | owns (key : Key)
  | released (key : Key)
deriving DecidableEq

def Mark.isOwns : Mark → Bool
  | owns _ => true
  | released _ => false

def Mark.apply (owned : Finset Key) : Mark → Finset Key
  | owns key => insert key owned
  | released key => owned.erase key

def ownedBy (sidecar : List Mark) : Finset Key := sidecar.foldl Mark.apply ∅

/-- `_read_owned` of a sidecar whose lines are whole. -/
def readOwned (sidecar : List Mark) : Option (Finset Key) :=
  if sidecar.any Mark.isOwns then some (ownedBy sidecar) else none

/-- A zone's live file: a render of a bundle and nothing else, one that carries records or lacks a
mirror, or what named wrote over it. -/
inductive ZoneFile where
  | render
  | merged
  | dump
deriving DecidableEq

/-- `_may_hold_unrendered`; without a file there is no previous tree. -/
def mayHoldUnrendered (file : Option ZoneFile) (journal : Bool) : Bool :=
  file.any fun f => journal || f ≠ .render

/-- The daemon's own RRsets. -/
def ignored (origin : Name) (k : Key) : Bool := k.2 = .soa || k.2 = .dnssec || k = apexKey origin

/-- Whether an RRset cannot stand beside those of the render. -/
def conflicts (staged : List Key) (k : Key) : Bool :=
  staged.any fun k' => k'.1 = k.1 && (k'.2 = .cname || k.2 = .cname)

def carriedRecords (held : Finset Record) (origin : Name) (staged : List Key)
    (owned : Option (Finset Key)) : Finset Record :=
  held.filter fun r => !ignored origin r.1 && r.1 ∉ staged && !owned.any (r.1 ∈ ·) &&
    !conflicts staged r.1

def withdrawnMirrors (mirrors staged : List Key) (held : Finset Record) (evidence : Finset Key) :
    List Key :=
  mirrors.filter fun k => k ∈ staged ∧ (∀ r ∈ held, r.1 ≠ k) ∧ k ∈ evidence

structure Staged where
  file : ZoneFile
  records : Finset Record
  sidecar : List Mark

section

variable (parses : RType → Name → Bool)

def stage (bundle : Bundle) : Staged :=
  { file := .render
    records := (bundle.lines parses).toFinset
    sidecar := (bundle.keys parses).map .owns }

/-- The mirrors left out of a render; `seen` is what the last ingest sweep read. -/
def withdrawn (bundle : Bundle) (held : Finset Record) (sidecar : List Mark) (seen : Finset Key) :
    List Key :=
  withdrawnMirrors (bundle.mirrors parses) (bundle.keys parses) held
    ((readOwned sidecar).getD ∅ ∪ seen)

/-- The RRsets of a render without the mirrors left out. -/
def keptKeys (bundle : Bundle) (held : Finset Record) (sidecar : List Mark) (seen : Finset Key) :
    List Key :=
  (bundle.keys parses).filter (· ∉ withdrawn parses bundle held sidecar seen)

/-- `_carry_zone` of a zone that reads back, with a merge that loads. -/
def carryZone (bundle : Bundle) (held : Finset Record) (sidecar : List Mark) (seen : Finset Key) :
    Staged :=
  let out := withdrawn parses bundle held sidecar seen
  let carried := carriedRecords held bundle.origin (keptKeys parses bundle held sidecar seen)
    (readOwned sidecar)
  if carried = ∅ ∧ out = [] then stage parses bundle
  else
    { file := .merged
      records := ((bundle.lines parses).filter (·.1 ∉ out)).toFinset ∪ carried
      sidecar := (bundle.keys parses).map .owns ++ out.map .released }

end

inductive OpKind where
  | create
  | update
  | delete
deriving DecidableEq

inductive RrsetAction where
  | add
  | deleteValue
deriving DecidableEq

/-- A record op, with the whole RRset or without. `failures` tries are answered with an error before the
one that named takes, for which `served` is what the read of the apex name servers answers, if it does. -/
structure RecordOp where
  kind : OpKind
  name : Name
  rtype : RType
  value : Name
  members : Option (List Name)
  action : Option RrsetAction
  failures : ℕ
  served : Option (List Name)

namespace RecordOp

variable (op : RecordOp) (origin : Name)

def key : Key := keyOf op.name op.rtype origin

/-- The mark that `_note_owned` appends. -/
def mark : Option Mark :=
  match op.members with
  | some members => some (if members = [] then .released (op.key origin) else .owns (op.key origin))
  | none =>
    if op.kind ≠ .delete then some (.owns (op.key origin))
    else if op.action = some .deleteValue then none
    else some (.released (op.key origin))

variable (parses : RType → Name → Bool)

/-- The members that go on the wire. The op's own value is not skipped: if it does not parse, the op
raises before anything is sent. -/
def wireMembers (members : List Name) : Option (List Name) :=
  let wire := members.filter fun m => m = op.value || parses op.rtype m
  if wire.all (parses op.rtype) then some wire else none

def message : Option (List (Change Key Name)) :=
  let key := op.key origin
  let value := rdata origin op.rtype.apex op.value
  match op.members with
  | some members => (op.wireMembers parses members).map fun wire =>
      .clear key :: (wire.map (rdata origin op.rtype.apex)).map (.add key)
  | none =>
    if op.kind = .delete ∧ op.action ≠ some .deleteValue then some [.clear key]
    else if !parses op.rtype op.value then none
    else if op.kind = .delete then some [.delete key value]
    else if op.action = some .add then some [.add key value]
    else some [.clear key, .add key value]

def ofApex : Change Apex.Key Name → Change Key Name
  | .clear (n, t) => .clear (n, .ofApex t)
  | .add (n, t) value => .add (n, .ofApex t) value
  | .delete (n, t) value => .delete (n, .ofApex t) value

/-- What `_reconcile_apex` adds to the message, with the state noted after it. An op without the whole
RRset leaves the apex, and so does one on a zone of which nothing is noted. -/
def reconcile (state : Option ApexState) : Option ApexState × List (Change Key Name) :=
  match state, op.members.bind (op.wireMembers parses) with
  | some state, some wire =>
    let attempt state := Apex.reconcileApex state origin op.name op.rtype.apex wire op.served
    let last := attempt ((fun state => (attempt state).1)^[op.failures] state)
    (some last.1, last.2.map ofApex)
  | state, _ => (state, [])

end RecordOp

/-- Who wrote an RRset last: the control plane shipped or removed it, a client wrote it, or an op on
another RRset wrote it as the placeholder's glue. -/
inductive Author where
  | controlPlane
  | client
  | glue
deriving DecidableEq

/-- `named` is what named holds, its file with the journal applied. `author` is history that no step
reads. -/
structure State where
  zone : Name
  named : Finset Record
  file : Option ZoneFile
  journal : Bool
  sidecar : List Mark
  apex : Option ApexState
  running : Bool
  author : Key → Author

def State.origin (s : State) : Name := originOf s.zone

def State.init (zone : Name) : State :=
  { zone
    named := ∅
    file := none
    journal := false
    sidecar := []
    apex := none
    running := false
    author := fun _ => .controlPlane }

inductive Event where
  | update (changes : List (Change Key Name))
  | op (op : RecordOp)
  | dump (keepJournal : Bool)
  | swap (bundle : Bundle) (seen : Finset Key)
  | restart
  | start

variable (parses : RType → Name → Bool)

def State.staged (s : State) (bundle : Bundle) (seen : Finset Key) : Staged :=
  if mayHoldUnrendered s.file s.journal then carryZone parses bundle s.named s.sidecar seen
  else stage parses bundle

def State.applyOp (s : State) (op : RecordOp) (changes : List (Change Key Name)) : State :=
  let reconciled := op.reconcile s.origin parses s.apex
  let mark := op.mark s.origin
  { s with
    named := applyAllRecords (apexKey s.origin) s.named (changes ++ reconciled.2)
    journal := true
    sidecar := s.sidecar ++ mark.toList
    apex := reconciled.1
    author := fun k =>
      if k = glueKey s.origin ∧ .add k placeholderNsAddress ∈ reconciled.2 then .glue
      else if mark.isSome ∧ k = op.key s.origin then .controlPlane
      else s.author k }

def step (s : State) : Event → Option State
  | .update changes =>
    if s.running then
      some { s with
        named := applyAllRecords (apexKey s.origin) s.named changes
        journal := true
        author := fun k => if k ∈ changes.map Change.key then .client else s.author k }
    else none
  | .op op =>
    if s.running ∧ inside (zoneFileName op.name s.origin) s.origin then
      (op.message s.origin parses).map (s.applyOp parses op)
    else none
  | .dump keepJournal =>
    if s.running then some { s with file := some .dump, journal := s.journal && keepJournal } else none
  | .swap bundle seen =>
    if bundle.origin = s.origin then
      let staged := s.staged parses bundle seen
      some { s with
        named := staged.records
        file := some staged.file
        journal := false
        sidecar := staged.sidecar
        apex := some (Apex.rememberApex bundle.zone)
        running := true
        author := fun k =>
          if k ∈ bundle.keys parses ∨ k ∈ ownedBy s.sidecar then .controlPlane else s.author k }
    else none
  | .restart => some { s with apex := none, running := false }
  | .start => if s.file.isSome then some { s with running := true } else none

variable {parses : RType → Apex.Name → Bool} {bundle : Bundle} {s : State} {seen owned : Finset Key}
  {k : Key} {v : Apex.Name} {keys : List Key}

theorem Bundle.mem_keys : k ∈ bundle.keys parses ↔ ∃ v, (k, v) ∈ bundle.lines parses := by
  simp [Bundle.keys]

theorem Bundle.keys_ne_nil (parses : RType → Apex.Name → Bool) (bundle : Bundle) :
    bundle.keys parses ≠ [] := by
  have hsoa : ((Apex.lower bundle.origin, RType.soa) : Key) ∈ bundle.keys parses :=
    Bundle.mem_keys.mpr ⟨_, List.mem_append_left _ List.mem_cons_self⟩
  exact List.ne_nil_of_mem hsoa

theorem Bundle.mem_keys_of_mem_mirrors (h : k ∈ bundle.mirrors parses) : k ∈ bundle.keys parses := by
  have hrow := List.mem_dedup.mp (List.mem_filter.mp h).1
  obtain ⟨r, hr, rfl⟩ := List.mem_map.mp hrow
  exact Bundle.mem_keys.mpr ⟨_, List.mem_append_right _ (List.mem_map.mpr ⟨r, hr, rfl⟩)⟩

theorem mem_foldl_owns :
    k ∈ (keys.map Mark.owns).foldl Mark.apply owned ↔ k ∈ owned ∨ k ∈ keys := by
  induction keys generalizing owned with
  | nil => simp
  | cons key keys ih =>
    rw [List.map_cons, List.foldl_cons, ih, Mark.apply, Finset.mem_insert, List.mem_cons]
    tauto

theorem mem_foldl_released :
    k ∈ (keys.map Mark.released).foldl Mark.apply owned ↔ k ∈ owned ∧ k ∉ keys := by
  induction keys generalizing owned with
  | nil => simp
  | cons key keys ih =>
    rw [List.map_cons, List.foldl_cons, ih, Mark.apply, Finset.mem_erase, List.mem_cons]
    tauto

theorem ownedBy_append (sidecar more : List Mark) :
    ownedBy (sidecar ++ more) = more.foldl Mark.apply (ownedBy sidecar) :=
  List.foldl_append

theorem mem_ownedBy_owns : k ∈ ownedBy (keys.map .owns) ↔ k ∈ keys := by
  rw [ownedBy, mem_foldl_owns]
  simp

theorem mem_ownedBy_released {out : List Key} :
    k ∈ ownedBy (keys.map .owns ++ out.map .released) ↔ k ∈ keys ∧ k ∉ out := by
  rw [ownedBy_append, mem_foldl_released, mem_ownedBy_owns]

theorem any_isOwns_keys : ((bundle.keys parses).map Mark.owns).any Mark.isOwns = true := by
  obtain ⟨key, hkey⟩ := List.exists_mem_of_ne_nil _ (Bundle.keys_ne_nil parses bundle)
  exact List.any_eq_true.mpr ⟨.owns key, List.mem_map_of_mem hkey, rfl⟩

structure Inv (s : State) : Prop where
  /-- Named runs on a live file. -/
  live : s.running = true → s.file.isSome
  /-- A live file has a sidecar that can be read. -/
  marked : s.file.isSome → s.sidecar.any Mark.isOwns = true
  /-- Of a zone that is not read back, named holds what the control plane owns. -/
  rendered : mayHoldUnrendered s.file s.journal = false →
    ∀ k, k ∈ ownedBy s.sidecar ↔ ∃ v, (k, v) ∈ s.named
  /-- What the control plane wrote last and named holds is owned. -/
  owned : ∀ k v, ignored s.origin k = false → (k, v) ∈ s.named → s.author k = .controlPlane →
    k ∈ ownedBy s.sidecar
  glue : ∀ k, s.author k = .glue → k = glueKey s.origin

theorem inv_init (zone : Apex.Name) : Inv (State.init zone) where
  live h := by cases h
  marked h := by cases h
  rendered _ k := by simp [State.init, ownedBy]
  owned k v _ h := by simp [State.init] at h
  glue k h := by cases h

theorem Inv.readOwned (h : Inv s) (hmay : mayHoldUnrendered s.file s.journal = true) :
    readOwned s.sidecar = some (ownedBy s.sidecar) := by
  have hfile : s.file.isSome := by
    cases hf : s.file with
    | none => rw [hf] at hmay; cases hmay
    | some f => rfl
  rw [Carry.readOwned, if_pos (h.marked hfile)]

/-- What is staged at a swap: the mirrors `out` left out, and the records `carried`. -/
structure Stages (parses : RType → Apex.Name → Bool) (s : State) (bundle : Bundle)
    (seen : Finset Key) (out : List Key) (carried : Finset Record) (staged : Staged) : Prop where
  records : ∀ k v, (k, v) ∈ staged.records ↔
    ((k, v) ∈ bundle.lines parses ∧ k ∉ out) ∨ (k, v) ∈ carried
  owned : ∀ k, k ∈ ownedBy staged.sidecar ↔ k ∈ bundle.keys parses ∧ k ∉ out
  marked : staged.sidecar.any Mark.isOwns = true
  render : staged.file = .render → out = [] ∧ carried = ∅
  mirror : ∀ k ∈ out, k ∈ bundle.mirrors parses ∧ ∀ v, (k, v) ∉ s.named
  withdrawn : ∀ k ∈ bundle.mirrors parses, (∀ v, (k, v) ∉ s.named) → k ∈ ownedBy s.sidecar → k ∈ out
  carried : ∀ k v, (k, v) ∈ carried ↔ (k, v) ∈ s.named ∧ ignored bundle.origin k = false ∧
    k ∉ bundle.keys parses ∧ k ∉ ownedBy s.sidecar ∧
      conflicts (keptKeys parses bundle s.named s.sidecar seen) k = false

theorem mem_withdrawn {held : Finset Record} {sidecar : List Mark}
    (hread : readOwned sidecar = some owned) :
    k ∈ withdrawn parses bundle held sidecar seen ↔ k ∈ bundle.mirrors parses ∧
      (∀ v, (k, v) ∉ held) ∧ (k ∈ owned ∨ k ∈ seen) := by
  rw [withdrawn, withdrawnMirrors, List.mem_filter, hread, Option.getD_some, decide_eq_true_eq,
    Finset.mem_union]
  constructor
  · rintro ⟨hmirror, -, hheld, hevidence⟩
    exact ⟨hmirror, fun v hv => hheld _ hv rfl, hevidence⟩
  · rintro ⟨hmirror, hheld, hevidence⟩
    refine ⟨hmirror, Bundle.mem_keys_of_mem_mirrors hmirror, fun r hr hk => ?_, hevidence⟩
    exact hheld r.2 (hk ▸ hr)

section

variable (hread : readOwned s.sidecar = some (ownedBy s.sidecar))
include hread

theorem mem_carriedRecords :
    (k, v) ∈ carriedRecords s.named bundle.origin (keptKeys parses bundle s.named s.sidecar seen)
      (readOwned s.sidecar) ↔
      (k, v) ∈ s.named ∧ ignored bundle.origin k = false ∧ k ∉ bundle.keys parses ∧
        k ∉ ownedBy s.sidecar ∧
          conflicts (keptKeys parses bundle s.named s.sidecar seen) k = false := by
  have hkept : (k, v) ∈ s.named →
      (k ∉ keptKeys parses bundle s.named s.sidecar seen ↔ k ∉ bundle.keys parses) := by
    intro hheld
    have hnot : k ∉ withdrawn parses bundle s.named s.sidecar seen :=
      fun hout => ((mem_withdrawn hread).mp hout).2.1 v hheld
    simp [keptKeys, hnot]
  rw [carriedRecords, Finset.mem_filter, hread]
  simp only [Bool.and_eq_true, Bool.not_eq_true', decide_eq_false_iff_not, decide_eq_true_eq,
    Option.any_some, and_assoc]
  refine and_congr_right fun hheld => and_congr_right fun _ => ?_
  exact and_congr_left fun _ => hkept hheld

theorem stages_carryZone :
    Stages parses s bundle seen (withdrawn parses bundle s.named s.sidecar seen)
      (carriedRecords s.named bundle.origin (keptKeys parses bundle s.named s.sidecar seen)
        (readOwned s.sidecar))
      (carryZone parses bundle s.named s.sidecar seen) := by
  have hmem : ∀ k, k ∈ withdrawn parses bundle s.named s.sidecar seen ↔
      k ∈ bundle.mirrors parses ∧ (∀ v, (k, v) ∉ s.named) ∧
        (k ∈ ownedBy s.sidecar ∨ k ∈ seen) := fun _ => mem_withdrawn hread
  have hmirror : ∀ k ∈ withdrawn parses bundle s.named s.sidecar seen,
      k ∈ bundle.mirrors parses ∧ ∀ v, (k, v) ∉ s.named :=
    fun k hk => ⟨((hmem k).mp hk).1, ((hmem k).mp hk).2.1⟩
  have hwithdrawn : ∀ k ∈ bundle.mirrors parses, (∀ v, (k, v) ∉ s.named) →
      k ∈ ownedBy s.sidecar → k ∈ withdrawn parses bundle s.named s.sidecar seen :=
    fun k hk hheld howned => (hmem k).mpr ⟨hk, hheld, .inl howned⟩
  simp only [carryZone]
  split
  · rename_i hnone
    refine ⟨fun k v => ?_, fun k => ?_, ?_, fun _ => hnone.symm, hmirror, hwithdrawn,
      fun _ _ => mem_carriedRecords hread⟩
    · rw [hnone.1, hnone.2, stage, List.mem_toFinset]
      simp
    · rw [hnone.2, stage, mem_ownedBy_owns]
      simp
    · exact any_isOwns_keys
  · refine ⟨fun k v => ?_, fun k => mem_ownedBy_released, ?_, fun h => (by cases h), hmirror,
      hwithdrawn, fun _ _ => mem_carriedRecords hread⟩
    · rw [Finset.mem_union, List.mem_toFinset, List.mem_filter, decide_eq_true_eq]
    · rw [List.any_append, any_isOwns_keys, Bool.true_or]

end

theorem stages_stage (h : Inv s) (hmay : mayHoldUnrendered s.file s.journal = false) :
    Stages parses s bundle seen [] ∅ (stage parses bundle) := by
  refine ⟨fun k v => by simp [stage], fun k => ?_, any_isOwns_keys, fun _ => ⟨rfl, rfl⟩,
    fun k hk => (by cases hk), fun k _ hheld howned => ?_, fun k v => ?_⟩
  · rw [stage, mem_ownedBy_owns]
    simp
  · obtain ⟨v, hv⟩ := (h.rendered hmay k).mp howned
    exact absurd hv (hheld v)
  · refine iff_of_false (Finset.notMem_empty _) ?_
    rintro ⟨hheld, -, -, hnot, -⟩
    exact hnot ((h.rendered hmay k).mpr ⟨v, hheld⟩)

theorem Inv.stages (h : Inv s) (parses : RType → Apex.Name → Bool) (bundle : Bundle)
    (seen : Finset Key) :
    ∃ out carried, Stages parses s bundle seen out carried (s.staged parses bundle seen) := by
  cases hmay : mayHoldUnrendered s.file s.journal with
  | true =>
    rw [State.staged, if_pos hmay]
    exact ⟨_, _, stages_carryZone (h.readOwned hmay)⟩
  | false =>
    rw [State.staged, if_neg (by rw [hmay]; exact Bool.false_ne_true)]
    exact ⟨_, _, stages_stage h hmay⟩

end SpatiumDdi.Dns.Carry
