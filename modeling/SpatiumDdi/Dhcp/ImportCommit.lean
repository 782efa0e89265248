import SpatiumDdi.Dns.NamedConfLists
import SpatiumDdi.Dns.SanitizedNames
import SpatiumDdi.Ipam.Checks

/-!
The commit of a DHCP import (`services/dhcp_import/commit.py`): the passes that drop what cannot be
stored, and the loop that commits an entry at a time. An entry that raises leaves the tables as they
were (`entity_savepoint`).
-/

namespace SpatiumDdi.Dhcp.Import

open Ipaddress
open Text (stripChars)
open Appliance (ipv4Network ipv6Network splitOptionalNetmask)
open SupportBundle.Scrub (ipv4Text ipv6Text zoneOf)
open Dns.HostNames (Unicode validateHostname)
open Dns.MatchList (networkOf)
open Ipam (subnetKindFor)

/-- What `ipaddress.ip_address` reads: version, value, and the zone with its `%`. -/
def ipAddress (s : Chars) : Option (Version × ℕ × Chars) :=
  ((parseIPv4 s).map fun n => (.v4, n, [])).or ((parseIPv6 s).map fun n => (.v6, n, zoneOf s))

def addressText : Version × ℕ × Chars → Chars
  | (.v4, n, _) => ipv4Text n
  | (.v6, n, zone) => ipv6Text n ++ zone

/-- `ipaddress.ip_network(s, strict=False)`. -/
def ipNetwork (s : Chars) : Option Net := (networkOf s).map fun (v, n, p) => Net.ofValue v n p

def canonicalCidr (raw : Chars) : Option Chars := (ipv4Network raw).or (ipv6Network raw)

/-- `optionsOverride` is what the row is to hold: the canonical options, or none. -/
structure ImportedReservation (Opt : Type) where
  ipAddress : Chars
  macAddress : Chars
  hostname : Chars := []
  clientId : Option Chars := none
  optionsOverride : Option Opt := none
deriving DecidableEq

structure ImportedPool where
  startIp : Chars
  endIp : Chars
  poolType : Chars := "dynamic".toList
  name : Chars := []
  classRestriction : Option Chars := none

structure ImportedScope (Opt : Type) where
  subnetCidr : Chars
  isActive : Bool := true
  pools : List ImportedPool := []
  reservations : List (ImportedReservation Opt) := []

structure ImportPreview (Opt : Type) where
  scopes : List (ImportedScope Opt)
  warnings : List String := []

inductive Problem where
  | invalidCidr
  | notAnAddress
  | notARange
  | family
  | startAfterEnd
  | outside (net : Net)

inductive ImportWarning where
  | parsed (text : String)
  | reservation (cidr ip mac : Chars) (problem : Problem)
  | hostname (cidr ip mac hostname : Chars) (exc : String)
  | pool (cidr start stop : Chars) (problem : Problem)

def poolProblem (start stop cidr : Chars) : Option Problem :=
  match ipAddress start, ipAddress stop, ipNetwork cidr with
  | some (v, a, _), some (w, b, _), some net =>
    if v ≠ w ∨ v ≠ net.version then some .family
    else if b < a then some .startAfterEnd
    else if net.hasValue a ∧ net.hasValue b then none
    else some (.outside net)
  | _, _, _ => some .notARange

def reservationProblem (ip cidr : Chars) : Option Problem :=
  match ipNetwork cidr with
  | none => some .invalidCidr
  | some net =>
    match ipAddress (stripChars ip) with
    | none => some .notAnAddress
    | some (v, n, _) =>
      if v ≠ net.version then some .family
      else if net.hasValue n then none
      else some (.outside net)

variable {Opt : Type}

section Cleaning

variable (U : Unicode)

def validateOptionalHostname (v : Chars) : Except String Chars :=
  if stripChars v = [] then .ok [] else validateHostname U "hostname" v

def canonicalIp (ip : Chars) : Chars := ((ipAddress (stripChars ip)).map addressText).getD []

def dropInvalidReservations (s : ImportedScope Opt) : ImportedScope Opt × List ImportWarning :=
  let kept := s.reservations.filter fun r => (reservationProblem r.ipAddress s.subnetCidr).isNone
  ({ s with reservations := kept.map fun r => { r with ipAddress := canonicalIp r.ipAddress } },
    s.reservations.filterMap fun r => (reservationProblem r.ipAddress s.subnetCidr).map
      (.reservation s.subnetCidr r.ipAddress r.macAddress))

def servableHostname (hostname : Chars) : Chars :=
  (validateOptionalHostname U hostname).toOption.getD []

def dropUnservableHostnames (s : ImportedScope Opt) : ImportedScope Opt × List ImportWarning :=
  ({ s with reservations := s.reservations.map fun r =>
      { r with hostname := servableHostname U r.hostname } },
    s.reservations.filterMap fun r => match validateOptionalHostname U r.hostname with
      | .ok _ => none
      | .error exc => some (.hostname s.subnetCidr r.ipAddress r.macAddress r.hostname exc))

def dropInvalidPools (s : ImportedScope Opt) : ImportedScope Opt × List ImportWarning :=
  ({ s with pools := s.pools.filter fun p => (poolProblem p.startIp p.endIp s.subnetCidr).isNone },
    s.pools.filterMap fun p => (poolProblem p.startIp p.endIp s.subnetCidr).map
      (.pool s.subnetCidr p.startIp p.endIp))

def clean (s : ImportedScope Opt) : ImportedScope Opt :=
  (dropInvalidPools (dropUnservableHostnames U (dropInvalidReservations s).1).1).1

def importWarnings (preview : ImportPreview Opt) : List ImportWarning :=
  let inside := preview.scopes.map fun s => (dropInvalidReservations s).1
  let served := inside.map fun s => (dropUnservableHostnames U s).1
  preview.warnings.map .parsed ++ preview.scopes.flatMap (fun s => (dropInvalidReservations s).2) ++
    inside.flatMap (fun s => (dropUnservableHostnames U s).2) ++
    served.flatMap fun s => (dropInvalidPools s).2

end Cleaning

/-- A scope with its pools and reservations, whose rows go with it (`ondelete="CASCADE"`). -/
structure ScopeRow (Opt : Type) where
  groupId : ℕ
  subnetId : ℕ
  isActive : Bool
  pools : List ImportedPool
  statics : List (ImportedReservation Opt)
  deletion : Option ℕ := none

structure Db (Opt : Type) where
  blocks : Table IPBlock
  subnets : Table Subnet
  scopes : Table (ScopeRow Opt)

inductive ConflictAction where
  | skip
  | overwrite
deriving DecidableEq

inductive ImportError where
  | unparseable
  | noSubnet
  | notInSpace
  | notContained (block : Net)
  | overlapsSubnet (other : Net)
  | database

inductive ActionTaken where
  | created
  | overwrote
  | skipped
  | failed
deriving DecidableEq

structure CommitScopeResult where
  subnetCidr : Chars
  actionTaken : ActionTaken
  scopeId : Option ℕ := none
  subnetId : Option ℕ := none
  subnetCreated : Bool := false
  poolsCreated : ℕ := 0
  reservationsCreated : ℕ := 0
  error : Option ImportError := none

/-- `conflictActions` is `conflict_actions.get(cidr, "skip")`. -/
structure Request where
  groupId : ℕ
  spaceId : Option ℕ := none
  blockId : Option ℕ := none
  conflictActions : Chars → ConflictAction := fun _ => .skip

/-- Where a write reaches the database. -/
inductive Flush where
  | subnet
  | mirrors
  | deletedScope
  | scope
  | commit
deriving DecidableEq

/-- The flushes of an entry that fail, and which row a query without an order gives first. -/
structure Chance where
  fails : Flush → Bool
  subnetPick : ℕ := 0
  scopePick : ℕ := 0

def first {α : Type} (rows : List α) (pick : ℕ) : Option α := rows[pick % rows.length]?

section Commit

variable (req : Request) (chance : Chance)

def findSubnet (db : Db Opt) (net : Net) : Option (ℕ × Subnet) :=
  first (db.subnets.select fun _ s =>
    s.deletion.isNone && s.network = net && req.spaceId.all (· == s.spaceId)) chance.subnetPick

def existingScope (db : Db Opt) (subnetId : ℕ) : Option (ℕ × ScopeRow Opt) :=
  first (db.scopes.select fun _ s => s.groupId == req.groupId && s.subnetId == subnetId)
    chance.scopePick

def createSubnet (db : Db Opt) (net : Net) (spaceId blockId : ℕ) :
    Except ImportError (Db Opt × ℕ) :=
  match (db.blocks.get? blockId).filter fun b => b.spaceId == spaceId && b.deletion.isNone with
  | none => .error .notInSpace
  | some block =>
    if ¬ net.subnetOf block.network then .error (.notContained block.network)
    else
      match (db.subnets.select fun _ s => s.spaceId == spaceId && s.deletion.isNone).find?
          fun other => net.overlaps other.2.network with
      | some other => .error (.overlapsSubnet other.2.network)
      | none =>
        if chance.fails .subnet then .error .database
        else
          let subnet : Subnet := { spaceId, blockId, network := net, kind := subnetKindFor net }
          .ok ({ db with subnets := db.subnets.insert subnet }, db.subnets.next)

/-- The reservations that the loop adds: none whose MAC or address was added before. -/
def distinctReservations (seenMac seenIp : List Chars) :
    List (ImportedReservation Opt) → List (ImportedReservation Opt)
  | [] => []
  | r :: rest =>
    if seenMac.contains r.macAddress || seenIp.contains r.ipAddress then
      distinctReservations seenMac seenIp rest
    else r :: distinctReservations (r.macAddress :: seenMac) (r.ipAddress :: seenIp) rest

def ImportedPool.row (p : ImportedPool) : ImportedPool :=
  { p with poolType := if p.poolType = [] then "dynamic".toList else p.poolType }

def ImportedScope.row (s : ImportedScope Opt) (groupId subnetId : ℕ) : ScopeRow Opt where
  groupId := groupId
  subnetId := subnetId
  isActive := s.isActive
  pools := s.pools.map (·.row)
  statics := distinctReservations [] [] s.reservations

def link (groupId : ℕ) (s : Subnet) : Subnet :=
  { s with settings := { s.settings with dhcpServerGroupId := some groupId } }

/-- `_commit_one_scope` from the new scope on. A second live scope of the group on the subnet is
refused (`uq_dhcp_scope_group_subnet`). -/
def storeScope (db : Db Opt) (parsed : ImportedScope Opt) (cidr : Chars) (subnetId : ℕ)
    (subnetCreated overwrote : Bool) : Except ImportError (Db Opt × CommitScopeResult) :=
  let taken := db.scopes.select fun _ s =>
    s.groupId == req.groupId && s.subnetId == subnetId && s.deletion.isNone
  if chance.fails .scope || chance.fails .commit || !taken.isEmpty then .error .database
  else
    let row := parsed.row req.groupId subnetId
    .ok ({ db with
        subnets := db.subnets.modify fun i s => if i = subnetId then link req.groupId s else s
        scopes := db.scopes.insert row },
      { subnetCidr := cidr
        actionTaken := if overwrote then .overwrote else .created
        scopeId := some db.scopes.next
        subnetId := some subnetId
        subnetCreated
        poolsCreated := row.pools.length
        reservationsCreated := row.statics.length })

/-- `_commit_one_scope` from the subnet on. -/
def bindScope (db : Db Opt) (parsed : ImportedScope Opt) (cidr : Chars) (subnetId : ℕ)
    (subnetCreated : Bool) : Except ImportError (Db Opt × CommitScopeResult) :=
  match existingScope req chance db subnetId with
  | none => storeScope req chance db parsed cidr subnetId subnetCreated false
  | some (old, _) =>
    if req.conflictActions cidr = .skip then
      .ok (db, { subnetCidr := cidr, actionTaken := .skipped, subnetId := some subnetId,
                 subnetCreated })
    else if chance.fails .mirrors || chance.fails .deletedScope then .error .database
    else
      storeScope req chance { db with scopes := db.scopes.keep fun i _ => i != old } parsed cidr
        subnetId subnetCreated true

def commitOneScope (db : Db Opt) (parsed : ImportedScope Opt) (cidr : Chars) (net : Net) :
    Except ImportError (Db Opt × CommitScopeResult) :=
  match findSubnet req chance db net, req.spaceId, req.blockId with
  | some (subnetId, _), _, _ => bindScope req chance db parsed cidr subnetId false
  | none, some spaceId, some blockId => do
    let (db, subnetId) ← createSubnet chance db net spaceId blockId
    bindScope req chance db parsed cidr subnetId true
  | none, _, _ =>
    .ok (db, { subnetCidr := cidr, actionTaken := .failed, error := some .noSubnet })

/-- One turn of the loop of `commit_import`: an entry in its savepoint. -/
def commitEntry (db : Db Opt) (parsed : ImportedScope Opt) : Db Opt × CommitScopeResult :=
  match canonicalCidr parsed.subnetCidr, ipNetwork parsed.subnetCidr with
  | some cidr, some net =>
    match commitOneScope req chance db parsed cidr net with
    | .ok out => out
    | .error e => (db, { subnetCidr := cidr, actionTaken := .failed, error := some e })
  | _, _ =>
    (db, { subnetCidr := parsed.subnetCidr, actionTaken := .failed, error := some .unparseable })

end Commit

structure Turn (Opt : Type) where
  before : Db Opt
  entry : ImportedScope Opt
  result : CommitScopeResult
  after : Db Opt

/-- The loop of `commit_import`: the tables it leaves, and its turns. -/
def commitLoop (U : Unicode) (req : Request) :
    (ℕ → Chance) → Db Opt → List (ImportedScope Opt) → Db Opt × List (Turn Opt)
  | _, db, [] => (db, [])
  | chance, db, s :: rest =>
    let (after, result) := commitEntry req (chance 0) db (clean U s)
    let (last, turns) := commitLoop U req (fun i => chance (i + 1)) after rest
    (last, ⟨db, s, result, after⟩ :: turns)

/-- Reservations that share a MAC or an address are the same. -/
def TwinFree (rs : List (ImportedReservation Opt)) : Prop :=
  ∀ a ∈ rs, ∀ b ∈ rs, a.macAddress = b.macAddress ∨ a.ipAddress = b.ipAddress → a = b

def LiveApart (subnets : Table Subnet) (spaceId : ℕ) : Prop :=
  ∀ i j s t, subnets.get? i = some s → subnets.get? j = some t → i ≠ j → s.deletion = none →
    t.deletion = none → s.spaceId = spaceId → t.spaceId = spaceId → ¬ s.network.overlaps t.network

def Turn.Stored (t : Turn Opt) : Prop :=
  t.result.actionTaken = .created ∨ t.result.actionTaken = .overwrote

/-- The turn says that it overwrote a scope of the subnet, whose CIDR is that of its entry and was to
be overwritten. -/
structure Turn.Overwrites (req : Request) (t : Turn Opt) (subnetId : ℕ) : Prop where
  reported : t.result.actionTaken = .overwrote ∧ t.result.subnetId = some subnetId
  action : ∃ cidr, canonicalCidr t.entry.subnetCidr = some cidr ∧
    req.conflictActions cidr = .overwrite
  network : ∃ net s, ipNetwork t.entry.subnetCidr = some net ∧
    t.after.subnets.get? subnetId = some s ∧ s.network = net

def ImportedReservation.served (U : Unicode) (r : ImportedReservation Opt) :
    ImportedReservation Opt :=
  { r with ipAddress := canonicalIp r.ipAddress, hostname := servableHostname U r.hostname }

/-- Each pool and reservation of an entry is a row of the scope, or a warning names it as one that
was not imported. -/
structure Accounted (U : Unicode) (warnings : List ImportWarning) (entry : ImportedScope Opt)
    (row : ScopeRow Opt) : Prop where
  pools : ∀ p ∈ entry.pools, p.row ∈ row.pools ∨
    ∃ problem, .pool entry.subnetCidr p.startIp p.endIp problem ∈ warnings
  reservations : ∀ r ∈ entry.reservations, r.served U ∈ row.statics ∨
    ∃ problem, .reservation entry.subnetCidr r.ipAddress r.macAddress problem ∈ warnings

/-- What an import promises of the tables it leaves. -/
structure Commits (U : Unicode) (req : Request) (warnings : List ImportWarning) (db : Db Opt)
    (out : Db Opt × List (Turn Opt)) : Prop where
  untouched : ∀ t ∈ out.2, ¬ t.Stored → t.after = t.before ∨ t.result.subnetCreated = true ∧
    ∃ s, t.after = { t.before with subnets := t.before.subnets.insert s }
  holds : ∀ earlier t later, out.2 = earlier ++ t :: later → t.Stored →
    (∀ u ∈ later, u.result.actionTaken = .overwrote → u.result.subnetId ≠ t.result.subnetId) →
      ∃ i row, t.result.scopeId = some i ∧ out.1.scopes.get? i = some row ∧ row.deletion = none ∧
        row.pools.length = t.result.poolsCreated ∧
        row.statics.length = t.result.reservationsCreated ∧ Accounted U warnings t.entry row
  removed : ∀ i row, db.scopes.get? i = some row → out.1.scopes.get? i = some row ∨
    ∃ t ∈ out.2, t.Overwrites req row.subnetId
  apart : ∀ spaceId, LiveApart db.subnets spaceId → LiveApart out.1.subnets spaceId

theorem distinct_spec (seenMac seenIp : List Chars) (rs : List (ImportedReservation Opt)) :
    (∀ r ∈ distinctReservations seenMac seenIp rs,
      r ∈ rs ∧ r.macAddress ∉ seenMac ∧ r.ipAddress ∉ seenIp) ∧
    (distinctReservations seenMac seenIp rs).Pairwise
      (fun a b => a.macAddress ≠ b.macAddress ∧ a.ipAddress ≠ b.ipAddress) ∧
    ∀ r ∈ rs, r.macAddress ∈ seenMac ∨ r.ipAddress ∈ seenIp ∨
      ∃ k ∈ distinctReservations seenMac seenIp rs,
        k.macAddress = r.macAddress ∨ k.ipAddress = r.ipAddress := by
  induction rs generalizing seenMac seenIp with
  | nil => simp [distinctReservations]
  | cons r rest ih =>
    rw [distinctReservations]
    split
    next hseen =>
      obtain ⟨hsub, hpair, hcover⟩ := ih seenMac seenIp
      refine ⟨fun k hk => ⟨List.mem_cons_of_mem _ (hsub k hk).1, (hsub k hk).2⟩, hpair, ?_⟩
      intro k hk
      rcases List.mem_cons.mp hk with rfl | hk
      · simp only [Bool.or_eq_true, List.contains_iff_mem] at hseen
        exact hseen.imp_right .inl
      · exact hcover k hk
    next hseen =>
      simp only [Bool.or_eq_true, List.contains_iff_mem, not_or] at hseen
      obtain ⟨hsub, hpair, hcover⟩ := ih (r.macAddress :: seenMac) (r.ipAddress :: seenIp)
      simp only [List.mem_cons, not_or] at hsub hcover ⊢
      refine ⟨?_, List.pairwise_cons.mpr ⟨fun k hk => ?_, hpair⟩, ?_⟩
      · rintro k (rfl | hk)
        · exact ⟨.inl rfl, hseen⟩
        · obtain ⟨hmem, hmac, hip⟩ := hsub k hk
          exact ⟨.inr hmem, hmac.2, hip.2⟩
      · exact ⟨Ne.symm (hsub k hk).2.1.1, Ne.symm (hsub k hk).2.2.1⟩
      · rintro k (rfl | hk)
        · exact .inr (.inr ⟨k, .inl rfl, .inl rfl⟩)
        · rcases hcover k hk with (hmac | hmac) | (hip | hip) | ⟨k', hk', hkey⟩
          · exact .inr (.inr ⟨r, .inl rfl, .inl hmac.symm⟩)
          · exact .inl hmac
          · exact .inr (.inr ⟨r, .inl rfl, .inr hip.symm⟩)
          · exact .inr (.inl hip)
          · exact .inr (.inr ⟨k', .inr hk', hkey⟩)

/-- The loop adds every reservation, or its like, exactly if twins are the same. -/
theorem distinct_all_iff (rs : List (ImportedReservation Opt)) :
    (∀ r ∈ rs, r ∈ distinctReservations [] [] rs) ↔ TwinFree rs := by
  obtain ⟨hsub, hpair, hcover⟩ := distinct_spec [] [] rs
  constructor
  · intro hall a ha b hb hkey
    by_contra hne
    have : Std.Symm fun a b : ImportedReservation Opt =>
        a.macAddress ≠ b.macAddress ∧ a.ipAddress ≠ b.ipAddress :=
      ⟨fun _ _ h => ⟨h.1.symm, h.2.symm⟩⟩
    have h := hpair.forall (hall a ha) (hall b hb) hne
    exact hkey.elim h.1 h.2
  · intro htwins r hr
    rcases hcover r hr with h | h | ⟨k, hk, hkey⟩
    · cases h
    · cases h
    · exact htwins k (hsub k hk).1 r hr hkey ▸ hk

theorem LiveApart.modify {subnets : Table Subnet} {spaceId : ℕ} (h : LiveApart subnets spaceId)
    {f : ℕ → Subnet → Subnet} (hf : ∀ i s, (f i s).network = s.network ∧
      (f i s).deletion = s.deletion ∧ (f i s).spaceId = s.spaceId) :
    LiveApart (subnets.modify f) spaceId := by
  intro i j s' t' hs ht hne hsd htd hss hts
  rw [Table.get?_modify, Option.map_eq_some_iff] at hs ht
  obtain ⟨s, hs, rfl⟩ := hs
  obtain ⟨t, ht, rfl⟩ := ht
  rw [(hf i s).1, (hf j t).1]
  exact h i j s t hs ht hne ((hf i s).2.1 ▸ hsd) ((hf j t).2.1 ▸ htd) ((hf i s).2.2 ▸ hss)
    ((hf j t).2.2 ▸ hts)

theorem link_network (groupId subnetId i : ℕ) (s : Subnet) :
    (if i = subnetId then link groupId s else s).network = s.network ∧
      (if i = subnetId then link groupId s else s).deletion = s.deletion ∧
        (if i = subnetId then link groupId s else s).spaceId = s.spaceId := by
  split <;> exact ⟨rfl, rfl, rfl⟩

theorem mem_of_first {α : Type} {rows : List α} {pick : ℕ} {a : α} (h : first rows pick = some a) :
    a ∈ rows :=
  List.mem_of_getElem? h

/-- The subnet an entry is bound to: the tables are as before but for a subnet that is new. -/
structure Bound (db base : Db Opt) (net : Net) (subnetId : ℕ) (subnetCreated : Bool) : Prop where
  unchanged : base = db ∨ subnetCreated = true ∧
    ∃ s, base = { db with subnets := db.subnets.insert s }
  network : ∃ s, base.subnets.get? subnetId = some s ∧ s.network = net
  apart : ∀ spaceId, LiveApart db.subnets spaceId → LiveApart base.subnets spaceId

section Steps

variable {U : Unicode} {req : Request} {chance : Chance} {db base : Db Opt} {net : Net}
  {cidr : Chars} {subnetId spaceId : ℕ} {subnetCreated : Bool} {entry : ImportedScope Opt}
  {result : CommitScopeResult} {out : Db Opt × CommitScopeResult}
  {entries : List (ImportedScope Opt)}

theorem Bound.scopes (h : Bound db base net subnetId subnetCreated) : base.scopes = db.scopes := by
  rcases h.unchanged with rfl | ⟨-, s, rfl⟩ <;> rfl

theorem bound_of_findSubnet {s : Subnet} (h : findSubnet req chance db net = some (subnetId, s)) :
    Bound db db net subnetId false := by
  have hmem := mem_of_first h
  rw [Table.mem_select] at hmem
  simp only [Bool.and_eq_true, decide_eq_true_eq] at hmem
  exact ⟨.inl rfl, ⟨s, hmem.1, hmem.2.1.2⟩, fun _ h => h⟩

theorem bound_of_createSubnet {blockId : ℕ}
    (h : createSubnet chance db net spaceId blockId = .ok (base, subnetId)) :
    Bound db base net subnetId true := by
  unfold createSubnet at h
  split at h
  · cases h
  · split at h
    · cases h
    · split at h
      · cases h
      next hnone =>
        split at h
        · cases h
        · cases h
          refine ⟨.inr ⟨rfl, _, rfl⟩, ⟨_, Table.get?_insert_next _ _, rfl⟩, ?_⟩
          intro space hapart i j s t hs ht hne hsd htd hss hts
          have hnew : ∀ k u, db.subnets.get? k = some u → u.deletion = none → u.spaceId = spaceId →
              ¬ net.overlaps u.network := by
            intro k u hu hud hus ho
            refine List.find?_eq_none.mp hnone (k, u) (Table.mem_select.mpr ⟨hu, ?_⟩)
              (decide_eq_true ho)
            simp [hus, hud]
          rcases Table.get?_insert_cases hs with ⟨rfl, rfl⟩ | hs <;>
            rcases Table.get?_insert_cases ht with ⟨rfl, rfl⟩ | ht
          · exact absurd rfl hne
          · exact hnew j t ht htd (hts.trans hss.symm)
          · exact fun ho => hnew i s hs hsd (hss.trans hts.symm) ho.symm
          · exact hapart i j s t hs ht hne hsd htd hss hts

structure Turn.Ok (U : Unicode) (req : Request) (t : Turn Opt) : Prop where
  untouched : ¬ t.Stored → t.after = t.before ∨ t.result.subnetCreated = true ∧
    ∃ s, t.after = { t.before with subnets := t.before.subnets.insert s }
  stored : t.Stored → ∃ i subnetId, t.result.scopeId = some i ∧
    t.result.subnetId = some subnetId ∧
      let row := (clean U t.entry).row req.groupId subnetId
      t.after.scopes.get? i = some row ∧ row.pools.length = t.result.poolsCreated ∧
        row.statics.length = t.result.reservationsCreated
  keeps : ∀ i row, t.before.scopes.get? i = some row → t.after.scopes.get? i = some row ∨
    t.Overwrites req row.subnetId
  apart : ∀ spaceId, LiveApart t.before.subnets spaceId → LiveApart t.after.subnets spaceId

theorem Turn.Ok.of_not_stored (h : result.actionTaken = .skipped ∨ result.actionTaken = .failed)
    (hbound : Bound db base net subnetId result.subnetCreated) :
    Turn.Ok U req ⟨db, entry, result, base⟩ where
  untouched _ := hbound.unchanged
  stored hstored := by
    rcases hstored with hstored | hstored <;> rcases h with h | h <;> cases hstored.symm.trans h
  keeps i row hrow := .inl (hbound.scopes ▸ hrow)
  apart := hbound.apart

theorem Turn.Ok.failed (h : result.actionTaken = .failed) :
    Turn.Ok U req ⟨db, entry, result, db⟩ where
  untouched _ := .inl rfl
  stored hstored := by rcases hstored with hstored | hstored <;> cases hstored.symm.trans h
  keeps _ _ hrow := .inl hrow
  apart _ hapart := hapart

section

variable (hbound : Bound db base net subnetId subnetCreated)
include hbound

theorem storeScope_ok {overwrote : Bool} {scopes : Table (ScopeRow Opt)}
    (hnet : ipNetwork entry.subnetCidr = some net)
    (hscopes : ∀ i row, base.scopes.get? i = some row → scopes.get? i = some row ∨
      row.subnetId = subnetId ∧ overwrote = true ∧
        ∃ cidr, canonicalCidr entry.subnetCidr = some cidr ∧ req.conflictActions cidr = .overwrite)
    (h : storeScope req chance { base with scopes } (clean U entry) cidr subnetId subnetCreated
      overwrote = .ok out) : Turn.Ok U req ⟨db, entry, out.2, out.1⟩ := by
  unfold storeScope at h
  simp only at h
  split at h
  · cases h
  cases h
  have hlinked := link_network req.groupId subnetId
  refine ⟨fun hnot => ?_, fun _ => ?_, fun i row hrow => ?_, fun space hapart => ?_⟩
  · refine absurd ?_ hnot
    cases overwrote
    · exact .inl rfl
    · exact .inr rfl
  · exact ⟨_, subnetId, rfl, rfl, Table.get?_insert_next _ _, rfl, rfl⟩
  · rcases hscopes i row (hbound.scopes ▸ hrow) with hkept | ⟨rfl, rfl, haction⟩
    · exact .inl (Table.get?_insert_of_get? _ hkept)
    · obtain ⟨s, hs, hnetwork⟩ := hbound.network
      refine .inr ⟨⟨rfl, rfl⟩, haction, net, _, hnet, ?_, (hlinked row.subnetId s).1.trans hnetwork⟩
      rw [Table.get?_modify, hs]
      rfl
  · exact (hbound.apart space hapart).modify hlinked

theorem bindScope_ok (hcidr : canonicalCidr entry.subnetCidr = some cidr)
    (hnet : ipNetwork entry.subnetCidr = some net)
    (h : bindScope req chance base (clean U entry) cidr subnetId subnetCreated = .ok out) :
    Turn.Ok U req ⟨db, entry, out.2, out.1⟩ := by
  unfold bindScope at h
  split at h
  · exact storeScope_ok hbound hnet (fun i row hrow => .inl hrow) h
  next old row hexisting =>
    split at h
    · cases h
      exact .of_not_stored (.inl rfl) hbound
    next haction =>
      split at h
      · cases h
      · refine storeScope_ok hbound hnet (fun i row' hrow => ?_) h
        by_cases hi : i = old
        · have hmem := mem_of_first hexisting
          rw [Table.mem_select, ← hi, hrow] at hmem
          obtain rfl := Option.some.inj hmem.1
          simp only [Bool.and_eq_true, beq_iff_eq] at hmem
          refine .inr ⟨hmem.2.2, rfl, cidr, hcidr, ?_⟩
          cases hactions : req.conflictActions cidr with
          | skip => exact absurd hactions haction
          | overwrite => rfl
        · refine .inl ?_
          rw [Table.get?_keep, hrow]
          simp [hi]

end

theorem commitEntry_ok (U : Unicode) (req : Request) (chance : Chance) (db : Db Opt)
    (entry : ImportedScope Opt) :
    Turn.Ok U req ⟨db, entry, (commitEntry req chance db (clean U entry)).2,
      (commitEntry req chance db (clean U entry)).1⟩ := by
  unfold commitEntry
  split
  next cidr net hcidr hnet =>
    split
    next out hout =>
      unfold commitOneScope at hout
      split at hout
      next hfind => exact bindScope_ok (bound_of_findSubnet hfind) hcidr hnet hout
      next =>
        obtain ⟨⟨base, subnetId⟩, hcreate, hbind⟩ := bind_eq_ok.mp hout
        exact bindScope_ok (bound_of_createSubnet hcreate) hcidr hnet hbind
      next =>
        cases hout
        exact .failed rfl
    next => exact .failed rfl
  next => exact .failed rfl

theorem commitLoop_cons (U : Unicode) (req : Request) (chance : ℕ → Chance) (db : Db Opt)
    (entry : ImportedScope Opt) (rest : List (ImportedScope Opt)) :
    commitLoop U req chance db (entry :: rest) =
      let turn := commitEntry req (chance 0) db (clean U entry)
      let out := commitLoop U req (fun i => chance (i + 1)) turn.1 rest
      (out.1, ⟨db, entry, turn.2, turn.1⟩ :: out.2) :=
  rfl

theorem commitLoop_ok (U : Unicode) (req : Request) (chance : ℕ → Chance) (db : Db Opt)
    (entries : List (ImportedScope Opt)) :
    ∀ t ∈ (commitLoop U req chance db entries).2, Turn.Ok U req t ∧ t.entry ∈ entries := by
  induction entries generalizing chance db with
  | nil => exact fun t ht => by cases ht
  | cons entry rest ih =>
    intro t ht
    rw [commitLoop_cons, List.mem_cons] at ht
    rcases ht with rfl | ht
    · exact ⟨commitEntry_ok U req (chance 0) db entry, List.mem_cons_self⟩
    · obtain ⟨hok, hmem⟩ := ih _ _ t ht
      exact ⟨hok, List.mem_cons_of_mem _ hmem⟩

/-- A scope stays unless a turn says that it overwrote one of its subnet. -/
theorem commitLoop_keeps {chance : ℕ → Chance} {i : ℕ} {row : ScopeRow Opt}
    (h : db.scopes.get? i = some row) :
    (commitLoop U req chance db entries).1.scopes.get? i = some row ∨
      ∃ t ∈ (commitLoop U req chance db entries).2, t.Overwrites req row.subnetId := by
  induction entries generalizing chance db with
  | nil => exact .inl h
  | cons entry rest ih =>
    rw [commitLoop_cons]
    rcases (commitEntry_ok U req (chance 0) db entry).keeps i row h with hkept | hover
    · exact (ih hkept).imp_right fun ⟨t, ht, hover⟩ => ⟨t, List.mem_cons_of_mem _ ht, hover⟩
    · exact .inr ⟨_, List.mem_cons_self, hover⟩

theorem commitLoop_apart {chance : ℕ → Chance} (h : LiveApart db.subnets spaceId) :
    LiveApart (commitLoop U req chance db entries).1.subnets spaceId := by
  induction entries generalizing chance db with
  | nil => exact h
  | cons entry rest ih => exact ih ((commitEntry_ok U req (chance 0) db entry).apart spaceId h)

/-- What a turn stored is there at the end, if no later turn says that it overwrote it. -/
theorem commitLoop_holds {chance : ℕ → Chance} {earlier later : List (Turn Opt)} {t : Turn Opt}
    (hturns : (commitLoop U req chance db entries).2 = earlier ++ t :: later) (hstored : t.Stored)
    (hlater : ∀ u ∈ later, u.result.actionTaken = .overwrote →
      u.result.subnetId ≠ t.result.subnetId) :
    ∃ i subnetId, t.result.scopeId = some i ∧
      let row := (clean U t.entry).row req.groupId subnetId
      (commitLoop U req chance db entries).1.scopes.get? i = some row ∧
        row.pools.length = t.result.poolsCreated ∧
          row.statics.length = t.result.reservationsCreated := by
  induction entries generalizing chance db earlier with
  | nil => simp [commitLoop] at hturns
  | cons entry rest ih =>
    rw [commitLoop_cons] at hturns ⊢
    cases earlier with
    | nil =>
      obtain ⟨rfl, rfl⟩ := List.cons.inj hturns
      obtain ⟨i, subnetId, hid, hsubnet, hrow, hpools, hstatics⟩ :=
        (commitEntry_ok U req (chance 0) db entry).stored hstored
      refine ⟨i, subnetId, hid, ?_, hpools, hstatics⟩
      refine (commitLoop_keeps hrow).resolve_right fun ⟨u, hu, hover⟩ => ?_
      exact hlater u hu hover.reported.1 (hover.reported.2.trans hsubnet.symm)
    | cons u earlier => exact ih (List.cons.inj hturns).2

end Steps

section Warnings

variable {U : Unicode} {preview : ImportPreview Opt} {entry : ImportedScope Opt} {p : ImportedPool}
  {problem : Problem}

theorem mem_reservations_clean {r : ImportedReservation Opt} :
    r ∈ (clean U entry).reservations ↔ ∃ r' ∈ entry.reservations,
      reservationProblem r'.ipAddress entry.subnetCidr = none ∧ r'.served U = r := by
  simp [clean, dropInvalidPools, dropUnservableHostnames, dropInvalidReservations,
    ImportedReservation.served, and_assoc]

theorem mem_pools_clean : p ∈ (clean U entry).pools ↔
    p ∈ entry.pools ∧ poolProblem p.startIp p.endIp entry.subnetCidr = none := by
  simp [clean, dropInvalidPools, dropUnservableHostnames, dropInvalidReservations]

theorem reservation_mem_importWarnings {cidr ip mac : Chars} :
    .reservation cidr ip mac problem ∈ importWarnings U preview ↔ ∃ s ∈ preview.scopes,
      s.subnetCidr = cidr ∧ reservationProblem ip cidr = some problem ∧
        ∃ r ∈ s.reservations, r.ipAddress = ip ∧ r.macAddress = mac := by
  have hhostname : ∀ (s : ImportedScope Opt),
      .reservation cidr ip mac problem ∉ (dropUnservableHostnames U s).2 := by
    intro s hmem
    obtain ⟨r, -, hr⟩ := List.mem_filterMap.mp hmem
    split at hr <;> cases hr
  have hpool : ∀ (s : ImportedScope Opt),
      .reservation cidr ip mac problem ∉ (dropInvalidPools s).2 := by
    intro s hmem
    obtain ⟨p, -, hp⟩ := List.mem_filterMap.mp hmem
    obtain ⟨_, -, hp⟩ := Option.map_eq_some_iff.mp hp
    cases hp
  simp only [importWarnings, List.mem_append, List.mem_map, reduceCtorEq, and_false, exists_false,
    false_or, List.mem_flatMap, hhostname, hpool, or_false]
  refine exists_congr fun s => and_congr_right fun _ => ?_
  simp only [dropInvalidReservations, List.mem_filterMap, Option.map_eq_some_iff]
  constructor
  · rintro ⟨r, hr, problem', hproblem, heq⟩
    cases heq
    exact ⟨rfl, hproblem, r, hr, rfl, rfl⟩
  · rintro ⟨rfl, hproblem, r, hr, rfl, rfl⟩
    exact ⟨r, hr, problem, hproblem, rfl⟩

theorem pool_mem_importWarnings (hentry : entry ∈ preview.scopes) (hp : p ∈ entry.pools)
    (hproblem : poolProblem p.startIp p.endIp entry.subnetCidr = some problem) :
    .pool entry.subnetCidr p.startIp p.endIp problem ∈ importWarnings U preview := by
  refine List.mem_append_right _ (List.mem_flatMap.mpr ⟨_, List.mem_map_of_mem
    (List.mem_map_of_mem hentry), List.mem_filterMap.mpr ⟨p, hp, ?_⟩⟩)
  exact congrArg (Option.map _) hproblem

/-- A stored entry is accounted for exactly if its twins are the same. -/
theorem accounted_iff (hentry : entry ∈ preview.scopes) (groupId subnetId : ℕ) :
    Accounted U (importWarnings U preview) entry ((clean U entry).row groupId subnetId) ↔
      TwinFree (clean U entry).reservations := by
  rw [← distinct_all_iff]
  constructor
  · intro h r hr
    obtain ⟨r', hr', hnone, rfl⟩ := mem_reservations_clean.mp hr
    refine (h.reservations r' hr').resolve_right fun ⟨problem, hwarned⟩ => ?_
    obtain ⟨-, -, -, hproblem, -⟩ := reservation_mem_importWarnings.mp hwarned
    cases hnone.symm.trans hproblem
  · intro h
    constructor
    · intro p hp
      cases hproblem : poolProblem p.startIp p.endIp entry.subnetCidr with
      | none => exact .inl (List.mem_map_of_mem (mem_pools_clean.mpr ⟨hp, hproblem⟩))
      | some problem => exact .inr ⟨problem, pool_mem_importWarnings hentry hp hproblem⟩
    · intro r hr
      cases hproblem : reservationProblem r.ipAddress entry.subnetCidr with
      | none => exact .inl (h _ (mem_reservations_clean.mpr ⟨r, hr, hproblem, rfl⟩))
      | some problem =>
        exact .inr ⟨problem, reservation_mem_importWarnings.mpr
          ⟨entry, hentry, rfl, hproblem, r, hr, rfl, rfl⟩⟩

end Warnings

section Runs

variable {U : Unicode} {req : Request} {chance : ℕ → Chance} {db : Db Opt}
  {preview : ImportPreview Opt} {parsed : ImportedScope Opt} {net : Net}

/-- An import that keeps its promise has no twins in an entry whose scope is there at the end. -/
theorem twinFree_of_commits {earlier later : List (Turn Opt)} {t : Turn Opt}
    (hturns : (commitLoop U req chance db preview.scopes).2 = earlier ++ t :: later)
    (hstored : t.Stored) (hlater : ∀ u ∈ later, u.result.actionTaken ≠ .overwrote)
    (h : Commits U req (importWarnings U preview) db (commitLoop U req chance db preview.scopes)) :
    TwinFree (clean U t.entry).reservations := by
  have hnone : ∀ u ∈ later, u.result.actionTaken = .overwrote →
      u.result.subnetId ≠ t.result.subnetId := fun u hu hover => absurd hover (hlater u hu)
  obtain ⟨i, row, hid, hrow, -, -, -, haccounted⟩ := h.holds _ _ _ hturns hstored hnone
  obtain ⟨i', subnetId, hid', hrow', -⟩ := commitLoop_holds hturns hstored hnone
  obtain rfl := Option.some.inj (hid.symm.trans hid')
  obtain rfl := Option.some.inj (hrow.symm.trans hrow')
  have hentry := (commitLoop_ok U req chance db preview.scopes t (by simp [hturns])).2
  exact (accounted_iff hentry req.groupId subnetId).mp haccounted

def noFlush : Chance := { fails := fun _ => true }

def everyFlush : Chance := { fails := fun _ => false }

theorem bindScope_noFlush {cidr : Chars} {subnetId : ℕ} {subnetCreated : Bool}
    {out : Db Opt × CommitScopeResult}
    (h : bindScope req noFlush db parsed cidr subnetId subnetCreated = .ok out) :
    out.1 = db ∧ out.2.actionTaken = .skipped := by
  simp only [bindScope, storeScope, noFlush, Bool.true_or, if_true] at h
  split at h
  · cases h
  · split at h <;> cases h
    exact ⟨rfl, rfl⟩

/-- Where no flush comes through, nothing is written. -/
theorem commitEntry_noFlush (parsed : ImportedScope Opt) :
    (commitEntry req noFlush db parsed).1 = db ∧
      (commitEntry req noFlush db parsed).2.actionTaken ≠ .overwrote := by
  unfold commitEntry
  split
  next cidr net hcidr hnet =>
    split
    next out hout =>
      unfold commitOneScope at hout
      split at hout
      next =>
        obtain ⟨hdb, haction⟩ := bindScope_noFlush hout
        exact ⟨hdb, by simp [haction]⟩
      next =>
        obtain ⟨⟨base, subnetId⟩, hcreate, -⟩ := bind_eq_ok.mp hout
        simp only [createSubnet, noFlush, if_true] at hcreate
        split at hcreate
        · cases hcreate
        · split at hcreate
          · cases hcreate
          · split at hcreate <;> cases hcreate
      next =>
        cases hout
        simp
    next => simp
  next => simp

theorem commitLoop_noFlush (db : Db Opt) (entries : List (ImportedScope Opt)) :
    ∀ t ∈ (commitLoop U req (fun _ => noFlush) db entries).2,
      t.result.actionTaken ≠ .overwrote := by
  induction entries generalizing db with
  | nil => exact fun t ht => by cases ht
  | cons entry rest ih =>
    intro t ht
    rw [commitLoop_cons, List.mem_cons] at ht
    rcases ht with rfl | ht
    · exact (commitEntry_noFlush _).2
    · exact ih _ t ht

theorem exists_canonicalCidr {raw : Chars} (h : ipNetwork raw = some net) :
    ∃ cidr, canonicalCidr raw = some cidr := by
  obtain ⟨_, hread, -⟩ := Option.map_eq_some_iff.mp h
  simp only [networkOf, Option.bind_eq_some_iff, Option.or_eq_some_iff, Option.map_eq_some_iff]
    at hread
  obtain ⟨⟨addr, mask⟩, hsplit, hread⟩ := hread
  simp only [canonicalCidr, ← Option.isSome_iff_exists, Option.isSome_or, Bool.or_eq_true]
  rcases hread with ⟨n, hn, p, hp, -⟩ | ⟨-, n, hn, p, hp, -⟩
  · left
    simp [ipv4Network, hsplit, hn, hp]
  · right
    simp [ipv6Network, hsplit, hn, hp]

def oneSubnet (net : Net) : Db Opt where
  blocks := .empty
  subnets := Table.empty.insert { spaceId := 0, blockId := 0, network := net }
  scopes := .empty

theorem commitEntry_oneSubnet (hnet : ipNetwork parsed.subnetCidr = some net) :
    (commitEntry { groupId := 0 } everyFlush (oneSubnet net) parsed).2.actionTaken = .created := by
  obtain ⟨cidr, hcidr⟩ := exists_canonicalCidr hnet
  have hfind : findSubnet { groupId := 0 } everyFlush (oneSubnet net : Db Opt) net =
      some (0, { spaceId := 0, blockId := 0, network := net }) := by
    simp [findSubnet, oneSubnet, Table.select, Table.insert, Table.empty, first, everyFlush]
  unfold commitEntry
  rw [hcidr, hnet]
  simp only [commitOneScope, hfind]
  rfl

/-- Any entry with a network can be stored while all flushes of the others fail. -/
def firstThen (c : Chance) (later : ℕ → Chance) : ℕ → Chance
  | 0 => c
  | i + 1 => later i

theorem exists_stored (U : Unicode) (earlier later : List (ImportedScope Opt))
    {entry : ImportedScope Opt} (hnet : ipNetwork entry.subnetCidr = some net) :
    ∃ chance before t after,
      (commitLoop U { groupId := 0 } chance (oneSubnet net) (earlier ++ entry :: later)).2 =
        before ++ t :: after ∧ t.entry = entry ∧ t.Stored ∧
          ∀ u ∈ after, u.result.actionTaken ≠ .overwrote := by
  induction earlier with
  | nil =>
    refine ⟨firstThen everyFlush fun _ => noFlush, [], _, _, rfl, rfl, .inl ?_,
      commitLoop_noFlush _ later⟩
    exact commitEntry_oneSubnet hnet
  | cons first earlier ih =>
    obtain ⟨chance, before, t, after, hturns, hentry, hstored, hafter⟩ := ih
    let chance' := firstThen noFlush chance
    have hkept : (commitEntry { groupId := 0 } (chance' 0) (oneSubnet net) (clean U first)).1 =
        oneSubnet net := (commitEntry_noFlush _).1
    obtain ⟨turn, hturn⟩ : ∃ turn, (commitLoop U { groupId := 0 } chance' (oneSubnet net)
        (first :: earlier ++ entry :: later)).2 = turn :: (before ++ t :: after) := by
      simp only [List.cons_append, commitLoop_cons, hkept, ← hturns]
      exact ⟨_, rfl⟩
    exact ⟨chance', turn :: before, t, after, hturn, hentry, hstored, hafter⟩

/-- **A preview is committed as promised, from any tables, with any settings and whichever flushes
fail, exactly if no entry has two reservations inside its subnet that share a MAC or an address and
are not the same.** -/
theorem commit_import_iff (U : Unicode) (preview : ImportPreview Opt) :
    (∀ req chance db, Commits U req (importWarnings U preview) db
      (commitLoop U req chance db preview.scopes)) ↔
        ∀ s ∈ preview.scopes, TwinFree (clean U s).reservations := by
  constructor
  · intro h s hs
    cases hnet : ipNetwork s.subnetCidr with
    | none =>
      intro a ha
      obtain ⟨r, -, hproblem, -⟩ := mem_reservations_clean.mp ha
      simp [reservationProblem, hnet] at hproblem
    | some net =>
      obtain ⟨earlier, later, hscopes⟩ := List.append_of_mem hs
      obtain ⟨chance, before, t, after, hturns, hentry, hstored, hafter⟩ :=
        exists_stored U earlier later hnet
      rw [← hscopes] at hturns
      exact hentry ▸ twinFree_of_commits hturns hstored hafter (h _ _ _)
  · intro h req chance db
    refine ⟨fun t ht => (commitLoop_ok U req chance db _ t ht).1.untouched, ?_,
      fun i row hrow => commitLoop_keeps hrow, fun _ => commitLoop_apart⟩
    intro earlier t later hturns hstored hlater
    obtain ⟨i, subnetId, hid, hrow, hpools, hstatics⟩ := commitLoop_holds hturns hstored hlater
    have hentry := (commitLoop_ok U req chance db preview.scopes t (by simp [hturns])).2
    exact ⟨i, _, hid, hrow, rfl, hpools, hstatics,
      (accounted_iff hentry req.groupId subnetId).mpr (h _ hentry)⟩

end Runs

def plain : Unicode where
  lower s := s
  nfkd name := name
  combining _ := false
  idna name := .ok name

/-- Two addresses for one MAC. -/
def twins : ImportedScope Unit where
  subnetCidr := "10.0.0.0/24".toList
  reservations := [⟨"10.0.0.5".toList, "02:00:00:00:00:01".toList, [], none, none⟩,
    ⟨"10.0.0.6".toList, "02:00:00:00:00:01".toList, [], none, none⟩]

/-- The second is dropped, and no warning says so. -/
theorem not_commits_sharedMac :
    let preview : ImportPreview Unit := { scopes := [twins] }
    let db : Db Unit := oneSubnet (Net.ofValue .v4 0x0A000000 24)
    ¬ Commits plain { groupId := 0 } (importWarnings plain preview) db
      (commitLoop plain { groupId := 0 } (fun _ => everyFlush) db preview.scopes) := by
  intro preview db h
  have htwins : TwinFree (clean plain twins).reservations :=
    twinFree_of_commits (List.nil_append _).symm (.inl (by decide +kernel)) (by simp) h
  have hkept : (clean plain twins).reservations = twins.reservations := by decide +kernel
  rw [hkept] at htwins
  have hsame := htwins _ List.mem_cons_self _ (List.mem_cons_of_mem _ List.mem_cons_self) (.inl rfl)
  exact absurd (congrArg (·.ipAddress) hsame) (by decide)

end SpatiumDdi.Dhcp.Import
