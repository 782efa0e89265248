import SpatiumDdi.Lib.Ipaddress
import SpatiumDdi.Lib.Text

/-!
The reservations of one scope merged with those a server reports. Rows whose MAC the wire no
longer lists are deleted; the moving ones leave the partial unique indexes together and come back
at their new addresses; the others take the wire's fields in place; and what is new is added. What
the merge does to the reservations' IPAM mirrors and DNS records, and to a reservation's own link
to its mirror, is a parameter.
-/

namespace SpatiumDdi.Dhcp

open Text

abbrev Ip := Ipaddress.Address

abbrev Mac := BitVec 48

abbrev Time := ℤ

def maxLabelLen : Nat := 63
def maxNameLen : Nat := 253

/-- `str.lower` of one character, as far as it can give a letter, a digit or a hyphen. -/
def lowerChar (c : Char) : List Char :=
  if 'A' ≤ c ∧ c ≤ 'Z' then [Char.ofNat (c.toNat + 32)]
  else if c = '\u212A' then ['k']
  else if c = '\u0130' then ['i', '\u0307']
  else [c]

def isLdh (c : Char) : Bool := ('a' ≤ c && c ≤ 'z') || ('0' ≤ c && c ≤ '9') || c == '-'

/-- Every run of other characters becomes one hyphen; `inRun` is after the first of a run. -/
def subRuns (inRun : Bool) : List Char → List Char
  | [] => []
  | c :: rest =>
    if isLdh c then c :: subRuns false rest
    else if inRun then subRuns true rest
    else '-' :: subRuns true rest

/-- `s.strip(c)`. -/
def stripChar (c : Char) (s : List Char) : List Char :=
  ((s.dropWhile (· == c)).reverse.dropWhile (· == c)).reverse

def sanitizeHostLabel (raw : List Char) : List Char :=
  let s := (stripChar '"' (stripChars raw)).flatMap lowerChar
  stripChar '-' ((subRuns false s).take maxLabelLen)

/-- Whole trailing labels go until the name fits. -/
def fitLabels (labels : List (List Char)) : Nat → List (List Char)
  | 0 => labels
  | n + 1 =>
    if maxNameLen < (List.intercalate ['.'] labels).length then fitLabels labels.dropLast n
    else labels

def sanitizeHostname (raw : Option String) : String :=
  let labels := (((raw.getD "").toList.splitOn '.').map sanitizeHostLabel).filter (· ≠ [])
  String.ofList (List.intercalate ['.'] (fitLabels labels labels.length))

structure StaticAssignment where
  id : Nat
  macAddress : Mac
  ipAddress : Ip
  clientId : Option String
  hostname : String
  description : String
  createdAt : Time
  modifiedAt : Time
  deletedAt : Option Time := none
  deriving DecidableEq

/-- A reservation as the driver reports it. An address or a MAC may be missing. -/
structure WireStatic where
  ipAddress : Option Ip
  macAddress : Option Mac
  clientId : Option String := none
  hostname : Option String := none
  description : Option String := none

structure Wanted where
  macAddress : Mac
  ipAddress : Ip
  clientId : Option String
  hostname : Option String
  description : Option String
  deriving DecidableEq

def WireStatic.wanted (w : WireStatic) : Option Wanted :=
  match w.macAddress, w.ipAddress with
  | some mac, some ip => some ⟨mac, ip, w.clientId, w.hostname, w.description⟩
  | _, _ => none

/-- `_dedupe_wire_statics`, from what is kept so far: the first of a MAC and of an address. -/
def dedupeFrom (out : List Wanted) : List WireStatic → List Wanted
  | [] => out
  | w :: raw =>
    match w.wanted with
    | none => dedupeFrom out raw
    | some v =>
      if v.macAddress ∈ out.map Wanted.macAddress ∨ v.ipAddress ∈ out.map Wanted.ipAddress then
        dedupeFrom out raw
      else dedupeFrom (out ++ [v]) raw

def dedupeWireStatics (raw : List WireStatic) : List Wanted := dedupeFrom [] raw

/-- `result.errors`, by what each says. -/
inductive PullError where
  /-- the server's reservations enumeration failed — keeping the tracked reservations -/
  | enumerationFailed (tracked : Nat)
  /-- wire reported 0 reservations while some are tracked -/
  | wireEmpty (tracked : Nat)
  /-- reservation cannot move — another still holds that address here -/
  | cannotMove (mac : Mac) (ip : Ip) (blocker : Mac)
  /-- reservation cannot be added — another still holds that address here -/
  | cannotAdd (mac : Mac) (ip : Ip) (blocker : Mac)

structure PullLeasesResult where
  staticsSynced : Nat := 0
  staticsRemoved : Nat := 0
  errors : List PullError := []
  touchedSubnetIds : List Nat := []

/-- `_absence_delete_ok`: none, or the error that stands against it. -/
def absenceDeleteError (wireCount trackedCount : Nat) (enumerationOk : Bool) : Option PullError :=
  if !enumerationOk then some (.enumerationFailed trackedCount)
  else if wireCount = 0 ∧ 0 < trackedCount then some (.wireEmpty trackedCount)
  else none

/-- `_apply_wire_fields`: the row, whether it changed, and whether the mirror shows the change. -/
def StaticAssignment.applyWireFields (st : StaticAssignment) (w : Wanted) :
    StaticAssignment × Bool × Bool :=
  let mirrored := st.hostname != sanitizeHostname w.hostname
  let description := w.description.getD ""
  let changed := mirrored || st.description != description ||
    st.clientId.getD "" != w.clientId.getD ""
  ({ st with
    hostname := sanitizeHostname w.hostname
    description := description
    clientId := if st.clientId.getD "" != w.clientId.getD "" then w.clientId else st.clientId },
    changed, mirrored)

/-- What the merge asks of the IPAM mirrors, whose state is `M`. `upsert` also says whether it
wrote the reservation's own link. -/
structure Mirrors (M : Type) where
  upsert : M → StaticAssignment → M × Bool
  remove : M → StaticAssignment → M × List Nat
  isCurrent : M → StaticAssignment → Bool

/-- The two partial unique indexes of the scope's live reservations. -/
inductive IntegrityError where
  | scopeMac
  | scopeIp

structure Merge (M : Type) where
  rows : List StaticAssignment
  mirrors : M
  result : PullLeasesResult
  nextId : Nat

section Merge

variable {M : Type} (mirrors : Mirrors M) (now : Time)

/-- `db.flush()`: the rows reach the unique indexes. -/
def Merge.flush (s : Merge M) : Except IntegrityError (Merge M) :=
  let live := s.rows.filter fun st => st.deletedAt.isNone
  if ¬ (live.map StaticAssignment.macAddress).Nodup then .error .scopeMac
  else if ¬ (live.map StaticAssignment.ipAddress).Nodup then .error .scopeIp
  else .ok s

def Merge.setRow (s : Merge M) (st : StaticAssignment) : Merge M :=
  { s with rows := s.rows.map fun r => if r.id = st.id then st else r }

def Merge.report (s : Merge M) (error : PullError) : Merge M :=
  { s with result := { s.result with errors := s.result.errors ++ [error] } }

def Merge.addSynced (s : Merge M) (n : Nat) : Merge M :=
  { s with result := { s.result with staticsSynced := s.result.staticsSynced + n } }

/-- `upsert_ipam_for_static`, which flushes before it writes the reservation's link. -/
def Merge.upsertMirror (s : Merge M) (st : StaticAssignment) :
    Except IntegrityError (Merge M) :=
  s.flush.map fun s =>
    let (m, written) := mirrors.upsert s.mirrors st
    let s := { s with mirrors := m }
    if written then s.setRow { st with modifiedAt := now } else s

def upsertAll (s : Merge M) : List StaticAssignment → Except IntegrityError (Merge M)
  | [] => .ok s
  | st :: sts => (s.upsertMirror mirrors now st).bind fun s => upsertAll s sts

/-- The reservations that are gone from the wire, and not too new to be judged by it. -/
def isStale (wire : List Wanted) (snapshotAt : Time) (st : StaticAssignment) : Bool :=
  decide (st.macAddress ∉ wire.map Wanted.macAddress) && !decide (snapshotAt < st.createdAt)

/-- `remove_ipam_for_static` and `db.delete` of one stale reservation. -/
def Merge.removeStale (s : Merge M) (st : StaticAssignment) : Merge M :=
  let (m, touched) := mirrors.remove s.mirrors st
  { s with
    rows := s.rows.filter fun r => r.id != st.id
    mirrors := m
    result := { s.result with
      staticsRemoved := s.result.staticsRemoved + 1
      touchedSubnetIds := s.result.touchedSubnetIds ++ touched } }

def Merge.absenceDelete (s : Merge M) (wire : List Wanted) (staticsOk : Bool) (snapshotAt : Time) :
    Except IntegrityError (Merge M) :=
  let stale := s.rows.filter (isStale wire snapshotAt)
  if stale = [] then .ok s
  else match absenceDeleteError wire.length s.rows.length staticsOk with
    | some error => .ok (s.report error)
    | none => (stale.foldl (Merge.removeStale mirrors) s).flush

def trackedRow (rows : List StaticAssignment) (w : Wanted) : Option StaticAssignment :=
  rows.find? fun st => st.macAddress = w.macAddress

/-- The wire's rows that were not touched since the snapshot, at another address. -/
def moverOf (rows : List StaticAssignment) (snapshotAt : Time) (w : Wanted) :
    Option (StaticAssignment × Wanted) :=
  (trackedRow rows w).bind fun st =>
    if snapshotAt < st.modifiedAt then none
    else if st.ipAddress ≠ w.ipAddress then some (st, w)
    else none

def inPlaceOf (rows : List StaticAssignment) (snapshotAt : Time) (w : Wanted) :
    Option (StaticAssignment × Wanted) :=
  (trackedRow rows w).bind fun st =>
    if snapshotAt < st.modifiedAt then none
    else if st.ipAddress ≠ w.ipAddress then none
    else some (st, w)

/-- The row that holds a mover's destination. -/
def holderOf (rows : List StaticAssignment) (ip : Ip) : Option StaticAssignment :=
  rows.find? fun st => st.ipAddress = ip

/-- The row a mover cannot get past: it holds the destination and is not moving. -/
def blockerOf (rows : List StaticAssignment) (movers : List (StaticAssignment × Wanted))
    (p : StaticAssignment × Wanted) : Option StaticAssignment :=
  match holderOf rows p.2.ipAddress with
  | none => none
  | some b => if b.id ≠ p.1.id ∧ b.id ∉ movers.map (·.1.id) then some b else none

def reportBlocked (s : Merge M) (rows : List StaticAssignment)
    (movers : List (StaticAssignment × Wanted)) : Merge M :=
  movers.foldl (fun s p =>
    match blockerOf rows movers p with
    | none => s
    | some b => s.report (.cannotMove p.1.macAddress p.2.ipAddress b.macAddress)) s

def liftRows (landable : List (StaticAssignment × Wanted)) (rows : List StaticAssignment) :
    List StaticAssignment :=
  rows.map fun r =>
    if r.id ∈ landable.map (·.1.id) then { r with deletedAt := some now, modifiedAt := now } else r

def landed (p : StaticAssignment × Wanted) : StaticAssignment :=
  { (({ p.1 with deletedAt := none, ipAddress := p.2.ipAddress } : StaticAssignment).applyWireFields
      p.2).1 with modifiedAt := now }

def landRows (landable : List (StaticAssignment × Wanted)) (rows : List StaticAssignment) :
    List StaticAssignment :=
  rows.map fun r =>
    match landable.find? fun p => p.1.id = r.id with
    | some p => landed now p
    | none => r

def Merge.applyMoves (s : Merge M) (movers : List (StaticAssignment × Wanted)) :
    Except IntegrityError (Merge M) :=
  let landable := movers.filter fun p => (blockerOf s.rows movers p).isNone
  let s := reportBlocked s s.rows movers
  if landable = [] then .ok s
  else
    (({ s with rows := liftRows now landable s.rows } : Merge M).flush).bind fun s =>
      ((({ s with rows := landRows now landable s.rows } : Merge M).addSynced
        landable.length).flush).bind fun s =>
          upsertAll mirrors now s (landable.map (landed now))

def Merge.mergeInPlace (s : Merge M) (p : StaticAssignment × Wanted) :
    Except IntegrityError (Merge M) :=
  let (st, changed, mirrored) := p.1.applyWireFields p.2
  let st := if changed then { st with modifiedAt := now } else st
  let s := if changed then (s.setRow st).addSynced 1 else s
  if mirrored || !mirrors.isCurrent s.mirrors st then s.upsertMirror mirrors now st else .ok s

def mergeAllInPlace (s : Merge M) : List (StaticAssignment × Wanted) →
    Except IntegrityError (Merge M)
  | [] => .ok s
  | p :: ps => (s.mergeInPlace mirrors now p).bind fun s => mergeAllInPlace s ps

def newRow (id : Nat) (w : Wanted) : StaticAssignment where
  id := id
  macAddress := w.macAddress
  ipAddress := w.ipAddress
  clientId := w.clientId
  hostname := sanitizeHostname w.hostname
  description := w.description.getD ""
  createdAt := now
  modifiedAt := now

def Merge.create (s : Merge M) (w : Wanted) : Except IntegrityError (Merge M) :=
  match holderOf s.rows w.ipAddress with
  | some b => .ok (s.report (.cannotAdd w.macAddress w.ipAddress b.macAddress))
  | none =>
    let st := newRow now s.nextId w
    (({ s with rows := s.rows ++ [st], nextId := s.nextId + 1 } : Merge M).flush).bind fun s =>
      (s.upsertMirror mirrors now st).map fun s => s.addSynced 1

def createAll (s : Merge M) : List Wanted → Except IntegrityError (Merge M)
  | [] => .ok s
  | w :: ws => (s.create mirrors now w).bind fun s => createAll s ws

def Merge.mergeStatics (s : Merge M) (subnetId : Nat) (statics : List WireStatic)
    (staticsOk : Bool) (snapshotAt : Time) : Except IntegrityError (Merge M) := do
  let wire := dedupeWireStatics statics
  let before := s.result.staticsRemoved + s.result.staticsSynced
  let s ← s.absenceDelete mirrors wire staticsOk snapshotAt
  let creates := wire.filter fun w => (trackedRow s.rows w).isNone
  let movers := wire.filterMap (moverOf s.rows snapshotAt)
  let inPlace := wire.filterMap (inPlaceOf s.rows snapshotAt)
  let s ← s.applyMoves mirrors now movers
  let s ← mergeAllInPlace mirrors now s inPlace
  let s ← createAll mirrors now s creates
  return if s.result.staticsRemoved + s.result.staticsSynced ≠ before then
    { s with result := { s.result with
      touchedSubnetIds := s.result.touchedSubnetIds ++ [subnetId] } }
  else s

end Merge

end SpatiumDdi.Dhcp
